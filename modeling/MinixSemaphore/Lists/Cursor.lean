import MinixSemaphore.Lists.Calls
import MinixSemaphore.Transition.Run

/-!
# Cursors

The cursor of a list is an alias into its chain. A delete repairs it; the removal of the
first element rewinds it and then takes away the node it has been set to. It is left on
a free node, which the next insert into any list may take.
-/

namespace MinixSemaphore.Lists

open MinixSemaphore.Store
open MinixSemaphore.Transition

universe v

namespace Pools

variable {α : Type v} [Inhabited α]

/-- The cursor of a list is `NULL` or a node of its chain. -/
def CursorInside (p : Pools α) (l : ListIx) : Prop :=
  ∀ n, p.cursor l = some n → ∃ cells, Chain p.tail (p.lists l).list.nodes cells ∧ n ∈ cells

/-- What `ListGetElement` copies out is an element of the list. -/
def ReadsOwn (p : Pools α) (l : ListIx) : Prop :=
  ∀ x, (p.listGetElement (some l)).2 = some x → x ∈ p.seq (some l)

/-- The cursor of `l` is sound, if the list is in use. -/
def Sound (l : ListIx) (p : Pools α) : Prop :=
  (p.lists l).busy = true → p.CursorInside l ∧ p.ReadsOwn l

/-- The call does not take the first element out of `l`, unless `l` is empty. -/
def KeepsFirst (l : ListIx) (p : Pools α) : PoolCall α → Prop
  | .listRemoveFirst l' => l' = l → p.listIsEmpty (some l) = true
  | _ => True

instance (l : ListIx) (p : Pools α) : ∀ call, Decidable (KeepsFirst l p call)
  | .listRemoveFirst l' =>
      inferInstanceAs (Decidable (l' = l → p.listIsEmpty (some l) = true))
  | .newList _ _ | .listToBegin _ | .listGetElement _ | .listInsert _ _ | .listDelete _ _
  | .freeList _ => inferInstanceAs (Decidable True)

variable {p : Pools α} {l : ListIx}

omit [Inhabited α] in
theorem cursorInside_iff (wf : p.WellFormed) :
    p.CursorInside l ↔ ∀ n, p.cursor l = some n → n ∈ p.cells l := by
  constructor
  · intro inside n at_n
    rcases inside n at_n with ⟨cells, chained, mem⟩
    rwa [(wf.shape.chained l).unique chained]
  · intro inside n at_n
    exact ⟨p.cells l, wf.shape.chained l, inside n at_n⟩

theorem readsOwn_of_inside (inside : ∀ n, p.cursor l = some n → n ∈ p.cells l) :
    p.ReadsOwn l := by
  intro x read
  rw [listGetElement] at read
  cases at_n : (p.list (some l)).current with
  | none =>
      rw [at_n] at read
      contradiction
  | some n =>
      rw [at_n] at read
      rw [← Option.some.inj read]
      exact List.mem_map_of_mem (inside n at_n)

theorem sound_iff (wf : p.WellFormed) :
    Sound l p ↔ ((p.lists l).busy = true → ∀ n, p.cursor l = some n → n ∈ p.cells l) := by
  constructor
  · intro sound busy
    exact (cursorInside_iff wf).mp (sound busy).1
  · intro inside busy
    exact ⟨(cursorInside_iff wf).mpr (inside busy), readsOwn_of_inside (inside busy)⟩

/-! ## What each call does to the cursor of its list -/

theorem inside_listToBegin (wf : p.WellFormed) (l : ListIx) :
    ∀ n, (p.listToBegin (some l)).cursor l = some n → n ∈ (p.listToBegin (some l)).cells l := by
  intro n at_n
  rw [listToBegin, setCurrent_cursor, if_pos rfl] at at_n
  rw [listToBegin, (setCurrent_rewrites wf l _).2]
  have head : (p.cells l).head? = some n := (wf.shape.head_eq l).symm.trans at_n
  exact List.mem_of_head? head

theorem inside_listGetElement (wf : p.WellFormed)
    (inside : ∀ n, p.cursor l = some n → n ∈ p.cells l) :
    ∀ n, (p.listGetElement (some l)).1.cursor l = some n →
      n ∈ (p.listGetElement (some l)).1.cells l := by
  intro n at_n
  rw [listGetElement] at at_n ⊢
  cases at_m : (p.list (some l)).current with
  | none =>
      rw [at_m] at at_n
      exact inside n at_n
  | some m =>
      rw [at_m] at at_n
      rw [setCurrent_cursor, if_pos rfl] at at_n
      rw [(setCurrent_rewrites wf l _).2]
      exact wf.tail_mem (inside m at_m) at_n

theorem inside_listInsert (wf : p.WellFormed) (x : α)
    (inside : ∀ n, p.cursor l = some n → n ∈ p.cells l) :
    ∀ n, (p.listInsert (some l) x).1.cursor l = some n →
      n ∈ (p.listInsert (some l) x).1.cells l := by
  have inserted := wf.shape.insertion l x
  generalize p.listInsert (some l) x = result at inserted
  cases inserted with
  | «exists» => exact inside
  | noMem => exact inside
  | stored _ split _ linked =>
      intro n at_n
      rw [linked.cursors] at at_n
      have mem := inside n at_n
      rw [split] at mem
      rw [linked.cells_eq wf split]
      simp only [List.mem_append, List.mem_cons] at mem ⊢
      tauto

theorem inside_listDelete (wf : p.WellFormed) (x : α)
    (inside : ∀ n, p.cursor l = some n → n ∈ p.cells l) :
    ∀ n, (p.listDelete (some l) x).1.cursor l = some n →
      n ∈ (p.listDelete (some l) x).1.cells l := by
  have deleted := wf.shape.deletion l x
  generalize p.listDelete (some l) x = result at deleted
  cases deleted with
  | noElem => exact inside
  | @removed _ front rest gone split _ _ unlinked cursor =>
      intro n at_n
      rw [cursor] at at_n
      rw [unlinked.cells_eq wf split]
      by_cases here : p.cursor l = some gone
      · rw [if_pos here] at at_n
        exact List.mem_append_right _ (List.mem_of_head? at_n)
      · rw [if_neg here] at at_n
        have other : n ≠ gone := fun same => here (same ▸ at_n)
        have mem := inside n at_n
        rw [split] at mem
        simp only [List.mem_append, List.mem_cons] at mem ⊢
        tauto

/-- The cursor stays on the node that has been removed. -/
theorem outside_listRemoveFirst (wf : p.WellFormed) (busy : (p.lists l).busy = true)
    (full : p.listIsEmpty (some l) = false) :
    ((p.listRemoveFirst (some l)).1.lists l).busy = true ∧
      ∃ n, (p.listRemoveFirst (some l)).1.cursor l = some n ∧
        n ∉ (p.listRemoveFirst (some l)).1.cells l := by
  have begun := setCurrent_rewrites wf l (p.list (some l)).nodes
  have wf' := begun.1.wellFormed
  have head : (p.list (some l)).nodes = (p.cells l).head? := wf.shape.head_eq l
  cases split : p.cells l with
  | nil =>
      rw [listIsEmpty, head, split] at full
      contradiction
  | cons n rest =>
      have split' := begun.2.trans split
      have drop := wf'.shape.dropFirst_unlinked split'
      have removed : (p.listRemoveFirst (some l)).1 =
          (p.listToBegin (some l)).dropFirst (some l) := by
        rw [listRemoveFirst, full]
        rfl
      have nodup := (wf.shape.chained l).nodup
      rw [split] at nodup
      rw [removed]
      constructor
      · rw [listToBegin, drop.1.outside.listBusy, setCurrent_busy, busy]
      · refine ⟨n, ?_, ?_⟩
        · rw [listToBegin, drop.2, setCurrent_cursor, if_pos rfl, head, split]
          rfl
        · rw [listToBegin, drop.1.cells_eq wf' split']
          exact (List.nodup_cons.mp nodup).1

omit [Inhabited α] in
theorem keepsFirst_of_target {call : PoolCall α} (other : p.target call ≠ some l) :
    KeepsFirst l p call := by
  cases call with
  | listRemoveFirst j => exact fun same => absurd (congrArg some same) other
  | _ => trivial

/-- A call keeps the cursor of `l` sound, unless it takes the first element out. -/
theorem sound_perform_iff (wf : p.WellFormed) {call : PoolCall α} (permits : p.Permits call)
    (sound : Sound l p) : Sound l (p.perform call) ↔ p.KeepsFirst l call := by
  have done := perform_rewrites wf call
  rw [sound_iff wf] at sound
  rw [sound_iff done.wellFormed]
  by_cases own : p.target call = some l
  · cases call with
    | newList fn order =>
        have made := newList_made wf own
        refine iff_of_true (fun _ n at_n => ?_) trivial
        rw [perform, made.2.2.1] at at_n
        contradiction
    | listToBegin j =>
        obtain rfl : j = l := Option.some.inj own
        exact iff_of_true (fun _ => inside_listToBegin wf j) trivial
    | listGetElement j =>
        obtain rfl : j = l := Option.some.inj own
        exact iff_of_true (fun _ => inside_listGetElement wf (sound permits)) trivial
    | listInsert j x =>
        obtain rfl : j = l := Option.some.inj own
        exact iff_of_true (fun _ => inside_listInsert wf x (sound permits)) trivial
    | listDelete j x =>
        obtain rfl : j = l := Option.some.inj own
        exact iff_of_true (fun _ => inside_listDelete wf x (sound permits)) trivial
    | listRemoveFirst j =>
        obtain rfl : j = l := Option.some.inj own
        cases empty : p.listIsEmpty (some j) with
        | true =>
            have unchanged : p.perform (.listRemoveFirst j) = p := by
              rw [perform, listRemoveFirst, if_pos empty]
            rw [unchanged]
            exact iff_of_true sound fun _ => empty
        | false =>
            rcases outside_listRemoveFirst wf permits empty with ⟨busy, n, at_n, out⟩
            apply iff_of_false
            · exact fun inside => out (inside busy n at_n)
            · intro keeps
              rw [keeps rfl] at empty
              contradiction
    | freeList j =>
        obtain rfl : j = l := Option.some.inj own
        refine iff_of_true (fun busy => ?_) trivial
        rw [perform, (freeList_rewrites wf j).2] at busy
        contradiction
  · have spared := done.others l own
    apply iff_of_true
    · rw [spared.busy, spared.cursor, spared.cells]
      exact sound
    · exact keepsFirst_of_target own

/-- In a run of calls on any lists, the cursor of a list that is in use is always `NULL` or a
node of the list, and what is read through it is an element of the list, exactly if no call
has taken the first element out of that list. -/
theorem sound_iff_run {calls : List (PoolCall α)} (run : Run perform Permits zeroed calls p)
    (l : ListIx) :
    (∀ calls', calls' <+: calls → Sound l (calls'.foldl perform zeroed)) ↔
      Run perform (KeepsFirst l) zeroed calls p := by
  apply run.always_iff (I := WellFormed) ⟨_, zeroed_shape⟩
  · intro busy
    exact absurd busy Bool.false_ne_true
  · exact fun p call wf _ => (perform_rewrites wf call).wellFormed
  · exact fun p call wf permits sound => sound_perform_iff wf permits sound

/-- Two elements are read, and the first of them is deleted while the cursor is on it. -/
theorem sound_iff_run_of_delete :
    let calls : List (PoolCall Int) := [.newList (fun x y => if x = y then 0 else 1) .unsorted,
      .listInsert 0 7, .listInsert 0 8, .listToBegin 0, .listDelete 0 8, .listGetElement 0]
    ∀ calls', calls' <+: calls → Sound 0 (calls'.foldl perform zeroed) := by
  intro calls
  have allowed : Allowed perform Permits zeroed calls := by decide +kernel
  have keeps : Allowed perform (KeepsFirst 0) zeroed calls := by decide +kernel
  exact (sound_iff_run allowed.run 0).mpr keeps.run

/-- The only element of list 0 is removed, and an insert into list 1 takes its node. What is
read through the cursor of the empty list 0 is the element of list 1. -/
theorem not_sound_of_removeFirst :
    let calls : List (PoolCall Int) := [.newList (fun x y => if x = y then 0 else 1) .unsorted,
      .newList (fun x y => if x = y then 0 else 1) .unsorted, .listInsert 0 7,
      .listRemoveFirst 0, .listInsert 1 9]
    let p := calls.foldl perform zeroed
    Allowed perform Permits zeroed calls ∧ (p.listGetElement (some 0)).2 = some 9 ∧
      p.seq (some 0) = [] ∧ p.seq (some 1) = [9] ∧ ¬Sound 0 p := by
  intro calls p
  have read : (p.listGetElement (some 0)).2 = some 9 := by decide +kernel
  have empty : p.seq (some 0) = [] := by decide +kernel
  refine ⟨by decide +kernel, read, empty, by decide +kernel, fun sound => ?_⟩
  have mem := (sound (by decide +kernel)).2 9 read
  rw [empty] at mem
  exact absurd mem List.not_mem_nil

end Pools

end MinixSemaphore.Lists
