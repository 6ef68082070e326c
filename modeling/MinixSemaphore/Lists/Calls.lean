import MinixSemaphore.Lists.Refinement

/-!
# Calls on lists of any kind

A client may make sorted and unsorted lists with any comparison and call all of list.h
on them. A call writes one list; what the pools show of the others stays: their nodes
and elements, their cursors and their kinds.
-/

namespace MinixSemaphore.Lists

open MinixSemaphore.Store

universe v

/-- A call of list.h that writes the pools. -/
inductive PoolCall (α : Type v)
  | newList (fn : α → α → Int) (order : ListSort)
  | listToBegin (list : ListIx)
  | listGetElement (list : ListIx)
  | listInsert (list : ListIx) (element : α)
  | listDelete (list : ListIx) (element : α)
  | listRemoveFirst (list : ListIx)
  | freeList (list : ListIx)

namespace Pools

variable {α : Type v} [Inhabited α]

/-- Carry out a call. -/
def perform (p : Pools α) : PoolCall α → Pools α
  | .newList fn order => (p.newList fn order).1
  | .listToBegin l => p.listToBegin (some l)
  | .listGetElement l => (p.listGetElement (some l)).1
  | .listInsert l x => (p.listInsert (some l) x).1
  | .listDelete l x => (p.listDelete (some l) x).1
  | .listRemoveFirst l => (p.listRemoveFirst (some l)).1
  | .freeList l => p.freeList (some l)

/-- The list that a call makes or is made on. -/
def target (p : Pools α) : PoolCall α → ListADT
  | .newList fn order => (p.newList fn order).2
  | .listToBegin l | .listGetElement l | .listInsert l _ | .listDelete l _
  | .listRemoveFirst l | .freeList l => some l

/-- The client passes on a list only between `NewList` and `FreeList`. -/
def Permits (p : Pools α) : PoolCall α → Prop
  | .newList _ _ => True
  | .listToBegin l | .listGetElement l | .listInsert l _ | .listDelete l _
  | .listRemoveFirst l | .freeList l => (p.lists l).busy = true

instance (p : Pools α) : ∀ call, Decidable (p.Permits call)
  | .newList _ _ => inferInstanceAs (Decidable True)
  | .listToBegin l | .listGetElement l | .listInsert l _ | .listDelete l _
  | .listRemoveFirst l | .freeList l => inferInstanceAs (Decidable ((p.lists l).busy = true))

/-- The nodes of a list. -/
def cells (p : Pools α) (l : ListIx) : List NodeIx :=
  walk p.tail maxNodes (p.lists l).list.nodes

variable {p p' : Pools α} {chains : ListIx → List NodeIx} {l l' : ListIx} {n : NodeIx}

theorem seq_eq_map (p : Pools α) (l : ListIx) : p.seq (some l) = (p.cells l).map p.value :=
  rfl

omit [Inhabited α] in
theorem Shape.cells_eq (shape : p.Shape chains) (l : ListIx) : p.cells l = chains l :=
  (shape.chained l).walk_eq (shape.length_le l)

omit [Inhabited α] in
/-- The nodes of the lists are the only chains that fit. -/
theorem WellFormed.shape (wf : p.WellFormed) : p.Shape p.cells := by
  rcases wf with ⟨chains, shape⟩
  have same : p.cells = chains := funext shape.cells_eq
  rwa [same]

omit [Inhabited α] in
/-- The chain of a node goes on inside the list. -/
theorem WellFormed.tail_mem (wf : p.WellFormed) (mem : n ∈ p.cells l) {m : NodeIx}
    (next : p.tail n = some m) : m ∈ p.cells l := by
  rcases List.append_of_mem mem with ⟨front, rest, split⟩
  have after := (wf.shape.chained l).after split
  rw [next] at after
  cases rest with
  | nil => exact absurd after (Option.some_ne_none m)
  | cons k rest =>
      rw [Option.some.inj after.1, split]
      simp

/-- `p'` shows of the list `l` what `p` shows. -/
structure Spares (p p' : Pools α) (l : ListIx) : Prop where
  cells : p'.cells l = p.cells l
  seq : p'.seq (some l) = p.seq (some l)
  cursor : p'.cursor l = p.cursor l
  kind : p'.kind l = p.kind l
  busy : (p'.lists l).busy = (p.lists l).busy

theorem Spares.refl (p : Pools α) (l : ListIx) : Spares p p l :=
  ⟨rfl, rfl, rfl, rfl, rfl⟩

theorem Spares.trans {p'' : Pools α} (first : Spares p p' l) (second : Spares p' p'' l) :
    Spares p p'' l :=
  ⟨second.cells.trans first.cells, second.seq.trans first.seq,
    second.cursor.trans first.cursor, second.kind.trans first.kind,
    second.busy.trans first.busy⟩

/-- What a call does: the pools stay well formed, and the lists it is not made on are
spared. -/
structure Rewrites (p p' : Pools α) (list : ListADT) : Prop where
  wellFormed : p'.WellFormed
  others : ∀ l, list ≠ some l → Spares p p' l

theorem Rewrites.refl (wf : p.WellFormed) (list : ListADT) : Rewrites p p list :=
  ⟨wf, fun l _ => Spares.refl p l⟩

theorem Rewrites.trans {p'' : Pools α} {list : ListADT} (first : Rewrites p p' list)
    (second : Rewrites p' p'' list) : Rewrites p p'' list :=
  ⟨second.wellFormed, fun l other => (first.others l other).trans (second.others l other)⟩

/-! ## One list after a call -/

section Own

variable {front rest : List NodeIx} {e : ElemIx} {x : α}

/-- Changing the chain of `l` spares the other lists. -/
theorem rewrites_of_update {xs : List α} {used : Nat} {cells : List NodeIx}
    (shape : p'.Shape (Function.update p.cells l cells))
    (refines : Refines p p' { p.abs.put (some l) xs with used := used })
    (busy : ∀ l', (p'.lists l').busy = (p.lists l').busy)
    (cursors : ∀ l', l' ≠ l → p'.cursor l' = p.cursor l') : Rewrites p p' (some l) := by
  constructor
  · exact ⟨_, shape⟩
  · intro l' apart
    have other : l' ≠ l := fun same => apart (congrArg some same.symm)
    have content := congrArg (fun s => s.seq (some l')) refines.abs
    refine ⟨?_, ?_, cursors l' other, refines.kind l', busy l'⟩
    · rw [shape.cells_eq, Function.update_of_ne other]
    · rw [abs_seq] at content
      exact content.trans (SeqStore.seq_put_of_ne p.abs (fun same => apart same.symm) xs)

theorem Linked.rewrites (linked : Linked p p' l front n rest e x) (wf : p.WellFormed)
    (split : p.cells l = front ++ rest) : Rewrites p p' (some l) := by
  apply rewrites_of_update
  · exact wf.shape.attach split (split ▸ linked.outside) linked.taken linked.chained
  · exact wf.shape.refines_of_taken split (split ▸ linked.outside) linked.taken linked.chained
  · exact linked.outside.listBusy
  · exact fun l' _ => linked.cursors l'

omit [Inhabited α] in
theorem Linked.cells_eq (linked : Linked p p' l front n rest e x) (wf : p.WellFormed)
    (split : p.cells l = front ++ rest) : p'.cells l = front ++ n :: rest := by
  rw [(wf.shape.attach split (split ▸ linked.outside) linked.taken linked.chained).cells_eq,
    Function.update_self]

theorem Linked.seq_eq (linked : Linked p p' l front n rest e x) (wf : p.WellFormed)
    (split : p.cells l = front ++ rest) :
    p'.seq (some l) = front.map p.value ++ x :: rest.map p.value := by
  have refines :=
    wf.shape.refines_of_taken split (split ▸ linked.outside) linked.taken linked.chained
  rw [← abs_seq, refines.abs]
  exact SeqStore.seq_put_self p.abs l _

theorem Unlinked.rewrites (unlinked : Unlinked p p' l front n rest) (wf : p.WellFormed)
    (split : p.cells l = front ++ n :: rest) : Rewrites p p' (some l) := by
  apply rewrites_of_update
  · exact wf.shape.detach split (split ▸ unlinked.outside) unlinked.released unlinked.chained
  · exact wf.shape.refines_of_released split (split ▸ unlinked.outside) unlinked.released
      unlinked.chained
  · exact unlinked.outside.listBusy
  · exact unlinked.others

omit [Inhabited α] in
theorem Unlinked.cells_eq (unlinked : Unlinked p p' l front n rest) (wf : p.WellFormed)
    (split : p.cells l = front ++ n :: rest) : p'.cells l = front ++ rest := by
  rw [(wf.shape.detach split (split ▸ unlinked.outside) unlinked.released
    unlinked.chained).cells_eq, Function.update_self]

theorem Unlinked.seq_eq (unlinked : Unlinked p p' l front n rest) (wf : p.WellFormed)
    (split : p.cells l = front ++ n :: rest) :
    p'.seq (some l) = (front ++ rest).map p.value := by
  have refines := wf.shape.refines_of_released split (split ▸ unlinked.outside)
    unlinked.released unlinked.chained
  rw [← abs_seq, refines.abs]
  exact SeqStore.seq_put_self p.abs l _

end Own

/-- Moving the cursor of `l` changes nothing else. -/
theorem setCurrent_rewrites (wf : p.WellFormed) (l : ListIx) (current : Option NodeIx) :
    Rewrites p (p.setCurrent (some l) current) (some l) ∧
      (p.setCurrent (some l) current).cells l = p.cells l := by
  have tails : (p.setCurrent (some l) current).tail = p.tail := by
    funext m
    simp [tail]
  have same : ∀ l', (p.setCurrent (some l) current).cells l' = p.cells l' := by
    intro l'
    rw [cells, tails, setCurrent_head]
    rfl
  have refines := setCurrent_refines wf (some l) current
  constructor
  · constructor
    · exact refines.wellFormed
    · intro l' apart
      have other : l' ≠ l := fun same => apart (congrArg some same.symm)
      refine ⟨same l', ?_, ?_, refines.kind l', setCurrent_busy p (some l) current l'⟩
      · rw [← abs_seq, refines.abs, abs_seq]
      · rw [setCurrent_cursor, if_neg other]
  · exact same l

theorem setCurrent_seq (wf : p.WellFormed) (l : ListIx) (current : Option NodeIx) :
    (p.setCurrent (some l) current).seq (some l) = p.seq (some l) := by
  rw [← abs_seq, (setCurrent_refines wf (some l) current).abs, abs_seq]

/-- A list that has been made was not in use. It is empty, and its cursor is at the end. -/
theorem newList_made (wf : p.WellFormed) {fn : α → α → Int} {order : ListSort}
    (made : (p.newList fn order).2 = some l) :
    (p.lists l).busy = false ∧ (p.newList fn order).1.cells l = [] ∧
      (p.newList fn order).1.cursor l = none ∧ (p.newList fn order).1.kind l = (fn, order) := by
  have wf' := (newList_refines wf fn order).1
  rw [newList] at made ⊢
  cases found : firstFit fun i => !(p.lists i).busy with
  | none =>
      rw [found] at made
      contradiction
  | some i =>
      rw [found] at made
      obtain rfl : i = l := Option.some.inj made
      refine ⟨?_, ?_, ?_, ?_⟩
      · simpa using (firstFit_eq_some_iff.mp found).1
      · simp [cells, walk]
      · simp [cursor]
      · simp [kind]

theorem newList_rewrites (wf : p.WellFormed) (fn : α → α → Int) (order : ListSort) :
    Rewrites p (p.newList fn order).1 (p.newList fn order).2 := by
  constructor
  · exact (newList_refines wf fn order).1
  · intro l apart
    rw [newList] at apart ⊢
    cases found : firstFit fun i => !(p.lists i).busy with
    | none => exact Spares.refl p l
    | some i =>
        rw [found] at apart
        have other : l ≠ i := fun same => apart (congrArg some same.symm)
        have cell : Function.update p.lists i (fresh fn order) l = p.lists l :=
          Function.update_of_ne other _ _
        refine ⟨?_, ?_, ?_, ?_, ?_⟩
        · exact congrArg (fun slot => walk p.tail maxNodes slot.list.nodes) cell
        · exact congrArg (fun slot => (walk p.tail maxNodes slot.list.nodes).map p.value) cell
        · exact congrArg (fun slot => slot.list.current) cell
        · exact congrArg (fun slot => (slot.list.compare, slot.list.order)) cell
        · exact congrArg ListSlot.busy cell

theorem dropFirst_rewrites (wf : p.WellFormed) (l : ListIx) :
    Rewrites p (p.dropFirst (some l)) (some l) := by
  cases split : p.cells l with
  | nil =>
      have head : (p.list (some l)).nodes = none := by
        have first := wf.shape.head_eq l
        rwa [split] at first
      rw [dropFirst, head]
      exact Rewrites.refl wf _
  | cons n rest => exact (wf.shape.dropFirst_unlinked split).1.rewrites wf split

theorem dropAll_rewrites (wf : p.WellFormed) {fuel : Nat}
    (run : p.dropAll (some l) fuel = some p') : Rewrites p p' (some l) := by
  induction fuel generalizing p with
  | zero => exact absurd run (Option.some_ne_none p').symm
  | succ fuel ih =>
      rw [dropAll] at run
      split at run
      · rw [← Option.some.inj run]
        exact Rewrites.refl wf _
      · have first := dropFirst_rewrites wf l
        exact first.trans (ih first.wellFormed run)

theorem freeList_rewrites (wf : p.WellFormed) (l : ListIx) :
    Rewrites p (p.freeList (some l)) (some l) ∧ ((p.freeList (some l)).lists l).busy = false := by
  obtain ⟨q, run, -⟩ := dropAll_refines wf (l := l) (Nat.lt_succ_of_le (length_seq_le wf l))
  have emptied := dropAll_rewrites wf run
  have whole : p.freeList (some l) = q.freeListCell (some l) := by
    rw [freeList, run]
    rfl
  rw [whole]
  constructor
  · constructor
    · rw [← whole]
      exact (freeList_refines wf (some l)).wellFormed
    · intro l' apart
      have other : l' ≠ l := fun same => apart (congrArg some same.symm)
      have cell : (q.freeListCell (some l)).lists l' = q.lists l' :=
        if_neg fun same => apart same.symm
      apply (emptied.others l' apart).trans
      refine ⟨?_, ?_, ?_, ?_, ?_⟩
      · exact congrArg (fun slot => walk q.tail maxNodes slot.list.nodes) cell
      · exact congrArg (fun slot => (walk q.tail maxNodes slot.list.nodes).map q.value) cell
      · exact congrArg (fun slot => slot.list.current) cell
      · exact congrArg (fun slot => (slot.list.compare, slot.list.order)) cell
      · exact congrArg ListSlot.busy cell
  · simp [freeListCell]

/-- A call keeps the pools well formed and spares all lists but its own. -/
theorem perform_rewrites (wf : p.WellFormed) (call : PoolCall α) :
    Rewrites p (p.perform call) (p.target call) := by
  cases call with
  | newList fn order => exact newList_rewrites wf fn order
  | listToBegin l => exact (setCurrent_rewrites wf l _).1
  | listGetElement l =>
      rw [perform, listGetElement]
      cases (p.list (some l)).current with
      | none => exact Rewrites.refl wf _
      | some n => exact (setCurrent_rewrites wf l _).1
  | listInsert l x =>
      have inserted := wf.shape.insertion l x
      rw [perform]
      generalize p.listInsert (some l) x = result at inserted
      cases inserted with
      | «exists» => exact Rewrites.refl wf _
      | noMem => exact Rewrites.refl wf _
      | stored _ split _ linked => exact linked.rewrites wf split
  | listDelete l x =>
      have deleted := wf.shape.deletion l x
      rw [perform]
      generalize p.listDelete (some l) x = result at deleted
      cases deleted with
      | noElem => exact Rewrites.refl wf _
      | removed split _ _ unlinked => exact unlinked.rewrites wf split
  | listRemoveFirst l =>
      rw [perform, listRemoveFirst]
      split
      · exact Rewrites.refl wf _
      · have begun := (setCurrent_rewrites wf l (p.list (some l)).nodes).1
        exact begun.trans (dropFirst_rewrites begun.wellFormed l)
  | freeList l => exact (freeList_rewrites wf l).1

/-- A list keeps its comparison and its order while it is in use. -/
theorem perform_kind (wf : p.WellFormed) (call : PoolCall α) (busy : (p.lists l).busy = true) :
    (p.perform call).kind l = p.kind l := by
  by_cases own : p.target call = some l
  · cases call with
    | newList fn order =>
        rw [(newList_made wf own).1] at busy
        contradiction
    | listToBegin j => exact setCurrent_kind p (some j) _ l
    | listGetElement j =>
        rw [perform, listGetElement]
        split
        · rfl
        · exact setCurrent_kind p (some j) _ l
    | listInsert j x =>
        have inserted := wf.shape.insertion j x
        rw [perform]
        generalize p.listInsert (some j) x = result at inserted
        cases inserted with
        | «exists» => rfl
        | noMem => rfl
        | stored _ _ _ linked => exact linked.outside.kind l
    | listDelete j x =>
        have deleted := wf.shape.deletion j x
        rw [perform]
        generalize p.listDelete (some j) x = result at deleted
        cases deleted with
        | noElem => rfl
        | removed _ _ _ unlinked => exact unlinked.outside.kind l
    | listRemoveFirst j => exact (listRemoveFirst_refines wf (some j)).1.kind l
    | freeList j => exact (freeList_refines wf (some j)).kind l
  · exact ((perform_rewrites wf call).others l own).kind

end Pools

end MinixSemaphore.Lists
