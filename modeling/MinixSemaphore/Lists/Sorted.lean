import MinixSemaphore.Lists.Calls
import MinixSemaphore.Store.Increasing
import MinixSemaphore.Transition.Run

/-!
# Sorted lists

A sorted list is kept increasing under its comparison, and its search stops early. A record
of the deeds on a list, the latest first, says what it has to hold: an element is in the
list if the last thing done to elements that count as it was to insert it.
-/

namespace MinixSemaphore.Lists

open MinixSemaphore.Store
open MinixSemaphore.Transition

universe v

/-- A call that has changed a list. -/
inductive ListDeed (α : Type v)
  | inserted (element : α)
  | deleted (element : α)
  deriving DecidableEq

/-- The element a deed is about. -/
def ListDeed.element {α : Type v} : ListDeed α → α
  | .inserted x => x
  | .deleted x => x

/-- The last deed on an element that counts as `x`. -/
def lastDeed {α : Type v} (fn : α → α → Int) (deeds : List (ListDeed α)) (x : α) :
    Option (ListDeed α) :=
  deeds.find? fun deed => fn deed.element x = 0

/-- The pools, and the deeds on each list since it was made. -/
structure Record (α : Type v) where
  pools : Pools α
  deeds : ListIx → List (ListDeed α)

variable {α : Type v} [Inhabited α]

namespace Pools

variable {p p' : Pools α} {l : ListIx} {x : α} {front rest : List NodeIx} {n : NodeIx}

/-! ## Searching a sorted list -/

/-- A sorted list whose comparison is a total order. -/
structure Ordered (p : Pools α) (l : ListIx) : Prop where
  sorted : (p.kind l).2 = .sorted
  order : TotalOrder (p.kind l).1

theorem Ordered.goesPast_iff (ordered : p.Ordered l) :
    p.GoesPast l x n ↔ (p.kind l).1 (p.value n) x < 0 := by
  rw [GoesPast, ordered.sorted]
  simp

/-- A search that fails stops in front of a greater element. -/
theorem Ordered.above (ordered : p.Ordered l) (misses : p.Misses l x front rest) :
    ∀ h ∈ (rest.map p.value).head?, (p.kind l).1 x h < 0 := by
  intro h head
  rw [List.head?_map] at head
  rcases Option.map_eq_some_iff.mp head with ⟨n, first, rfl⟩
  rcases misses.stop n first with ⟨stops, differs⟩
  rw [ordered.goesPast_iff] at stops
  rw [Meets] at differs
  rw [ordered.order.swap]
  omega

theorem Ordered.below (ordered : p.Ordered l) (past : ∀ m ∈ front, p.GoesPast l x m) :
    ∀ y ∈ front.map p.value, (p.kind l).1 y x < 0 := by
  intro y mapped
  rcases List.mem_map.mp mapped with ⟨m, mem, rfl⟩
  exact ordered.goesPast_iff.mp (past m mem)

/-- The elements increase. -/
def Ascends (p : Pools α) (l : ListIx) : Prop :=
  Increasing (p.kind l).1 (p.seq (some l))

/-- A search fails only if no element of the list counts as `x`. -/
theorem Ascends.absent (ascends : p.Ascends l) (ordered : p.Ordered l)
    (split : p.cells l = front ++ rest) (misses : p.Misses l x front rest) :
    ∀ y ∈ p.seq (some l), (p.kind l).1 y x ≠ 0 := by
  rw [Ascends] at ascends
  rw [seq_eq_map, split, List.map_append] at ascends ⊢
  exact ascends.ne_of_missed ordered.order (ordered.below misses.past) (ordered.above misses)

theorem mem_of_split (split : p.cells l = front ++ n :: rest) : p.value n ∈ p.seq (some l) := by
  rw [seq_eq_map, split]
  simp

/-- The element that a search finds is the only one that counts as `x`. -/
theorem Ascends.same_iff (ascends : p.Ascends l) (ordered : p.Ordered l)
    (split : p.cells l = front ++ n :: rest) (meets : p.Meets l x n) {y : α}
    (mem : y ∈ p.seq (some l)) : (p.kind l).1 y x = 0 ↔ y = p.value n := by
  constructor
  · intro same
    apply Increasing.eq_of_same ascends ordered.order mem (mem_of_split split)
    rw [ordered.order.same_comm, ordered.order.same_congr meets, ordered.order.same_comm]
    exact same
  · rintro rfl
    exact meets

/-! ## The operations -/

theorem Ascends.listInsert (ascends : p.Ascends l) (ordered : p.Ordered l) (wf : p.WellFormed)
    (x : α) :
    ((∃ y ∈ p.seq (some l), (p.kind l).1 y x = 0) ∧
        p.listInsert (some l) x = (p, .elemExists)) ∨
      (∀ y ∈ p.seq (some l), (p.kind l).1 y x ≠ 0) ∧
        (p.listInsert (some l) x = (p, .noMem) ∨
          (p.listInsert (some l) x).2 = .noErr ∧
            (p.listInsert (some l) x).1.kind l = p.kind l ∧
            (p.listInsert (some l) x).1.Ascends l ∧
            ∀ y, y ∈ (p.listInsert (some l) x).1.seq (some l) ↔ y = x ∨ y ∈ p.seq (some l)) := by
  have inserted := wf.shape.insertion l x
  generalize p.listInsert (some l) x = result at inserted
  cases inserted with
  | «exists» _ split meets =>
      left
      exact ⟨⟨_, mem_of_split split, meets⟩, rfl⟩
  | noMem _ split gap =>
      right
      exact ⟨ascends.absent ordered split (gap.sorted ordered.sorted), Or.inl rfl⟩
  | stored _ split gap linked =>
      have misses := gap.sorted ordered.sorted
      have kind := linked.outside.kind l
      have seq := linked.seq_eq wf split
      right
      refine ⟨ascends.absent ordered split misses, Or.inr ⟨rfl, kind, ?_, fun y => ?_⟩⟩
      · rw [Ascends, kind, seq]
        rw [Ascends, seq_eq_map, split, List.map_append] at ascends
        exact ascends.insert ordered.order (ordered.below misses.past) (ordered.above misses)
      · rw [seq, seq_eq_map, split, List.map_append]
        simp only [List.mem_append, List.mem_cons]
        tauto

theorem Ascends.listDelete (ascends : p.Ascends l) (ordered : p.Ordered l) (wf : p.WellFormed)
    (x : α) :
    ((∀ y ∈ p.seq (some l), (p.kind l).1 y x ≠ 0) ∧
        p.listDelete (some l) x = (p, .noElem)) ∨
      (∃ z ∈ p.seq (some l), (p.kind l).1 z x = 0) ∧
        (p.listDelete (some l) x).2 = .noErr ∧
        (p.listDelete (some l) x).1.kind l = p.kind l ∧
        (p.listDelete (some l) x).1.Ascends l ∧
        ∀ y, y ∈ (p.listDelete (some l) x).1.seq (some l) ↔
          y ∈ p.seq (some l) ∧ (p.kind l).1 y x ≠ 0 := by
  have deleted := wf.shape.deletion l x
  generalize p.listDelete (some l) x = result at deleted
  cases deleted with
  | noElem split misses =>
      left
      exact ⟨ascends.absent ordered split misses, rfl⟩
  | @removed _ front rest n split _ meets unlinked =>
      have kind := unlinked.outside.kind l
      have seq := unlinked.seq_eq wf split
      have whole : p.seq (some l) = front.map p.value ++ p.value n :: rest.map p.value := by
        rw [seq_eq_map, split, List.map_append, List.map_cons]
      right
      refine ⟨⟨_, mem_of_split split, meets⟩, rfl, kind, ?_, fun y => ?_⟩
      · rw [Ascends, kind, seq, List.map_append]
        rw [Ascends, whole] at ascends
        exact ascends.remove
      · have nodup : (p.seq (some l)).Nodup := by
          apply List.Pairwise.imp _ ascends
          intro y z less same
          rw [same, ordered.order.same_self] at less
          exact absurd less (lt_irrefl 0)
        rw [whole] at nodup
        have gone := (List.nodup_cons.mp (List.nodup_middle.mp nodup)).1
        rw [seq, List.map_append]
        constructor
        · intro mem
          have old : y ∈ p.seq (some l) := by
            rw [whole]
            simp only [List.mem_append, List.mem_cons] at mem ⊢
            tauto
          refine ⟨old, fun same => gone ?_⟩
          rwa [(ascends.same_iff ordered split meets old).mp same] at mem
        · rintro ⟨old, differs⟩
          have other : y ≠ p.value n := fun same => differs (same ▸ meets)
          rw [whole] at old
          simp only [List.mem_append, List.mem_cons] at old ⊢
          tauto

/-- The search that stops early answers as a scan of the whole list. -/
theorem Ascends.listElementBelongs (ascends : p.Ascends l) (ordered : p.Ordered l)
    (wf : p.WellFormed) (x : α) :
    p.listElementBelongs (some l) x =
      (p.seq (some l)).find? fun y => (p.kind l).1 y x = 0 := by
  rcases wf.shape.listElementBelongs_cases l x with
    ⟨front, n, rest, split, past, meets, answer⟩ | ⟨front, rest, split, misses, answer⟩
  · rw [answer, seq_eq_map, split, List.map_append, List.find?_append, List.map_cons]
    have early : (front.map p.value).find? (fun y => (p.kind l).1 y x = 0) = none := by
      rw [List.find?_eq_none]
      intro y mem same
      have less := ordered.below past y mem
      simp only [decide_eq_true_eq] at same
      rw [same] at less
      exact lt_irrefl 0 less
    have here : (p.kind l).1 (p.value n) x = 0 := meets
    rw [early, Option.none_or, List.find?_cons_of_pos (by simpa using here)]
  · rw [answer, eq_comm, List.find?_eq_none]
    intro y mem
    simpa using ascends.absent ordered split misses y mem

end Pools

/-! ## The record of a run -/

namespace Record

/-- No list has been made. -/
def start : Record α where
  pools := Pools.zeroed
  deeds _ := []

/-- The deeds after a call. A call that fails is no deed. -/
def next (r : Record α) : PoolCall α → ListIx → List (ListDeed α)
  | .newList fn order =>
      match (r.pools.newList fn order).2 with
      | none => r.deeds
      | some l => Function.update r.deeds l []
  | .listInsert l x =>
      if (r.pools.listInsert (some l) x).2 = .noErr then
        Function.update r.deeds l (.inserted x :: r.deeds l)
      else r.deeds
  | .listDelete l x =>
      if (r.pools.listDelete (some l) x).2 = .noErr then
        Function.update r.deeds l (.deleted x :: r.deeds l)
      else r.deeds
  | .listRemoveFirst l =>
      match r.pools.seq (some l) with
      | [] => r.deeds
      | x :: _ => Function.update r.deeds l (.deleted x :: r.deeds l)
  | .listToBegin _ | .listGetElement _ | .freeList _ => r.deeds

/-- Carry out a call, and keep the record. -/
def step (r : Record α) (call : PoolCall α) : Record α where
  pools := r.pools.perform call
  deeds := r.next call

/-- The client passes on its own lists. -/
def Permits (r : Record α) (call : PoolCall α) : Prop :=
  r.pools.Permits call

instance (r : Record α) (call : PoolCall α) : Decidable (r.Permits call) :=
  inferInstanceAs (Decidable (r.pools.Permits call))

/-- A list increases and holds what the record says. -/
structure Agrees (r : Record α) (l : ListIx) : Prop where
  ascends : r.pools.Ascends l
  holds : ∀ x, x ∈ r.pools.seq (some l) ↔
    lastDeed (r.pools.kind l).1 (r.deeds l) x = some (.inserted x)

/-- All sorted lists in use agree with the record. -/
structure Kept (r : Record α) : Prop where
  wellFormed : r.pools.WellFormed
  agrees : ∀ l, (r.pools.lists l).busy = true → r.pools.Ordered l → r.Agrees l

variable {r : Record α} {l : ListIx} {call : PoolCall α}

theorem start_kept : (start : Record α).Kept where
  wellFormed := ⟨_, Pools.zeroed_shape⟩
  agrees _ busy := absurd busy Bool.false_ne_true

/-- The deeds on other lists are left alone. -/
theorem next_of_target (other : r.pools.target call ≠ some l) : r.next call l = r.deeds l := by
  cases call with
  | newList fn order =>
      rw [next]
      cases made : (r.pools.newList fn order).2 with
      | none => rfl
      | some j =>
          have apart : l ≠ j := fun same => other (made.trans (congrArg some same.symm))
          exact Function.update_of_ne apart _ _
  | listInsert j x =>
      have apart : l ≠ j := fun same => other (congrArg some same.symm)
      rw [next]
      split
      · exact Function.update_of_ne apart _ _
      · rfl
  | listDelete j x =>
      have apart : l ≠ j := fun same => other (congrArg some same.symm)
      rw [next]
      split
      · exact Function.update_of_ne apart _ _
      · rfl
  | listRemoveFirst j =>
      have apart : l ≠ j := fun same => other (congrArg some same.symm)
      rw [next]
      cases r.pools.seq (some j) with
      | nil => rfl
      | cons x rest => exact Function.update_of_ne apart _ _
  | listToBegin j => rfl
  | listGetElement j => rfl
  | freeList j => rfl

omit [Inhabited α] in
/-- What a new deed says of an element. -/
theorem lastDeed_cons (fn : α → α → Int) (deed : ListDeed α) (deeds : List (ListDeed α)) (x : α) :
    lastDeed fn (deed :: deeds) x =
      if fn deed.element x = 0 then some deed else lastDeed fn deeds x := by
  rw [lastDeed, List.find?_cons]
  by_cases same : fn deed.element x = 0 <;> simp [same, lastDeed]

namespace Agrees

variable {r' : Record α} {x : α}

theorem unchanged (agrees : r.Agrees l) (kind : r'.pools.kind l = r.pools.kind l)
    (seq : r'.pools.seq (some l) = r.pools.seq (some l)) (same : r'.deeds l = r.deeds l) :
    r'.Agrees l := by
  constructor
  · rw [Pools.Ascends, kind, seq]
    exact agrees.ascends
  · intro x
    rw [kind, seq, same]
    exact agrees.holds x

/-- A list that has been made holds nothing. -/
theorem made (empty : r'.pools.seq (some l) = []) (record : r'.deeds l = []) :
    r'.Agrees l := by
  constructor
  · rw [Pools.Ascends, empty]
    exact List.Pairwise.nil
  · intro x
    rw [empty, record]
    apply iff_of_false
    · exact List.not_mem_nil
    · rintro ⟨⟩

theorem inserted (agrees : r.Agrees l) (ordered : r.pools.Ordered l)
    (fresh : ∀ y ∈ r.pools.seq (some l), (r.pools.kind l).1 y x ≠ 0)
    (kind : r'.pools.kind l = r.pools.kind l) (ascends : r'.pools.Ascends l)
    (seq : ∀ y, y ∈ r'.pools.seq (some l) ↔ y = x ∨ y ∈ r.pools.seq (some l))
    (record : r'.deeds l = .inserted x :: r.deeds l) : r'.Agrees l := by
  refine ⟨ascends, fun y => ?_⟩
  rw [seq, kind, record, lastDeed_cons]
  change _ ↔ (if (r.pools.kind l).1 x y = 0 then _ else _) = _
  by_cases same : (r.pools.kind l).1 x y = 0
  · rw [if_pos same, Option.some.injEq, ListDeed.inserted.injEq]
    constructor
    · rintro (rfl | mem)
      · rfl
      · exact absurd (ordered.order.same_comm.mp same) (fresh y mem)
    · rintro rfl
      exact Or.inl rfl
  · have other : y ≠ x := fun eq => same (eq ▸ ordered.order.same_self _)
    rw [if_neg same, ← agrees.holds]
    simp [other]

theorem deleted (agrees : r.Agrees l) (ordered : r.pools.Ordered l)
    (kind : r'.pools.kind l = r.pools.kind l) (ascends : r'.pools.Ascends l)
    (seq : ∀ y, y ∈ r'.pools.seq (some l) ↔
      y ∈ r.pools.seq (some l) ∧ (r.pools.kind l).1 y x ≠ 0)
    (record : r'.deeds l = .deleted x :: r.deeds l) : r'.Agrees l := by
  refine ⟨ascends, fun y => ?_⟩
  rw [seq, kind, record, lastDeed_cons]
  change _ ↔ (if (r.pools.kind l).1 x y = 0 then _ else _) = _
  by_cases same : (r.pools.kind l).1 x y = 0
  · rw [if_pos same]
    apply iff_of_false
    · exact fun both => both.2 (ordered.order.same_comm.mp same)
    · rintro ⟨⟩
  · have differs : (r.pools.kind l).1 y x ≠ 0 := fun eq => same (ordered.order.same_comm.mp eq)
    rw [if_neg same, ← agrees.holds, and_iff_left differs]

end Agrees

/-! ## Every call keeps the record -/

theorem agrees_listInsert (kept : r.Kept) (busy : (r.pools.lists l).busy = true)
    (ordered : r.pools.Ordered l) (x : α) : (r.step (.listInsert l x)).Agrees l := by
  have wf := kept.wellFormed
  have kind : (r.step (.listInsert l x)).pools.kind l = r.pools.kind l :=
    Pools.perform_kind wf (.listInsert l x) busy
  have agrees := kept.agrees l busy ordered
  rcases agrees.ascends.listInsert ordered wf x with
    ⟨-, found⟩ | ⟨fresh, full | ⟨stored, -, ascends, seq⟩⟩
  · apply agrees.unchanged kind
    · rw [step, Pools.perform, found]
    · rw [step, next, found]
      rfl
  · apply agrees.unchanged kind
    · rw [step, Pools.perform, full]
    · rw [step, next, full]
      rfl
  · apply agrees.inserted ordered fresh kind ascends seq
    rw [step, next, if_pos stored]
    exact Function.update_self ..

theorem agrees_listDelete (kept : r.Kept) (busy : (r.pools.lists l).busy = true)
    (ordered : r.pools.Ordered l) (x : α) : (r.step (.listDelete l x)).Agrees l := by
  have wf := kept.wellFormed
  have kind : (r.step (.listDelete l x)).pools.kind l = r.pools.kind l :=
    Pools.perform_kind wf (.listDelete l x) busy
  have agrees := kept.agrees l busy ordered
  rcases agrees.ascends.listDelete ordered wf x with
    ⟨-, absent⟩ | ⟨-, removed, -, ascends, seq⟩
  · apply agrees.unchanged kind
    · rw [step, Pools.perform, absent]
    · rw [step, next, absent]
      rfl
  · apply agrees.deleted ordered kind ascends seq
    rw [step, next, if_pos removed]
    exact Function.update_self ..

/-- The first element of a sorted list is deleted like any other. -/
theorem agrees_listRemoveFirst (kept : r.Kept) (busy : (r.pools.lists l).busy = true)
    (ordered : r.pools.Ordered l) : (r.step (.listRemoveFirst l)).Agrees l := by
  have wf := kept.wellFormed
  have kind : (r.step (.listRemoveFirst l)).pools.kind l = r.pools.kind l :=
    Pools.perform_kind wf (.listRemoveFirst l) busy
  have agrees := kept.agrees l busy ordered
  have refines := (Pools.listRemoveFirst_refines wf (some l)).1
  have seq : (r.step (.listRemoveFirst l)).pools.seq (some l) =
      (r.pools.seq (some l)).tail := by
    have rewritten := SeqStore.listRemoveFirst_rewritten r.pools.abs l
    rw [← refines.abs] at rewritten
    exact rewritten.self
  cases content : r.pools.seq (some l) with
  | nil =>
      rw [content] at seq
      apply agrees.unchanged kind (seq.trans content.symm)
      rw [step, next, content]
  | cons x rest =>
      rw [content] at seq
      have increasing : Increasing (r.pools.kind l).1 (x :: rest) := content ▸ agrees.ascends
      rcases List.pairwise_cons.mp increasing with ⟨less, increasing⟩
      apply agrees.deleted ordered kind
      · rw [Pools.Ascends, kind, seq]
        exact increasing
      · intro y
        rw [seq, content, List.tail_cons, List.mem_cons]
        constructor
        · intro mem
          have above := less y mem
          rw [ordered.order.swap] at above
          exact ⟨Or.inr mem, above.ne'⟩
        · rintro ⟨rfl | mem, differs⟩
          · exact absurd (ordered.order.same_self y) differs
          · exact mem
      · rw [step, next, content]
        exact Function.update_self ..

/-- Moving the cursor changes nothing. -/
theorem Agrees.setCurrent {r' : Record α} {current : Option NodeIx} (agrees : r.Agrees l)
    (wf : r.pools.WellFormed) (pools : r'.pools = r.pools.setCurrent (some l) current)
    (same : r'.deeds l = r.deeds l) : r'.Agrees l := by
  apply agrees.unchanged _ _ same
  · rw [pools, Pools.setCurrent_kind]
  · rw [pools, Pools.setCurrent_seq wf]

theorem agrees_listGetElement (kept : r.Kept) (busy : (r.pools.lists l).busy = true)
    (ordered : r.pools.Ordered l) : (r.step (.listGetElement l)).Agrees l := by
  have agrees := kept.agrees l busy ordered
  cases at_n : (r.pools.list (some l)).current with
  | none =>
      have same : (r.step (.listGetElement l)).pools = r.pools := by
        rw [step, Pools.perform, Pools.listGetElement, at_n]
      exact agrees.unchanged (by rw [same]) (by rw [same]) rfl
  | some n =>
      have moved : (r.step (.listGetElement l)).pools =
          r.pools.setCurrent (some l) (r.pools.tail n) := by
        rw [step, Pools.perform, Pools.listGetElement, at_n]
      exact agrees.setCurrent kept.wellFormed moved rfl

theorem Kept.step (kept : r.Kept) (permits : r.Permits call) : (r.step call).Kept := by
  have wf := kept.wellFormed
  have done := Pools.perform_rewrites wf call
  refine ⟨done.wellFormed, fun l busy ordered => ?_⟩
  by_cases own : r.pools.target call = some l
  · have before : (r.pools.lists l).busy = true → r.pools.Ordered l := by
      intro used
      have kind := Pools.perform_kind wf call used
      exact ⟨kind ▸ ordered.sorted, kind ▸ ordered.order⟩
    cases call with
    | newList fn order =>
        apply Agrees.made
        · rw [Pools.seq_eq_map]
          exact congrArg (List.map _) (Pools.newList_made wf own).2.1
        · have made : (r.pools.newList fn order).2 = some l := own
          rw [Record.step, next, made]
          exact Function.update_self ..
    | listInsert j x =>
        obtain rfl : j = l := Option.some.inj own
        exact agrees_listInsert kept permits (before permits) x
    | listDelete j x =>
        obtain rfl : j = l := Option.some.inj own
        exact agrees_listDelete kept permits (before permits) x
    | listRemoveFirst j =>
        obtain rfl : j = l := Option.some.inj own
        exact agrees_listRemoveFirst kept permits (before permits)
    | listToBegin j =>
        obtain rfl : j = l := Option.some.inj own
        exact (kept.agrees j permits (before permits)).setCurrent wf rfl rfl
    | listGetElement j =>
        obtain rfl : j = l := Option.some.inj own
        exact agrees_listGetElement kept permits (before permits)
    | freeList j =>
        obtain rfl : j = l := Option.some.inj own
        have freed := (Pools.freeList_rewrites wf j).2
        exact absurd (freed.symm.trans busy) Bool.false_ne_true
  · have spared := done.others l own
    have before : r.pools.Ordered l :=
      ⟨spared.kind ▸ ordered.sorted, spared.kind ▸ ordered.order⟩
    exact (kept.agrees l (spared.busy ▸ busy) before).unchanged spared.kind spared.seq
      (next_of_target own)

/-- In a run of calls on any lists, a sorted list whose comparison is a total order always
increases. It holds exactly the elements whose last deed, among the deeds on elements that
count as the same, was their insertion. An insert reports an element that is there and then
changes nothing, a delete reports one that is not there, and the search answers as a scan
of the whole list. -/
theorem sorted_lists_are_sets {calls : List (PoolCall α)} (run : Run step Permits start calls r)
    (busy : (r.pools.lists l).busy = true) (sorted : (r.pools.lists l).list.order = .sorted)
    (order : TotalOrder (r.pools.lists l).list.compare) :
    let fn := (r.pools.lists l).list.compare
    ∃ cells, Chain r.pools.tail (r.pools.lists l).list.nodes cells ∧
      let xs := cells.map r.pools.value
      Increasing fn xs ∧
      (∀ x, x ∈ xs ↔ lastDeed fn (r.deeds l) x = some (.inserted x)) ∧
      (∀ x, (r.pools.listInsert (some l) x).2 = .elemExists ↔ ∃ y ∈ xs, fn y x = 0) ∧
      (∀ x, (r.pools.listInsert (some l) x).2 = .elemExists →
        (r.pools.listInsert (some l) x).1 = r.pools) ∧
      (∀ x, (r.pools.listDelete (some l) x).2 = .noElem ↔ ¬∃ y ∈ xs, fn y x = 0) ∧
      ∀ x, r.pools.listElementBelongs (some l) x = xs.find? fun y => fn y x = 0 := by
  have kept : r.Kept := run.invariant start_kept fun _ _ kept permits => kept.step permits
  have wf := kept.wellFormed
  have ordered : r.pools.Ordered l := ⟨sorted, order⟩
  have agrees := kept.agrees l busy ordered
  have ascends := agrees.ascends
  refine ⟨r.pools.cells l, wf.shape.chained l, ascends, agrees.holds, fun x => ?_, fun x => ?_,
    fun x => ?_, ascends.listElementBelongs ordered wf⟩
  · rcases ascends.listInsert ordered wf x with
      ⟨here, found⟩ | ⟨absent, full | ⟨stored, -⟩⟩
    · rw [found]
      exact iff_of_true rfl here
    · rw [full]
      apply iff_of_false ListStatus.noConfusion
      rintro ⟨y, mem, same⟩
      exact absent y mem same
    · rw [stored]
      apply iff_of_false ListStatus.noConfusion
      rintro ⟨y, mem, same⟩
      exact absent y mem same
  · intro found
    rcases ascends.listInsert ordered wf x with
      ⟨-, unchanged⟩ | ⟨-, unchanged | ⟨stored, -⟩⟩
    · rw [unchanged]
    · rw [unchanged]
    · rw [stored] at found
      contradiction
  · rcases ascends.listDelete ordered wf x with ⟨absent, missed⟩ | ⟨here, removed, -⟩
    · rw [missed]
      apply iff_of_true rfl
      rintro ⟨y, mem, same⟩
      exact absent y mem same
    · rw [removed]
      exact iff_of_false ListStatus.noConfusion (not_not_intro here)

/-- A list keeps its kind over calls during which it is in use. -/
theorem kind_of_calls {calls : List (PoolCall α)} {p : Pools α} (wf : p.WellFormed)
    (used : Allowed Pools.perform (fun p _ => (p.lists l).busy = true) p calls) :
    (calls.foldl Pools.perform p).kind l = p.kind l := by
  induction calls generalizing p with
  | nil => rfl
  | cons call calls ih =>
      have first := Pools.perform_kind wf call used.1
      exact (ih (Pools.perform_rewrites wf call).wellFormed used.2).trans first

theorem pools_foldl (calls : List (PoolCall α)) (r : Record α) :
    (calls.foldl step r).pools = calls.foldl Pools.perform r.pools := by
  induction calls generalizing r with
  | nil => rfl
  | cons call calls ih => exact ih (r.step call)

theorem sub_totalOrder : TotalOrder fun x y : Int => x - y := by
  constructor
  · intro x y
    omega
  · intro x y z
    omega

/-- Three elements go into list 0 and one of them is deleted, while list 1 is in use too. -/
theorem sorted_lists_are_sets_of_delete :
    let calls : List (PoolCall Int) := [.newList (fun x y => x - y) .sorted,
      .newList (fun x y => x - y) .unsorted, .listInsert 0 5, .listInsert 1 7, .listInsert 0 3,
      .listInsert 0 9, .listDelete 0 5]
    let r := calls.foldl step start
    (r.pools.listInsert (some 0) 9).2 = .elemExists ∧
      (r.pools.listDelete (some 0) 5).2 = .noElem := by
  intro calls r
  have empty : (Pools.zeroed : Pools Int).WellFormed := ⟨_, Pools.zeroed_shape⟩
  have first : ((Pools.zeroed : Pools Int).newList (fun x y => x - y) .sorted).2 = some 0 := by
    decide +kernel
  have used : Allowed Pools.perform (fun p _ => (p.lists 0).busy = true)
      ((Pools.zeroed : Pools Int).newList (fun x y => x - y) .sorted).1 calls.tail := by
    decide +kernel
  have kind : r.pools.kind 0 = (fun x y => x - y, .sorted) := by
    have kept := kind_of_calls (Pools.newList_refines empty _ _).1 used
    rw [pools_foldl]
    exact kept.trans (Pools.newList_made empty first).2.2.2
  have compare : (r.pools.lists 0).list.compare = fun x y => x - y := congrArg Prod.fst kind
  have run : Run step Permits start calls r := Allowed.run (by decide +kernel)
  obtain ⟨cells, -, -, holds, inserts, -, deletes, -⟩ := sorted_lists_are_sets run
    (by decide +kernel) (congrArg Prod.snd kind) (compare ▸ sub_totalOrder)
  rw [compare] at holds inserts deletes
  constructor
  · apply (inserts 9).mpr
    exact ⟨9, (holds 9).mpr (by decide +kernel), by decide⟩
  · apply (deletes 5).mpr
    rintro ⟨y, mem, same⟩
    obtain rfl : y = 5 := Int.sub_eq_zero.mp same
    have gone := (holds 5).mp mem
    revert gone
    decide +kernel

end Record

end MinixSemaphore.Lists
