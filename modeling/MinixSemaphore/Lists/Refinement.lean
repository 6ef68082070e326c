import MinixSemaphore.Lists.Search

/-!
# The pools refine the sequence store

`abs` forgets the cells and keeps the sequences. On well-formed pools, and on
lists that are unsorted and compare elements for equality, every operation of
list.c is the operation of the same name on the sequence store.
-/

namespace MinixSemaphore.Lists

open MinixSemaphore.Store

universe v

namespace Pools

variable {α : Type v} [Inhabited α]

/-- What the pools mean as a store of sequences. -/
def abs (p : Pools α) : SeqStore α where
  content l := p.seq (some l)
  busy l := (p.lists l).busy
  used := p.used

@[simp]
theorem abs_seq (p : Pools α) (list : ListADT) : p.abs.seq list = p.seq list := by
  cases list <;> rfl

@[simp]
theorem abs_busy (p : Pools α) (l : ListIx) : p.abs.busy l = (p.lists l).busy :=
  rfl

@[simp]
theorem abs_used (p : Pools α) : p.abs.used = p.used :=
  rfl

theorem abs_zeroed : (zeroed : Pools α).abs = SeqStore.empty := by
  ext : 1
  · funext l
    exact zeroed_shape.seq_eq l
  · rfl
  · simp [abs, used, zeroed, SeqStore.empty]

/-- `p'` comes from `p` without a change of kinds, is well formed and means `s`. -/
structure Refines (p p' : Pools α) (s : SeqStore α) : Prop where
  wellFormed : p'.WellFormed
  abs : p'.abs = s
  kind : ∀ l, p'.kind l = p.kind l

theorem Refines.refl {p : Pools α} (wf : p.WellFormed) : Refines p p p.abs :=
  ⟨wf, rfl, fun _ => rfl⟩

/-- A list pointer the operations work on: `NULL`, or an unsorted list. -/
def Usable (p : Pools α) : ListADT → Prop
  | none => True
  | some l => p.Unsorted l

/-! ## Changing one chain -/

section Chains

variable {p p' : Pools α} {chains : ListIx → List NodeIx} {l : ListIx}

namespace Shape

theorem Released.value {n : NodeIx} (released : Released p p' n) (m : NodeIx) :
    p'.value m = p.value m := by
  simp only [Pools.value, released.element]
  cases (p.nodes m).node.element <;> simp [released.content]

theorem Taken.value_self {n : NodeIx} {e : ElemIx} {x : α} (taken : Taken p p' n e x) :
    p'.value n = x := by
  simp [Pools.value, taken.element, taken.content]

theorem Taken.value_of_busy {n : NodeIx} {e : ElemIx} {x : α} (taken : Taken p p' n e x)
    (shape : p.Shape chains) {m : NodeIx} (busy : (p.nodes m).busy = true) :
    p'.value m = p.value m := by
  have other : m ≠ n := fun eq => by
    rw [eq, taken.nodeFree] at busy
    contradiction
  obtain ⟨d, owned, dBusy⟩ := shape.owns m busy
  have otherElement : d ≠ e := fun eq => by
    rw [eq, taken.elementFree] at dBusy
    contradiction
  simp [Pools.value, taken.element, other, owned, taken.content, otherElement]

/-- A chain that loses a node means a sequence that loses its element. -/
theorem refines_of_released (shape : p.Shape chains) {before after : List NodeIx} {n : NodeIx}
    (split : chains l = before ++ n :: after)
    (outside : Outside p p' l (chains l)) (released : Released p p' n)
    (chained : Chain p'.tail (p'.lists l).list.nodes (before ++ after)) :
    Refines p p'
      { p.abs.put (some l) ((before ++ after).map p.value) with used := p.used - 1 } := by
  have shape' := shape.detach split outside released chained
  refine ⟨⟨_, shape'⟩, ?_, outside.kind⟩
  ext : 1
  · funext l'
    change p'.seq (some l') = _
    rw [shape'.seq_eq l', List.map_congr_left fun m _ => released.value m]
    by_cases same : l' = l
    · subst same
      simp [SeqStore.put]
    · simp [SeqStore.put, Function.update_of_ne same, Pools.abs, shape.seq_eq l']
  · funext l'
    exact outside.listBusy l'
  · exact used_of_released (shape.busy l n (by simp [split])) released

/-- A chain that gains a node means a sequence that gains its element. -/
theorem refines_of_taken (shape : p.Shape chains) {before after : List NodeIx} {n : NodeIx}
    {e : ElemIx} {x : α} (split : chains l = before ++ after)
    (outside : Outside p p' l (chains l)) (taken : Taken p p' n e x)
    (chained : Chain p'.tail (p'.lists l).list.nodes (before ++ n :: after)) :
    Refines p p'
      { p.abs.put (some l) (before.map p.value ++ x :: after.map p.value) with
        used := p.used + 1 } := by
  have shape' := shape.attach split outside taken chained
  have same_value : ∀ l' m, m ∈ chains l' → p'.value m = p.value m :=
    fun l' m mem => taken.value_of_busy shape (shape.busy l' m mem)
  refine ⟨⟨_, shape'⟩, ?_, outside.kind⟩
  ext : 1
  · funext l'
    change p'.seq (some l') = _
    rw [shape'.seq_eq l']
    by_cases same : l' = l
    · subst same
      have beforeValues : before.map p'.value = before.map p.value :=
        List.map_congr_left fun m mem => same_value l' m (by simp [split, mem])
      have afterValues : after.map p'.value = after.map p.value :=
        List.map_congr_left fun m mem => same_value l' m (by simp [split, mem])
      simp [SeqStore.put, taken.value_self, beforeValues, afterValues]
    · have values : (chains l').map p'.value = (chains l').map p.value :=
        List.map_congr_left fun m mem => same_value l' m mem
      simp [SeqStore.put, Function.update_of_ne same, Pools.abs, shape.seq_eq l', values]
  · funext l'
    exact outside.listBusy l'
  · exact used_of_taken taken

/-- A node that is linked to no list counts as used and changes no sequence. -/
theorem refines_of_spill (shape : p.Shape chains) {n : NodeIx} {e : ElemIx} {x : α}
    (taken : Taken p p' n e x) (lists : p'.lists = p.lists)
    (links : ∀ m, (p.nodes m).busy = true → p'.tail m = p.tail m) :
    Refines p p' { p.abs with used := p.used + 1 } := by
  have shape' := shape.spill taken lists links
  refine ⟨⟨_, shape'⟩, ?_, fun l => by rw [kind, kind, lists]⟩
  ext : 1
  · funext l
    refine (shape'.seq_eq l).trans ((List.map_congr_left fun m mem => ?_).trans
      (shape.seq_eq l).symm)
    exact taken.value_of_busy shape (shape.busy l m mem)
  · funext l
    simp [Pools.abs, lists]
  · exact used_of_taken taken

end Shape

end Chains

theorem listIsEmpty_eq {p : Pools α} (wf : p.WellFormed) (list : ListADT) :
    p.listIsEmpty list = p.abs.listIsEmpty list := by
  obtain ⟨chains, shape⟩ := wf
  cases list with
  | none => rfl
  | some l =>
      have head := shape.head_eq l
      rw [listIsEmpty, Pools.list, head, SeqStore.listIsEmpty, abs_seq, shape.seq_eq l]
      cases chains l <;> simp

/-! ## Unsorted lists -/

namespace Unsorted

variable {p : Pools α} {l : ListIx} {x : α} {n : NodeIx}

theorem meets_iff (unsorted : p.Unsorted l) : p.Meets l x n ↔ p.value n = x :=
  unsorted.2 _ _

/-- A search goes past everything it does not look for. -/
theorem goesPast_iff (unsorted : p.Unsorted l) : p.GoesPast l x n ↔ p.value n ≠ x := by
  rw [Ne, ← unsorted.meets_iff, Meets, ← Ne, ← lt_or_lt_iff_ne, GoesPast, unsorted.1]
  simp

theorem not_mem_of_goesPast (unsorted : p.Unsorted l) {front : List NodeIx}
    (past : ∀ m ∈ front, p.GoesPast l x m) : x ∉ front.map p.value := by
  intro mem
  rcases List.mem_map.mp mem with ⟨m, mem, same⟩
  exact unsorted.goesPast_iff.mp (past m mem) same

/-- A search that fails has gone past the whole list. -/
theorem not_mem_of_misses (unsorted : p.Unsorted l) {front rest : List NodeIx}
    (misses : p.Misses l x front rest) : x ∉ (front ++ rest).map p.value := by
  cases rest with
  | nil =>
      rw [List.append_nil]
      exact unsorted.not_mem_of_goesPast misses.past
  | cons n rest =>
      rcases misses.stop n rfl with ⟨stops, differs⟩
      rw [unsorted.goesPast_iff, not_not] at stops
      exact absurd (unsorted.meets_iff.mpr stops) differs

end Unsorted

/-! ## The operations -/

section Operations

variable {p : Pools α}

/-- The list cell `NewList` fills in. -/
def fresh (fn : α → α → Int) (order : ListSort) : ListSlot α :=
  { list := { nodes := none, compare := fn, current := none, order := order }, busy := true }

theorem abs_freeCell (p : Pools α) : p.abs.freeCell = firstFit fun i => !(p.lists i).busy := by
  simp only [SeqStore.freeCell, abs_busy]

/-- `NewList` empties the cell it hands out; the chain that may have hung there is
forgotten, and its nodes stay busy. -/
theorem newList_refines (wf : p.WellFormed) (fn : α → α → Int) (order : ListSort) :
    (p.newList fn order).1.WellFormed ∧
      (p.newList fn order).1.abs = (p.abs.newList fn order).1 ∧
      (p.newList fn order).2 = (p.abs.newList fn order).2 ∧
      ∀ l, (p.newList fn order).1.kind l =
        if (p.newList fn order).2 = some l then (fn, order) else p.kind l := by
  obtain ⟨chains, shape⟩ := wf
  cases found : p.abs.freeCell with
  | none =>
      have concrete : p.newList fn order = (p, none) := by
        rw [newList, ← abs_freeCell, found]
      have abstract : p.abs.newList fn order = (p.abs, none) := by
        rw [SeqStore.newList, found]
      rw [concrete, abstract]
      exact ⟨⟨chains, shape⟩, rfl, rfl, by simp⟩
  | some i =>
      have concrete : p.newList fn order =
          ({ p with lists := Function.update p.lists i (fresh fn order) }, some i) := by
        rw [newList, ← abs_freeCell, found]
        rfl
      have abstract : p.abs.newList fn order =
          ({ p.abs.put (some i) [] with
              busy := Function.update p.abs.busy i true }, some i) := by
        rw [SeqStore.newList, found]
      rw [concrete, abstract]
      have emptied : Shape { p with lists := Function.update p.lists i (fresh fn order) }
          (Function.update chains i []) := by
        have sub : ∀ l n, n ∈ Function.update chains i [] l → n ∈ chains l := by
          intro l n mem
          by_cases same : l = i
          · simp [same] at mem
          · rwa [Function.update_of_ne same] at mem
        refine ⟨fun l => ?_, fun l l' n mem mem' => ?_, fun l n mem => ?_,
          shape.owns, shape.sole, shape.backed⟩
        · by_cases same : l = i
          · subst same
            simp [fresh]
          · simp only [Function.update_of_ne same]
            exact shape.chained l
        · exact shape.apart l l' n (sub l n mem) (sub l' n mem')
        · exact shape.busy l n (sub l n mem)
      refine ⟨⟨_, emptied⟩, ?_, rfl, fun l => ?_⟩
      · ext : 1
        · funext l
          change Pools.seq _ (some l) = _
          rw [emptied.seq_eq l]
          by_cases same : l = i
          · subst same
            simp [SeqStore.put]
          · simp only [Function.update_of_ne same, SeqStore.put]
            exact (shape.seq_eq l).symm
        · funext l
          by_cases same : l = i
          · subst same
            simp [Pools.abs, fresh]
          · simp [Pools.abs, Function.update_of_ne same]
        · rfl
      · by_cases same : i = l
        · subst same
          simp [kind, fresh]
        · simp [kind, same, Function.update_of_ne (Ne.symm same)]

/-- Moving a cursor changes nothing the sequence store knows of. -/
theorem setCurrent_refines (wf : p.WellFormed) (list : ListADT) (current : Option NodeIx) :
    Refines p (p.setCurrent list current) p.abs := by
  obtain ⟨chains, shape⟩ := wf
  have shape' : (p.setCurrent list current).Shape chains :=
    shape.of_same_cells (by simp) (by simp) (by simp)
  refine ⟨⟨_, shape'⟩, ?_, by simp⟩
  ext : 1
  · funext l
    refine (shape'.seq_eq l).trans ((List.map_congr_left fun n _ => ?_).trans
      (shape.seq_eq l).symm)
    simp [value]
  · funext l
    simp [Pools.abs]
  · simp [Pools.abs, used]

/-- The first element read after the cursor was rewound is the head. -/
theorem getElement_toBegin_refines (wf : p.WellFormed) (list : ListADT) :
    Refines p ((p.listToBegin list).listGetElement list).1 p.abs ∧
      ((p.listToBegin list).listGetElement list).2 = (p.seq list).head? := by
  have begun := setCurrent_refines wf list (p.list list).nodes
  change Refines p (p.listToBegin list) p.abs at begun
  cases list with
  | none => exact ⟨begun, rfl⟩
  | some i =>
      obtain ⟨chains, shape⟩ := wf
      have current : ((p.listToBegin (some i)).list (some i)).current = (chains i).head? := by
        rw [← shape.head_eq i]
        simp [listToBegin, setCurrent, setList, Pools.list]
      rw [shape.seq_eq i, listGetElement, current]
      cases chains i with
      | nil => exact ⟨begun, rfl⟩
      | cons cell rest =>
          have moved := setCurrent_refines begun.wellFormed (some i)
            ((p.listToBegin (some i)).tail cell)
          refine ⟨⟨moved.wellFormed, moved.abs.trans begun.abs, fun l =>
            (moved.kind l).trans (begun.kind l)⟩, ?_⟩
          rfl

/-- Both list loops take nodes off the front in this way. -/
theorem dropFirst_refines (wf : p.WellFormed) {l : ListIx} {x : α} {rest : List α}
    (content : p.seq (some l) = x :: rest) :
    Refines p (p.dropFirst (some l))
      { p.abs.put (some l) rest with used := p.used - 1 } := by
  obtain ⟨chains, shape⟩ := wf
  rw [shape.seq_eq l] at content
  obtain ⟨n, after, split, -, rfl⟩ := List.map_eq_cons_iff.mp content
  have unlinked := (shape.dropFirst_unlinked split).1
  exact shape.refines_of_released (show chains l = [] ++ n :: after from split)
    (split ▸ unlinked.outside) unlinked.released unlinked.chained

theorem listRemoveFirst_refines (wf : p.WellFormed) (list : ListADT) :
    Refines p (p.listRemoveFirst list).1 (p.abs.listRemoveFirst list).1 ∧
      (p.listRemoveFirst list).2 = (p.abs.listRemoveFirst list).2 := by
  cases list with
  | none => exact ⟨Refines.refl wf, rfl⟩
  | some l =>
      rw [listRemoveFirst, listIsEmpty_eq wf, SeqStore.listIsEmpty, SeqStore.listRemoveFirst,
        abs_seq]
      cases content : p.seq (some l) with
      | nil => exact ⟨Refines.refl wf, rfl⟩
      | cons x rest =>
          have begun : Refines p (p.listToBegin (some l)) p.abs :=
            setCurrent_refines wf (some l) (p.list (some l)).nodes
          have content' : (p.listToBegin (some l)).seq (some l) = x :: rest := by
            rw [← abs_seq, begun.abs, abs_seq, content]
          have dropped := dropFirst_refines begun.wellFormed content'
          rw [← abs_used, begun.abs] at dropped
          exact ⟨⟨dropped.wellFormed, dropped.abs, fun l' =>
            (dropped.kind l').trans (begun.kind l')⟩, rfl⟩

/-- The loop of `FreeList` ends within its fuel and empties the list. -/
theorem dropAll_refines (wf : p.WellFormed) {l : ListIx} {fuel : Nat}
    (enough : (p.seq (some l)).length < fuel) :
    ∃ p', p.dropAll (some l) fuel = some p' ∧
      Refines p p'
        { p.abs.put (some l) [] with used := p.used - (p.seq (some l)).length } := by
  induction fuel generalizing p with
  | zero => simp at enough
  | succ fuel ih =>
      rw [dropAll, listIsEmpty_eq wf, SeqStore.listIsEmpty, abs_seq]
      cases content : p.seq (some l) with
      | nil =>
          have same : p.abs.put (some l) [] = p.abs := by
            rw [SeqStore.put, ← content]
            exact congrArg (fun c => { p.abs with content := c }) (Function.update_eq_self _ _)
          rw [same]
          exact ⟨p, by simp, Refines.refl wf⟩
      | cons x rest =>
          have dropped := dropFirst_refines wf content
          have content' : (p.dropFirst (some l)).seq (some l) = rest := by
            rw [← abs_seq, dropped.abs]
            simp [SeqStore.put]
          have used' : (p.dropFirst (some l)).used = p.used - 1 := by
            rw [← abs_used, dropped.abs]
          obtain ⟨p', run, refines⟩ := ih dropped.wellFormed (by
            rw [content']
            simpa [content] using enough)
          refine ⟨p', by simpa using run, refines.wellFormed, ?_, fun l' =>
            (refines.kind l').trans (dropped.kind l')⟩
          rw [refines.abs, dropped.abs, content', used']
          simp [SeqStore.put, Nat.sub_sub, Nat.add_comm]

theorem length_seq_le (wf : p.WellFormed) (l : ListIx) : (p.seq (some l)).length ≤ maxNodes := by
  obtain ⟨chains, shape⟩ := wf
  simpa [shape.seq_eq l] using shape.length_le l

theorem freeList_refines (wf : p.WellFormed) (list : ListADT) :
    Refines p (p.freeList list) (p.abs.freeList list) := by
  cases list with
  | none =>
      have same : p.freeList none = p := by
        simp [freeList, dropAll, listIsEmpty, Pools.list, nullList, freeListCell]
      rw [same]
      exact Refines.refl wf
  | some l =>
      obtain ⟨p', run, refines⟩ := dropAll_refines wf (l := l)
        (Nat.lt_succ_of_le (length_seq_le wf l))
      rw [freeList, run]
      obtain ⟨chains, shape⟩ := refines.wellFormed
      have cells : (p'.freeListCell (some l)).Shape chains := by
        refine shape.of_same_cells rfl rfl fun l' => ?_
        by_cases same : l' = l <;> simp [freeListCell, same]
      refine ⟨⟨_, cells⟩, ?_, fun l' => ?_⟩
      · have content : p'.abs.content = Function.update p.abs.content l [] :=
          congrArg SeqStore.content refines.abs
        have busy : p'.abs.busy = p.abs.busy := by
          rw [refines.abs]
          rfl
        have used : p'.used = p.used - (p.seq (some l)).length := by
          rw [← abs_used, refines.abs]
        ext : 1
        · change _ = Function.update p.abs.content l []
          rw [← content]
          funext l'
          exact (cells.seq_eq l').trans (shape.seq_eq l').symm
        · funext l'
          have busy' : (p'.lists l').busy = (p.lists l').busy := congrFun busy l'
          by_cases same : l' = l
          · subst same
            simp [freeListCell, SeqStore.freeList, Pools.abs]
          · simp [freeListCell, SeqStore.freeList, Pools.abs, same, busy']
        · exact used
      · by_cases same : l' = l
        · subst same
          simpa [kind, freeListCell] using refines.kind l'
        · simpa [kind, freeListCell, same] using refines.kind l'

/-- Insertion in front, and its failure when every node is busy. An insert at
`NULL` uses up a node. -/
theorem listInsert_refines (wf : p.WellFormed) {list : ListADT} (usable : p.Usable list)
    (x : α) :
    Refines p (p.listInsert list x).1 (p.abs.listInsert list x).1 ∧
      (p.listInsert list x).2 = (p.abs.listInsert list x).2 := by
  rw [SeqStore.listInsert, abs_used]
  cases list with
  | none =>
      have start : (if (p.list none).order = .sorted then p.findNode none x
          else (false, none)) = (false, none) := rfl
      rcases listInsert_eq wf x start with
        ⟨full, unchanged⟩ | ⟨room, n, e, nFree, eFree, inserted⟩
      · rw [unchanged, if_neg full]
        exact ⟨Refines.refl wf, rfl⟩
      · obtain ⟨chains, shape⟩ := wf
        rw [inserted, if_pos room]
        refine ⟨shape.refines_of_spill (filled_taken x _ nFree eFree) rfl ?_, rfl⟩
        intro m busy
        have other : m ≠ n := fun same => by
          rw [same, nFree] at busy
          contradiction
        exact filled_tail x _ other
  | some l =>
      obtain ⟨chains, shape⟩ := wf
      have inserted := shape.insertion l x
      generalize p.listInsert (some l) x = result at inserted
      cases inserted with
      | «exists» sorted =>
          rw [usable.1] at sorted
          contradiction
      | noMem full =>
          rw [if_neg full]
          exact ⟨Refines.refl ⟨chains, shape⟩, rfl⟩
      | stored room split gap linked =>
          obtain rfl := gap.unsorted usable.1
          have refines := shape.refines_of_taken split (split ▸ linked.outside) linked.taken
            linked.chained
          rw [if_pos room, abs_seq, shape.seq_eq l, split]
          exact ⟨refines, rfl⟩

theorem listElementBelongs_eq [DecidableEq α] (wf : p.WellFormed) {list : ListADT}
    (usable : p.Usable list) (x : α) :
    p.listElementBelongs list x = p.abs.listElementBelongs list x := by
  obtain ⟨chains, shape⟩ := wf
  cases list with
  | none => rfl
  | some l =>
      rw [SeqStore.listElementBelongs, abs_seq, shape.seq_eq l]
      rcases shape.listElementBelongs_cases l x with
        ⟨front, n, rest, split, -, meets, answer⟩ | ⟨front, rest, split, misses, answer⟩
      · have value := usable.meets_iff.mp meets
        rw [answer, split, if_pos (by simp [value]), value]
      · rw [answer, split, if_neg (usable.not_mem_of_misses misses)]

/-- Deletion of the first occurrence. -/
theorem listDelete_refines [DecidableEq α] (wf : p.WellFormed) {list : ListADT}
    (usable : p.Usable list) (x : α) :
    Refines p (p.listDelete list x).1 (p.abs.listDelete list x).1 ∧
      (p.listDelete list x).2 = (p.abs.listDelete list x).2 := by
  obtain ⟨chains, shape⟩ := wf
  cases list with
  | none => exact ⟨Refines.refl ⟨chains, shape⟩, rfl⟩
  | some l =>
      have deleted := shape.deletion l x
      rw [SeqStore.listDelete, abs_seq, shape.seq_eq l]
      generalize p.listDelete (some l) x = result at deleted
      cases deleted with
      | noElem split misses =>
          rw [split, if_neg (usable.not_mem_of_misses misses)]
          exact ⟨Refines.refl ⟨chains, shape⟩, rfl⟩
      | @removed _ front rest n split past meets unlinked =>
          have value := usable.meets_iff.mp meets
          have erased : ((front ++ n :: rest).map p.value).erase x =
              (front ++ rest).map p.value := by
            rw [List.map_append, List.map_cons, value,
              List.erase_append_right _ (usable.not_mem_of_goesPast past),
              List.erase_cons_head, List.map_append]
          rw [split, if_pos (by simp [value]), erased]
          exact ⟨shape.refines_of_released split (split ▸ unlinked.outside) unlinked.released
            unlinked.chained, rfl⟩

end Operations

end Pools

end MinixSemaphore.Lists
