import MinixSemaphore.Lists.Calls

/-!
# Elements that come and go

An element that some lists do not have is put into them and taken out again. A delete
takes the first occurrence, and that is always a node that an insert took. The nodes that
were in use before keep their elements, and when the element is in none of the lists any
more, the cells in use are the ones that were in use at first.
-/

namespace MinixSemaphore.Lists

open MinixSemaphore.Store

universe v

namespace Pools

variable {α : Type v} [Inhabited α] {p p' p'' : Pools α} {hosts : Set ListIx} {x : α}
  {l : ListIx} {n m : NodeIx}

/-- The node holds `x` in one of the lists. -/
def Holds (p : Pools α) (hosts : Set ListIx) (x : α) (n : NodeIx) : Prop :=
  ∃ l ∈ hosts, n ∈ p.cells l ∧ p.value n = x

theorem not_holds_of_notMem (outsider : ∀ l ∈ hosts, x ∉ p.seq (some l)) (n : NodeIx) :
    ¬p.Holds hosts x n := by
  rintro ⟨l, host, cell, value⟩
  apply outsider l host
  rw [seq_eq_map, ← value]
  exact List.mem_map_of_mem cell

/-! ## One insert and one delete -/

section Steps

variable {front rest : List NodeIx} {e : ElemIx}

theorem Linked.holds_iff (linked : Linked p p' l front n rest e x) (wf : p.WellFormed)
    (split : p.cells l = front ++ rest) (host : l ∈ hosts) :
    p'.Holds hosts x m ↔ m = n ∨ p.Holds hosts x m := by
  have own := linked.cells_eq wf split
  have kept : ∀ {l' k}, k ∈ p.cells l' → p'.value k = p.value k := fun {l' k} cell =>
    linked.taken.value_of_busy wf.shape (wf.shape.busy l' k cell)
  constructor
  · rintro ⟨l', host', cell, value⟩
    by_cases same : l' = l
    · rw [same, own] at cell
      by_cases new : m = n
      · exact Or.inl new
      · right
        have old : m ∈ p.cells l := by
          rw [split]
          simp only [List.mem_append, List.mem_cons] at cell ⊢
          tauto
        exact ⟨l, host, old, (kept old).symm.trans value⟩
    · right
      rw [((linked.rewrites wf split).others l' fun eq => same (Option.some.inj eq).symm).cells]
        at cell
      exact ⟨l', host', cell, (kept cell).symm.trans value⟩
  · rintro (rfl | ⟨l', host', cell, value⟩)
    · refine ⟨l, host, ?_, linked.taken.value_self⟩
      rw [own]
      simp
    · refine ⟨l', host', ?_, (kept cell).trans value⟩
      by_cases same : l' = l
      · rw [same, split] at cell
        rw [same, own]
        simp only [List.mem_append, List.mem_cons] at cell ⊢
        tauto
      · rwa [((linked.rewrites wf split).others l' fun eq =>
          same (Option.some.inj eq).symm).cells]

theorem Unlinked.holds_iff (unlinked : Unlinked p p' l front n rest) (wf : p.WellFormed)
    (split : p.cells l = front ++ n :: rest) :
    p'.Holds hosts x m ↔ m ≠ n ∧ p.Holds hosts x m := by
  have own := unlinked.cells_eq wf split
  have here : n ∈ p.cells l := by
    rw [split]
    simp
  have nodup := (wf.shape.chained l).nodup
  rw [split] at nodup
  have others : ∀ {l'}, l' ≠ l → p'.cells l' = p.cells l' := fun {l'} other =>
    ((unlinked.rewrites wf split).others l' fun eq => other (Option.some.inj eq).symm).cells
  constructor
  · rintro ⟨l', host, cell, value⟩
    rw [unlinked.released.value] at value
    by_cases same : l' = l
    · rw [same, own] at cell
      constructor
      · rintro rfl
        exact (List.nodup_middle.mp nodup).notMem cell
      · refine ⟨l', host, ?_, value⟩
        rw [same, split]
        simp only [List.mem_append, List.mem_cons] at cell ⊢
        tauto
    · rw [others same] at cell
      constructor
      · rintro rfl
        exact same (wf.shape.apart l' l m cell here)
      · exact ⟨l', host, cell, value⟩
  · rintro ⟨other, l', host, cell, value⟩
    refine ⟨l', host, ?_, (unlinked.released.value m).trans value⟩
    by_cases same : l' = l
    · rw [same, split] at cell
      rw [same, own]
      simp only [List.mem_append, List.mem_cons] at cell ⊢
      tauto
    · rwa [others same]

end Steps

/-! ## Any number of them -/

/-- `p'` is `p`, except that `x` has been put into some of the lists, in nodes that were
free. -/
structure Hosts (p p' : Pools α) (hosts : Set ListIx) (x : α) : Prop where
  wellFormed : p'.WellFormed
  kind : ∀ l, p'.kind l = p.kind l
  listBusy : ∀ l, (p'.lists l).busy = (p.lists l).busy
  nodeBusy : ∀ n, (p'.nodes n).busy = true ↔ (p.nodes n).busy = true ∨ p'.Holds hosts x n
  guest : ∀ n, p'.Holds hosts x n → (p.nodes n).busy = false
  element : ∀ n, (p.nodes n).busy = true →
    (p'.nodes n).node.element = (p.nodes n).node.element

namespace Hosts

theorem refl (wf : p.WellFormed) (outsider : ∀ l ∈ hosts, x ∉ p.seq (some l)) :
    Hosts p p hosts x := by
  have nobody := not_holds_of_notMem outsider
  constructor
  · exact wf
  · exact fun _ => rfl
  · exact fun _ => rfl
  · exact fun n => (or_iff_left (nobody n)).symm
  · exact fun n holds => absurd holds (nobody n)
  · exact fun _ _ => rfl

theorem unsorted (hosted : Hosts p p' hosts x) (unsorted : p.Unsorted l) : p'.Unsorted l := by
  rw [Unsorted, hosted.kind]
  exact unsorted

theorem listInsert (hosted : Hosts p p' hosts x) (host : l ∈ hosts) :
    Hosts p (p'.listInsert (some l) x).1 hosts x := by
  have wf := hosted.wellFormed
  have inserted := wf.shape.insertion l x
  generalize p'.listInsert (some l) x = result at inserted
  cases inserted with
  | «exists» => exact hosted
  | noMem => exact hosted
  | @stored q _ _ n e room split gap linked =>
      have holds : ∀ m, q.Holds hosts x m ↔ m = n ∨ p'.Holds hosts x m := fun m =>
        linked.holds_iff wf split host
      have spare : (p.nodes n).busy = false := by
        by_contra busy
        have busy' := (hosted.nodeBusy n).mpr (Or.inl (by simpa using busy))
        rw [linked.taken.nodeFree] at busy'
        contradiction
      constructor
      · exact (linked.rewrites wf split).wellFormed
      · exact fun l' => (linked.outside.kind l').trans (hosted.kind l')
      · exact fun l' => (linked.outside.listBusy l').trans (hosted.listBusy l')
      · intro m
        rw [linked.taken.nodeBusy, holds, Bool.or_eq_true, decide_eq_true_iff, hosted.nodeBusy]
        tauto
      · intro m held
        rcases (holds m).mp held with rfl | held
        · exact spare
        · exact hosted.guest m held
      · intro m busy
        have other : m ≠ n := by
          rintro rfl
          rw [spare] at busy
          contradiction
        exact (linked.taken.element m).trans ((if_neg other).trans (hosted.element m busy))

theorem listDelete (hosted : Hosts p p' hosts x) (unsorted : p.Unsorted l) (host : l ∈ hosts) :
    Hosts p (p'.listDelete (some l) x).1 hosts x := by
  have wf := hosted.wellFormed
  have deleted := wf.shape.deletion l x
  generalize p'.listDelete (some l) x = result at deleted
  cases deleted with
  | noElem => exact hosted
  | @removed q _ _ n split past meets unlinked =>
      have holds : ∀ m, q.Holds hosts x m ↔ m ≠ n ∧ p'.Holds hosts x m := fun m =>
        unlinked.holds_iff wf split
      -- the node that goes is not one of those that were in use at first
      have held : p'.Holds hosts x n := by
        refine ⟨l, host, ?_, (hosted.unsorted unsorted).meets_iff.mp meets⟩
        rw [split]
        simp
      have spare := hosted.guest n held
      constructor
      · exact (unlinked.rewrites wf split).wellFormed
      · exact fun l' => (unlinked.outside.kind l').trans (hosted.kind l')
      · exact fun l' => (unlinked.outside.listBusy l').trans (hosted.listBusy l')
      · intro m
        rw [unlinked.released.nodeBusy, holds, Bool.and_eq_true, decide_eq_true_iff,
          hosted.nodeBusy]
        have other : (p.nodes m).busy = true → m ≠ n := by
          rintro busy rfl
          rw [spare] at busy
          contradiction
        tauto
      · exact fun m held => hosted.guest m ((holds m).mp held).2
      · exact fun m busy => (unlinked.released.element m).trans (hosted.element m busy)

/-- Once the element is gone, the nodes in use are those that were in use at first. -/
theorem nodes_eq (hosted : Hosts p p' hosts x) (gone : ∀ l ∈ hosts, x ∉ p'.seq (some l))
    (n : NodeIx) : (p'.nodes n).busy = (p.nodes n).busy := by
  rw [Bool.eq_iff_iff, hosted.nodeBusy]
  exact or_iff_left (not_holds_of_notMem gone n)

/-- And so are the elements, since each of them belongs to a node. -/
theorem elements_eq (hosted : Hosts p p' hosts x) (wf : p.WellFormed)
    (gone : ∀ l ∈ hosts, x ∉ p'.seq (some l)) (e : ElemIx) :
    (p'.elements e).busy = (p.elements e).busy := by
  have owned : ∀ {q : Pools α}, q.WellFormed → ((q.elements e).busy = true ↔
      ∃ n, (q.nodes n).busy = true ∧ (q.nodes n).node.element = some e) := by
    intro q wf
    constructor
    · exact wf.shape.backed e
    · rintro ⟨n, busy, element⟩
      obtain ⟨d, owns, dBusy⟩ := wf.shape.owns n busy
      obtain rfl : d = e := Option.some.inj (owns.symm.trans element)
      exact dBusy
  rw [Bool.eq_iff_iff, owned hosted.wellFormed, owned wf]
  apply exists_congr
  intro n
  rw [hosted.nodes_eq gone]
  apply and_congr_right
  intro busy
  rw [hosted.element n busy]

end Hosts

end Pools

end MinixSemaphore.Lists
