import MinixSemaphore.Server.Main
import MinixSemaphore.Server.Outcomes

/-!
# Pairs of lists

Slots and list cells come from two first-fit allocators that know nothing of each
other. A slot always takes two list cells and always frees both, so the cells are
handed out in pairs. This holds in all states, whatever has been asked for.
-/

namespace MinixSemaphore.Server

open MinixSemaphore.Lists
open MinixSemaphore.Names
open MinixSemaphore.Store

/-- A pair of neighbouring list cells. -/
abbrev PairIx := Fin (maxLists / 2)

/-- The first cell of a pair, for a list of processes. -/
def procCell (k : PairIx) : ListIx :=
  ⟨2 * k, by have := k.isLt; simp only [maxLists] at this ⊢; omega⟩

/-- The second cell of a pair, for a list of blocked processes. -/
def blockedCell (k : PairIx) : ListIx :=
  ⟨2 * k + 1, by have := k.isLt; simp only [maxLists] at this ⊢; omega⟩

/-- The pair with the number of a slot. -/
def pairOf (i : SlotIx) : PairIx :=
  ⟨i, Nat.lt_of_lt_of_le i.isLt (by decide)⟩

theorem procCell_inj {k k' : PairIx} : procCell k = procCell k' ↔ k = k' := by
  simp only [procCell, Fin.ext_iff]
  omega

theorem blockedCell_inj {k k' : PairIx} : blockedCell k = blockedCell k' ↔ k = k' := by
  simp only [blockedCell, Fin.ext_iff]
  omega

theorem pairOf_inj {i j : SlotIx} : pairOf i = pairOf j ↔ i = j := by
  simp [pairOf, Fin.ext_iff]

@[simp]
theorem procCell_ne_blockedCell (k k' : PairIx) : procCell k ≠ blockedCell k' := by
  simp only [procCell, blockedCell, ne_eq, Fin.ext_iff]
  omega

@[simp]
theorem blockedCell_ne_procCell (k k' : PairIx) : blockedCell k ≠ procCell k' :=
  (procCell_ne_blockedCell k' k).symm

theorem exists_pair (l : ListIx) : ∃ k, l = procCell k ∨ l = blockedCell k := by
  have bound : (l : Nat) / 2 < maxLists / 2 := by
    have := l.isLt
    simp only [maxLists] at this ⊢
    omega
  refine ⟨⟨l / 2, bound⟩, ?_⟩
  simp only [procCell, blockedCell, Fin.ext_iff]
  omega

/-- A table over sequences. -/
abbrev SeqTable := SemTable (SeqStore Int)

namespace SemTable

/-- The processes that have a slot open. -/
def members (t : SeqTable) (i : SlotIx) : List Int :=
  t.pools.seq (t.semArray i).procList

/-- The processes that are blocked on a slot. -/
def waiters (t : SeqTable) (i : SlotIx) : List Int :=
  t.pools.seq (t.semArray i).blockedList

/-! ## Pairs -/

/-- Lists are used in pairs: a slot points to a pair or was never created, the cells
of a pair are allocated together, and some live slot points to each allocated pair. -/
structure Paired (t : SeqTable) : Prop where
  lists : ∀ i, (t.semArray i).procList = none ∧ (t.semArray i).blockedList = none ∨
    ∃ k, (t.semArray i).procList = some (procCell k) ∧
      (t.semArray i).blockedList = some (blockedCell k)
  together : ∀ k, t.pools.busy (blockedCell k) = t.pools.busy (procCell k)
  backed : ∀ k, t.pools.busy (procCell k) = true →
    ∃ i, 0 < (t.semArray i).refCount ∧ (t.semArray i).procList = some (procCell k)
  counted : ∀ i, 0 ≤ (t.semArray i).refCount

namespace Paired

variable {t : SeqTable}

/-- There are fewer slots than pairs, so some pair is free. -/
theorem exists_free (paired : t.Paired) : ∃ k, t.pools.busy (procCell k) = false := by
  by_contra none
  have all : ∀ k, t.pools.busy (procCell k) = true := by simpa using none
  choose owner owns using fun k => paired.backed k (all k)
  obtain ⟨k, k', differ, same⟩ :=
    Fintype.exists_ne_map_eq_of_card_lt owner (by decide)
  have lists := (owns k).2.symm.trans ((congrArg (fun i => (t.semArray i).procList) same).trans
    (owns k').2)
  exact differ (procCell_inj.mp (Option.some.inj lists))

/-- The first free list cell is the first cell of the first free pair. -/
theorem freeCell_eq (paired : t.Paired) : ∃ k, t.pools.freeCell = some (procCell k) ∧
    t.pools.busy (procCell k) = false ∧ ∀ j < k, t.pools.busy (procCell j) = true := by
  obtain ⟨k₀, free₀⟩ := paired.exists_free
  have found : t.pools.freeCell.isSome := firstFit_isSome_of (i := procCell k₀) (by simp [free₀])
  obtain ⟨l, first⟩ := Option.isSome_iff_exists.mp found
  obtain ⟨free, before⟩ := firstFit_eq_some_iff.mp first
  have busy : ∀ j, j < l → t.pools.busy j = true := fun j less => by simpa using before j less
  obtain ⟨k, rfl | rfl⟩ := exists_pair l
  · refine ⟨k, first, by simpa using free, fun j less => busy _ ?_⟩
    rw [Fin.lt_def] at less ⊢
    simp only [procCell]
    omega
  · have earlier := busy (procCell k) (by
      rw [Fin.lt_def]
      simp only [procCell, blockedCell]
      omega)
    rw [← paired.together k] at earlier
    simp [earlier] at free

/-- Lists of processes and of blocked processes are different lists. -/
theorem blockedList_eq_none (paired : t.Paired) {i j : SlotIx}
    (same : (t.semArray j).blockedList = (t.semArray i).procList) :
    (t.semArray j).blockedList = none := by
  rcases paired.lists j with ⟨-, none⟩ | ⟨k, -, blocked⟩
  · exact none
  · rcases paired.lists i with ⟨none, -⟩ | ⟨k', proc, -⟩
    · exact same.trans none
    · rw [blocked, proc, Option.some.injEq] at same
      exact absurd same (blockedCell_ne_procCell k k')

/-- Slots with the same list of processes have the same list of blocked processes. -/
theorem blockedList_congr (paired : t.Paired) {i j : SlotIx}
    (same : (t.semArray j).procList = (t.semArray i).procList) :
    (t.semArray j).blockedList = (t.semArray i).blockedList := by
  rcases paired.lists j with ⟨proc, blocked⟩ | ⟨k, proc, blocked⟩ <;>
    rcases paired.lists i with ⟨proc', blocked'⟩ | ⟨k', proc', blocked'⟩
  · rw [blocked, blocked']
  · rw [proc, proc'] at same
    contradiction
  · rw [proc, proc'] at same
    contradiction
  · rw [proc, proc', Option.some.injEq, procCell_inj] at same
    rw [blocked, blocked', same]

/-- Nothing is allocated or freed, and no reference is dropped. -/
structure Steady (t t' : SeqTable) : Prop where
  procList : ∀ i, (t'.semArray i).procList = (t.semArray i).procList
  blockedList : ∀ i, (t'.semArray i).blockedList = (t.semArray i).blockedList
  refCount : ∀ i, (t.semArray i).refCount ≤ (t'.semArray i).refCount
  busy : t'.pools.busy = t.pools.busy

theorem steady {t' : SeqTable} (paired : t.Paired) (steady : Steady t t') : t'.Paired := by
  refine ⟨fun i => ?_, fun k => ?_, fun k busy => ?_, fun i => ?_⟩
  · rw [steady.procList, steady.blockedList]
    exact paired.lists i
  · rw [steady.busy]
    exact paired.together k
  · rw [steady.busy] at busy
    obtain ⟨i, live, owns⟩ := paired.backed k busy
    exact ⟨i, live.trans_le (steady.refCount i), (steady.procList i).trans owns⟩
  · exact (paired.counted i).trans (steady.refCount i)

end Paired

end SemTable

namespace Fs

open SemTable

/-- A server over sequences. -/
abbrev SeqFs := Fs (SeqStore Int)

variable {σ : SeqFs}

/-! ## Pairs are kept -/

/-- Writing fields of a slot other than its lists, without dropping references. -/
theorem steady_modSem (i : SlotIx) (f : SemCdt → SemCdt)
    (proc : ∀ s, (f s).procList = s.procList) (blocked : ∀ s, (f s).blockedList = s.blockedList)
    (refs : ∀ s, s.refCount ≤ (f s).refCount) :
    Paired.Steady σ.toSemTable (σ.modSem i f).toSemTable := by
  refine ⟨fun j => ?_, fun j => ?_, fun j => ?_, rfl⟩ <;> by_cases same : j = i <;>
    simp [modSem, same, proc, blocked, refs]

theorem steady_insert (list : ListADT) (p : Int) :
    Paired.Steady σ.toSemTable (σ.insert list p).toSemTable :=
  ⟨fun _ => rfl, fun _ => rfl, fun _ => le_rfl, SeqStore.listInsert_busy _ list p⟩

theorem steady_delete (list : ListADT) (p : Int) :
    Paired.Steady σ.toSemTable (σ.delete list p).toSemTable :=
  ⟨fun _ => rfl, fun _ => rfl, fun _ => le_rfl, SeqStore.listDelete_busy _ list p⟩

theorem steady_takeFirst (list : ListADT) (proc : Int) :
    Paired.Steady σ.toSemTable (σ.takeFirst list proc).1.toSemTable :=
  ⟨fun _ => rfl, fun _ => rfl, fun _ => le_rfl, SeqStore.listRemoveFirst_busy _ list⟩

theorem release_semArray (i : SlotIx) : (σ.release i).semArray =
    Function.update σ.semArray i { σ.semArray i with refCount := 0 } :=
  rfl

/-- Releasing a slot that points to a pair frees and empties this pair. -/
theorem release_pools {i : SlotIx} {k : PairIx} (proc : (σ.semArray i).procList = some (procCell k))
    (blocked : (σ.semArray i).blockedList = some (blockedCell k)) :
    (∀ l, (σ.release i).pools.busy l =
      if l = procCell k ∨ l = blockedCell k then false else σ.pools.busy l) ∧
    ∀ l, (σ.release i).pools.content l =
      if l = procCell k ∨ l = blockedCell k then [] else σ.pools.content l := by
  have pools : (σ.release i).pools =
      (σ.pools.freeList (some (procCell k))).freeList (some (blockedCell k)) := by
    rw [← proc, ← blocked]
    rfl
  rw [pools]
  refine ⟨fun l => ?_, fun l => ?_⟩ <;> by_cases first : l = procCell k <;>
    by_cases second : l = blockedCell k <;> simp [SeqStore.freeList, SeqStore.put, first, second]

/-- Releasing a slot that was never created frees nothing. -/
theorem release_pools_of_none {i : SlotIx} (proc : (σ.semArray i).procList = none)
    (blocked : (σ.semArray i).blockedList = none) : (σ.release i).pools = σ.pools := by
  have pools : (σ.release i).pools = (σ.pools.freeList none).freeList none := by
    rw [← proc]
    nth_rewrite 2 [proc]
    rw [← blocked]
    rfl
  exact pools

theorem paired_release (paired : σ.Paired) (i : SlotIx) : (σ.release i).Paired := by
  have lists : ∀ j, ((σ.release i).semArray j).procList = (σ.semArray j).procList ∧
      ((σ.release i).semArray j).blockedList = (σ.semArray j).blockedList := by
    intro j
    rw [release_semArray]
    by_cases same : j = i <;> simp [same]
  have counted : ∀ j, 0 ≤ ((σ.release i).semArray j).refCount := by
    intro j
    rw [release_semArray]
    by_cases same : j = i <;> simp [same, paired.counted j]
  have kept : ∀ j, j ≠ i → ((σ.release i).semArray j).refCount = (σ.semArray j).refCount := by
    intro j other
    rw [release_semArray, Function.update_of_ne other]
  rcases paired.lists i with ⟨proc, blocked⟩ | ⟨k, proc, blocked⟩
  · have pools := release_pools_of_none proc blocked
    refine ⟨fun j => ?_, ?_, fun k busy => ?_, counted⟩
    · rw [(lists j).1, (lists j).2]
      exact paired.lists j
    · rw [pools]
      exact paired.together
    · rw [pools] at busy
      obtain ⟨j, live, owns⟩ := paired.backed k busy
      have other : j ≠ i := fun same => by
        rw [same, proc] at owns
        contradiction
      exact ⟨j, (kept j other).symm ▸ live, (lists j).1.trans owns⟩
  · obtain ⟨busyEq, -⟩ := release_pools proc blocked
    refine ⟨fun j => ?_, fun k' => ?_, fun k' busy => ?_, counted⟩
    · rw [(lists j).1, (lists j).2]
      exact paired.lists j
    · rw [busyEq, busyEq]
      simp [procCell_inj, blockedCell_inj, paired.together k']
    · rw [busyEq] at busy
      have differ : k' ≠ k := fun same => by simp [same] at busy
      simp only [procCell_inj, differ, procCell_ne_blockedCell, or_self, if_false] at busy
      obtain ⟨j, live, owns⟩ := paired.backed k' busy
      have other : j ≠ i := fun same => by
        rw [same, proc, Option.some.injEq, procCell_inj] at owns
        exact differ owns.symm
      exact ⟨j, (kept j other).symm ▸ live, (lists j).1.trans owns⟩

/-- `σ'` is `σ` with slot `i` pointing to pair `k`, the first free one. -/
structure Made (σ σ' : SeqFs) (i : SlotIx) (k : PairIx) : Prop where
  free : σ.pools.busy (procCell k) = false
  least : ∀ j < k, σ.pools.busy (procCell j) = true
  semArray : σ'.semArray = Function.update σ.semArray i
    { σ.semArray i with
      procList := some (procCell k)
      blockedList := some (blockedCell k) }
  semNameMap : σ'.semNameMap = σ.semNameMap
  busy : ∀ l, σ'.pools.busy l = (decide (l = procCell k ∨ l = blockedCell k) || σ.pools.busy l)
  members : σ'.full = false → σ'.pools.content (procCell k) = [σ.who]
  waiters : σ'.pools.content (blockedCell k) = []
  others : ∀ l, l ≠ procCell k → l ≠ blockedCell k → σ'.pools.content l = σ.pools.content l
  full : σ.full = true → σ'.full = true
  acts : σ'.acts = σ.acts

/-- A store after `NewList` has handed out cell `l`. -/
def allocated (s : SeqStore Int) (l : ListIx) : SeqStore Int :=
  { s.put (some l) [] with busy := Function.update s.busy l true }

theorem newList_eq {l : ListIx} (first : σ.pools.freeCell = some l) (fn : Int → Int → Int) :
    σ.newList fn = (σ.setPools (allocated σ.pools l), some l) := by
  have made : σ.pools.newList fn .unsorted = (allocated σ.pools l, some l) := by
    rw [SeqStore.newList, first]
    rfl
  change (σ.setPools (σ.pools.newList fn .unsorted).1, (σ.pools.newList fn .unsorted).2) = _
  rw [made]

/-- The state in front of the second `NewList` of `makeLists`, if the first has handed
out cell `l`. -/
def halfMade (σ : SeqFs) (i : SlotIx) (l : ListIx) : SeqFs :=
  ((σ.setPools (allocated σ.pools l)).modSem i fun s => { s with procList := some l }).insert
    (some l) σ.who

/-- The first free list cell goes to the list of processes, the next one to the list of
blocked processes; neither `NewList` returns `NULL`. -/
theorem makeLists_eq (paired : σ.Paired) (i : SlotIx) :
    ∃ k, σ.pools.busy (procCell k) = false ∧
      (∀ j < k, σ.pools.busy (procCell j) = true) ∧
      (σ.halfMade i (procCell k)).pools.busy = Function.update σ.pools.busy (procCell k) true ∧
      σ.makeLists i = ((σ.halfMade i (procCell k)).setPools
        (allocated (σ.halfMade i (procCell k)).pools (blockedCell k))).modSem i
          fun s => { s with blockedList := some (blockedCell k) } := by
  obtain ⟨k, first, free, least⟩ := paired.freeCell_eq
  have busy : (σ.halfMade i (procCell k)).pools.busy =
      Function.update σ.pools.busy (procCell k) true :=
    SeqStore.listInsert_busy (allocated σ.pools (procCell k)) (some (procCell k)) σ.who
  have second : (σ.halfMade i (procCell k)).pools.freeCell = some (blockedCell k) := by
    refine firstFit_eq_some_iff.mpr ⟨?_, fun l less => ?_⟩
    · rw [busy, Function.update_of_ne (by simp), paired.together k, free]
      rfl
    · rw [busy]
      by_cases same : l = procCell k
      · simp [same]
      · have earlier : l < procCell k := by
          rw [Fin.lt_def] at less ⊢
          rw [Fin.ext_iff] at same
          simp only [procCell, blockedCell] at less same ⊢
          omega
        have taken := (firstFit_eq_some_iff.mp first).2 l earlier
        simpa [same] using taken
  refine ⟨k, free, least, busy, ?_⟩
  have begun : ((σ.setPools (allocated σ.pools (procCell k))).modSem i
      fun s => { s with procList := some (procCell k) }).insert (some (procCell k))
        ((σ.setPools (allocated σ.pools (procCell k))).modSem i
          fun s => { s with procList := some (procCell k) }).who =
      σ.halfMade i (procCell k) := rfl
  rw [makeLists, newList_eq first]
  simp only
  rw [begun, newList_eq second]

/-- `makeLists` takes both cells of the first free pair. -/
theorem exists_made (paired : σ.Paired) (i : SlotIx) :
    ∃ k, Made σ (σ.makeLists i) i k := by
  obtain ⟨k, free, least, busy, result⟩ := makeLists_eq paired i
  obtain ⟨xs, inserted, stored⟩ :=
    SeqStore.listInsert_rewritten (allocated σ.pools (procCell k)) (procCell k) σ.who
  obtain ⟨τ, τEq⟩ : ∃ τ, τ = σ.halfMade i (procCell k) := ⟨_, rfl⟩
  have pools : τ.pools =
      ((allocated σ.pools (procCell k)).listInsert (some (procCell k)) σ.who).1 := by
    rw [τEq]
    rfl
  rw [← pools] at inserted
  rw [← τEq] at busy result
  have content : ∀ l, (σ.makeLists i).pools.content l =
      if l = blockedCell k then [] else τ.pools.content l := by
    intro l
    rw [result]
    by_cases same : l = blockedCell k <;>
      simp [Fs.modSem, setPools, allocated, SeqStore.put, same]
  refine ⟨k, free, least, ?_, ?_, fun l => ?_, fun notFull => ?_, ?_, fun l proc blocked => ?_,
    fun full => ?_, ?_⟩
  · rw [result, τEq]
    simp [halfMade, Fs.modSem, setPools, Fs.insert]
  · rw [result, τEq]
    rfl
  · rw [result]
    change Function.update τ.pools.busy (blockedCell k) true l = _
    rw [busy]
    by_cases proc : l = procCell k <;> by_cases blocked : l = blockedCell k <;>
      simp [proc, blocked]
  · have status : ((allocated σ.pools (procCell k)).listInsert (some (procCell k)) σ.who).2 ≠
        .noMem := by
      intro noMem
      rw [result, τEq] at notFull
      have noMem' : (ListLib.listInsert (allocated σ.pools (procCell k)) (some (procCell k))
          σ.who).2 = ListStatus.noMem := noMem
      simp [halfMade, Fs.modSem, setPools, Fs.insert, noMem'] at notFull
    rw [content, if_neg (by simp)]
    refine inserted.self.trans ((stored status).trans ?_)
    simp [allocated, SeqStore.put]
  · rw [content, if_pos rfl]
  · rw [content, if_neg blocked]
    have other := inserted.others (some l) (by simpa using proc)
    refine Eq.trans other ?_
    simp [allocated, SeqStore.put, proc]
  · rw [result, τEq]
    simp [halfMade, Fs.modSem, setPools, Fs.insert, full]
  · rw [result, τEq]
    rfl

/-- A free slot may be marked as used before it gets lists. -/
theorem paired_modSem_of_idle (paired : σ.Paired) {i : SlotIx}
    (idle : (σ.semArray i).refCount = 0) (f : SemCdt → SemCdt)
    (proc : ∀ s, (f s).procList = s.procList) (blocked : ∀ s, (f s).blockedList = s.blockedList)
    (refs : ∀ s, (f s).refCount = 1) : (σ.modSem i f).Paired := by
  refine paired.steady ⟨fun j => ?_, fun j => ?_, fun j => ?_, rfl⟩ <;>
    by_cases same : j = i <;> simp [Fs.modSem, same, proc, blocked, refs, idle]

/-- A free slot may be given to a new semaphore. -/
theorem paired_makeLists (paired : σ.Paired) {i : SlotIx} (idle : (σ.semArray i).refCount = 0)
    (f : SemCdt → SemCdt) (proc : ∀ s, (f s).procList = s.procList)
    (blocked : ∀ s, (f s).blockedList = s.blockedList) (refs : ∀ s, (f s).refCount = 1) :
    ((σ.modSem i f).makeLists i).Paired := by
  have begun := paired_modSem_of_idle paired idle f proc blocked refs
  obtain ⟨k, made⟩ := exists_made begun i
  have others : ∀ j, j ≠ i → ((σ.modSem i f).makeLists i).semArray j = σ.semArray j := by
    intro j other
    rw [made.semArray, Function.update_of_ne other]
    simp [Fs.modSem, other]
  have self : ((σ.modSem i f).makeLists i).semArray i = { f (σ.semArray i) with
      procList := some (procCell k), blockedList := some (blockedCell k) } := by
    rw [made.semArray, Function.update_self]
    simp [Fs.modSem]
  refine ⟨fun j => ?_, fun k' => ?_, fun k' busy => ?_, fun j => ?_⟩
  · by_cases same : j = i
    · rw [same, self]
      exact Or.inr ⟨k, rfl, rfl⟩
    · rw [others j same]
      exact paired.lists j
  · rw [made.busy, made.busy]
    simp [procCell_inj, blockedCell_inj, begun.together k']
  · by_cases same : k' = k
    · refine ⟨i, ?_, ?_⟩
      · rw [self]
        simp [refs]
      · rw [self, same]
    · have before : σ.pools.busy (procCell k') = true := by
        change (σ.modSem i f).pools.busy (procCell k') = true
        rw [made.busy] at busy
        simpa [procCell_inj, same] using busy
      obtain ⟨j, live, owns⟩ := paired.backed k' before
      have other : j ≠ i := fun same => by
        rw [same, idle] at live
        exact lt_irrefl _ live
      rw [← others j other] at live owns
      exact ⟨j, live, owns⟩
  · by_cases same : j = i
    · rw [same, self]
      simp [refs]
    · rw [others j same]
      exact paired.counted j

/-- A slot that is counted up keeps its lists. -/
theorem paired_grow (paired : σ.Paired) (i : SlotIx) :
    (σ.modSem i fun s => { s with refCount := s.refCount + 1 }).Paired :=
  paired.steady (steady_modSem i (fun s => { s with refCount := s.refCount + 1 })
    (fun _ => rfl) (fun _ => rfl) fun s => by simp)

theorem paired_mark (paired : σ.Paired) (i : SlotIx) :
    (σ.modSem i fun s => { s with unlinked := true }).Paired :=
  paired.steady (steady_modSem i (fun s => { s with unlinked := true })
    (fun _ => rfl) (fun _ => rfl) fun _ => le_rfl)

theorem paired_valued (paired : σ.Paired) (i : SlotIx) (mode : Int) (value : BitVec 32) :
    (σ.modSem i fun s => { s with permision := mode, semCount := value.toInt }).Paired :=
  paired.steady (steady_modSem i
    (fun s => { s with permision := mode, semCount := value.toInt })
    (fun _ => rfl) (fun _ => rfl) fun _ => le_rfl)

theorem paired_addCount (paired : σ.Paired) (i : SlotIx) (amount : Int) :
    (σ.addCount i amount).Paired :=
  paired.steady (steady_modSem i (fun s => { s with semCount := s.semCount + amount })
    (fun _ => rfl) (fun _ => rfl) fun _ => le_rfl)

/-- The state in which `sem_create` makes the lists of its slot. -/
theorem paired_begun (paired : σ.Paired) {i : SlotIx} (idle : (σ.semArray i).refCount = 0)
    (mode : Int) (value : BitVec 32) : ((σ.modSem i fun s =>
      { s with permision := mode, semCount := value.toInt }).modSem i fun s =>
        { s with refCount := 1, unlinked := false }).Paired := by
  apply paired_modSem_of_idle (paired_valued paired i mode value) _
    (fun s => { s with refCount := 1, unlinked := false }) (fun _ => rfl) (fun _ => rfl)
    fun _ => rfl
  simpa [Fs.modSem] using idle

theorem paired_semCreate (paired : σ.Paired) (mode : Int) (value : BitVec 32) :
    (σ.semCreate mode value).1.Paired := by
  have ends := σ.semCreate_ends mode value
  generalize σ.semCreate mode value = result at ends ⊢
  cases ends with
  | noSlot => exact paired
  | stale => exact paired
  | tooLarge => exact paired_valued paired _ mode value
  | made first =>
      have idle := idle_of_first first
      exact paired_makeLists (paired_valued paired _ mode value)
        (by simpa [Fs.modSem] using idle) (fun s => { s with refCount := 1, unlinked := false })
        (fun _ => rfl) (fun _ => rfl) fun _ => rfl

theorem paired_semOpen (paired : σ.Paired) (name : CString) (oflag : BitVec 32) (mod : Int)
    (val : BitVec 32) : (σ.semOpen name oflag mod val).1.Paired := by
  have created := paired_semCreate (σ := σ.setErrno 0) paired mod val
  have ends := σ.semOpen_ends name oflag mod val
  generalize σ.semOpen name oflag mod val = result at ends ⊢
  cases ends with
  | absent => exact paired
  | tooLong => exact paired
  | taken => exact paired
  | uncovered => exact paired
  | @joined i =>
      exact (paired_grow (σ := σ.setErrno 0) paired i).steady (steady_insert _ _)
  | notMade _ _ _ _ result =>
      rw [result] at created
      exact created
  | made _ _ _ _ result =>
      rw [result] at created
      exact created.steady ⟨fun _ => rfl, fun _ => rfl, fun _ => le_rfl, rfl⟩

theorem paired_semInit (paired : σ.Paired) (pshared : Int) (value : BitVec 32) :
    (σ.semInit pshared value).1.Paired := by
  have created := paired_semCreate paired 0 value
  have ends := σ.semInit_ends pshared value
  generalize σ.semInit pshared value = result at ends ⊢
  cases ends with
  | notMade result =>
      rw [result] at created
      exact created
  | made result =>
      rw [result] at created
      exact paired_mark created _

theorem paired_semDestroy (paired : σ.Paired) (handle : Int) :
    (σ.semDestroy handle).1.Paired := by
  have ends := σ.semDestroy_ends handle
  generalize σ.semDestroy handle = result at ends ⊢
  cases ends with
  | refused => exact paired
  | busy => exact paired
  | destroyed => exact paired_release paired _

theorem paired_semUnlink (paired : σ.Paired) (name : CString) :
    (σ.semUnlink name).1.Paired := by
  have ends := σ.semUnlink_ends name
  generalize σ.semUnlink name = result at ends ⊢
  cases ends with
  | tooLong => exact paired
  | absent => exact paired
  | stranger => exact paired
  | unused => exact paired
  | unlinked =>
      exact (paired_mark paired _).steady ⟨fun _ => rfl, fun _ => rfl, fun _ => le_rfl, rfl⟩

theorem paired_semOpenAll (paired : σ.Paired) (pPslot cPslot : Int) :
    (σ.semOpenAll pPslot cPslot).Paired := by
  apply sweep_invariant (I := fun σ : SeqFs => σ.Paired) paired
  intro σ i paired
  have ends := σ.openAllAt_ends pPslot cPslot i
  generalize openAllAt pPslot cPslot σ i = result at ends ⊢
  cases ends with
  | stranger => exact paired
  | inherited => exact (paired_grow paired i).steady (steady_insert _ _)

theorem paired_semClose (paired : σ.Paired) (handle : Int) : (σ.semClose handle).1.Paired := by
  have deleted : ∀ i, (σ.delete (σ.semArray i).procList σ.who).Paired := fun i =>
    paired.steady (steady_delete (σ.semArray i).procList σ.who)
  have ends := σ.semClose_ends handle
  generalize σ.semClose handle = result at ends ⊢
  cases ends with
  | refused => exact paired
  | last => exact paired_release (deleted _) _
  | left => exact deleted _

theorem paired_semCloseAll (paired : σ.Paired) (pslot : Int) : (σ.semCloseAll pslot).Paired :=
  sweep_invariant (I := fun σ : SeqFs => σ.Paired) (b := σ.setWho pslot) paired
    fun _ i paired => paired_semClose paired (i : Nat)

theorem paired_semWait (paired : σ.Paired) (handle : Int) : (σ.semWait handle).1.Paired := by
  have ends := σ.semWait_ends handle
  generalize σ.semWait handle = result at ends ⊢
  cases ends with
  | refused => exact paired
  | queued =>
      exact paired_addCount (paired.steady (steady_insert (σ := (σ.setErrno 0).setDontReply true)
        _ _)) _ (-1)
  | passed => exact paired_addCount (σ := σ.setErrno 0) paired _ (-1)

theorem paired_semTrywait (paired : σ.Paired) (handle : Int) :
    (σ.semTrywait handle).1.Paired := by
  have ends := σ.semTrywait_ends handle
  generalize σ.semTrywait handle = result at ends ⊢
  cases ends with
  | refused => exact paired
  | again => exact paired
  | tried => exact paired_addCount (σ := σ.setErrno 0) paired _ (-1)

theorem paired_semPost (paired : σ.Paired) (handle proc : Int) :
    (σ.semPost handle proc).Paired := by
  have ends := σ.semPost_ends handle proc
  generalize σ.semPost handle proc = result at ends ⊢
  cases ends with
  | refused => exact paired
  | @woken i first _ _ took =>
      have taken := paired.steady (steady_takeFirst (σ := σ.setErrno 0)
        (σ.semArray i).blockedList proc)
      rw [took] at taken
      exact paired_addCount (σ := first.1.semWake first.2 0) taken i 1
  | counted => exact paired_addCount (σ := σ.setErrno 0) paired _ 1

theorem paired_semGetvalue (paired : σ.Paired) (handle : Int) :
    (σ.semGetvalue handle).1.Paired := by
  have ends := σ.semGetvalue_ends handle
  generalize σ.semGetvalue handle = result at ends ⊢
  cases ends with
  | refused => exact paired
  | read => exact paired

theorem paired_dispatch (paired : σ.Paired) (m : Message) (g : Garbage) :
    (σ.dispatch m g).1.Paired := by
  rw [dispatch]
  cases Funcion.ofInt m.funcion with
  | none => exact paired
  | some funcion =>
      cases funcion with
      | semOpen => exact paired_semOpen paired _ _ _ _
      | semClose => exact paired_semClose paired _
      | semInit => exact paired_semInit paired _ _
      | semWait => exact paired_semWait paired _
      | semPost => exact paired_semPost paired _ _
      | semUlink => exact paired_semUnlink paired _
      | semGetval => exact paired_semGetvalue paired _
      | semTrywait => exact paired_semTrywait paired _
      | semDestroy => exact paired_semDestroy paired _
      | semTimedwait => exact paired

/-- Pairs are kept by every round of the main loop, whatever is asked. -/
theorem paired_step (paired : σ.Paired) (e : Event) : (σ.step e).Paired := by
  have served : ((σ.getWork e.source).callVector e).1.Paired := by
    cases e with
    | semaph who m g => exact paired_dispatch (σ := σ.getWork who) paired m g
    | fork parent child => exact paired_semOpenAll (σ := σ.getWork mmProcNr) paired parent child
    | exec slot => exact paired_semCloseAll (σ := σ.getWork mmProcNr) paired slot
    | exit slot => exact paired_semCloseAll (σ := σ.getWork mmProcNr) paired slot
  rw [Fs.step]
  split <;> exact served

theorem start_paired : (Fs.start SeqStore.empty).Paired where
  lists _ := Or.inl ⟨rfl, rfl⟩
  together _ := rfl
  backed _ busy := by simp [Fs.start, initSemServer, SemTable.zeroed, SeqStore.empty] at busy
  counted _ := le_rfl

end Fs

end MinixSemaphore.Server
