import MinixSemaphore.Semaphore.History
import MinixSemaphore.Server.Pairs

/-!
# Who owns the lists and the names

As long as no slot is destroyed while it has a name, the pair of a slot has the
number of the slot. No list then belongs to two slots, a slot is live exactly when
its lists are allocated, and an entry of the name map denotes the live slot it was
made for. What a slot shows of its semaphore is then its own, and an operation on
one slot leaves the others alone.
-/

namespace MinixSemaphore.Server

open MinixSemaphore.Lists
open MinixSemaphore.Names
open MinixSemaphore.Store
open MinixSemaphore.Semaphore

universe u

namespace SemTable

/-- The slot with the same number owns a pair, for as long as it is live, and
entries of the name map denote live slots with a name. -/
structure Owned (t : SeqTable) : Prop where
  lists : ∀ i, (t.semArray i).procList = none ∧ (t.semArray i).blockedList = none ∨
    (t.semArray i).procList = some (procCell (pairOf i)) ∧
      (t.semArray i).blockedList = some (blockedCell (pairOf i))
  counted : ∀ i, 0 ≤ (t.semArray i).refCount
  procBusy : ∀ i, t.pools.busy (procCell (pairOf i)) = true ↔ 0 < (t.semArray i).refCount
  blockedBusy : ∀ i, t.pools.busy (blockedCell (pairOf i)) = true ↔ 0 < (t.semArray i).refCount
  spare : ∀ l : ListIx, 2 * initialSem ≤ (l : Nat) → t.pools.busy l = false
  created : ∀ i, 0 < (t.semArray i).refCount → (t.semArray i).procList ≠ none
  idle : ∀ i, (t.semArray i).refCount = 0 → t.members i = [] ∧ t.waiters i = []
  named : ∀ e, t.semNameMap.occupied e = true →
    0 < (t.semArray (t.semNameMap.entryArray e).value).refCount ∧
      (t.semArray (t.semNameMap.entryArray e).value).unlinked = false
  apart : ∀ e e', t.semNameMap.occupied e = true → t.semNameMap.occupied e' = true →
    (t.semNameMap.entryArray e).value = (t.semNameMap.entryArray e').value → e = e'

/-- No entry of the name map denotes the slot. -/
def Nameless {P : Type u} (t : SemTable P) (i : SlotIx) : Prop :=
  ∀ e, t.semNameMap.occupied e = true → (t.semNameMap.entryArray e).value ≠ i

instance {P : Type u} (t : SemTable P) (i : SlotIx) : Decidable (t.Nameless i) :=
  inferInstanceAs (Decidable (∀ e, t.semNameMap.occupied e = true →
    (t.semNameMap.entryArray e).value ≠ i))

/-- The table fits its history: the slot an entry denotes holds the semaphore the
entry was made for, and every slot that was ever created has lists. -/
structure Rooted (log : List Act) (t : SeqTable) : Prop where
  origin : ∀ e, t.semNameMap.occupied e = true →
    LastMade log (t.semNameMap.entryArray e).value (some e)
  pointed : ∀ a ∈ log, a.deed.creates = true → (t.semArray a.place).procList ≠ none

namespace Owned

variable {t : SeqTable} {i j : SlotIx}

theorem live_of_mem (owned : t.Owned) {p : Int} (mem : p ∈ t.members i) :
    0 < (t.semArray i).refCount := by
  rcases (owned.counted i).lt_or_eq with live | idle
  · exact live
  · rw [(owned.idle i idle.symm).1] at mem
    simp at mem

theorem procList_eq (owned : t.Owned) (live : 0 < (t.semArray i).refCount) :
    (t.semArray i).procList = some (procCell (pairOf i)) := by
  rcases owned.lists i with ⟨none, -⟩ | ⟨cell, -⟩
  · exact absurd none (owned.created i live)
  · exact cell

theorem blockedList_eq (owned : t.Owned) (live : 0 < (t.semArray i).refCount) :
    (t.semArray i).blockedList = some (blockedCell (pairOf i)) := by
  rcases owned.lists i with ⟨none, -⟩ | ⟨-, cell⟩
  · exact absurd none (owned.created i live)
  · exact cell

theorem procList_cases (owned : t.Owned) (j : SlotIx) : (t.semArray j).procList = none ∨
    (t.semArray j).procList = some (procCell (pairOf j)) :=
  (owned.lists j).imp And.left And.left

theorem blockedList_cases (owned : t.Owned) (j : SlotIx) : (t.semArray j).blockedList = none ∨
    (t.semArray j).blockedList = some (blockedCell (pairOf j)) :=
  (owned.lists j).imp And.right And.right

/-- The lists of a live slot are no other lists of the table. -/
theorem procList_ne (owned : t.Owned) (live : 0 < (t.semArray i).refCount) (other : j ≠ i) :
    (t.semArray j).procList ≠ (t.semArray i).procList := by
  rw [owned.procList_eq live]
  rcases owned.procList_cases j with list | list <;>
    simp [list, procCell_inj, pairOf_inj, other]

theorem blockedList_ne_procList (owned : t.Owned) (live : 0 < (t.semArray i).refCount)
    (j : SlotIx) : (t.semArray j).blockedList ≠ (t.semArray i).procList := by
  rw [owned.procList_eq live]
  rcases owned.blockedList_cases j with list | list <;> simp [list]

theorem blockedList_ne (owned : t.Owned) (live : 0 < (t.semArray i).refCount) (other : j ≠ i) :
    (t.semArray j).blockedList ≠ (t.semArray i).blockedList := by
  rw [owned.blockedList_eq live]
  rcases owned.blockedList_cases j with list | list <;>
    simp [list, blockedCell_inj, pairOf_inj, other]

theorem procList_ne_blockedList (owned : t.Owned) (live : 0 < (t.semArray i).refCount)
    (j : SlotIx) : (t.semArray j).procList ≠ (t.semArray i).blockedList := by
  rw [owned.blockedList_eq live]
  rcases owned.procList_cases j with list | list <;> simp [list]

/-- A pair that is in use belongs to a slot. -/
theorem exists_slot {k : PairIx} (spare : ∀ l : ListIx, 2 * initialSem ≤ (l : Nat) →
    t.pools.busy l = false) (busy : t.pools.busy (procCell k) = true) : ∃ i, k = pairOf i := by
  by_cases inside : (k : Nat) < initialSem
  · exact ⟨⟨k, inside⟩, rfl⟩
  · rw [spare (procCell k) (Nat.mul_le_mul_left 2 (Nat.le_of_not_lt inside))] at busy
    contradiction

theorem paired (owned : t.Owned) : t.Paired where
  lists i := (owned.lists i).imp_right fun cells => ⟨_, cells⟩
  together k := by
    by_cases inside : (k : Nat) < initialSem
    · have proc := owned.procBusy ⟨k, inside⟩
      have blocked := owned.blockedBusy ⟨k, inside⟩
      exact Bool.eq_iff_iff.mpr (blocked.trans proc.symm)
    · have bound := Nat.mul_le_mul_left 2 (Nat.le_of_not_lt inside)
      rw [owned.spare (procCell k) bound,
        owned.spare (blockedCell k) (bound.trans (Nat.le_succ _))]
  backed k busy := by
    obtain ⟨i, rfl⟩ := exists_slot owned.spare busy
    have live := (owned.procBusy i).mp busy
    exact ⟨i, live, owned.procList_eq live⟩
  counted := owned.counted

end Owned

end SemTable

namespace Fs

open SemTable

variable {σ : SeqFs} {i : SlotIx} {list : ListADT} {p : Int}

@[simp]
theorem modSem_pools (i : SlotIx) (f : SemCdt → SemCdt) : (σ.modSem i f).pools = σ.pools :=
  rfl

@[simp]
theorem modSem_semNameMap (i : SlotIx) (f : SemCdt → SemCdt) :
    (σ.modSem i f).semNameMap = σ.semNameMap :=
  rfl

/-! ## What keeps the lists owned -/

/-- Writing fields of a slot other than its lists. A slot with a name keeps it. -/
theorem owned_modSem (owned : σ.Owned) (i : SlotIx) (f : SemCdt → SemCdt)
    (proc : (f (σ.semArray i)).procList = (σ.semArray i).procList)
    (blocked : (f (σ.semArray i)).blockedList = (σ.semArray i).blockedList)
    (refs : 0 < (f (σ.semArray i)).refCount ↔ 0 < (σ.semArray i).refCount)
    (counted : 0 ≤ (f (σ.semArray i)).refCount)
    (name : (f (σ.semArray i)).unlinked = (σ.semArray i).unlinked ∨ σ.Nameless i) :
    (σ.modSem i f).Owned := by
  have procs : ∀ j, ((σ.modSem i f).semArray j).procList = (σ.semArray j).procList := by
    intro j
    by_cases same : j = i <;> simp [modSem, same, proc]
  have blockeds : ∀ j, ((σ.modSem i f).semArray j).blockedList = (σ.semArray j).blockedList := by
    intro j
    by_cases same : j = i <;> simp [modSem, same, blocked]
  have lives : ∀ j, 0 < ((σ.modSem i f).semArray j).refCount ↔ 0 < (σ.semArray j).refCount := by
    intro j
    by_cases same : j = i <;> simp [modSem, same, refs]
  have counteds : ∀ j, 0 ≤ ((σ.modSem i f).semArray j).refCount := by
    intro j
    by_cases same : j = i <;> simp [modSem, same, counted, owned.counted j]
  refine ⟨fun j => ?_, counteds, fun j => ?_, fun j => ?_, owned.spare, fun j live => ?_,
    fun j idle => ?_, fun e occupied => ?_, owned.apart⟩
  · rw [procs, blockeds]
    exact owned.lists j
  · exact (owned.procBusy j).trans (lives j).symm
  · exact (owned.blockedBusy j).trans (lives j).symm
  · rw [procs]
    exact owned.created j ((lives j).mp live)
  · have idle' : (σ.semArray j).refCount = 0 := by
      refine le_antisymm (not_lt.mp fun live => ?_) (owned.counted j)
      exact lt_irrefl _ (idle ▸ (lives j).mpr live)
    rw [SemTable.members, SemTable.waiters, procs, blockeds]
    exact owned.idle j idle'
  · obtain ⟨live, linked⟩ := owned.named e occupied
    refine ⟨(lives _).mpr live, ?_⟩
    by_cases same : (σ.semNameMap.entryArray e).value = i
    · rcases name with kept | nameless
      · have linked' : (σ.semArray i).unlinked = false := same ▸ linked
        simpa [modSem, same, kept] using linked'
      · exact absurd same (nameless e occupied)
    · simpa [modSem, same] using linked

/-- Rewriting one of the lists of a live slot. -/
theorem owned_rewritten {s : SeqStore Int} {xs : List Int} (owned : σ.Owned)
    (live : 0 < (σ.semArray i).refCount)
    (mine : list = (σ.semArray i).procList ∨ list = (σ.semArray i).blockedList)
    (rewritten : SeqStore.Rewritten σ.pools s list xs) : (σ.setPools s).Owned := by
  refine ⟨owned.lists, owned.counted, fun j => ?_, fun j => ?_, fun l bound => ?_,
    owned.created, fun j idle => ?_, owned.named, owned.apart⟩
  · change s.busy _ = true ↔ _
    rw [rewritten.busy]
    exact owned.procBusy j
  · change s.busy _ = true ↔ _
    rw [rewritten.busy]
    exact owned.blockedBusy j
  · change s.busy l = false
    rw [rewritten.busy]
    exact owned.spare l bound
  · have idle : (σ.semArray j).refCount = 0 := idle
    have other : j ≠ i := fun same => by
      rw [same] at idle
      exact lt_irrefl _ (idle ▸ live)
    have procOther : (σ.semArray j).procList ≠ list := by
      rcases mine with rfl | rfl
      · exact owned.procList_ne live other
      · exact owned.procList_ne_blockedList live j
    have blockedOther : (σ.semArray j).blockedList ≠ list := by
      rcases mine with rfl | rfl
      · exact owned.blockedList_ne_procList live j
      · exact owned.blockedList_ne live other
    obtain ⟨members, waiters⟩ := owned.idle j idle
    exact ⟨(rewritten.others _ procOther).trans members,
      (rewritten.others _ blockedOther).trans waiters⟩

theorem exists_insert_rewritten (owned : σ.Owned) (live : 0 < (σ.semArray i).refCount)
    (mine : list = (σ.semArray i).procList ∨ list = (σ.semArray i).blockedList) (p : Int) :
    ∃ xs, SeqStore.Rewritten σ.pools (σ.insert list p).pools list xs ∧
      ((σ.insert list p).full = false → xs = p :: σ.pools.seq list) := by
  obtain ⟨l, rfl⟩ : ∃ l, list = some l := by
    rcases mine with rfl | rfl
    · exact ⟨_, owned.procList_eq live⟩
    · exact ⟨_, owned.blockedList_eq live⟩
  obtain ⟨xs, rewritten, stored⟩ := SeqStore.listInsert_rewritten σ.pools l p
  refine ⟨xs, rewritten, fun notFull => stored fun noMem => ?_⟩
  have noMem' : (ListLib.listInsert σ.pools (some l) p).2 = ListStatus.noMem := noMem
  simp [Fs.insert, noMem'] at notFull

theorem owned_insert (owned : σ.Owned) (live : 0 < (σ.semArray i).refCount)
    (mine : list = (σ.semArray i).procList ∨ list = (σ.semArray i).blockedList) (p : Int) :
    (σ.insert list p).Owned := by
  obtain ⟨xs, rewritten, -⟩ := exists_insert_rewritten owned live mine p
  exact owned_rewritten owned live mine rewritten

theorem delete_rewritten (owned : σ.Owned) (live : 0 < (σ.semArray i).refCount) (p : Int) :
    SeqStore.Rewritten σ.pools (σ.delete (σ.semArray i).procList p).pools
      (σ.semArray i).procList ((σ.members i).erase p) := by
  rw [SemTable.members, owned.procList_eq live]
  exact SeqStore.listDelete_rewritten σ.pools _ p

theorem takeFirst_rewritten (owned : σ.Owned) (live : 0 < (σ.semArray i).refCount) (proc : Int) :
    SeqStore.Rewritten σ.pools (σ.takeFirst (σ.semArray i).blockedList proc).1.pools
      (σ.semArray i).blockedList (σ.waiters i).tail := by
  rw [SemTable.waiters, owned.blockedList_eq live]
  exact SeqStore.listRemoveFirst_rewritten σ.pools _

/-- Taking entries out of the name map. -/
theorem owned_setMap (owned : σ.Owned) {map : HashTable SlotIx}
    (fewer : ∀ e, map.occupied e = true → σ.semNameMap.occupied e = true ∧
      (map.entryArray e).value = (σ.semNameMap.entryArray e).value) :
    (σ.setMap map).Owned := by
  refine ⟨owned.lists, owned.counted, owned.procBusy, owned.blockedBusy, owned.spare,
    owned.created, owned.idle, fun e occupied => ?_, fun e e' occupied occupied' same => ?_⟩
  · obtain ⟨before, value⟩ := fewer e occupied
    change 0 < (σ.semArray (map.entryArray e).value).refCount ∧
      (σ.semArray (map.entryArray e).value).unlinked = false
    rw [value]
    exact owned.named e before
  · obtain ⟨before, value⟩ := fewer e occupied
    obtain ⟨before', value'⟩ := fewer e' occupied'
    exact owned.apart e e' before before' (value.symm.trans (same.trans value'))

/-- Giving a name to a live slot that has none. -/
theorem owned_bind (owned : σ.Owned) (live : 0 < (σ.semArray i).refCount)
    (linked : (σ.semArray i).unlinked = false) (nameless : σ.Nameless i) (name : CString) :
    (σ.setMap (σ.semNameMap.hashTableInsert name i).1).Owned := by
  rcases HashTable.hashTableInsert_cases σ.semNameMap name with ⟨e₀, stores⟩ | fails
  · have old : ∀ e, e ≠ e₀ → (σ.semNameMap.storeAt name i e₀).occupied e = true →
        σ.semNameMap.occupied e = true := by
      intro e other occupied
      rwa [HashTable.occupied, HashTable.storeAt_entry_of_ne other] at occupied
    rw [stores.insert]
    refine ⟨owned.lists, owned.counted, owned.procBusy, owned.blockedBusy, owned.spare,
      owned.created, owned.idle, fun e occupied => ?_, fun e e' occupied occupied' same => ?_⟩
    · by_cases new : e = e₀
      · simp [setMap, new, live, linked]
      · simp only [setMap, HashTable.storeAt_entry_of_ne new]
        exact owned.named e (old e new occupied)
    · by_cases new : e = e₀ <;> by_cases new' : e' = e₀
      · rw [new, new']
      · simp only [setMap, new, HashTable.storeAt_entry_self,
          HashTable.storeAt_entry_of_ne new'] at same
        exact absurd same.symm (nameless e' (old e' new' occupied'))
      · simp only [setMap, new', HashTable.storeAt_entry_self,
          HashTable.storeAt_entry_of_ne new] at same
        exact absurd same (nameless e (old e new occupied))
      · simp only [setMap, HashTable.storeAt_entry_of_ne new,
          HashTable.storeAt_entry_of_ne new'] at same
        exact owned.apart e e' (old e new occupied) (old e' new' occupied') same
  · rw [(fails i).1]
    exact owned

theorem pairOf_cell_lt (j : SlotIx) : (blockedCell (pairOf j) : Nat) < 2 * initialSem := by
  have bound := j.isLt
  simp only [blockedCell, pairOf, initialSem] at bound ⊢
  omega

/-- Releasing a live slot without a name. -/
theorem owned_release (owned : σ.Owned) (live : 0 < (σ.semArray i).refCount)
    (nameless : σ.Nameless i) : (σ.release i).Owned := by
  obtain ⟨busy, content⟩ := release_pools (owned.procList_eq live) (owned.blockedList_eq live)
  have slots : ∀ j, j ≠ i → (σ.release i).semArray j = σ.semArray j := by
    intro j other
    rw [release_semArray, Function.update_of_ne other]
  have self : (σ.release i).semArray i = { σ.semArray i with refCount := 0 } := by
    rw [release_semArray, Function.update_self]
  refine ⟨fun j => ?_, fun j => ?_, fun j => ?_, fun j => ?_, fun l bound => ?_,
    fun j live => ?_, fun j idle => ?_, fun e occupied => ?_, owned.apart⟩
  · by_cases same : j = i
    · rw [same, self]
      exact owned.lists i
    · rw [slots j same]
      exact owned.lists j
  · by_cases same : j = i
    · rw [same, self]
    · rw [slots j same]
      exact owned.counted j
  · by_cases same : j = i
    · rw [busy, same, self]
      simp
    · rw [busy, slots j same]
      simpa [procCell_inj, pairOf_inj, same] using owned.procBusy j
  · by_cases same : j = i
    · rw [busy, same, self]
      simp
    · rw [busy, slots j same]
      simpa [blockedCell_inj, pairOf_inj, same] using owned.blockedBusy j
  · rw [busy, owned.spare l bound, ite_self]
  · by_cases same : j = i
    · rw [same, self] at live
      exact absurd live (lt_irrefl _)
    · rw [slots j same] at live ⊢
      exact owned.created j live
  · have empty : ∀ list, list = none ∨ list = some (procCell (pairOf i)) ∨
        list = some (blockedCell (pairOf i)) ∨ σ.pools.seq list = [] →
          (σ.release i).pools.seq list = [] := by
      rintro (_ | l) cases
      · rfl
      · rw [SeqStore.seq_some, content]
        rcases cases with none | proc | blocked | old
        · contradiction
        · simp [Option.some.inj proc]
        · simp [Option.some.inj blocked]
        · rw [SeqStore.seq_some] at old
          simp [old]
    rw [SemTable.members, SemTable.waiters]
    by_cases same : j = i
    · rw [same, self]
      exact ⟨empty _ (Or.inr (Or.inl (owned.procList_eq live))),
        empty _ (Or.inr (Or.inr (Or.inl (owned.blockedList_eq live))))⟩
    · rw [slots j same] at idle ⊢
      obtain ⟨members, waiters⟩ := owned.idle j idle
      exact ⟨empty _ (Or.inr (Or.inr (Or.inr members))),
        empty _ (Or.inr (Or.inr (Or.inr waiters)))⟩
  · have other := nameless e occupied
    change 0 < ((σ.release i).semArray (σ.semNameMap.entryArray e).value).refCount ∧
      ((σ.release i).semArray (σ.semNameMap.entryArray e).value).unlinked = false
    rw [slots _ other]
    exact owned.named e occupied

/-- A free slot gets the pair with its own number: the pairs in front of it belong
to the slots in front of it. -/
theorem made_pair {k : PairIx} (owned : σ.Owned)
    (first : firstFit (fun i => decide ((σ.semArray i).refCount = 0)) = some i)
    (free : σ.pools.busy (procCell k) = false)
    (least : ∀ j < k, σ.pools.busy (procCell j) = true) : k = pairOf i := by
  obtain ⟨idle, before⟩ := firstFit_eq_some_iff.mp first
  have idle : (σ.semArray i).refCount = 0 := by simpa using idle
  rcases lt_trichotomy k (pairOf i) with less | same | greater
  · have inside : (k : Nat) < initialSem := lt_trans less i.isLt
    have busy : ¬(σ.semArray ⟨k, inside⟩).refCount = 0 := by
      simpa using before ⟨k, inside⟩ less
    have live : 0 < (σ.semArray ⟨k, inside⟩).refCount :=
      lt_of_le_of_ne (owned.counted _) (Ne.symm busy)
    rw [← owned.procBusy] at live
    rw [show pairOf ⟨k, inside⟩ = k from rfl, free] at live
    contradiction
  · exact same
  · have live := (owned.procBusy i).mp (least _ greater)
    exact absurd (idle ▸ live) (lt_irrefl _)

/-- No name denotes a free slot. -/
theorem nameless_of_idle (owned : σ.Owned) (idle : (σ.semArray i).refCount = 0) :
    σ.Nameless i := by
  intro e occupied same
  have live := (owned.named e occupied).1
  rw [same, idle] at live
  exact lt_irrefl _ live

theorem Made.semArray_of_ne {f : SemCdt → SemCdt} {k : PairIx} {j : SlotIx}
    (made : Made (σ.modSem i f) σ' i k) (other : j ≠ i) : σ'.semArray j = σ.semArray j := by
  rw [made.semArray, Function.update_of_ne other]
  simp [Fs.modSem, other]

/-- The lists that a new semaphore gets are in no other free slot. -/
theorem Made.idle {f : SemCdt → SemCdt} {j : SlotIx} (owned : σ.Owned)
    (made : Made (σ.modSem i f) σ' i (pairOf i)) (other : j ≠ i)
    (idle : (σ.semArray j).refCount = 0) : σ'.members j = [] ∧ σ'.waiters j = [] := by
  obtain ⟨members, waiters⟩ := owned.idle j idle
  rw [SemTable.members] at members
  rw [SemTable.waiters] at waiters
  rw [SemTable.members, SemTable.waiters, made.semArray_of_ne other]
  constructor
  · rcases owned.procList_cases j with list | list <;> rw [list] at members ⊢
    · rfl
    · rw [SeqStore.seq_some, made.others _ (by simp [procCell_inj, pairOf_inj, other]) (by simp)]
      exact members
  · rcases owned.blockedList_cases j with list | list <;> rw [list] at waiters ⊢
    · rfl
    · rw [SeqStore.seq_some, made.others _ (by simp) (by simp [blockedCell_inj, pairOf_inj, other])]
      exact waiters

/-- Giving the first free slot to a new semaphore. -/
theorem owned_makeLists (owned : σ.Owned)
    (first : firstFit (fun i => decide ((σ.semArray i).refCount = 0)) = some i)
    (f : SemCdt → SemCdt) (proc : ∀ s, (f s).procList = s.procList)
    (blocked : ∀ s, (f s).blockedList = s.blockedList) (refs : ∀ s, (f s).refCount = 1) :
    Made (σ.modSem i f) ((σ.modSem i f).makeLists i) i (pairOf i) ∧
      ((σ.modSem i f).makeLists i).Owned ∧ ((σ.modSem i f).makeLists i).Nameless i := by
  have idle := idle_of_first first
  have begun : (σ.modSem i f).Paired := by
    refine owned.paired.steady ⟨fun j => ?_, fun j => ?_, fun j => ?_, rfl⟩ <;>
      by_cases same : j = i <;> simp [Fs.modSem, same, proc, blocked, refs, idle]
  obtain ⟨k, made⟩ := exists_made begun i
  obtain rfl : k = pairOf i := made_pair owned first made.free made.least
  have others : ∀ j, j ≠ i → ((σ.modSem i f).makeLists i).semArray j = σ.semArray j :=
    fun j other => made.semArray_of_ne other
  have self : ((σ.modSem i f).makeLists i).semArray i = { f (σ.semArray i) with
      procList := some (procCell (pairOf i)), blockedList := some (blockedCell (pairOf i)) } := by
    rw [made.semArray, Function.update_self]
    simp [Fs.modSem]
  have nameless : σ.Nameless i := nameless_of_idle owned idle
  refine ⟨made, ⟨fun j => ?_, fun j => ?_, fun j => ?_, fun j => ?_, fun l bound => ?_,
    fun j live => ?_, fun j idle' => ?_, fun e occupied => ?_, ?_⟩, ?_⟩
  · by_cases same : j = i
    · rw [same, self]
      exact Or.inr ⟨rfl, rfl⟩
    · rw [others j same]
      exact owned.lists j
  · by_cases same : j = i
    · rw [same, self]
      simp [refs]
    · rw [others j same]
      exact owned.counted j
  · rw [made.busy]
    by_cases same : j = i
    · rw [same, self]
      simp [refs]
    · rw [others j same]
      simpa [procCell_inj, pairOf_inj, same] using owned.procBusy j
  · rw [made.busy]
    by_cases same : j = i
    · rw [same, self]
      simp [refs]
    · rw [others j same]
      simpa [blockedCell_inj, pairOf_inj, same] using owned.blockedBusy j
  · rw [made.busy]
    have bound' := pairOf_cell_lt i
    have proc : l ≠ procCell (pairOf i) := fun same => by
      rw [same] at bound
      simp only [procCell, blockedCell] at bound bound'
      omega
    have blocked : l ≠ blockedCell (pairOf i) := fun same => by
      rw [same] at bound
      omega
    simpa [proc, blocked] using owned.spare l bound
  · by_cases same : j = i
    · rw [same, self]
      simp
    · rw [others j same] at live ⊢
      exact owned.created j live
  · have other : j ≠ i := fun same => by
      rw [same, self] at idle'
      simp [refs] at idle'
    rw [others j other] at idle'
    exact made.idle owned other idle'
  · rw [made.semNameMap, modSem_semNameMap] at occupied ⊢
    rw [others _ (nameless e occupied)]
    exact owned.named e occupied
  · rw [made.semNameMap]
    exact owned.apart
  · intro e
    rw [made.semNameMap]
    exact nameless e

end Fs

end MinixSemaphore.Server
