import MinixSemaphore.Server.Pairs
import MinixSemaphore.Server.Simulation

/-!
# Room for insertions

All lists share the same nodes, and `ListInsert` fails when the last one is in use. No
caller looks at its status, so that an operation goes on as if it had stored the
process. What it leaves then is described here, in whatever state it is called.
-/

namespace MinixSemaphore.Server

open MinixSemaphore.Lists
open MinixSemaphore.Names
open MinixSemaphore.Store
open MinixSemaphore.Semaphore

namespace Fs

open SemTable

variable {σ τ : SeqFs}

/-! ## Insertions -/

theorem insert_full (list : ListADT) (p : Int) :
    (σ.insert list p).full = (σ.full || decide (maxNodes ≤ σ.pools.used)) := by
  have status : (ListLib.listInsert σ.pools list p).2 =
      if σ.pools.used < maxNodes then ListStatus.noErr else .noMem := by
    change (SeqStore.listInsert _ _ _).2 = _
    rw [SeqStore.listInsert]
    split <;> rfl
  change (σ.full || (ListLib.listInsert σ.pools list p).2 == ListStatus.noMem) = _
  rw [status]
  by_cases room : σ.pools.used < maxNodes
  · rw [if_pos room, decide_eq_false (not_le.mpr room)]
    rfl
  · rw [if_neg room, decide_eq_true (not_lt.mp room)]
    rfl

theorem insert_pools_of_room (room : σ.pools.used < maxNodes) (list : ListADT) (p : Int) :
    (σ.insert list p).pools =
      { σ.pools.put list (p :: σ.pools.seq list) with used := σ.pools.used + 1 } := by
  change (SeqStore.listInsert _ _ _).1 = _
  rw [SeqStore.listInsert, if_pos room]

theorem insert_pools_of_full (full : maxNodes ≤ σ.pools.used) (list : ListADT) (p : Int) :
    (σ.insert list p).pools = σ.pools := by
  change (SeqStore.listInsert _ _ _).1 = _
  rw [SeqStore.listInsert, if_neg (not_lt.mpr full)]

/-- A process that there is room for is in the list after its insertion. -/
theorem insert_seq_self (room : σ.pools.used < maxNodes) (l : ListIx) (p : Int) :
    (σ.insert (some l) p).pools.seq (some l) = p :: σ.pools.seq (some l) := by
  rw [insert_pools_of_room room]
  exact SeqStore.seq_put_self σ.pools l _

theorem mem_insert_iff (room : σ.pools.used < maxNodes) (l : ListIx) (p q : Int)
    (list : ListADT) : q ∈ (σ.insert (some l) p).pools.seq list ↔
      q ∈ σ.pools.seq list ∨ list = some l ∧ q = p := by
  by_cases same : list = some l
  · rw [same, insert_seq_self room, List.mem_cons]
    simp [or_comm]
  · have other : (σ.insert (some l) p).pools.seq list = σ.pools.seq list := by
      rw [insert_pools_of_room room]
      exact SeqStore.seq_put_of_ne σ.pools same _
    simp [other, same]

/-! ## Creations -/

theorem makeLists_full (paired : σ.Paired) (i : SlotIx) :
    (σ.makeLists i).full = (σ.full || decide (maxNodes ≤ σ.pools.used)) := by
  obtain ⟨k, -, -, -, result⟩ := makeLists_eq paired i
  rw [result]
  exact insert_full (σ := (σ.setPools (allocated σ.pools (procCell k))).modSem i
    fun s => { s with procList := some (procCell k) }) (some (procCell k)) σ.who

/-- A new slot has its creator as a member, if there is a node for it. -/
theorem makeLists_members (paired : σ.Paired) (i : SlotIx) :
    (σ.makeLists i).members i = if σ.pools.used < maxNodes then [σ.who] else [] := by
  obtain ⟨k, -, -, -, result⟩ := makeLists_eq paired i
  obtain ⟨begun, begunEq⟩ : ∃ τ, τ = (σ.setPools (allocated σ.pools (procCell k))).modSem i
      fun s => { s with procList := some (procCell k) } := ⟨_, rfl⟩
  have half : σ.halfMade i (procCell k) = begun.insert (some (procCell k)) σ.who := by
    rw [begunEq]
    rfl
  have used : begun.pools.used = σ.pools.used := by
    rw [begunEq]
    rfl
  have empty : begun.pools.seq (some (procCell k)) = [] := by
    rw [begunEq]
    exact SeqStore.seq_put_self σ.pools (procCell k) []
  have here : (σ.makeLists i).members i =
      (σ.halfMade i (procCell k)).pools.seq (some (procCell k)) := by
    rw [result]
    simp [SemTable.members, Fs.modSem, setPools, allocated, SeqStore.put, half, begunEq,
      Fs.insert]
  rw [here, half]
  by_cases room : σ.pools.used < maxNodes
  · rw [if_pos room, insert_seq_self (used ▸ room), empty]
  · rw [if_neg room, insert_pools_of_full (used ▸ not_lt.mp room), empty]

/-- Slot `i`, the first free one, has been given to a new semaphore. -/
structure Fills (σ σ' : SeqFs) (i : SlotIx) (value : BitVec 32) : Prop where
  first : firstFit (fun j => decide ((σ.semArray j).refCount = 0)) = some i
  ready : σ.errno = 0
  inRange : value.toNat ≤ semValueMax
  errno : σ'.errno = 0
  count : (σ'.semArray i).semCount = value.toNat
  live : (σ'.semArray i).refCount = 1
  linked : (σ'.semArray i).unlinked = false
  others : ∀ j, j ≠ i → σ'.semArray j = σ.semArray j
  names : σ'.semNameMap = σ.semNameMap
  who : σ'.who = σ.who
  full : σ'.full = (σ.full || decide (maxNodes ≤ σ.pools.used))
  members : σ'.members i = if σ.pools.used < maxNodes then [σ.who] else []
  waiters : σ'.waiters i = []
  created : (σ'.semArray i).procList ≠ none

/-- The ways `sem_create` fails: there is no slot, there is an error number already, or
the value is too large. -/
inductive NotMade (σ : SeqFs) (value : BitVec 32) : SeqFs → Prop
  | noSlot : (∀ i, (σ.semArray i).refCount ≠ 0) → NotMade σ value (σ.setErrno enospc)
  | stale {i : SlotIx} : (σ.semArray i).refCount = 0 → σ.errno ≠ 0 → NotMade σ value σ
  | tooLarge {i : SlotIx} {σ' : SeqFs} : (σ.semArray i).refCount = 0 → σ.errno = 0 →
      semValueMax < value.toNat → NotMade σ value (σ'.setErrno einval)

theorem fills_of_semCreate (paired : σ.Paired) {mode : Int} {value : BitVec 32} {σ' : SeqFs}
    {i : SlotIx} (result : σ.semCreate mode value = (σ', some i)) : Fills σ σ' i value := by
  have ends := σ.semCreate_ends mode value
  rw [result] at ends
  cases ends with
  | made first ready small =>
      have begunPaired := paired_begun paired (idle_of_first first) mode value
      -- the state in which the lists are made
      obtain ⟨begun, begunEq⟩ : ∃ τ, τ = (σ.modSem i fun s =>
          { s with permision := mode, semCount := value.toInt }).modSem i
            fun s => { s with refCount := 1, unlinked := false } := ⟨_, rfl⟩
      rw [← begunEq] at begunPaired ⊢
      have self : begun.semArray i = { σ.semArray i with
          permision := mode, semCount := value.toInt, refCount := 1, unlinked := false } := by
        simp [begunEq, modSem]
      have others : ∀ j, j ≠ i → begun.semArray j = σ.semArray j := by
        intro j other
        simp [begunEq, modSem, other]
      obtain ⟨k, made⟩ := exists_made begunPaired i
      have here : (begun.makeLists i).semArray i = { begun.semArray i with
          procList := some (procCell k), blockedList := some (blockedCell k) } := by
        rw [made.semArray, Function.update_self]
      have used : begun.pools.used = σ.pools.used := by
        rw [begunEq]
        rfl
      have who : begun.who = σ.who := by
        rw [begunEq]
        rfl
      have full : begun.full = σ.full := by
        rw [begunEq]
        rfl
      constructor
      · exact first
      · exact ready
      · exact small
      · rw [begunEq]
        exact ready
      · rw [here, self]
        exact toInt_of_inRange small
      · rw [here, self]
      · rw [here, self]
      · intro j other
        rw [made.semArray, Function.update_of_ne other, others j other]
      · rw [made.semNameMap, begunEq]
        rfl
      · rw [begunEq]
        rfl
      · rw [makeLists_full begunPaired, full, used]
      · rw [makeLists_members begunPaired, used, who]
      · rw [SemTable.waiters, here]
        exact made.waiters
      · rw [here]
        simp

theorem semCreate_made (paired : σ.Paired) (mode : Int) (value : BitVec 32) :
    (∃ σ', σ.semCreate mode value = (σ', none) ∧ NotMade σ value σ') ∨
      ∃ σ' i, σ.semCreate mode value = (σ', some i) ∧ Fills σ σ' i value := by
  have ends := σ.semCreate_ends mode value
  generalize result : σ.semCreate mode value = created at ends ⊢
  cases ends with
  | noSlot busy => exact Or.inl ⟨_, rfl, .noSlot busy⟩
  | stale first stale => exact Or.inl ⟨_, rfl, .stale (idle_of_first first) stale⟩
  | tooLarge first ready large =>
      exact Or.inl ⟨_, rfl, .tooLarge (idle_of_first first) ready large⟩
  | made => exact Or.inr ⟨_, _, rfl, fills_of_semCreate paired result⟩

/-! ## Both stores -/

theorem Sim.members {σ : Fs (Pools Int)} (sim : Sim σ τ) (i : SlotIx) :
    τ.members i = σ.procs i := by
  rw [sim.eq]
  exact Pools.abs_seq σ.pools _

theorem Sim.waiters {σ : Fs (Pools Int)} (sim : Sim σ τ) (i : SlotIx) :
    τ.waiters i = σ.blocked i := by
  rw [sim.eq]
  exact Pools.abs_seq σ.pools _

theorem Sim.used {σ : Fs (Pools Int)} (sim : Sim σ τ) : τ.pools.used = σ.pools.used := by
  rw [sim.pools]
  exact Pools.abs_used σ.pools

theorem Sim.full {σ : Fs (Pools Int)} (sim : Sim σ τ) : τ.full = σ.full := by
  rw [sim.eq]
  rfl

end Fs

end MinixSemaphore.Server
