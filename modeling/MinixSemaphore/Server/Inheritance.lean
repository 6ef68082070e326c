import MinixSemaphore.Lists.Guests
import MinixSemaphore.Server.Exit
import MinixSemaphore.Server.Naming
import MinixSemaphore.Server.Value

/-!
# A fork and the exit of the child

`sem_open_all` puts the child in front of the lists of its parent, once for every slot
that has the list, and `sem_close_all` takes it out as often. The parent stays in these
lists, so that none of them is found empty and no slot is released. What stays changed is
that a free slot whose list still has the parent in it has been counted up.
-/

namespace MinixSemaphore.Server

open MinixSemaphore.Lists
open MinixSemaphore.Names
open MinixSemaphore.Store
open MinixSemaphore.Semaphore
open MinixSemaphore.Transition

universe u

namespace Fs

open SemTable

/-- `σ'` is as `σ` was, except for reference counts and error numbers. -/
structure Restored (σ σ' : Fs (Pools Int)) : Prop where
  procs : ∀ i, σ'.procs i = σ.procs i
  blocked : ∀ i, σ'.blocked i = σ.blocked i
  count : ∀ i, (σ'.semArray i).semCount = (σ.semArray i).semCount
  unlinked : ∀ i, (σ'.semArray i).unlinked = (σ.semArray i).unlinked
  live : ∀ i, 0 < (σ'.semArray i).refCount ↔ 0 < (σ.semArray i).refCount
  names : σ'.semNameMap = σ.semNameMap
  who : σ'.who = σ.who
  lists : ∀ l, (σ'.pools.lists l).busy = (σ.pools.lists l).busy
  nodes : ∀ n, (σ'.pools.nodes n).busy = (σ.pools.nodes n).busy
  elements : ∀ e, (σ'.pools.elements e).busy = (σ.pools.elements e).busy

/-- A fork makes the child a member where its parent is and changes no other membership,
and the exit of the child restores the state and releases no slot. -/
structure Invisible (σ : Fs (Pools Int)) (pPslot cPslot : Int) : Prop where
  joins : ∀ i, cPslot ∈ (σ.semOpenAll pPslot cPslot).procs i ↔ pPslot ∈ σ.procs i
  others : ∀ i q, q ≠ cPslot →
    ((σ.semOpenAll pPslot cPslot).procs i).count q = (σ.procs i).count q
  restored : Restored σ ((σ.semOpenAll pPslot cPslot).semCloseAll cPslot)
  kept : ∀ i, 0 < ((σ.semOpenAll pPslot cPslot).semArray i).refCount →
    0 < (((σ.semOpenAll pPslot cPslot).semCloseAll cPslot).semArray i).refCount

variable {σ σ' : Fs (Pools Int)} {τ τ' : SeqFs} {pPslot cPslot : Int} {i j : SlotIx}
  {done : List SlotIx}

/-! ## The fork -/

/-- How often a child is put into the lists of a slot when the slots in `done` are
visited: once for each of them that has the list, if the parent is in it. -/
def entries (τ : SeqFs) (pPslot : Int) (done : List SlotIx) (i : SlotIx) : Nat :=
  if pPslot ∈ τ.members i then
    (done.filter fun j => (τ.semArray j).procList = (τ.semArray i).procList).length
  else 0

/-- A visit to one more slot. -/
theorem entries_snoc (τ : SeqFs) (pPslot : Int) (done : List SlotIx) (i j : SlotIx) :
    τ.entries pPslot (done ++ [j]) i = τ.entries pPslot done i +
      if pPslot ∈ τ.members j ∧ (τ.semArray j).procList = (τ.semArray i).procList then 1
      else 0 := by
  rw [entries, entries, List.filter_append, List.filter_singleton, List.length_append]
  by_cases same : (τ.semArray j).procList = (τ.semArray i).procList
  · have members : τ.members j = τ.members i := congrArg τ.pools.seq same
    rw [members]
    by_cases member : pPslot ∈ τ.members i <;> simp [member, same]
  · by_cases member : pPslot ∈ τ.members i <;> simp [member, same]

/-- The child has been put in front of the lists of its parent. -/
structure Joined (τ : SeqFs) (pPslot cPslot : Int) (done : List SlotIx) (τ' : SeqFs) :
    Prop where
  distinct : done.Nodup
  pointers : ∀ i, (τ'.semArray i).procList = (τ.semArray i).procList ∧
    (τ'.semArray i).blockedList = (τ.semArray i).blockedList
  used : τ'.pools.used = τ.pools.used + τ.openCount pPslot done
  members : ∀ i, τ'.members i =
    List.replicate (τ.entries pPslot done i) cPslot ++ τ.members i
  waiters : ∀ i, τ'.waiters i = τ.waiters i

theorem Joined.mem_iff (joined : Joined τ pPslot cPslot done τ') {q : Int} (other : q ≠ cPslot)
    (i : SlotIx) : q ∈ τ'.members i ↔ q ∈ τ.members i := by
  rw [joined.members, List.mem_append]
  apply or_iff_right
  intro child
  exact other (List.eq_of_mem_replicate child)

theorem Joined.count_eq (joined : Joined τ pPslot cPslot done τ') {q : Int} (other : q ≠ cPslot)
    (i : SlotIx) : (τ'.members i).count q = (τ.members i).count q := by
  rw [joined.members, List.count_append, List.count_eq_zero_of_not_mem, Nat.zero_add]
  intro child
  exact other (List.eq_of_mem_replicate child)

/-- After all visits the child is where its parent is. -/
theorem Joined.child_mem_iff (joined : Joined τ pPslot cPslot (List.finRange initialSem) τ')
    (stranger : cPslot ∉ τ.members i) : cPslot ∈ τ'.members i ↔ pPslot ∈ τ.members i := by
  rw [joined.members, List.mem_append, or_iff_left stranger, List.mem_replicate, entries]
  by_cases member : pPslot ∈ τ.members i
  · rw [if_pos member]
    have here : i ∈ (List.finRange initialSem).filter fun j =>
        (τ.semArray j).procList = (τ.semArray i).procList := by simp
    exact iff_of_true ⟨(List.length_pos_of_mem here).ne', rfl⟩ member
  · rw [if_neg member]
    exact iff_of_false (fun child => child.1 rfl) member

/-- There are nodes left for the slots that have not been visited. -/
theorem openCount_le (τ : SeqFs) (p : Int) (distinct : done.Nodup) :
    τ.openCount p done ≤ τ.openCount p (List.finRange initialSem) := by
  apply List.Subperm.countP_le
  apply List.Nodup.subperm distinct
  exact fun i _ => List.mem_finRange i

theorem openAllAt_pointers (τ : SeqFs) (pPslot cPslot : Int) (j i : SlotIx) :
    ((openAllAt pPslot cPslot τ j).semArray i).procList = (τ.semArray i).procList ∧
      ((openAllAt pPslot cPslot τ j).semArray i).blockedList = (τ.semArray i).blockedList := by
  have ends := openAllAt_ends τ pPslot cPslot j
  generalize openAllAt pPslot cPslot τ j = after at ends ⊢
  cases ends with
  | stranger => exact ⟨rfl, rfl⟩
  | inherited => by_cases same : i = j <;> simp [note, Fs.insert, modSem, same]

theorem Joined.round (joined : Joined τ pPslot cPslot done τ') (paired : τ.Paired)
    (parent : pPslot ≠ cPslot) (fresh : j ∉ done)
    (room : τ.pools.used + τ.openCount pPslot (List.finRange initialSem) ≤ maxNodes) :
    Joined τ pPslot cPslot (done ++ [j]) (openAllAt pPslot cPslot τ' j) := by
  have pointers := openAllAt_pointers τ' pPslot cPslot j
  have distinct : (done ++ [j]).Nodup := by
    rw [List.nodup_append]
    refine ⟨joined.distinct, List.nodup_singleton j, ?_⟩
    rintro k visited k' here rfl
    exact fresh (List.mem_singleton.mp here ▸ visited)
  have enough := openCount_le τ pPslot distinct
  rcases openAllAt_cases τ' pPslot cPslot j with ⟨outsider, nothing⟩ | ⟨member, -, -, -, pools⟩
  · rw [joined.mem_iff parent] at outsider
    have count : τ.openCount pPslot (done ++ [j]) = τ.openCount pPslot done := by
      simp [openCount, outsider]
    rw [nothing]
    constructor
    · exact distinct
    · exact joined.pointers
    · rw [joined.used, count]
    · intro i
      rw [joined.members, entries_snoc, if_neg fun both => outsider both.1]
      rfl
    · exact joined.waiters
  · obtain ⟨l, list⟩ := exists_procList member
    rw [joined.mem_iff parent] at member
    have count : τ.openCount pPslot (done ++ [j]) = τ.openCount pPslot done + 1 := by
      simp [openCount, member]
    have left : τ'.pools.used < maxNodes := by
      rw [joined.used]
      omega
    have here : (τ.semArray j).procList = some l := (joined.pointers j).1.symm.trans list
    rw [list, insert_pools_of_room left] at pools
    constructor
    · exact distinct
    · intro i
      rw [(pointers i).1, (pointers i).2]
      exact joined.pointers i
    · rw [pools, count, ← Nat.add_assoc, ← joined.used]
    · intro i
      rw [SemTable.members, (pointers i).1, pools, entries_snoc, (joined.pointers i).1, here]
      have before := joined.members i
      rw [SemTable.members, (joined.pointers i).1] at before
      by_cases same : (τ.semArray i).procList = some l
      · rw [same] at before ⊢
        rw [if_pos ⟨member, rfl⟩, List.replicate_succ, List.cons_append, ← before]
        exact SeqStore.seq_put_self τ'.pools l _
      · rw [if_neg fun both => same both.2.symm]
        exact (SeqStore.seq_put_of_ne τ'.pools same _).trans before
    · intro i
      have before := joined.waiters i
      rw [SemTable.waiters, (joined.pointers i).2] at before
      rw [SemTable.waiters, (pointers i).2, pools, (joined.pointers i).2]
      by_cases same : (τ.semArray i).blockedList = some l
      · rw [SemTable.waiters, paired.blockedList_eq_none (same.trans here.symm)]
        rfl
      · exact (SeqStore.seq_put_of_ne τ'.pools same _).trans before

theorem semOpenAll_joined (paired : τ.Paired) (parent : pPslot ≠ cPslot)
    (room : τ.pools.used + τ.openCount pPslot (List.finRange initialSem) ≤ maxNodes) :
    Joined τ pPslot cPslot (List.finRange initialSem) (τ.semOpenAll pPslot cPslot) := by
  apply sweep_progress (I := Joined τ pPslot cPslot)
  · constructor
    · exact List.nodup_nil
    · exact fun _ => ⟨rfl, rfl⟩
    · rfl
    · intro i
      simp [entries]
    · exact fun _ => rfl
  · exact fun done τ' j fresh joined => joined.round paired parent fresh room

/-! ## The exit -/

/-- The child goes as often as it has come. -/
theorem lists_semCloseAll_semOpenAll (paired : τ.Paired) (parent : pPslot ≠ cPslot)
    (outsider : ∀ i, cPslot ∉ τ.members i)
    (room : τ.pools.used + τ.openCount pPslot (List.finRange initialSem) ≤ maxNodes)
    (i : SlotIx) : ((τ.semOpenAll pPslot cPslot).semCloseAll cPslot).lists i = τ.lists i := by
  have joined := semOpenAll_joined paired parent room
  have places : (τ.semOpenAll pPslot cPslot).sharing i = τ.sharing i := by
    rw [sharing, sharing]
    simp only [(joined.pointers _).1]
  have forked : (τ.semOpenAll pPslot cPslot).lists i =
      (List.replicate (τ.entries pPslot (List.finRange initialSem) i) cPslot ++ τ.members i,
        τ.waiters i) := congrArg₂ Prod.mk (joined.members i) (joined.waiters i)
  rw [lists_semCloseAll (paired_semOpenAll paired pPslot cPslot), places, forked, entries]
  by_cases member : pPslot ∈ τ.members i
  · rw [if_pos member]
    exact visits_replicate (List.ne_nil_of_mem member) (τ.waiters i)
  · rw [if_neg member]
    exact visits_of_notMem (outsider i)

/-- A close that leaves somebody in the list of the slot releases nothing. -/
theorem semClose_of_company {P : Type u} [ListLib P Int] {ρ : Fs P} {handle : Int}
    (granted : ρ.granted handle = some i)
    (company : ListLib.listIsEmpty (ρ.delete (ρ.semArray i).procList ρ.who).pools
      (ρ.semArray i).procList = false) :
    (ρ.semClose handle).1 = (ρ.delete (ρ.semArray i).procList ρ.who).note i .closed := by
  have ends := ρ.semClose_ends handle
  generalize ρ.semClose handle = result at ends ⊢
  cases ends with
  | refused refused =>
      rw [granted] at refused
      contradiction
  | last granted' _ empty =>
      obtain rfl := Option.some.inj (granted.symm.trans granted')
      rw [company] at empty
      contradiction
  | left granted' =>
      obtain rfl := Option.some.inj (granted.symm.trans granted')
      rfl

/-- The lists of processes. -/
def procLists (σ : Fs (Pools Int)) : Set ListIx :=
  { l | ∃ i, (σ.semArray i).procList = some l }

/-- While a child that has slots in common with its parent only closes them, nothing but
the lists of processes changes, and nothing else is in them that has not been there at
first. -/
structure Leaves (σ : Fs (Pools Int)) (pPslot cPslot : Int) (array : SlotIx → SemCdt)
    (σ' : Fs (Pools Int)) (τ' : SeqFs) : Prop where
  sim : Sim σ' τ'
  who : σ'.who = cPslot
  array : σ'.semArray = array
  company : ∀ i, cPslot ∈ τ'.members i → pPslot ∈ τ'.members i
  hosts : Pools.Hosts σ.pools σ'.pools σ.procLists cPslot

theorem Leaves.round {array : SlotIx → SemCdt}
    (leaves : Leaves σ pPslot cPslot array σ' τ') (parent : pPslot ≠ cPslot)
    (unsorted : ∀ l ∈ σ.procLists, σ.pools.Unsorted l)
    (pointers : ∀ i, (array i).procList = (σ.semArray i).procList) (j : SlotIx) :
    Leaves σ pPslot cPslot array (σ'.semClose (j : Nat)).1 (τ'.semClose (j : Nat)).1 := by
  have sim := leaves.sim
  have closed := (sim.semClose (j : Nat)).1
  cases granted : σ'.granted (j : Nat) with
  | none =>
      have granted' := (sim.granted (j : Nat)).trans granted
      rw [semClose_refused granted, semClose_refused granted'] at closed
      rw [semClose_refused granted, semClose_refused granted']
      exact ⟨closed, leaves.who, leaves.array, leaves.company, leaves.hosts⟩
  | some i =>
      have granted' := (sim.granted (j : Nat)).trans granted
      have member := (granted_iff.mp granted').2
      have who : τ'.who = cPslot := sim.who.trans leaves.who
      obtain ⟨l, list⟩ := exists_procList member
      rw [who] at member
      have array : τ'.semArray = σ'.semArray := sim.semArray
      have stays : pPslot ∈ (τ'.delete (τ'.semArray i).procList cPslot).members i := by
        rw [members_delete_self rfl member]
        exact (List.mem_erase_of_ne parent).mpr (leaves.company i member)
      have company : ListLib.listIsEmpty (τ'.delete (τ'.semArray i).procList cPslot).pools
          (τ'.semArray i).procList = false := by
        rw [Bool.eq_false_iff, Ne, listIsEmpty_iff]
        exact List.ne_nil_of_mem stays
      have company' : ListLib.listIsEmpty (σ'.delete (σ'.semArray i).procList cPslot).pools
          (σ'.semArray i).procList = false := by
        rw [← (sim.delete (sim.usable i).1 cPslot).listIsEmpty, ← array]
        exact company
      have result := semClose_of_company granted (leaves.who.symm ▸ company')
      have result' := semClose_of_company granted' (who.symm ▸ company)
      rw [leaves.who] at result
      rw [who] at result'
      rw [result, result'] at closed ⊢
      constructor
      · exact closed
      · exact leaves.who
      · exact leaves.array
      · intro k child
        change cPslot ∈ (τ'.delete (τ'.semArray i).procList cPslot).members k at child
        change pPslot ∈ (τ'.delete (τ'.semArray i).procList cPslot).members k
        by_cases same : (τ'.semArray i).procList = (τ'.semArray k).procList
        · have member' : cPslot ∈ τ'.members k := by
            rw [SemTable.members, ← same]
            exact member
          rw [members_delete_self same member, List.mem_erase_of_ne parent]
          exact leaves.company k member'
        · rw [members_delete_of_ne (Ne.symm same)] at child ⊢
          exact leaves.company k child
      · have list' : (σ'.semArray i).procList = some l := array ▸ list
        have host : l ∈ σ.procLists := by
          refine ⟨i, ?_⟩
          rw [← pointers, ← leaves.array]
          exact list'
        change Pools.Hosts σ.pools (σ'.pools.listDelete (σ'.semArray i).procList cPslot).1
          σ.procLists cPslot
        rw [list']
        exact leaves.hosts.listDelete (unsorted l host) host

/-- A child that forks off is only put into lists of processes. -/
theorem semOpenAll_hosts (hosts : Pools.Hosts σ.pools σ.pools σ.procLists cPslot) :
    Pools.Hosts σ.pools (σ.semOpenAll pPslot cPslot).pools σ.procLists cPslot := by
  have swept : (∀ i, ((σ.semOpenAll pPslot cPslot).semArray i).procList =
        (σ.semArray i).procList) ∧
      Pools.Hosts σ.pools (σ.semOpenAll pPslot cPslot).pools σ.procLists cPslot := by
    apply sweep_invariant (I := fun σ' : Fs (Pools Int) =>
      (∀ i, (σ'.semArray i).procList = (σ.semArray i).procList) ∧
        Pools.Hosts σ.pools σ'.pools σ.procLists cPslot)
    · exact ⟨fun _ => rfl, hosts⟩
    · rintro σ' j ⟨pointers, hosts⟩
      have ends := openAllAt_ends σ' pPslot cPslot j
      generalize openAllAt pPslot cPslot σ' j = after at ends ⊢
      cases ends with
      | stranger => exact ⟨pointers, hosts⟩
      | inherited belongs =>
          constructor
          · exact fun i => (grow_procList j i).trans (pointers i)
          · cases pointer : (σ'.semArray j).procList with
            | none =>
                rw [pointer] at belongs
                contradiction
            | some l => exact hosts.listInsert ⟨j, (pointers j).symm.trans pointer⟩
  exact swept.2

/-- The exit of the child writes no slot. -/
theorem semCloseAll_leaves (sim : Sim σ' τ')
    (company : ∀ i, cPslot ∈ τ'.members i → pPslot ∈ τ'.members i)
    (hosts : Pools.Hosts σ.pools σ'.pools σ.procLists cPslot) (parent : pPslot ≠ cPslot)
    (unsorted : ∀ l ∈ σ.procLists, σ.pools.Unsorted l)
    (pointers : ∀ i, (σ'.semArray i).procList = (σ.semArray i).procList) :
    (σ'.semCloseAll cPslot).semArray = σ'.semArray ∧
      Pools.Hosts σ.pools (σ'.semCloseAll cPslot).pools σ.procLists cPslot := by
  have swept : Leaves σ pPslot cPslot σ'.semArray
      (sweep (fun σ (i : SlotIx) => (semClose σ (i : Nat)).1) (σ'.setWho cPslot))
      (sweep (fun τ (i : SlotIx) => (semClose τ (i : Nat)).1) (τ'.setWho cPslot)) := by
    apply sweep_relation (R := Leaves σ pPslot cPslot σ'.semArray)
    · exact ⟨sim.setWho cPslot, rfl, rfl, company, hosts⟩
    · exact fun _ _ j leaves => leaves.round parent unsorted pointers j
  exact ⟨swept.array, swept.hosts⟩

/-! ## Both together -/

theorem Sim.unsorted (sim : Sim σ τ) : ∀ l ∈ σ.procLists, σ.pools.Unsorted l := by
  rintro l ⟨i, list⟩
  have usable := (sim.usable i).1
  rw [list] at usable
  exact usable

/-- A process that is in no list of processes has none of their nodes. -/
theorem notMem_procLists (outsider : ∀ i, cPslot ∉ σ.procs i) :
    ∀ l ∈ σ.procLists, cPslot ∉ σ.pools.seq (some l) := by
  rintro l ⟨i, list⟩
  rw [← list]
  exact outsider i

/-- The child is another process than its parent and is in no list of processes, and there
is a node for each slot of the parent. -/
structure Forks (σ : Fs (Pools Int)) (τ : SeqFs) (pPslot cPslot : Int) : Prop where
  sim : Sim σ τ
  paired : τ.Paired
  parent : pPslot ≠ cPslot
  outsider : ∀ i, cPslot ∉ σ.procs i
  room : σ.pools.used + σ.insertions (.fork pPslot cPslot) ≤ maxNodes

namespace Forks

theorem joined (forks : Forks σ τ pPslot cPslot) :
    Joined τ pPslot cPslot (List.finRange initialSem) (τ.semOpenAll pPslot cPslot) := by
  apply semOpenAll_joined forks.paired forks.parent
  rw [forks.sim.used, forks.sim.openCount pPslot cPslot]
  exact forks.room

theorem forked (forks : Forks σ τ pPslot cPslot) :
    Sim (σ.semOpenAll pPslot cPslot) (τ.semOpenAll pPslot cPslot) :=
  forks.sim.semOpenAll pPslot cPslot

theorem closed (forks : Forks σ τ pPslot cPslot) :
    Sim ((σ.semOpenAll pPslot cPslot).semCloseAll cPslot)
      ((τ.semOpenAll pPslot cPslot).semCloseAll cPslot) :=
  forks.forked.semCloseAll cPslot

theorem stranger (forks : Forks σ τ pPslot cPslot) (i : SlotIx) : cPslot ∉ τ.members i := by
  rw [forks.sim.members]
  exact forks.outsider i

/-- The slots of the parent are counted up, and the exit of the child writes no slot. -/
theorem semArray_eq (forks : Forks σ τ pPslot cPslot) (i : SlotIx) :
    (σ.semOpenAll pPslot cPslot).semArray i = if pPslot ∈ σ.procs i then
      { σ.semArray i with refCount := (σ.semArray i).refCount + 1 } else σ.semArray i := by
  rw [← forks.forked.semArray, semOpenAll_semArray, forks.sim.semArray, forks.sim.members]

theorem leaves (forks : Forks σ τ pPslot cPslot) :
    ((σ.semOpenAll pPslot cPslot).semCloseAll cPslot).semArray =
        (σ.semOpenAll pPslot cPslot).semArray ∧
      Pools.Hosts σ.pools ((σ.semOpenAll pPslot cPslot).semCloseAll cPslot).pools
        σ.procLists cPslot := by
  apply semCloseAll_leaves forks.forked _ _ forks.parent forks.sim.unsorted
  · intro i
    rw [← forks.forked.semArray, ← forks.sim.semArray]
    exact (forks.joined.pointers i).1
  · intro i child
    rw [forks.joined.mem_iff forks.parent]
    exact (forks.joined.child_mem_iff (forks.stranger i)).mp child
  · exact semOpenAll_hosts
      (Pools.Hosts.refl forks.sim.wellFormed (notMem_procLists forks.outsider))

theorem lists_eq (forks : Forks σ τ pPslot cPslot) (i : SlotIx) :
    ((τ.semOpenAll pPslot cPslot).semCloseAll cPslot).lists i = τ.lists i := by
  apply lists_semCloseAll_semOpenAll forks.paired forks.parent forks.stranger
  rw [forks.sim.used, forks.sim.openCount pPslot cPslot]
  exact forks.room

theorem procs_eq (forks : Forks σ τ pPslot cPslot) (i : SlotIx) :
    ((σ.semOpenAll pPslot cPslot).semCloseAll cPslot).procs i = σ.procs i := by
  rw [← forks.closed.members, ← forks.sim.members]
  exact congrArg Prod.fst (forks.lists_eq i)

/-- The child is gone from the lists of processes. -/
theorem gone (forks : Forks σ τ pPslot cPslot) : ∀ l ∈ σ.procLists, cPslot ∉
    ((σ.semOpenAll pPslot cPslot).semCloseAll cPslot).pools.seq (some l) := by
  rintro l ⟨i, list⟩
  have pointer : (((σ.semOpenAll pPslot cPslot).semCloseAll cPslot).semArray i).procList =
      some l := by
    rw [forks.leaves.1, forks.semArray_eq]
    split <;> exact list
  have outsider := forks.outsider i
  rw [← forks.procs_eq, procs, pointer] at outsider
  exact outsider

/-- Everything is restored but free slots that have come to life. -/
theorem restored (forks : Forks σ τ pPslot cPslot)
    (live : ∀ i, pPslot ∈ σ.procs i → 0 < (σ.semArray i).refCount) :
    Restored σ ((σ.semOpenAll pPslot cPslot).semCloseAll cPslot) := by
  obtain ⟨unwritten, hosts⟩ := forks.leaves
  constructor
  · exact forks.procs_eq
  · intro i
    rw [← forks.closed.waiters, ← forks.sim.waiters]
    exact congrArg Prod.snd (forks.lists_eq i)
  · intro i
    rw [unwritten, forks.semArray_eq]
    split <;> rfl
  · intro i
    rw [unwritten, forks.semArray_eq]
    split <;> rfl
  · intro i
    rw [unwritten, forks.semArray_eq]
    split
    · rename_i member
      exact iff_of_true (Int.lt_add_one_of_le (live i member).le) (live i member)
    · exact Iff.rfl
  · exact (semCloseAll_semNameMap cPslot).trans (semOpenAll_semNameMap pPslot cPslot)
  · obtain ⟨_, recorded, -⟩ := semOpenAll_recorded σ pPslot cPslot
    exact recorded.who
  · exact hosts.listBusy
  · exact hosts.nodes_eq forks.gone
  · exact hosts.elements_eq forks.sim.wellFormed forks.gone

theorem invisible_iff (forks : Forks σ τ pPslot cPslot) :
    σ.Invisible pPslot cPslot ↔ ∀ i, pPslot ∈ σ.procs i → 0 < (σ.semArray i).refCount := by
  constructor
  · intro invisible i member
    have counted := forks.paired.counted i
    rw [forks.sim.semArray] at counted
    rw [← invisible.restored.live, forks.leaves.1, forks.semArray_eq, if_pos member]
    exact Int.lt_add_one_of_le counted
  · intro live
    constructor
    · intro i
      rw [← forks.forked.members, ← forks.sim.members]
      exact forks.joined.child_mem_iff (forks.stranger i)
    · intro i q other
      rw [← forks.forked.members, ← forks.sim.members]
      exact forks.joined.count_eq other i
    · exact forks.restored live
    · intro i
      rw [forks.leaves.1]
      exact id

end Forks

end Fs

/-! ## All runs -/

namespace World

/-- After any events, a fork and the exit of the child are invisible exactly if the parent
is in the lists of live slots only. The child is any process that is in no list, and there
have to be nodes for it. -/
theorem invisible_iff_parent_live (es : List Event) {pPslot cPslot : Int}
    (parent : pPslot ≠ cPslot) (noTrace : NoTrace (after es).fs cPslot)
    (room : (after es).fs.pools.used + (after es).fs.insertions (.fork pPslot cPslot) ≤
      maxNodes) : (after es).fs.Invisible pPslot cPslot ↔
        ∀ i, pPslot ∈ (after es).fs.procs i → 0 < ((after es).fs.semArray i).refCount := by
  have sturdy := after_sturdy es
  apply Fs.Forks.invisible_iff
  constructor
  · exact sturdy.simulated
  · exact sturdy.paired
  · exact parent
  · exact fun i => (noTrace i).1
  · exact room

/-- The parent has opened one semaphore twice and made another one without a name. -/
theorem invisible_of_two_opens :
    (after [Client.call 5 (Client.semOpenRequest default ⟨[97], by simp⟩ 0o100 0 1),
      Client.call 5 (Client.semOpenRequest default ⟨[97], by simp⟩ 0 0 0),
      Client.call 5 (Client.semInitRequest default 0 0 1)]).fs.Invisible 5 6 := by
  apply (invisible_iff_parent_live _ (by decide) _ _).mpr
  · decide +kernel
  · rw [NoTrace]
    decide +kernel
  · decide +kernel

/-- A name that `sem_destroy` has left brings slot 0 back to life with a list that slot 1
gets as well. After slot 1 has been destroyed the parent opens slot 0 again and is in the
list of both. The fork counts slot 1 up, and it is live after the exit of the child. -/
theorem not_invisible_of_destroy :
    let σ := (after [Client.call 5 (Client.semOpenRequest default ⟨[97], by simp⟩ 0o100 0 1),
      Client.call 5 (Client.semDestroyRequest default 0),
      Client.call 5 (Client.semOpenRequest default ⟨[97], by simp⟩ 0 0 0),
      Client.call 5 (Client.semInitRequest default 0 0 1),
      Client.call 5 (Client.semDestroyRequest default 1),
      Client.call 5 (Client.semOpenRequest default ⟨[97], by simp⟩ 0 0 0)]).fs
    NoTrace σ 6 ∧ σ.pools.used + σ.insertions (.fork 5 6) ≤ maxNodes ∧
      (σ.semArray 1).refCount = 0 ∧
      (((σ.semOpenAll 5 6).semCloseAll 6).semArray 1).refCount = 1 ∧ ¬σ.Invisible 5 6 := by
  refine ⟨?_, ?_, ?_, ?_, fun invisible => ?_⟩
  · rw [NoTrace]
    decide +kernel
  · decide +kernel
  · decide +kernel
  · decide +kernel
  · have live := (invisible.restored.live 1).mp
    revert live
    decide +kernel

end World

end MinixSemaphore.Server
