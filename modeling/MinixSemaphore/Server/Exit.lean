import MinixSemaphore.Client.Library
import MinixSemaphore.Semaphore.Leaving
import MinixSemaphore.Server.Room
import MinixSemaphore.Server.States

/-!
# What is left of a process

When a process ends, `sem_close_all` closes every slot once. That takes the process out of
a list of processes as often as there are slots with this list, and out of a list of
blocked processes only if one of these calls releases the slot.
-/

namespace MinixSemaphore.Server

open MinixSemaphore.Lists
open MinixSemaphore.Names
open MinixSemaphore.Store
open MinixSemaphore.Semaphore
open MinixSemaphore.Transition

universe u

namespace SemTable

/-- The slots that have their lists in common with a slot, in the order of the array. -/
def sharing {P : Type u} (t : SemTable P) (i : SlotIx) : List SlotIx :=
  (List.finRange initialSem).filter fun j => (t.semArray j).procList = (t.semArray i).procList

/-- Both lists of a slot. -/
def lists (t : SeqTable) (i : SlotIx) : List Int × List Int :=
  (t.members i, t.waiters i)

end SemTable

namespace Fs

open SemTable

variable {σ σ' : SeqFs} {i j : SlotIx} {p : Int}

/-! ## Closing one slot -/

/-- A close leaves the fields of slots that it does not count with. -/
structure Closes (σ σ' : SeqFs) : Prop where
  procList : ∀ i, (σ'.semArray i).procList = (σ.semArray i).procList
  unlinked : ∀ i, (σ'.semArray i).unlinked = (σ.semArray i).unlinked
  who : σ'.who = σ.who

theorem closes_semClose (σ : SeqFs) (handle : Int) : Closes σ (σ.semClose handle).1 := by
  have ends := σ.semClose_ends handle
  generalize σ.semClose handle = result at ends ⊢
  cases ends with
  | refused | left => exact ⟨fun _ => rfl, fun _ => rfl, rfl⟩
  | @last j =>
      have array : ((σ.delete (σ.semArray j).procList σ.who).release j).semArray =
          Function.update σ.semArray j { σ.semArray j with refCount := 0 } := rfl
      constructor
      · intro i
        change (((σ.delete _ σ.who).release j).semArray i).procList = _
        rw [array]
        by_cases same : i = j <;> simp [same]
      · intro i
        change (((σ.delete _ σ.who).release j).semArray i).unlinked = _
        rw [array]
        by_cases same : i = j <;> simp [same]
      · rfl

theorem members_delete_self (same : (σ.semArray j).procList = (σ.semArray i).procList)
    (member : p ∈ σ.members j) :
    (σ.delete (σ.semArray j).procList p).members i = (σ.members i).erase p := by
  cases list : (σ.semArray j).procList with
  | none =>
      rw [members, list] at member
      contradiction
  | some l =>
      rw [list] at same
      have rewritten := SeqStore.listDelete_rewritten σ.pools l p
      change (σ.pools.listDelete (some l) p).1.seq (σ.semArray i).procList =
        (σ.pools.seq (σ.semArray i).procList).erase p
      rw [← same]
      exact rewritten.self

theorem members_delete_of_ne (other : (σ.semArray i).procList ≠ (σ.semArray j).procList) :
    (σ.delete (σ.semArray j).procList p).members i = σ.members i :=
  SeqStore.seq_listDelete_of_ne σ.pools other p

theorem waiters_delete (paired : σ.Paired) :
    (σ.delete (σ.semArray j).procList p).waiters i = σ.waiters i := by
  change (σ.pools.listDelete (σ.semArray j).procList p).1.seq (σ.semArray i).blockedList =
    σ.pools.seq (σ.semArray i).blockedList
  by_cases same : (σ.semArray i).blockedList = (σ.semArray j).procList
  · rw [paired.blockedList_eq_none same]
    rfl
  · exact SeqStore.seq_listDelete_of_ne σ.pools same p

/-- A release empties the lists of its slot, and those of the slots that share them. -/
theorem lists_release (paired : σ.Paired) (j i : SlotIx) : (σ.release j).lists i =
    if (σ.semArray j).procList = (σ.semArray i).procList then ([], []) else σ.lists i := by
  have array : ((σ.release j).semArray i).procList = (σ.semArray i).procList ∧
      ((σ.release j).semArray i).blockedList = (σ.semArray i).blockedList := by
    rw [release_semArray]
    by_cases same : i = j <;> simp [same]
  rw [SemTable.lists, members, waiters, array.1, array.2]
  by_cases same : (σ.semArray j).procList = (σ.semArray i).procList
  · rw [if_pos same, ← same, ← paired.blockedList_congr same]
    rcases paired.lists j with ⟨noProc, noBlocked⟩ | ⟨k, proc, blocked⟩
    · rw [noProc, noBlocked]
      rfl
    · obtain ⟨-, content⟩ := release_pools proc blocked
      rw [proc, blocked, SeqStore.seq_some, SeqStore.seq_some, content, content,
        if_pos (Or.inl rfl), if_pos (Or.inr rfl)]
  · rw [if_neg same, SemTable.lists, members, waiters]
    rcases paired.lists j with ⟨noProc, noBlocked⟩ | ⟨k, proc, blocked⟩
    · rw [release_pools_of_none noProc noBlocked]
    · obtain ⟨-, content⟩ := release_pools proc blocked
      rcases paired.lists i with ⟨noProc', noBlocked'⟩ | ⟨k', proc', blocked'⟩
      · rw [noProc', noBlocked']
        rfl
      · have differ : k' ≠ k := by
          rintro rfl
          exact same (proc.trans proc'.symm)
        rw [proc', blocked', SeqStore.seq_some, SeqStore.seq_some, SeqStore.seq_some,
          SeqStore.seq_some, content, content, if_neg, if_neg]
        · simpa [blockedCell_inj] using differ
        · simpa [procCell_inj] using differ

/-- To close a slot is a visit to its lists. -/
theorem lists_semClose (paired : σ.Paired) {handle : Int} (slot : slotAt handle = some j)
    (i : SlotIx) : (σ.semClose handle).1.lists i =
      if (σ.semArray j).procList = (σ.semArray i).procList then
        visit σ.who (σ.lists i) (σ.semArray j).unlinked
      else σ.lists i := by
  have members_eq : (σ.semArray j).procList = (σ.semArray i).procList →
      σ.members j = σ.members i := fun same => congrArg σ.pools.seq same
  by_cases member : σ.who ∈ σ.members j
  · have granted : σ.granted handle = some j := granted_iff.mpr ⟨slot, member⟩
    have deleted := paired.steady (steady_delete (σ.semArray j).procList σ.who)
    have empty : ListLib.listIsEmpty (σ.delete (σ.semArray j).procList σ.who).pools
        (σ.semArray j).procList = true ↔ (σ.members j).erase σ.who = [] := by
      rw [listIsEmpty_iff, ← members_delete_self rfl member]
      rfl
    have ends := σ.semClose_ends handle
    generalize σ.semClose handle = result at ends ⊢
    by_cases same : (σ.semArray j).procList = (σ.semArray i).procList
    · have member' : σ.who ∈ σ.members i := members_eq same ▸ member
      rw [if_pos same, visit, if_pos (show σ.who ∈ (σ.lists i).1 from member')]
      rw [members_eq same] at empty
      cases ends with
      | refused refused =>
          rw [granted] at refused
          contradiction
      | last granted' unlinked emptied =>
          obtain rfl := Option.some.inj (granted.symm.trans granted')
          rw [if_pos ⟨unlinked, empty.mp emptied⟩]
          exact (lists_release deleted j i).trans (if_pos same)
      | left granted' stays =>
          obtain rfl := Option.some.inj (granted.symm.trans granted')
          rw [if_neg]
          · exact congrArg₂ Prod.mk (members_delete_self same member) (waiters_delete paired)
          · rintro ⟨unlinked, emptied⟩
            rw [stays unlinked] at empty
            exact absurd (empty.mpr emptied) Bool.false_ne_true
    · rw [if_neg same]
      have kept : (σ.delete (σ.semArray j).procList σ.who).lists i = σ.lists i :=
        congrArg₂ Prod.mk (members_delete_of_ne (Ne.symm same)) (waiters_delete paired)
      cases ends with
      | refused => rfl
      | last granted' =>
          obtain rfl := Option.some.inj (granted.symm.trans granted')
          exact ((lists_release deleted j i).trans (if_neg same)).trans kept
      | left granted' =>
          obtain rfl := Option.some.inj (granted.symm.trans granted')
          exact kept
  · have refused : σ.granted handle = none := by
      rw [Option.eq_none_iff_forall_ne_some]
      intro k granted
      obtain ⟨slot', member'⟩ := granted_iff.mp granted
      rw [slot, Option.some.injEq] at slot'
      exact member (slot' ▸ member')
    rw [semClose_refused refused]
    split
    · rename_i same
      have outsider : σ.who ∉ σ.members i := members_eq same ▸ member
      exact (visit_of_notMem (show σ.who ∉ (σ.lists i).1 from outsider) _).symm
    · rfl

/-! ## Closing all slots -/

/-- `sem_close_all` visits the lists of a slot once for every slot that shares them. -/
theorem lists_semCloseAll (paired : σ.Paired) (p : Int) (i : SlotIx) :
    (σ.semCloseAll p).lists i =
      visits p (fun j => (σ.semArray j).unlinked) (σ.sharing i) (σ.lists i) := by
  have swept := sweep_progress (fun σ (j : SlotIx) => (semClose σ (j : Nat)).1) (σ.setWho p)
    (I := fun done τ => τ.Paired ∧ Closes (σ.setWho p) τ ∧
      τ.lists i = visits p (fun j => (σ.semArray j).unlinked)
        (done.filter fun j => (σ.semArray j).procList = (σ.semArray i).procList) (σ.lists i))
    ⟨paired, ⟨fun _ => rfl, fun _ => rfl, rfl⟩, rfl⟩ ?_
  · exact swept.2.2
  · rintro done τ j - ⟨paired, closes, lists⟩
    have next := closes_semClose τ (j : Nat)
    have procList : ∀ k, (τ.semArray k).procList = (σ.semArray k).procList := closes.procList
    have unlinked : (τ.semArray j).unlinked = (σ.semArray j).unlinked := closes.unlinked j
    have who : τ.who = p := closes.who
    refine ⟨paired_semClose paired (j : Nat), ?_, ?_⟩
    · constructor
      · exact fun k => (next.procList k).trans (closes.procList k)
      · exact fun k => (next.unlinked k).trans (closes.unlinked k)
      · exact next.who.trans closes.who
    · rw [lists_semClose paired (slotAt_coe j), procList, procList, unlinked, who, lists,
        List.filter_append, visits, visits, List.foldl_append]
      by_cases same : (σ.semArray j).procList = (σ.semArray i).procList
      · rw [if_pos same, List.filter_singleton, decide_eq_true same]
        rfl
      · rw [if_neg same, List.filter_singleton, decide_eq_false same]
        rfl

theorem lists_step_of_leaver (paired : σ.Paired) {e : Event} (leaver : e.leaver = some p)
    (i : SlotIx) : (σ.step e).lists i =
      visits p (fun j => (σ.semArray j).unlinked) (σ.sharing i) (σ.lists i) := by
  have closed := lists_semCloseAll (σ := σ.getWork mmProcNr) paired p i
  cases e with
  | semaph who m g => contradiction
  | fork parent child => contradiction
  | exec slot | exit slot =>
      obtain rfl := Option.some.inj leaver
      rw [Fs.step]
      split
      · exact closed
      · exact closed

end Fs

/-! ## What is left -/

namespace World

/-- The process is in no list of processes and in no list of blocked processes. -/
def NoTrace (σ : Fs (Pools Int)) (p : Int) : Prop :=
  ∀ i, p ∉ σ.procs i ∧ p ∉ σ.blocked i

/-- The process uses no list more often than there are slots that share it; and if it is
blocked, then it is the only user, and one of these slots is unlinked and has the number
of its uses as its place among them. -/
structure Leavable (σ : Fs (Pools Int)) (p : Int) (i : SlotIx) : Prop where
  uses : (σ.procs i).count p ≤ (σ.sharing i).length
  waits : p ∈ σ.blocked i →
    Ends p (fun j => (σ.semArray j).unlinked) (σ.sharing i) (σ.procs i)

/-- After any events, no trace of a process is left by its exit, exactly if it can leave
every slot. -/
theorem noTrace_iff_leavable (es : List Event) (p : Int) :
    NoTrace ((after es).step (.exit p)).fs p ↔ ∀ i, Leavable (after es).fs p i := by
  have sturdy := after_sturdy es
  have simulated := sturdy.simulated
  have simulated' := (sturdy.step (.exit p)).simulated
  apply forall_congr'
  intro i
  have lists : ((after es).step (.exit p)).abs.fs.lists i =
      visits p (fun j => ((after es).fs.semArray j).unlinked) ((after es).fs.sharing i)
        ((after es).abs.fs.lists i) := by
    rw [step_abs simulated]
    exact Fs.lists_step_of_leaver sturdy.paired rfl i
  rw [← Fs.Sim.members simulated' i, ← Fs.Sim.waiters simulated' i]
  change p ∉ (((after es).step (.exit p)).abs.fs.lists i).1 ∧
    p ∉ (((after es).step (.exit p)).abs.fs.lists i).2 ↔ _
  rw [lists, notMem_visits_fst_iff, notMem_visits_snd_iff]
  have members : ((after es).abs.fs.lists i).1 = (after es).fs.procs i :=
    Fs.Sim.members simulated i
  have waiters : ((after es).abs.fs.lists i).2 = (after es).fs.blocked i :=
    Fs.Sim.waiters simulated i
  rw [members, waiters]
  constructor
  · rintro ⟨uses, waits⟩
    exact ⟨uses, waits⟩
  · rintro ⟨uses, waits⟩
    exact ⟨uses, waits⟩

/-- Process 5 opens a semaphore twice, so that one use is left. -/
theorem not_noTrace_of_two_opens :
    ¬NoTrace ((after [Client.call 5 (Client.semOpenRequest default ⟨[97], by simp⟩ 0o100 0 1),
      Client.call 5 (Client.semOpenRequest default ⟨[97], by simp⟩ 0 0 0)]).step
        (.exit 5)).fs 5 := by
  intro noTrace
  have left := (noTrace 0).1
  revert left
  decide +kernel

end World

end MinixSemaphore.Server
