import MinixSemaphore.Lists.Refinement
import MinixSemaphore.Server.Main

/-!
# The server on sequences

The server is the same program over both stores of lists. Over the pools of list.c
it does what it does over sequences: every operation carries simulating states to
simulating states and has the same result. From here on the pools need not be
looked at any more.
-/

namespace MinixSemaphore.Server

open MinixSemaphore.Lists
open MinixSemaphore.Names
open MinixSemaphore.Store
open MinixSemaphore.Semaphore

universe u v

namespace Fs

/-- Replace the store of lists. -/
def mapPools {P : Type u} {Q : Type v} (f : P → Q) (σ : Fs P) : Fs Q where
  semArray := σ.semArray
  semNameMap := σ.semNameMap
  pools := f σ.pools
  errno := σ.errno
  who := σ.who
  dontReply := σ.dontReply
  m1 := σ.m1
  sent := σ.sent
  full := σ.full
  acts := σ.acts

/-- `τ` is `σ` with sequences in place of chains. The pools are well formed, and
the lists of all slots are ones the operations of list.c work on. -/
structure Sim (σ : Fs (Pools Int)) (τ : Fs (SeqStore Int)) : Prop where
  wellFormed : σ.pools.WellFormed
  usable : ∀ i, σ.pools.Usable (σ.semArray i).procList ∧
    σ.pools.Usable (σ.semArray i).blockedList
  eq : τ = σ.mapPools Pools.abs

/-- The processes in the list `proc_list` of a slot, along its chain. -/
def procs (σ : Fs (Pools Int)) (i : SlotIx) : List Int :=
  σ.pools.seq (σ.semArray i).procList

/-- The processes in the list `blocked_list` of a slot, along its chain. -/
def blocked (σ : Fs (Pools Int)) (i : SlotIx) : List Int :=
  σ.pools.seq (σ.semArray i).blockedList

/-- Simulating states, and equal results. -/
def SimResult {α : Type u} (r : Fs (Pools Int) × α) (s : Fs (SeqStore Int) × α) : Prop :=
  Sim r.1 s.1 ∧ r.2 = s.2

theorem procCmp_eq_zero_iff (a b : Int) : procCmp a b = 0 ↔ a = b := by
  by_cases same : a = b <;> simp [procCmp, same]

theorem blockedCmp_eq_zero_iff (a b : Int) : blockedCmp a b = 0 ↔ a = b := by
  by_cases same : a = b <;> simp [blockedCmp, same]

namespace Sim

variable {σ : Fs (Pools Int)} {τ : Fs (SeqStore Int)}

/-! ## Reading -/

theorem semArray (sim : Sim σ τ) : τ.semArray = σ.semArray := by
  rw [sim.eq]
  rfl

theorem semNameMap (sim : Sim σ τ) : τ.semNameMap = σ.semNameMap := by
  rw [sim.eq]
  rfl

theorem pools (sim : Sim σ τ) : τ.pools = σ.pools.abs := by
  rw [sim.eq]
  rfl

theorem errno (sim : Sim σ τ) : τ.errno = σ.errno := by
  rw [sim.eq]
  rfl

theorem who (sim : Sim σ τ) : τ.who = σ.who := by
  rw [sim.eq]
  rfl

theorem dontReply (sim : Sim σ τ) : τ.dontReply = σ.dontReply := by
  rw [sim.eq]
  rfl

theorem belongs (sim : Sim σ τ) {list : ListADT} (usable : σ.pools.Usable list) (p : Int) :
    τ.belongs list p = σ.belongs list p := by
  change (SeqStore.listElementBelongs _ _ _).isSome = (Pools.listElementBelongs _ _ _).isSome
  rw [sim.pools, Pools.listElementBelongs_eq sim.wellFormed usable]

theorem listIsEmpty (sim : Sim σ τ) (list : ListADT) :
    ListLib.listIsEmpty τ.pools list = ListLib.listIsEmpty σ.pools list := by
  rw [sim.pools]
  exact (Pools.listIsEmpty_eq sim.wellFormed list).symm

theorem granted (sim : Sim σ τ) (handle : Int) : τ.granted handle = σ.granted handle := by
  rw [Fs.granted, Fs.granted, sim.semArray, sim.who]
  congr 1
  funext i
  exact sim.belongs (sim.usable i).1 σ.who

/-! ## Writing -/

/-- A change outside the table and the lists. -/
theorem of_table {σ' : Fs (Pools Int)} {τ' : Fs (SeqStore Int)} (sim : Sim σ τ)
    (same : σ'.toSemTable = σ.toSemTable) (eq : τ' = σ'.mapPools Pools.abs) : Sim σ' τ' := by
  have pools : σ'.pools = σ.pools := congrArg SemTable.pools same
  have array : σ'.semArray = σ.semArray := congrArg SemTable.semArray same
  refine ⟨?_, ?_, eq⟩
  · rw [pools]
    exact sim.wellFormed
  · rw [pools, array]
    exact sim.usable

theorem setErrno (sim : Sim σ τ) (errno : Int) : Sim (σ.setErrno errno) (τ.setErrno errno) :=
  sim.of_table rfl (by rw [sim.eq]; rfl)

theorem note (sim : Sim σ τ) (i : SlotIx) (deed : Int → Deed Int (Option EntryIx)) :
    Sim (σ.note i deed) (τ.note i deed) :=
  sim.of_table rfl (by rw [sim.eq]; rfl)

theorem setWho (sim : Sim σ τ) (who : Int) : Sim (σ.setWho who) (τ.setWho who) :=
  sim.of_table rfl (by rw [sim.eq]; rfl)

theorem setDontReply (sim : Sim σ τ) (dontReply : Bool) :
    Sim (σ.setDontReply dontReply) (τ.setDontReply dontReply) :=
  sim.of_table rfl (by rw [sim.eq]; rfl)

theorem answer (sim : Sim σ τ) (rta param1 param2 : Int) (params : Nat) :
    Sim (σ.answer rta param1 param2 params) (τ.answer rta param1 param2 params) := by
  rw [sim.eq]
  rcases params with _ | _ | _ | _ | params <;> exact sim.of_table rfl rfl

theorem reply (sim : Sim σ τ) (whom result : Int) :
    Sim (σ.reply whom result) (τ.reply whom result) :=
  sim.of_table rfl (by rw [sim.eq]; rfl)

theorem semWake (sim : Sim σ τ) (proc rta : Int) :
    Sim (σ.semWake proc rta) (τ.semWake proc rta) := by
  have answered := sim.answer rta 0 0 1
  rw [Fs.semWake, Fs.semWake, sim.errno]
  exact answered.reply proc σ.errno

theorem getWork (sim : Sim σ τ) (who : Int) : Sim (σ.getWork who) (τ.getWork who) :=
  sim.of_table rfl (by rw [sim.eq]; rfl)

theorem setMap (sim : Sim σ τ) (map : HashTable SlotIx) : Sim (σ.setMap map) (τ.setMap map) :=
  ⟨sim.wellFormed, sim.usable, by rw [sim.eq]; rfl⟩

/-- Writing fields of a slot; its lists have to stay ones that can be worked on. -/
theorem modSem (sim : Sim σ τ) (i : SlotIx) {f : SemCdt → SemCdt}
    (proc : σ.pools.Usable (f (σ.semArray i)).procList)
    (blocked : σ.pools.Usable (f (σ.semArray i)).blockedList) :
    Sim (σ.modSem i f) (τ.modSem i f) := by
  refine ⟨sim.wellFormed, fun j => ?_, by rw [sim.eq]; rfl⟩
  by_cases same : j = i
  · subst same
    simpa [Fs.modSem] using And.intro proc blocked
  · simpa [Fs.modSem, same] using sim.usable j

/-- Writing fields of a slot other than its lists. -/
theorem update (sim : Sim σ τ) (i : SlotIx) (f : SemCdt → SemCdt)
    (proc : ∀ s, (f s).procList = s.procList)
    (blocked : ∀ s, (f s).blockedList = s.blockedList) :
    Sim (σ.modSem i f) (τ.modSem i f) := by
  refine sim.modSem i ?_ ?_
  · rw [proc]
    exact (sim.usable i).1
  · rw [blocked]
    exact (sim.usable i).2

theorem addCount (sim : Sim σ τ) (i : SlotIx) (amount : Int) :
    Sim (σ.addCount i amount) (τ.addCount i amount) :=
  sim.update i (fun s => { s with semCount := s.semCount + amount }) (fun _ => rfl) fun _ => rfl

theorem usable_of_kind {p p' : Pools Int} (kind : ∀ l, p'.kind l = p.kind l) {list : ListADT}
    (usable : p.Usable list) : p'.Usable list := by
  cases list with
  | none => trivial
  | some l =>
      rw [Pools.Usable, Pools.Unsorted, kind l]
      exact usable

/-- An operation of list.c that keeps the kinds of lists. -/
theorem setPools (sim : Sim σ τ) {p : Pools Int} {s : SeqStore Int}
    (refines : Pools.Refines σ.pools p s) : Sim (σ.setPools p) (τ.setPools s) := by
  refine ⟨refines.wellFormed, fun i => ?_, ?_⟩
  · exact ⟨usable_of_kind refines.kind (sim.usable i).1,
      usable_of_kind refines.kind (sim.usable i).2⟩
  · rw [sim.eq, ← refines.abs]
    rfl

theorem freeList (sim : Sim σ τ) (list : ListADT) :
    Sim (σ.freeList list) (τ.freeList list) := by
  rw [Fs.freeList, Fs.freeList, sim.pools]
  exact sim.setPools (Pools.freeList_refines sim.wellFormed list)

theorem insert (sim : Sim σ τ) {list : ListADT} (usable : σ.pools.Usable list) (p : Int) :
    Sim (σ.insert list p) (τ.insert list p) := by
  obtain ⟨refines, status⟩ := Pools.listInsert_refines sim.wellFormed usable p
  have inserted := sim.setPools refines
  refine inserted.of_table rfl ?_
  rw [sim.eq]
  simp only [Fs.insert, mapPools, ListLib.listInsert]
  rw [refines.abs, status]

/-- `NewList` with one of the two comparison functions of semaphore.c. -/
theorem newList (sim : Sim σ τ) {fn : Int → Int → Int} (exact : ∀ a b, fn a b = 0 ↔ a = b) :
    Sim (σ.newList fn).1 (τ.newList fn).1 ∧ (τ.newList fn).2 = (σ.newList fn).2 ∧
      (σ.newList fn).1.pools.Usable (σ.newList fn).2 := by
  obtain ⟨wellFormed, abs, pointer, kind⟩ :=
    Pools.newList_refines sim.wellFormed fn .unsorted
  have keeps : ∀ {list}, σ.pools.Usable list → (σ.pools.newList fn .unsorted).1.Usable list := by
    intro list usable
    cases list with
    | none => trivial
    | some l =>
        rw [Pools.Usable, Pools.Unsorted, kind l]
        by_cases fresh : (σ.pools.newList fn .unsorted).2 = some l
        · rw [if_pos fresh]
          exact ⟨rfl, exact⟩
        · rw [if_neg fresh]
          exact usable
  refine ⟨⟨wellFormed, fun i => ⟨keeps (sim.usable i).1, keeps (sim.usable i).2⟩, ?_⟩, ?_, ?_⟩
  · rw [sim.eq]
    change (σ.mapPools Pools.abs).setPools (σ.pools.abs.newList fn .unsorted).1 = _
    rw [← abs]
    rfl
  · rw [Fs.newList, sim.pools]
    exact pointer.symm
  · change (σ.pools.newList fn .unsorted).1.Usable (σ.pools.newList fn .unsorted).2
    cases fresh : (σ.pools.newList fn .unsorted).2 with
    | none => trivial
    | some l =>
        rw [Pools.Usable, Pools.Unsorted, kind l, if_pos fresh]
        exact ⟨rfl, exact⟩

/-! ## Operations -/

theorem makeLists (sim : Sim σ τ) (i : SlotIx) : Sim (σ.makeLists i) (τ.makeLists i) := by
  obtain ⟨made, pointer, usable⟩ := sim.newList procCmp_eq_zero_iff
  have listed := made.modSem i (f := fun s => { s with procList := (σ.newList procCmp).2 })
    usable (made.usable i).2
  have filled := listed.insert usable
    ((σ.newList procCmp).1.modSem i fun s => { s with procList := (σ.newList procCmp).2 }).who
  obtain ⟨made', pointer', usable'⟩ := filled.newList blockedCmp_eq_zero_iff
  rw [Fs.makeLists, Fs.makeLists]
  rw [pointer, listed.who, pointer']
  exact made'.modSem i (made'.usable i).1 usable'

theorem semCreate (sim : Sim σ τ) (mode : Int) (value : BitVec 32) :
    SimResult (σ.semCreate mode value) (τ.semCreate mode value) := by
  rw [Fs.semCreate, Fs.semCreate, sim.semArray, sim.errno]
  cases firstFit fun i => decide ((σ.semArray i).refCount = 0) with
  | none => exact ⟨sim.setErrno enospc, rfl⟩
  | some i =>
      simp only
      by_cases pending : σ.errno ≠ 0
      · rw [if_pos pending, if_pos pending]
        exact ⟨sim, rfl⟩
      · rw [if_neg pending, if_neg pending]
        have valued := sim.update i
          (fun s => { s with permision := mode, semCount := value.toInt })
          (fun _ => rfl) fun _ => rfl
        by_cases large : semValueMax < value.toNat
        · rw [if_pos large, if_pos large]
          exact ⟨valued.setErrno einval, rfl⟩
        · rw [if_neg large, if_neg large]
          exact ⟨(valued.update i (fun s => { s with refCount := 1, unlinked := false })
            (fun _ => rfl) fun _ => rfl).makeLists i, rfl⟩

theorem entryFor (sim : Sim σ τ) (name : CString) : τ.entryFor name = σ.entryFor name := by
  rw [Fs.entryFor, Fs.entryFor, sim.semNameMap]

theorem semOpen (sim : Sim σ τ) (name : CString) (oflag : BitVec 32) (mod : Int)
    (val : BitVec 32) :
    SimResult (σ.semOpen name oflag mod val) (τ.semOpen name oflag mod val) := by
  have sim := sim.setErrno 0
  rw [Fs.semOpen, Fs.semOpen]
  simp only
  rw [sim.semNameMap]
  split
  · exact ⟨sim.setErrno enoent, rfl⟩
  split
  · exact ⟨sim.setErrno enametoolong, rfl⟩
  split
  · exact ⟨sim.setErrno eexist, rfl⟩
  cases (σ.setErrno 0).semNameMap.hashTableFind name with
  | some i =>
      simp only
      split
      · have counted := sim.update i (fun s => { s with refCount := s.refCount + 1 })
          (fun _ => rfl) fun _ => rfl
        rw [counted.semArray, counted.who]
        exact ⟨(counted.insert (counted.usable i).1 _).note i _, rfl⟩
      · exact ⟨sim, rfl⟩
  | none =>
      simp only
      split
      · obtain ⟨created, result⟩ := sim.semCreate mod val
        revert created result
        rcases (σ.setErrno 0).semCreate mod val with ⟨σ', _ | i⟩ <;>
          rcases (τ.setErrno 0).semCreate mod val with ⟨τ', _ | j⟩ <;>
          intro created result
        · exact ⟨created, rfl⟩
        · contradiction
        · contradiction
        · obtain rfl := Option.some.inj result
          have created : Sim σ' τ' := created
          refine ⟨?_, rfl⟩
          simp only
          rw [created.entryFor, created.semNameMap]
          exact (created.setMap _).note i _
      · exact ⟨sim, rfl⟩

theorem semInit (sim : Sim σ τ) (pshared : Int) (value : BitVec 32) :
    SimResult (σ.semInit pshared value) (τ.semInit pshared value) := by
  obtain ⟨created, result⟩ := sim.semCreate 0 value
  rw [Fs.semInit, Fs.semInit]
  revert created result
  rcases σ.semCreate 0 value with ⟨σ', _ | i⟩ <;>
    rcases τ.semCreate 0 value with ⟨τ', _ | j⟩ <;>
    intro created result
  · exact ⟨created, rfl⟩
  · contradiction
  · contradiction
  · obtain rfl := Option.some.inj result
    have created : Sim σ' τ' := created
    exact ⟨(created.update i (fun s => { s with unlinked := true })
      (fun _ => rfl) fun _ => rfl).note i fun p => .created p value.toNat none, rfl⟩

theorem release (sim : Sim σ τ) (i : SlotIx) : Sim (σ.release i) (τ.release i) := by
  have procs := sim.freeList (σ.semArray i).procList
  have both := procs.freeList (σ.semArray i).blockedList
  rw [Fs.release, Fs.release]
  rw [sim.semArray, procs.semArray]
  exact both.update i (fun s => { s with refCount := 0 }) (fun _ => rfl) fun _ => rfl

theorem semDestroy (sim : Sim σ τ) (handle : Int) :
    SimResult (σ.semDestroy handle) (τ.semDestroy handle) := by
  rw [Fs.semDestroy, Fs.semDestroy, sim.granted]
  cases σ.granted handle with
  | none => exact ⟨sim.setErrno einval, rfl⟩
  | some i =>
      simp only
      rw [sim.semArray, sim.listIsEmpty]
      split
      · exact ⟨(sim.release i).note i _, rfl⟩
      · exact ⟨sim.setErrno ebusy, rfl⟩

theorem semUnlink (sim : Sim σ τ) (name : CString) :
    SimResult (σ.semUnlink name) (τ.semUnlink name) := by
  rw [Fs.semUnlink, Fs.semUnlink]
  simp only
  rw [sim.semNameMap]
  split
  · exact ⟨sim.setErrno enametoolong, rfl⟩
  cases σ.semNameMap.hashTableFind name with
  | none => exact ⟨sim.setErrno enoent, rfl⟩
  | some i =>
      simp only
      rw [sim.semArray, sim.who, sim.belongs (sim.usable i).1, sim.listIsEmpty]
      split
      · exact ⟨sim.setErrno eacces, rfl⟩
      split
      · exact ⟨sim, rfl⟩
      · have marked := sim.update i (fun s => { s with unlinked := true })
          (fun _ => rfl) fun _ => rfl
        refine ⟨?_, rfl⟩
        simp only
        rw [marked.semNameMap]
        exact (marked.setMap _).note i _

theorem openAllAt (sim : Sim σ τ) (pPslot cPslot : Int) (i : SlotIx) :
    Sim (Fs.openAllAt pPslot cPslot σ i) (Fs.openAllAt pPslot cPslot τ i) := by
  rw [Fs.openAllAt, Fs.openAllAt, sim.belongs (by rw [sim.semArray]; exact (sim.usable i).1),
    sim.semArray]
  split
  · have counted := sim.update i (fun s => { s with refCount := s.refCount + 1 })
      (fun _ => rfl) fun _ => rfl
    simp only
    rw [counted.semArray]
    exact (counted.insert (counted.usable i).1 cPslot).note i _
  · exact sim

theorem semOpenAll (sim : Sim σ τ) (pPslot cPslot : Int) :
    Sim (σ.semOpenAll pPslot cPslot) (τ.semOpenAll pPslot cPslot) :=
  sweep_relation sim fun _ _ i sim => sim.openAllAt pPslot cPslot i

theorem delete (sim : Sim σ τ) {list : ListADT} (usable : σ.pools.Usable list) (p : Int) :
    Sim (σ.delete list p) (τ.delete list p) := by
  rw [Fs.delete, Fs.delete, sim.pools]
  exact sim.setPools (Pools.listDelete_refines sim.wellFormed usable p).1

theorem semClose (sim : Sim σ τ) (handle : Int) :
    SimResult (σ.semClose handle) (τ.semClose handle) := by
  rw [Fs.semClose, Fs.semClose, sim.granted]
  cases σ.granted handle with
  | none => exact ⟨sim.setErrno einval, rfl⟩
  | some i =>
      have deleted := sim.delete (sim.usable i).1 σ.who
      simp only
      rw [sim.semArray, sim.who, deleted.semArray, deleted.listIsEmpty]
      split
      · exact ⟨(deleted.release i).note i _, rfl⟩
      · exact ⟨deleted.note i _, rfl⟩

theorem semCloseAll (sim : Sim σ τ) (pslot : Int) :
    Sim (σ.semCloseAll pslot) (τ.semCloseAll pslot) := by
  have closed : Sim (sweep (fun σ (i : SlotIx) => (Fs.semClose σ (i : Nat)).1) (σ.setWho pslot))
      (sweep (fun τ (i : SlotIx) => (Fs.semClose τ (i : Nat)).1) (τ.setWho pslot)) :=
    sweep_relation (sim.setWho pslot) fun _ _ i sim => (sim.semClose (i : Nat)).1
  rw [Fs.semCloseAll, Fs.semCloseAll, sim.who]
  exact closed.setWho σ.who

theorem semWait (sim : Sim σ τ) (handle : Int) :
    SimResult (σ.semWait handle) (τ.semWait handle) := by
  have sim := sim.setErrno 0
  rw [Fs.semWait, Fs.semWait, sim.granted]
  cases (σ.setErrno 0).granted handle with
  | none => exact ⟨sim.setErrno einval, rfl⟩
  | some i =>
      have kept := sim.setDontReply true
      simp only
      rw [sim.semArray, kept.semArray, kept.who]
      split
      · exact ⟨((kept.insert (kept.usable i).2 _).addCount i (-1)).note i _, rfl⟩
      · exact ⟨(sim.addCount i (-1)).note i _, rfl⟩

theorem semTrywait (sim : Sim σ τ) (handle : Int) :
    SimResult (σ.semTrywait handle) (τ.semTrywait handle) := by
  have sim := sim.setErrno 0
  rw [Fs.semTrywait, Fs.semTrywait, sim.granted]
  cases (σ.setErrno 0).granted handle with
  | none => exact ⟨sim.setErrno einval, rfl⟩
  | some i =>
      simp only
      rw [sim.semArray]
      split
      · exact ⟨sim.setErrno eagain, rfl⟩
      · exact ⟨(sim.addCount i (-1)).note i _, rfl⟩

theorem takeFirst (sim : Sim σ τ) (list : ListADT) (proc : Int) :
    SimResult (σ.takeFirst list proc) (τ.takeFirst list proc) := by
  obtain ⟨moved, found⟩ := Pools.getElement_toBegin_refines sim.wellFormed list
  have read := sim.setPools moved
  have removed := read.setPools (Pools.listRemoveFirst_refines moved.wellFormed list).1
  rw [moved.abs, ← sim.pools] at removed
  refine ⟨removed, ?_⟩
  have head : ((τ.pools.listToBegin list).listGetElement list).2 =
      ((σ.pools.listToBegin list).listGetElement list).2 := by
    rw [found, sim.pools, ← Pools.abs_seq]
    rfl
  exact (congrArg (fun x => Option.getD x proc) head).symm

theorem semPost (sim : Sim σ τ) (handle proc : Int) :
    Sim (σ.semPost handle proc) (τ.semPost handle proc) := by
  have sim := sim.setErrno 0
  rw [Fs.semPost, Fs.semPost, sim.granted]
  cases (σ.setErrno 0).granted handle with
  | none => exact sim.setErrno einval
  | some i =>
      simp only
      rw [sim.semArray]
      obtain ⟨taken, first⟩ := sim.takeFirst ((σ.setErrno 0).semArray i).blockedList proc
      split
      · rw [← first]
        exact ((taken.semWake _ 0).addCount i 1).note i _
      · exact (sim.addCount i 1).note i _

theorem semGetvalue (sim : Sim σ τ) (handle : Int) :
    SimResult (σ.semGetvalue handle) (τ.semGetvalue handle) := by
  rw [Fs.semGetvalue, Fs.semGetvalue, sim.granted, sim.semArray]
  cases σ.granted handle with
  | none => exact ⟨sim.setErrno einval, rfl⟩
  | some i => exact ⟨sim, rfl⟩

/-! ## The main loop -/

theorem answerHandle {r : Fs (Pools Int) × Int} {s : Fs (SeqStore Int) × Int}
    (result : SimResult r s) (sema : Int) :
    SimResult (Fs.answerHandle r sema) (Fs.answerHandle s sema) := by
  obtain ⟨sim, same⟩ := result
  rw [Fs.answerHandle, Fs.answerHandle, same]
  exact ⟨sim.answer _ sema 0 2, rfl⟩

theorem dispatch (sim : Sim σ τ) (m : Message) (g : Garbage) :
    SimResult (σ.dispatch m g) (τ.dispatch m g) := by
  rw [Fs.dispatch, Fs.dispatch]
  cases Funcion.ofInt m.funcion with
  | none => exact ⟨sim, rfl⟩
  | some funcion =>
      cases funcion with
      | semOpen =>
          obtain ⟨opened, result⟩ := sim.semOpen (requestName m) (BitVec.ofInt 32 m.oflag)
            (if m.cantArg = 4 then m.permisos else g.mod)
            (if m.cantArg = 4 then BitVec.ofInt 32 m.valInicial else g.val)
          simp only
          rw [result]
          exact ⟨opened.answer _ 0 0 1, rfl⟩
      | semClose => exact answerHandle (sim.semClose _) _
      | semInit =>
          obtain ⟨made, result⟩ := sim.semInit m.pshared (BitVec.ofInt 32 m.valInicial)
          simp only
          rw [result]
          exact ⟨made.answer _ _ 0 2, rfl⟩
      | semWait => exact answerHandle (sim.semWait _) _
      | semPost => exact answerHandle ⟨sim.semPost _ _, rfl⟩ _
      | semUlink =>
          obtain ⟨unlinked, result⟩ := sim.semUnlink (requestName m)
          simp only
          rw [result]
          exact ⟨unlinked.answer _ 0 0 1, rfl⟩
      | semGetval =>
          obtain ⟨read, result⟩ := sim.semGetvalue m.semaforo
          simp only
          rw [result]
          exact ⟨read.answer _ _ _ 3, rfl⟩
      | semTrywait => exact answerHandle (sim.semTrywait _) _
      | semDestroy => exact answerHandle (sim.semDestroy _) _
      | semTimedwait => exact ⟨sim.answer 0 0 0 1, rfl⟩

theorem callVector (sim : Sim σ τ) (e : Event) : SimResult (σ.callVector e) (τ.callVector e) := by
  cases e with
  | semaph who m g =>
      obtain ⟨served, result⟩ := sim.dispatch m g
      refine ⟨served, ?_⟩
      change (if _ then _ else _) = if _ then _ else _
      rw [result, served.errno]
  | fork parent child => exact ⟨sim.semOpenAll parent child, rfl⟩
  | exec slot => exact ⟨sim.semCloseAll slot, rfl⟩
  | exit slot => exact ⟨sim.semCloseAll slot, rfl⟩

/-- A round of the main loop keeps states simulating. -/
theorem step (sim : Sim σ τ) (e : Event) : Sim (σ.step e) (τ.step e) := by
  obtain ⟨served, result⟩ := (sim.getWork e.source).callVector e
  rw [Fs.step, Fs.step, served.dontReply, served.who, result]
  split
  · exact served
  · exact served.reply _ _

end Sim

/-- At the start no list is in use. -/
theorem start_sim : Sim (Fs.start Pools.zeroed) (Fs.start SeqStore.empty) := by
  rw [← Pools.abs_zeroed]
  exact ⟨⟨_, Pools.zeroed_shape⟩, fun _ => ⟨trivial, trivial⟩, rfl⟩

end Fs

end MinixSemaphore.Server
