import MinixSemaphore.Server.State

/-!
# The semaphore operations

This is semaphore.c. Each operation takes the state and its arguments and returns
the state and its result; a result passed through a pointer is returned next to
it. What C leaves undetermined, such as the content of a local variable that was
never written, is an argument.
-/

namespace MinixSemaphore.Server

open MinixSemaphore.Lists
open MinixSemaphore.Names
open MinixSemaphore.Store
open MinixSemaphore.Semaphore

universe u

namespace Fs

variable {P : Type u} [ListLib P Int]

/-- `NewList` for an unsorted list of processes. -/
def newList (σ : Fs P) (fn : Int → Int → Int) : Fs P × ListADT :=
  let made := ListLib.newList σ.pools fn .unsorted
  (σ.setPools made.1, made.2)

/-- The two lists of a new slot, with the caller in the first. -/
def makeLists (σ : Fs P) (i : SlotIx) : Fs P :=
  let procs := σ.newList procCmp
  let σ := procs.1.modSem i fun s => { s with procList := procs.2 }
  let σ := σ.insert procs.2 σ.who
  let blocked := σ.newList blockedCmp
  blocked.1.modSem i fun s => { s with blockedList := blocked.2 }

/-- `sem_create`: the content of `*sem` if the result is 0. -/
def semCreate (σ : Fs P) (mode : Int) (value : BitVec 32) : Fs P × Option SlotIx :=
  match firstFit fun i => (σ.semArray i).refCount = 0 with
  | none => (σ.setErrno enospc, none)
  | some i =>
      if σ.errno ≠ 0 then
        (σ, none)
      else
        let σ := σ.modSem i fun s => { s with permision := mode, semCount := value.toInt }
        if semValueMax < value.toNat then
          (σ.setErrno einval, none)
        else
          let σ := σ.modSem i fun s => { s with refCount := 1, unlinked := false }
          (σ.makeLists i, some i)

/-- The entry that `HashTableInsert` is going to fill. -/
def entryFor (σ : Fs P) (name : CString) : Option EntryIx :=
  if (σ.semNameMap.hashTableInsert name default).2 = some .noErr then
    firstFit fun e => !σ.semNameMap.occupied e
  else
    none

/-- `sem_open`: the content of `rta_aux` if the result points to it. -/
def semOpen (σ : Fs P) (name : CString) (oflag : BitVec 32) (mod : Int) (val : BitVec 32) :
    Fs P × Option SlotIx :=
  let σ := σ.setErrno 0
  let semFd := σ.semNameMap.hashTableFind name
  if semFd = none ∧ ¬oflag &&& oCreat ≠ 0 then
    (σ.setErrno enoent, none)
  else if pathMax < name.length then
    (σ.setErrno enametoolong, none)
  else if semFd ≠ none ∧ oflag &&& oCreat ≠ 0 ∧ oflag &&& oExcl ≠ 0 then
    (σ.setErrno eexist, none)
  else
    match semFd with
    | some i =>
        if ¬oflag &&& oExcl ≠ 0 then
          let σ := σ.modSem i fun s => { s with refCount := s.refCount + 1 }
          let σ := σ.insert (σ.semArray i).procList σ.who
          (σ.note i .opened, some i)
        else
          (σ, none)
    | none =>
        if oflag &&& oCreat ≠ 0 ∧ ¬oflag &&& oExcl ≠ 0 then
          match σ.semCreate mod val with
          | (σ, none) => (σ, none)
          | (σ, some i) =>
              let entry := σ.entryFor name
              let σ := σ.setMap (σ.semNameMap.hashTableInsert name i).1
              (σ.note i fun p => .created p val.toNat (some entry), some i)
        else
          (σ, none)

/-- `sem_init`: the content of `*handle` if the result is 0. -/
def semInit (σ : Fs P) (_pshared : Int) (value : BitVec 32) : Fs P × Option SlotIx :=
  match σ.semCreate 0 value with
  | (σ, none) => (σ, none)
  | (σ, some i) =>
      let σ := σ.modSem i fun s => { s with unlinked := true }
      (σ.note i fun p => .created p value.toNat none, some i)

/-- `FreeList` -/
def freeList (σ : Fs P) (list : ListADT) : Fs P :=
  σ.setPools (ListLib.freeList σ.pools list)

/-- Free both lists of a slot and the slot, at the end of `sem_destroy` and of the
last `sem_close`. -/
def release (σ : Fs P) (i : SlotIx) : Fs P :=
  let σ := σ.freeList (σ.semArray i).procList
  let σ := σ.freeList (σ.semArray i).blockedList
  σ.modSem i fun s => { s with refCount := 0 }

/-- `sem_destroy` -/
def semDestroy (σ : Fs P) (handle : Int) : Fs P × Int :=
  match σ.granted handle with
  | none => (σ.setErrno einval, -1)
  | some i =>
      if ListLib.listIsEmpty σ.pools (σ.semArray i).blockedList then
        ((σ.release i).note i .destroyed, 0)
      else
        (σ.setErrno ebusy, -1)

/-- `sem_unlink` -/
def semUnlink (σ : Fs P) (name : CString) : Fs P × Int :=
  let semFd := σ.semNameMap.hashTableFind name
  if pathMax < name.length then
    (σ.setErrno enametoolong, -1)
  else
    match semFd with
    | none => (σ.setErrno enoent, -1)
    | some i =>
        if ¬σ.belongs (σ.semArray i).procList σ.who then
          (σ.setErrno eacces, -1)
        else if ListLib.listIsEmpty σ.pools (σ.semArray i).procList then
          (σ, -1)
        else
          let σ := σ.modSem i fun s => { s with unlinked := true }
          let σ := σ.setMap (σ.semNameMap.hashTableRemove name).1
          (σ.note i .unlinked, 0)

/-- One round of `sem_open_all`. -/
def openAllAt (pPslot cPslot : Int) (σ : Fs P) (i : SlotIx) : Fs P :=
  if σ.belongs (σ.semArray i).procList pPslot then
    let σ := σ.modSem i fun s => { s with refCount := s.refCount + 1 }
    (σ.insert (σ.semArray i).procList cPslot).note i fun _ => .inherited pPslot cPslot
  else
    σ

/-- `sem_open_all` -/
def semOpenAll (σ : Fs P) (pPslot cPslot : Int) : Fs P :=
  sweep (openAllAt pPslot cPslot) σ

/-- `ListDelete`, whose result no caller looks at. -/
def delete (σ : Fs P) (list : ListADT) (p : Int) : Fs P :=
  σ.setPools (ListLib.listDelete σ.pools list p).1

/-- `sem_close` -/
def semClose (σ : Fs P) (handle : Int) : Fs P × Int :=
  match σ.granted handle with
  | none => (σ.setErrno einval, -1)
  | some i =>
      let σ := σ.delete (σ.semArray i).procList σ.who
      let last := (σ.semArray i).unlinked && ListLib.listIsEmpty σ.pools (σ.semArray i).procList
      ((if last then σ.release i else σ).note i .closed, 0)

/-- `sem_close_all` -/
def semCloseAll (σ : Fs P) (pslot : Int) : Fs P :=
  let whoBk := σ.who
  let σ := sweep (fun σ (i : SlotIx) => (semClose σ (i : Nat)).1) (σ.setWho pslot)
  σ.setWho whoBk

/-- Count a semaphore down or up. -/
def addCount (σ : Fs P) (i : SlotIx) (amount : Int) : Fs P :=
  σ.modSem i fun s => { s with semCount := s.semCount + amount }

/-- `sem_wait` -/
def semWait (σ : Fs P) (handle : Int) : Fs P × Int :=
  let σ := σ.setErrno 0
  match σ.granted handle with
  | none => (σ.setErrno einval, -1)
  | some i =>
      if (σ.semArray i).semCount ≤ 0 then
        let σ := σ.setDontReply true
        let σ := σ.insert (σ.semArray i).blockedList σ.who
        ((σ.addCount i (-1)).note i .queued, 0)
      else
        ((σ.addCount i (-1)).note i .passed, 0)

/-- `sem_trywait` -/
def semTrywait (σ : Fs P) (handle : Int) : Fs P × Int :=
  let σ := σ.setErrno 0
  match σ.granted handle with
  | none => (σ.setErrno einval, -1)
  | some i =>
      if (σ.semArray i).semCount ≤ 0 then
        (σ.setErrno eagain, -1)
      else
        ((σ.addCount i (-1)).note i .tried, 0)

/-- Take the first process out of a list; `proc` is what the variable holds that
`ListGetElement` leaves alone when the list is empty. -/
def takeFirst (σ : Fs P) (list : ListADT) (proc : Int) : Fs P × Int :=
  let found := ListLib.listGetElement (ListLib.listToBegin σ.pools list) list
  (σ.setPools (ListLib.listRemoveFirst found.1 list).1, found.2.getD proc)

/-- `sem_post`, which ends without a `return`. -/
def semPost (σ : Fs P) (handle proc : Int) : Fs P :=
  let σ := σ.setErrno 0
  match σ.granted handle with
  | none => σ.setErrno einval
  | some i =>
      if (σ.semArray i).semCount < 0 then
        let first := σ.takeFirst (σ.semArray i).blockedList proc
        let σ := first.1.semWake first.2 0
        (σ.addCount i 1).note i fun p => .posted p (some first.2)
      else
        (σ.addCount i 1).note i fun p => .posted p none

/-- `sem_getvalue`: the result, and `*sval` if it is written. -/
def semGetvalue (σ : Fs P) (handle : Int) : Fs P × Int × Option Int :=
  match σ.granted handle with
  | none => (σ.setErrno einval, -1, none)
  | some i => (σ, 0, some (σ.semArray i).semCount)

end Fs

end MinixSemaphore.Server
