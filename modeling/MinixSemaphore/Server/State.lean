import MinixSemaphore.Lists.Interface
import MinixSemaphore.Names.Core
import MinixSemaphore.Semaphore.Core

/-!
# The state of the file system server

The semaphore server is a part of the file system process. Its state is the table
of semaphores, the name map and the lists, and the global variables of the file
system that a request goes through: the caller, the error number, the reply buffer
`m1`, and whether the main loop keeps its reply back. The store of lists is a
parameter. The counters of a semaphore are integers without a bound; a run in
which one of them leaves the range of `int` has no meaning in C.
-/

namespace MinixSemaphore.Server

open MinixSemaphore.Lists
open MinixSemaphore.Names
open MinixSemaphore.Semaphore

universe u

/-- `INITIAL_SEM`, which is also the value of `sem_array_size`. -/
abbrev initialSem : Nat := 10

/-- `SEM_VALUE_MAX` -/
abbrev semValueMax : Nat := 35000

/-- `PATH_MAX` -/
abbrev pathMax : Nat := 255

/-- `MAX_NAME` -/
abbrev maxName : Nat := 255

/-- `O_CREAT` -/
abbrev oCreat : BitVec 32 := 0o100

/-- `O_EXCL` -/
abbrev oExcl : BitVec 32 := 0o200

/-- `MM_PROC_NR` -/
abbrev mmProcNr : Int := 0

/-! Error numbers are negative inside the system processes. -/

abbrev ok : Int := 0
abbrev enoent : Int := -2
abbrev eagain : Int := -11
abbrev eacces : Int := -13
abbrev ebusy : Int := -16
abbrev eexist : Int := -17
abbrev einval : Int := -22
abbrev enospc : Int := -28
abbrev enametoolong : Int := -36

/-- An index into `sem_array`. `idx_array` holds these indices, in order and for
good, so a pointer into it stands for the index it points at. -/
abbrev SlotIx := Fin initialSem

instance : Inhabited SlotIx :=
  ⟨0⟩

/-- `sem_cdt` -/
structure SemCdt where
  semCount : Int
  refCount : Int
  procList : ListADT
  blockedList : ListADT
  permision : Int
  unlinked : Bool

/-- The fields of the reply message: `reply_type`, `reply_rta`, `reply_param1` and
`reply_param2`. -/
structure Reply where
  type : Int
  rta : Int
  param1 : Int
  param2 : Int
  deriving DecidableEq

/-- What is done to a semaphore. One made by `sem_open` originates from the entry
of the name map that was filled for it. -/
abbrev Act := Action SlotIx Int (Option EntryIx)

/-- The static data of semaphore.c, hash.c and list.c. -/
structure SemTable (P : Type u) where
  semArray : SlotIx → SemCdt
  semNameMap : HashTable SlotIx
  pools : P

/-- The file system. The last three fields record what the current request has
sent, whether one of its calls of `ListInsert` has returned `LIST_NO_MEM`, and what
it has done to semaphores; no function reads them. -/
structure Fs (P : Type u) extends SemTable P where
  errno : Int
  who : Int
  dontReply : Bool
  m1 : Reply
  sent : List (Int × Reply)
  full : Bool
  acts : List Act

namespace Fs

variable {P : Type u}

/-- Write fields of a slot of `sem_array`. -/
def modSem (σ : Fs P) (i : SlotIx) (f : SemCdt → SemCdt) : Fs P :=
  { σ with semArray := Function.update σ.semArray i (f (σ.semArray i)) }

/-- Replace the lists. -/
def setPools (σ : Fs P) (pools : P) : Fs P :=
  { σ with pools := pools }

/-- Write `errno`. -/
def setErrno (σ : Fs P) (errno : Int) : Fs P :=
  { σ with errno := errno }

/-- Write `who`. -/
def setWho (σ : Fs P) (who : Int) : Fs P :=
  { σ with who := who }

/-- Write `dont_reply`. -/
def setDontReply (σ : Fs P) (dontReply : Bool) : Fs P :=
  { σ with dontReply := dontReply }

/-- Replace the name map. -/
def setMap (σ : Fs P) (map : HashTable SlotIx) : Fs P :=
  { σ with semNameMap := map }

/-- Record what the caller has done to a semaphore. -/
def note (σ : Fs P) (i : SlotIx) (deed : Int → Deed Int (Option EntryIx)) : Fs P :=
  { σ with acts := σ.acts ++ [⟨i, deed σ.who⟩] }

/-! ## Replies -/

/-- `answer` of semaphore2.c; its cases fall through. -/
def answer (σ : Fs P) (rta param1 param2 : Int) : Nat → Fs P
  | 3 => { σ with m1 := { σ.m1 with rta := rta, param1 := param1, param2 := param2 } }
  | 2 => { σ with m1 := { σ.m1 with rta := rta, param1 := param1 } }
  | 1 => { σ with m1 := { σ.m1 with rta := rta } }
  | _ => σ

/-- `reply` of main.c: the buffer is sent as it stands. -/
def reply (σ : Fs P) (whom result : Int) : Fs P :=
  { σ with
    m1 := { σ.m1 with type := result }
    sent := σ.sent ++ [(whom, { σ.m1 with type := result })] }

/-- `sem_wake` of semaphore2.c -/
def semWake (σ : Fs P) (proc rta : Int) : Fs P :=
  (σ.answer rta 0 0 1).reply proc σ.errno

/-! ## Lists of processes -/

/-- `proc_cmp` -/
def procCmp (p1 p2 : Int) : Int :=
  if p1 ≠ p2 then -1 else 0

/-- `blocked_cmp` -/
def blockedCmp (p1 p2 : Int) : Int :=
  if p1 ≠ p2 then 1 else 0

variable [ListLib P Int]

/-- `ListElementBelongs`, without a copy of the element. -/
def belongs (σ : Fs P) (list : ListADT) (p : Int) : Bool :=
  (ListLib.listElementBelongs σ.pools list p).isSome

/-- `ListInsert`, whose result no caller looks at. -/
def insert (σ : Fs P) (list : ListADT) (p : Int) : Fs P :=
  let result := ListLib.listInsert σ.pools list p
  { σ with pools := result.1, full := σ.full || result.2 == .noMem }

/-- The slot a handle stands for, if it is in range. -/
def slotAt (handle : Int) : Option SlotIx :=
  if inRange : 0 ≤ handle ∧ handle < initialSem then
    some ⟨handle.toNat, by omega⟩
  else
    none

/-- The test that all operations on a handle begin with: the slot, if the handle is
in range and the caller is in its list of processes. -/
def granted (σ : Fs P) (handle : Int) : Option SlotIx :=
  (slotAt handle).filter fun i => σ.belongs (σ.semArray i).procList σ.who

end Fs

end MinixSemaphore.Server
