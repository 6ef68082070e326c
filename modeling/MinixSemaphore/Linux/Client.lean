import MinixSemaphore.Linux.Protocol
import MinixSemaphore.Server.State

/-!
# The Linux library

This is sem_cli.c. A function of the library puts its arguments into the buffer, sends
what is in front of the position, lets the answer overwrite the buffer, and reads its
results from there. The arguments are machine words. A handle that is `NULL`, which is
refused without a message, and connections that fail are left out.
-/

namespace MinixSemaphore.Linux

open MinixSemaphore.Server
open MinixSemaphore.Store

/-- The commands of protocolo_sem.h. -/
inductive Comando
  | semOpen
  | semPost
  | semWait
  | disconnect
  | semUnlink
  | semClose
  | semTrywait
  | semInit
  | semDestroy
  | semGetvalue
  deriving DecidableEq, Repr

namespace Comando

/-- The number of a command. -/
def code : Comando → Int
  | .semOpen => 1
  | .semPost => 2
  | .semWait => 3
  | .disconnect => 4
  | .semUnlink => 5
  | .semClose => 6
  | .semTrywait => 7
  | .semInit => 8
  | .semDestroy => 9
  | .semGetvalue => 10

/-- The command that a number stands for. -/
def ofInt : Int → Option Comando
  | 1 => some .semOpen
  | 2 => some .semPost
  | 3 => some .semWait
  | 4 => some .disconnect
  | 5 => some .semUnlink
  | 6 => some .semClose
  | 7 => some .semTrywait
  | 8 => some .semInit
  | 9 => some .semDestroy
  | 10 => some .semGetvalue
  | _ => none

@[simp]
theorem ofInt_code (c : Comando) : ofInt c.code = some c := by
  cases c <;> rfl

end Comando

/-- A call of a function of the library. -/
inductive Call
  | semOpen (nombre : CString) (oflags mode value : BitVec 32)
  | semPost (handle : BitVec 32)
  | semWait (handle : BitVec 32)
  | semClose (handle : BitVec 32)
  | semTrywait (handle : BitVec 32)
  | semUnlink (name : CString)
  | semInit (pshared value : BitVec 32)
  | semDestroy (handle : BitVec 32)
  | semGetvalue (handle : BitVec 32)
  deriving DecidableEq

namespace Call

/-! ## Requests -/

/-- The request of `sem_open`. The length of the name is kept in a `char`. -/
def semOpenMessage (nombre : CString) (oflags mode value : BitVec 32) (b : Buffer UInt8) :
    Option (Buffer UInt8) := do
  let nameL := ofChar (toChar nombre.length)
  let b ← putString nombre nameL (putChar Comando.semOpen.code b.clear)
  let b := putLong oflags b
  if oflags &&& oCreat ≠ 0 then some (putLong value (putLong mode (putChar 1 b)))
  else some (putChar 0 b)

/-- The request of `sem_unlink`. -/
def semUnlinkMessage (name : CString) (b : Buffer UInt8) : Option (Buffer UInt8) :=
  putString name name.length (putChar Comando.semUnlink.code b.clear)

/-- The request of `sem_init`. -/
def semInitMessage (pshared value : BitVec 32) (b : Buffer UInt8) : Buffer UInt8 :=
  putLong value (putLong pshared (putChar Comando.semInit.code b.clear))

/-- The request of a function on a handle. -/
def handleMessage (comando : Comando) (handle : BitVec 32) (b : Buffer UInt8) : Buffer UInt8 :=
  putLong handle (putChar comando.code b.clear)

/-- The buffer when the request of a call is sent. -/
def message (b : Buffer UInt8) : Call → Option (Buffer UInt8)
  | .semOpen nombre oflags mode value => semOpenMessage nombre oflags mode value b
  | .semPost handle => some (handleMessage .semPost handle b)
  | .semWait handle => some (handleMessage .semWait handle b)
  | .semClose handle => some (handleMessage .semClose handle b)
  | .semTrywait handle => some (handleMessage .semTrywait handle b)
  | .semUnlink name => semUnlinkMessage name b
  | .semInit pshared value => some (semInitMessage pshared value b)
  | .semDestroy handle => some (handleMessage .semDestroy handle b)
  | .semGetvalue handle => some (handleMessage .semGetvalue handle b)

/-! ## Results -/

/-- What a call comes to: its result, `errno`, and what it writes behind a pointer. The
result of `sem_open` is the new handle, and -1 stands for `SEM_FAILED`. -/
structure Result where
  rta : BitVec 32
  errno : BitVec 32
  written : Option (BitVec 32)
  deriving DecidableEq

/-- Read the result and `errno`. -/
def readResult (written : Option (BitVec 32)) (b : Buffer UInt8) : Result :=
  let (rta, b) := getLong b
  let (errno, _) := getLong b
  ⟨rta, errno, written⟩

/-- Read the handle of `sem_init` or the value of `sem_getvalue`, and the rest behind it. -/
def readWritten (b : Buffer UInt8) : Result :=
  let (written, b) := getLong b
  readResult (some written) b

/-- The results of a call, from the buffer into which the answer has been received. -/
def result (b : Buffer UInt8) : Call → Result
  | .semInit _ _ | .semGetvalue _ => readWritten b
  | .semOpen _ _ _ _ | .semPost _ | .semWait _ | .semClose _ | .semTrywait _ | .semUnlink _
  | .semDestroy _ => readResult none b

/-- The buffer of a client that has sent a request, when an answer has arrived. -/
def answered (b : Buffer UInt8) (answer : List UInt8) : Buffer UInt8 :=
  b.clear.receive answer

end Call

end MinixSemaphore.Linux
