import MinixSemaphore.Server.Semaphore

/-!
# Serving requests

`semaphoreEntry` of semaphore2.c unpacks a message and calls the operation it asks
for, and the main loop of main.c replies. Besides semaphore requests the loop
serves the three calls of the memory manager that reach the semaphores: a fork, an
exec and an exit, of which only the part in misc.c that concerns semaphores is
kept.
-/

namespace MinixSemaphore.Server

open MinixSemaphore.Lists
open MinixSemaphore.Names
open MinixSemaphore.Store

universe u

/-- A request message. The macros of my_param.h give its fields several names. -/
structure Message where
  m2i1 : Int
  m2i2 : Int
  m2i3 : Int
  m2l1 : Int
  m2l2 : Int
  m2p1 : CString
  deriving Inhabited

namespace Message

/-- `mensaje_funcion` -/
def funcion (m : Message) : Int := m.m2i1

/-- `mensaje_semaforo` -/
def semaforo (m : Message) : Int := m.m2i2

/-- `mensaje_permisos` -/
def permisos (m : Message) : Int := m.m2i2

/-- `mensaje_pshared` -/
def pshared (m : Message) : Int := m.m2i3

/-- `mensaje_valActual` -/
def valActual (m : Message) : Int := m.m2i3

/-- `mensaje_cantArg` -/
def cantArg (m : Message) : Int := m.m2i3

/-- `mensaje_valInicial` -/
def valInicial (m : Message) : Int := m.m2l1

/-- `mensaje_oflag` -/
def oflag (m : Message) : Int := m.m2l2

/-- `mensaje_nombre`: the string the client points at. -/
def nombre (m : Message) : CString := m.m2p1

end Message

/-- The function codes of my_param.h. -/
inductive Funcion
  | semOpen
  | semClose
  | semInit
  | semWait
  | semPost
  | semUlink
  | semGetval
  | semTrywait
  | semDestroy
  | semTimedwait
  deriving DecidableEq, Repr

/-- The function a code stands for. -/
def Funcion.ofInt : Int → Option Funcion
  | 1 => some .semOpen
  | 2 => some .semClose
  | 3 => some .semInit
  | 4 => some .semWait
  | 5 => some .semPost
  | 6 => some .semUlink
  | 7 => some .semGetval
  | 8 => some .semTrywait
  | 9 => some .semDestroy
  | 10 => some .semTimedwait
  | _ => none

/-- The functions on the handle of a semaphore that exists. -/
def Funcion.onHandle : Funcion → Bool
  | .semClose | .semWait | .semPost | .semGetval | .semTrywait | .semDestroy => true
  | _ => false

/-- What C leaves undetermined in a request: the variable `return_val` before it is
written and the result of `sem_post`, the variable `proc` of `sem_post`, and
arguments of `sem_open` that were not passed. -/
structure Garbage where
  returnVal : Int
  proc : Int
  mod : Int
  val : BitVec 32
  deriving Inhabited

/-- What the main loop receives. -/
inductive Event
  | semaph (who : Int) (m : Message) (g : Garbage)
  | fork (parent child : Int)
  | exec (slot : Int)
  | exit (slot : Int)

/-- The process a message comes from; forks, execs and exits come from the memory
manager. -/
def Event.source : Event → Int
  | .semaph who _ _ => who
  | _ => mmProcNr

namespace Fs

variable {P : Type u} [ListLib P Int]

/-- The name a request carries, as `semaphore_entry` copies it. -/
def requestName (m : Message) : CString :=
  m.nombre.take (maxName - 1)

/-- Answer with a result and the handle. -/
def answerHandle (result : Fs P × Int) (sema : Int) : Fs P × Int :=
  (result.1.answer result.2 sema 0 2, result.2)

/-- The `switch` of `semaphore_entry`: the state, and the value of `return_val`. A
read through `NULL` yields zero. -/
def dispatch (σ : Fs P) (m : Message) (g : Garbage) : Fs P × Int :=
  match Funcion.ofInt m.funcion with
  | some .semOpen =>
      let all := m.cantArg = 4
      let opened := σ.semOpen (requestName m) (BitVec.ofInt 32 m.oflag)
        (if all then m.permisos else g.mod)
        (if all then BitVec.ofInt 32 m.valInicial else g.val)
      (opened.1.answer (opened.2.elim 0 fun i => (i : Nat)) 0 0 1, g.returnVal)
  | some .semClose => answerHandle (σ.semClose m.semaforo) m.semaforo
  | some .semInit =>
      let made := σ.semInit m.pshared (BitVec.ofInt 32 m.valInicial)
      let returnVal := if made.2 = none then -1 else 0
      (made.1.answer returnVal (made.2.elim m.semaforo fun i => (i : Nat)) 0 2, returnVal)
  | some .semWait => answerHandle (σ.semWait m.semaforo) m.semaforo
  | some .semPost => answerHandle (σ.semPost m.semaforo g.proc, g.returnVal) m.semaforo
  | some .semUlink =>
      let result := σ.semUnlink (requestName m)
      (result.1.answer result.2 0 0 1, result.2)
  | some .semGetval =>
      let result := σ.semGetvalue m.semaforo
      (result.1.answer result.2.1 m.semaforo (result.2.2.getD m.valActual) 3, result.2.1)
  | some .semTrywait => answerHandle (σ.semTrywait m.semaforo) m.semaforo
  | some .semDestroy => answerHandle (σ.semDestroy m.semaforo) m.semaforo
  | some .semTimedwait => (σ.answer 0 0 0 1, 0)
  | none => (σ, g.returnVal)

/-- `semaphore_entry` -/
def semaphoreEntry (σ : Fs P) (m : Message) (g : Garbage) : Fs P × Int :=
  let served := σ.dispatch m g
  (served.1, if served.2 ≠ 0 then served.1.errno else ok)

/-- `get_work` and the start of a round of the main loop. The record of the last
request is dropped. -/
def getWork (σ : Fs P) (who : Int) : Fs P :=
  { σ with who := who, dontReply := false, sent := [], full := false, acts := [] }

/-- The call a message asks for, and its result. -/
def callVector (σ : Fs P) : Event → Fs P × Int
  | .semaph _ m g => σ.semaphoreEntry m g
  | .fork parent child => (σ.semOpenAll parent child, ok)
  | .exec slot => (σ.semCloseAll slot, ok)
  | .exit slot => (σ.semCloseAll slot, ok)

/-- The event is a request that destroys a slot. -/
def Destroys (σ : Fs P) (e : Event) (i : SlotIx) : Prop :=
  match e with
  | .semaph who m _ =>
      Funcion.ofInt m.funcion = some .semDestroy ∧ (σ.getWork who).granted m.semaforo = some i ∧
        ListLib.listIsEmpty σ.pools (σ.semArray i).blockedList = true
  | _ => False

instance (σ : Fs P) (e : Event) (i : SlotIx) : Decidable (σ.Destroys e i) :=
  match e with
  | .semaph who m _ => inferInstanceAs (Decidable (Funcion.ofInt m.funcion = some .semDestroy ∧
      (σ.getWork who).granted m.semaforo = some i ∧
        ListLib.listIsEmpty σ.pools (σ.semArray i).blockedList = true))
  | .fork _ _ | .exec _ | .exit _ => inferInstanceAs (Decidable False)

/-- One round of the main loop. -/
def step (σ : Fs P) (e : Event) : Fs P :=
  let served := (σ.getWork e.source).callVector e
  if served.1.dontReply then served.1 else served.1.reply served.1.who served.2

end Fs

/-! ## Start -/

/-- Static data as the loader leaves them. -/
def SemTable.zeroed {P : Type u} (pools : P) : SemTable P where
  semArray _ :=
    { semCount := 0, refCount := 0, procList := none, blockedList := none,
      permision := 0, unlinked := false }
  semNameMap := HashTable.zeroed
  pools := pools

/-- `init_sem_server` -/
def initSemServer {P : Type u} (t : SemTable P) : SemTable P :=
  { t with
    semNameMap := t.semNameMap.newHashTable
    semArray := fun i => { t.semArray i with refCount := 0 } }

/-- The file system before its first request, over a store without lists. -/
def Fs.start {P : Type u} (pools : P) : Fs P where
  toSemTable := initSemServer (SemTable.zeroed pools)
  errno := 0
  who := 0
  dontReply := false
  m1 := { type := 0, rta := 0, param1 := 0, param2 := 0 }
  sent := []
  full := false
  acts := []

end MinixSemaphore.Server
