import MinixSemaphore.Linux.Client
import MinixSemaphore.Server.World

/-!
# The Linux server

sem_serv.c serves the operations of semaphore.c to clients at connections. A connection
has an index, which stands for the process. Error numbers are positive on Linux; here they
have the sign that they have in the file system until they are sent.

The socket of a client that has left is closed, but the main loop keeps it in `afds` until
it accepts the next client. Until then `select` fails, and the loop, which looks at its
listening socket all the same, waits there for a client and serves nobody. A client that
comes when all connections are in use is never accepted, and the loop does nothing any more
but try. Where an operation would look into a list that is `NULL`, the process ends; in the
file system of Minix it reads zeros. And a post to a negative count that finds nobody in the
list wakes whatever its variable `proc` holds: if that is no client, `sem_wake` sends through
what is no connection. All this is kept: a round that never ends, one that ends the process,
and one that sends through no connection have no result.

What an operation finds in `errno` is an input of its request: an earlier operation has left
it there, or a call of the C library, such as a `select` that fails. What the server prints,
and failures of its connections, are left out.
-/

namespace MinixSemaphore.Linux

open MinixSemaphore.Lists
open MinixSemaphore.Server
open MinixSemaphore.Store

universe u

/-- `MAX_CON` -/
abbrev maxCon : Nat := 31

/-- An index into `conn_array`. -/
abbrev ConIx := Fin maxCon

/-- The number that a connection has as a process. -/
abbrev ConIx.proc (c : ConIx) : Int :=
  (c : Nat)

/-- What `aceptar_pedido` reads from a message. -/
inductive Pedido
  | semOpen (nombre : CString) (oflags : BitVec 32) (args : Option (BitVec 32 × BitVec 32))
  | semUnlink (nombre : CString)
  | semClose (handle : BitVec 32)
  | semWait (handle : BitVec 32)
  | semPost (handle : BitVec 32)
  | semTrywait (handle : BitVec 32)
  | semInit (mode value : BitVec 32)
  | semGetvalue (handle : BitVec 32)
  | semDestroy (handle : BitVec 32)
  | disconnect
  deriving DecidableEq

/-- The handle of a request. -/
def Pedido.handle : Pedido → Option (BitVec 32)
  | .semClose handle | .semWait handle | .semPost handle | .semTrywait handle
  | .semGetvalue handle | .semDestroy handle => some handle
  | .semOpen _ _ _ | .semUnlink _ | .semInit _ _ | .disconnect => none

/-- Read the name, the flags and, if there are any, the mode and the value. -/
def readOpen (b : Buffer UInt8) : Option Pedido := do
  let (nombre, b) ← getString 255 b
  let (oflags, b) := getLong b
  let (more, b) := getChar b
  if more ≠ 0 then
    let (mode, b) := getLong b
    let (value, _) := getLong b
    some (.semOpen nombre oflags (some (mode, value)))
  else some (.semOpen nombre oflags none)

/-- The reading half of the `switch` of `aceptar_pedido`. -/
def readPedido (b : Buffer UInt8) : Option Pedido :=
  let (comando, b) := getChar b
  match Comando.ofInt comando with
  | some .semOpen => readOpen b
  | some .semUnlink => (getString 255 b).map fun read => .semUnlink read.1
  | some .semClose => some (.semClose (getLong b).1)
  | some .semWait => some (.semWait (getLong b).1)
  | some .semPost => some (.semPost (getLong b).1)
  | some .semTrywait => some (.semTrywait (getLong b).1)
  | some .semInit => some (.semInit (getLong b).1 (getLong (getLong b).2).1)
  | some .semGetvalue => some (.semGetvalue (getLong b).1)
  | some .semDestroy => some (.semDestroy (getLong b).1)
  | some .disconnect | none => some .disconnect

/-- What C leaves undetermined in a request: besides what the operations leave so, the
variables `handle` and `value` that no operation has written, and what is found in
`errno`, with the sign of Linux. -/
structure Garbage extends Server.Garbage where
  handle : BitVec 32
  value : BitVec 32
  errno : Nat
  deriving Inhabited

variable {P : Type u} [ListLib P Int]

/-- The list in which an operation on a handle looks for its caller is `NULL`. -/
def Pedido.Derails (pedido : Pedido) (σ : Fs P) : Prop :=
  ∃ i ∈ pedido.handle.bind fun handle => Fs.slotAt handle.toInt, (σ.semArray i).procList = none

instance (pedido : Pedido) (σ : Fs P) : Decidable (pedido.Derails σ) :=
  inferInstanceAs (Decidable (∃ i ∈ (_ : Option SlotIx), _ = none))

/-- What an operation comes to: the state, `rta`, and the word that is put in front of
it. -/
structure Outcome (P : Type u) where
  fs : Fs P
  rta : Int
  extra : Option (BitVec 32)

/-- The outcome of an operation that returns its result only. -/
def plain (result : Fs P × Int) : Outcome P :=
  ⟨result.1, result.2, none⟩

/-- The calling half of the `switch` of `aceptar_pedido`. -/
def perform (σ : Fs P) (g : Garbage) : Pedido → Outcome P
  | .semOpen nombre oflags args =>
      let opened := σ.semOpen nombre oflags (args.elim g.mod fun args => args.1.toInt)
        (args.elim g.val fun args => args.2)
      ⟨opened.1, opened.2.elim (-1) fun i => (i : Nat), none⟩
  | .semUnlink nombre => plain (σ.semUnlink nombre)
  | .semClose handle => plain (σ.semClose handle.toInt)
  | .semWait handle => plain (σ.semWait handle.toInt)
  | .semPost handle => plain (σ.semPost handle.toInt g.proc, g.returnVal)
  | .semTrywait handle => plain (σ.semTrywait handle.toInt)
  | .semInit mode value =>
      let made := σ.semInit mode.toInt value
      ⟨made.1, if made.2 = none then -1 else 0,
        some (made.2.elim g.handle fun i => BitVec.ofNat 32 i)⟩
  | .semGetvalue handle =>
      let read := σ.semGetvalue handle.toInt
      ⟨read.1, read.2.1, some (read.2.2.elim g.value fun count => BitVec.ofInt 32 count)⟩
  | .semDestroy handle => plain (σ.semDestroy handle.toInt)
  | .disconnect => plain (σ, 0)

/-- The server: the semaphores, its buffer, which connections are in use, and whose sockets
`afds` holds. The last two fields record what has been done to semaphores, and what the
current round has sent. -/
structure Serv (P : Type u) where
  fs : Fs P
  buf : Buffer UInt8
  statusArray : ConIx → Bool
  afds : ConIx → Bool
  log : List Act
  sent : List (Int × List UInt8)

namespace Serv

/-- `sem_wake` sends the one byte `st` to each process that was woken. -/
def wakes (σ : Fs P) : List (Int × List UInt8) :=
  σ.sent.map fun m => (m.1, [toChar m.2.rta])

/-- The answer to a request, at the end of `aceptar_pedido`. -/
def answerBuffer (b : Buffer UInt8) (outcome : Outcome P) : Buffer UInt8 :=
  let b := outcome.extra.elim b.clear fun n => putLong n b.clear
  putLong (BitVec.ofInt 32 (-outcome.fs.errno)) (putLong (BitVec.ofInt 32 outcome.rta) b)

/-- The state in which an operation begins. -/
def work (s : Serv P) (c : ConIx) (g : Garbage) : Fs P :=
  (s.fs.setErrno (-(g.errno : Int))).getWork c.proc

/-- An operation has woken a process for which no connection is in use. -/
def Strays (s : Serv P) (σ : Fs P) : Prop :=
  ∃ m ∈ σ.sent, ∀ c : ConIx, c.proc = m.1 → s.statusArray c = false

instance (s : Serv P) (σ : Fs P) : Decidable (s.Strays σ) :=
  inferInstanceAs (Decidable (∃ _ ∈ _, ∀ _ : ConIx, _ → _))

/-- `aceptar_pedido`, for a message at a connection. -/
def aceptarPedido (s : Serv P) (c : ConIx) (bytes : List UInt8) (g : Garbage) :
    Option (Serv P) :=
  let buf := s.buf.clear.receive bytes
  match readPedido buf with
  | none => none
  | some .disconnect =>
      some { s with fs := s.fs.getWork c.proc, buf := buf, sent := []
                    statusArray := Function.update s.statusArray c false }
  | some pedido =>
      let σ := s.work c g
      if pedido.Derails σ then
        none
      else
        let outcome := perform σ g pedido
        let log := s.log ++ outcome.fs.acts
        if s.Strays outcome.fs then
          none
        else if outcome.fs.dontReply then
          some { s with fs := outcome.fs, buf := buf, log := log, sent := wakes outcome.fs }
        else
          let buf := answerBuffer buf outcome
          some { s with fs := outcome.fs, buf := buf, log := log
                        sent := wakes outcome.fs ++ [(c.proc, buf.content)] }

/-- `accept_connection`: the first connection that is not in use, if there is one. -/
def acceptConnection (s : Serv P) : Option (Serv P) :=
  (firstFit fun c => !s.statusArray c).map fun c =>
    { s with sent := [], statusArray := Function.update s.statusArray c true
             afds := fun _ => false }

/-- A socket in `afds` is closed. -/
def Stale (s : Serv P) : Prop :=
  ∃ c, s.afds c = true ∧ s.statusArray c = false

instance (s : Serv P) : Decidable s.Stale :=
  inferInstanceAs (Decidable (∃ _, _ ∧ _))

/-- The sockets of the connections in use are added to `afds`, before `select` is called. -/
def select (s : Serv P) : Serv P :=
  { s with afds := fun c => s.afds c || s.statusArray c }

end Serv

/-- What the main loop goes on with: a client that wants to be connected, or a message at a
connection. -/
inductive Event
  | connection
  | pedido (c : ConIx) (bytes : List UInt8) (g : Garbage)

namespace Serv

/-- A round of the main loop, if it ends. When `select` fails, the listening socket is taken
for one at which a client waits. -/
def step (s : Serv P) : Event → Option (Serv P)
  | .connection => s.select.acceptConnection
  | .pedido c bytes g =>
      if ¬s.Stale ∧ s.statusArray c = true then s.select.aceptarPedido c bytes g else none

/-- The rounds for a list of events, if all of them end. -/
def steps (s : Serv P) : List Event → Option (Serv P)
  | [] => some s
  | e :: es => (s.step e).bind fun s => s.steps es

/-- The server before its first client. -/
def start (pools : P) : Serv P where
  fs := Fs.start pools
  buf := ⟨fun _ => 0, 0⟩
  statusArray _ := false
  afds _ := false
  log := []
  sent := []

/-- The server over the pools of list.c. -/
def boot : Serv (Pools Int) :=
  start Pools.zeroed

end Serv

end MinixSemaphore.Linux
