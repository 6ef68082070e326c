import MinixSemaphore.Linux.Runs
import MinixSemaphore.Server.Blocking
import MinixSemaphore.Transition.Partial

/-!
# The server and its clients

Processes that use the library call the server at their connections. A call sends a request
and waits for an answer. The request stays at the connection until the main loop reads it:
one message a round, that of the first connection that has one. The loop accepts a client
before it reads any message; a process begins here when it is accepted, and only if a
connection is free, since the loop goes no further otherwise. After the end of a process the
loop reads nothing until it has accepted the next one.

An answer for which no process waits would be taken for that to a later call, and has no
meaning here.
-/

namespace MinixSemaphore.Linux

open MinixSemaphore.Lists
open MinixSemaphore.Semaphore
open MinixSemaphore.Server
open MinixSemaphore.Store
open MinixSemaphore.Transition

/-- The connection that stands for a process. -/
def ConIx.ofProc (proc : Int) : Option ConIx :=
  if inRange : 0 ≤ proc ∧ proc < maxCon then some ⟨proc.toNat, by omega⟩ else none

@[simp]
theorem ConIx.ofProc_proc (c : ConIx) : ConIx.ofProc c.proc = some c := by
  have inRange : 0 ≤ c.proc ∧ c.proc < maxCon := ⟨Int.natCast_nonneg _, by exact_mod_cast c.isLt⟩
  rw [ConIx.ofProc, dif_pos inRange]
  rfl

theorem ConIx.proc_injective {c c' : ConIx} (same : c.proc = c'.proc) : c = c' :=
  Fin.ext (by exact_mod_cast same)

/-- A process that uses the library: its buffer, and the call whose answer it waits for. -/
structure Cliente where
  buf : Buffer UInt8
  call : Option Call

/-- The server, the processes at its connections, the messages there that have not been
read, and the calls that have returned in the last step. -/
structure System (P : Type) where
  serv : Serv P
  clientes : ConIx → Cliente
  mensajes : ConIx → Option (List UInt8)
  returns : List (ConIx × Call × Call.Result)

namespace System

variable {P : Type} [ListLib P Int]

/-- A process is connected, makes a call, or ends; or the main loop reads a message. -/
inductive Event
  | connect
  | call (c : ConIx) (call : Call)
  | exit (c : ConIx)
  | serve (g : Garbage)

/-- An answer reaches a process that waits for one. -/
def receive (s : System P) (m : Int × List UInt8) : Option (System P) := do
  let c ← ConIx.ofProc m.1
  let call ← (s.clientes c).call
  let buf := Call.answered (s.clientes c).buf m.2
  some { s with clientes := Function.update s.clientes c ⟨buf, none⟩
                returns := s.returns ++ [(c, call, call.result buf)] }

/-- The connection whose message the main loop reads. -/
def turn (s : System P) : Option ConIx :=
  firstFit fun c => s.serv.statusArray c && (s.mensajes c).isSome

/-- A message has been read. -/
def taken (s : System P) (serv : Serv P) (c : ConIx) : System P :=
  { s with serv := serv, mensajes := Function.update s.mensajes c none, returns := [] }

/-- A step of the system. A process that is connected has not called the library yet, and the
last thing that it does is `clean_all`. -/
def step (s : System P) : Event → Option (System P)
  | .connect => do
      let c ← firstFit fun c => !s.serv.statusArray c
      let serv ← s.serv.step .connection
      some { s with serv := serv, returns := []
                    clientes := Function.update s.clientes c ⟨⟨fun _ => 0, 0⟩, none⟩ }
  | .call c call => do
      let buf ← call.message (s.clientes c).buf
      some { s with clientes := Function.update s.clientes c ⟨buf, some call⟩
                    mensajes := Function.update s.mensajes c (some buf.content)
                    returns := [] }
  | .exit c =>
      let buf := putChar Comando.disconnect.code (s.clientes c).buf.clear
      some { s with mensajes := Function.update s.mensajes c (some buf.content), returns := [] }
  | .serve g => do
      let c ← s.turn
      let bytes ← s.mensajes c
      let serv ← s.serv.step (.pedido c bytes g)
      serv.sent.foldlM receive (s.taken serv c)

/-- Before the first process. -/
def start (pools : P) : System P where
  serv := Serv.start pools
  clientes _ := ⟨⟨fun _ => 0, 0⟩, none⟩
  mensajes _ := none
  returns := []

/-- The system over the pools of list.c. -/
def boot : System (Pools Int) :=
  start Pools.zeroed

/-! ## Conditions on steps -/

/-- The server as a world of the file system. -/
def world (s : System P) : World P where
  fs := s.serv.fs
  events := []
  log := s.serv.log
  calls := Calls.start

/-- The process at the connection does not wait for an answer, and has not ended. -/
def Idle (s : System P) (c : ConIx) : Prop :=
  s.serv.statusArray c = true ∧ (s.clientes c).call = none ∧ s.mensajes c = none

/-- The server may be asked for the call: the handle is not that of a slot in which there was
never a semaphore, the memory of the lists suffices, and semaphores are destroyed as the
manual demands. -/
def Fair (s : System P) (c : ConIx) (call : Call) (g : Garbage) : Prop :=
  ¬call.pedido.Derails s.serv.fs ∧
    (s.world.setErrno (-(g.errno : Int))).Lawful
      (.semaph c.proc call.pedido.message g.toGarbage)

/-- A process is connected if a connection is free. Only connected processes that do not wait
for an answer do anything, and the names that they pass have at most 127 bytes. What is
served is fair. -/
def Orderly (s : System P) : Event → Prop
  | .connect => ∃ c, s.serv.statusArray c = false
  | .call c call => s.Idle c ∧ call.pedido.Short
  | .exit c => s.Idle c
  | .serve g => ∀ c ∈ s.turn, ∀ call ∈ (s.clientes c).call, s.Fair c call g

instance (s : System P) (c : ConIx) : Decidable (s.Idle c) :=
  inferInstanceAs (Decidable (_ ∧ _ ∧ _))

instance (s : System P) (c : ConIx) (call : Call) (g : Garbage) : Decidable (s.Fair c call g) :=
  inferInstanceAs (Decidable (_ ∧ _))

instance (s : System P) (e : Event) : Decidable (s.Orderly e) :=
  match e with
  | .connect => inferInstanceAs (Decidable (∃ _, _ = false))
  | .call _ _ => inferInstanceAs (Decidable (_ ∧ _))
  | .exit c => inferInstanceAs (Decidable (s.Idle c))
  | .serve _ =>
      inferInstanceAs (Decidable (∀ c ∈ (_ : Option ConIx), ∀ call ∈ (_ : Option Call), _))

end System

end MinixSemaphore.Linux
