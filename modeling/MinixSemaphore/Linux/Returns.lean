import MinixSemaphore.Linux.System

/-!
# What calls return

A process calls the library as if the operation were a function of its own: the request
reaches the server, the operation is carried out, and its result comes back. A process that
the server queues goes on waiting, until a post takes it out of the list and its call
returns with success. So does one whose request has not been read, for as long as the main
loop waits for a client to be connected.
-/

namespace MinixSemaphore.Server.World

open MinixSemaphore.Lists

variable {w : World (Pools Int)} {T : SlotTable}

theorem Simulated.setErrno (simulated : w.Simulated) (errno : Int) :
    (w.setErrno errno).Simulated :=
  Fs.Sim.setErrno simulated errno

theorem Tracks.setErrno (tracks : w.abs.Tracks T) (errno : Int) :
    (w.setErrno errno).abs.Tracks T :=
  ⟨⟨tracks.owned, tracks.rooted⟩, tracks.run, tracks.shows⟩

theorem Linked.setErrno (linked : w.abs.Linked T) (errno : Int) :
    (w.setErrno errno).abs.Linked T :=
  ⟨linked.settled, linked.sound, linked.count, linked.pending, linked.waits, linked.answers⟩

end MinixSemaphore.Server.World

namespace MinixSemaphore.Linux

open MinixSemaphore.Lists
open MinixSemaphore.Semaphore
open MinixSemaphore.Server
open MinixSemaphore.Store
open MinixSemaphore.Transition

theorem Serv.Mirrors.blocked {s : Serv (Pools Int)} {w : World (Pools Int)} (mirrors : s.Mirrors w)
    (i : SlotIx) : s.fs.blocked i = w.fs.blocked i := by
  have pools : s.fs.pools = w.fs.pools := congrArg SemTable.pools mirrors.table
  have semArray : s.fs.semArray = w.fs.semArray := congrArg SemTable.semArray mirrors.table
  rw [Fs.blocked, Fs.blocked, pools, semArray]

/-- Whom a post wakes, it takes from the front of the list. -/
theorem head_of_posted {w : World (Pools Int)} {T : SlotTable} (simulated : w.Simulated)
    (tracks : w.abs.Tracks T) {e : Server.Event} (lawful : w.Lawful e) {p q : Int} {i : SlotIx}
    (acts : (w.fs.step e).acts = [⟨i, .posted p (some q)⟩]) :
    (w.fs.blocked i).head? = some q := by
  obtain ⟨T', run, -⟩ := tracks.step (World.lawful_abs simulated lawful)
  have recorded : (w.abs.fs.step e).acts = [⟨i, .posted p (some q)⟩] := by
    rw [World.step_fs_abs simulated]
    exact acts
  rw [recorded] at run
  obtain ⟨enabled, -⟩ := Run.singleton run
  obtain ⟨s, here, -, woken⟩ := Sem.exists_of_enabled enabled fun _ _ _ => by simp
  obtain ⟨s', here', -, -, waiters, -⟩ := World.exists_sem_abs tracks (tracks.live_of_sem here)
  obtain rfl : s = s' := Option.some.inj (here.symm.trans here')
  split at woken
  · rw [← waiters]
    exact woken.symm
  · contradiction

namespace System

variable {s s' : System (Pools Int)} {w : World (Pools Int)} {c : ConIx} {call : Call}
  {g : Garbage}

/-! ## The world of the file system -/

theorem step_quiet_of_mirrors (mirrors : s.serv.Mirrors w) (errno p : Int) (m : Message)
    (g : Server.Garbage) : ((s.serv.fs.setErrno errno).step (.semaph p m g)).quiet =
      ((w.fs.setErrno errno).step (.semaph p m g)).quiet := by
  rw [Fs.step_quiet, Fs.step_quiet, ← Fs.dispatch_quiet, mirrors.getWork, Fs.dispatch_quiet]

theorem lawful_of_mirrors (mirrors : s.serv.Mirrors w) {errno p : Int} {m : Message}
    {g : Server.Garbage} (lawful : (s.world.setErrno errno).Lawful (.semaph p m g)) :
    (w.setErrno errno).Lawful (.semaph p m g) := by
  obtain ⟨roomy, own⟩ := lawful
  constructor
  · have full : ((s.serv.fs.setErrno errno).step (.semaph p m g)).quiet.full =
        ((w.fs.setErrno errno).step (.semaph p m g)).quiet.full := by
      rw [step_quiet_of_mirrors mirrors]
    exact full.symm.trans roomy
  · rintro i ⟨funcion, granted, empty⟩
    have same : ((s.serv.fs.setErrno errno).getWork p).quiet.granted m.semaforo =
        ((w.fs.setErrno errno).getWork p).quiet.granted m.semaforo := by rw [mirrors.getWork]
    have empty' : ListLib.listIsEmpty s.serv.fs.toSemTable.pools
        (s.serv.fs.toSemTable.semArray i).blockedList = true := mirrors.table ▸ empty
    have unnamed := own i ⟨funcion, same.trans granted, empty'⟩
    rwa [show (s.world.setErrno errno).log = w.log from mirrors.log] at unnamed

/-- The request of the process has not been read, or waits for its answer. -/
def Underway (s : System (Pools Int)) (calls : Calls Int Reply) (events : List Server.Event)
    (c : ConIx) (call : Call) : Prop :=
  s.mensajes c = some (s.clientes c).buf.content ∨
    s.mensajes c = none ∧ ∃ k g, calls.pending c.proc = some k ∧
      events[k]? = some (.semaph c.proc call.pedido.message g)

/-- The processes that wait in a call are those whose request has not been read, and those
that wait for its answer. All other messages tell the end of a process. -/
structure Matched (s : System (Pools Int)) (calls : Calls Int Reply) (events : List Server.Event) :
    Prop where
  call : ∀ c call, (s.clientes c).call = some call → s.serv.statusArray c = true ∧
    call.pedido.Short ∧ (∃ b, call.message b = some (s.clientes c).buf) ∧
      s.Underway calls events c call
  pending : ∀ p, calls.pending p ≠ none →
    ∃ c : ConIx, c.proc = p ∧ (s.clientes c).call ≠ none ∧ s.mensajes c = none
  mensaje : ∀ c bytes, s.mensajes c = some bytes → s.serv.statusArray c = true ∧
    ((s.clientes c).call = none → bytes = [toChar Comando.disconnect.code])

/-- A state of the system, and the world in which the file system has served the same
requests. -/
structure Paired (s : System (Pools Int)) (w : World (Pools Int)) : Prop
    extends s.Matched w.calls w.events where
  mirrors : s.serv.Mirrors w

/-- The file system has served the same requests, and knows who waits. -/
structure Backed (s : System (Pools Int)) (w : World (Pools Int)) (T : SlotTable) : Prop
    extends s.Paired w where
  simulated : w.Simulated
  tracks : w.abs.Tracks T
  linked : w.abs.Linked T

variable {T : SlotTable}

theorem boot_backed : boot.Backed World.boot fun _ => none where
  mirrors := Serv.start_mirrors _
  call _ _ waits := nomatch waits
  pending _ waits := absurd rfl waits
  mensaje _ _ unread := nomatch unread
  simulated := World.boot_simulated
  tracks := by
    rw [World.boot_abs]
    exact World.start_tracks
  linked := by
    rw [World.boot_abs]
    exact World.start_linked

/-- A request that has not been read is not one that waits for its answer. -/
theorem Paired.free (paired : s.Paired w) (unread : s.mensajes c ≠ none) :
    w.calls.pending c.proc = none := by
  by_contra waits
  obtain ⟨c', same, -, read⟩ := paired.pending c.proc waits
  rw [ConIx.proc_injective same] at read
  exact unread read

/-- The request of a call that the server may be asked for is one that the file system may
be asked for. -/
theorem Paired.orderly (paired : s.Paired w) (unread : s.mensajes c ≠ none)
    (fair : s.Fair c call g) : (w.setErrno (-(g.errno : Int))).Orderly
      (.semaph c.proc call.pedido.message g.toGarbage) :=
  ⟨lawful_of_mirrors paired.mirrors fair.2, paired.free unread, nofun⟩

theorem funcion_semWait (funcion : Funcion.ofInt call.pedido.message.funcion = some .semWait) :
    ∃ handle, call = .semWait handle := by
  cases call with
  | semWait handle => exact ⟨handle, rfl⟩
  | _ => exact nomatch Option.some.inj funcion

/-- A process that waits for an answer has called `sem_wait`, and is in the list of the
semaphore. -/
theorem Backed.waiting (backed : s.Backed w T) (waits : (s.clientes c).call = some call)
    (read : s.mensajes c = none) :
    ∃ handle i, call = .semWait handle ∧ Fs.slotAt handle.toInt = some i ∧
      c.proc ∈ s.serv.fs.blocked i := by
  obtain ⟨-, -, -, unread | ⟨-, k, g, pending, event⟩⟩ := backed.call c call waits
  · rw [read] at unread
    contradiction
  obtain ⟨e, i, event', ⟨m, g', rfl, funcion, slot⟩, here⟩ := backed.linked.pending c.proc k pending
  obtain ⟨-, rfl, rfl⟩ := Server.Event.semaph.inj (Option.some.inj (event.symm.trans event'))
  have blocked := (World.waits_iff_blocked backed.tracks c.proc i).mp here
  rw [← backed.mirrors.blocked] at blocked
  obtain ⟨handle, rfl⟩ := funcion_semWait funcion
  exact ⟨handle, i, rfl, slot, blocked⟩

/-- Whoever is in a list waits in a call, whose request has been read. -/
theorem Backed.blocked (backed : s.Backed w T) {p : Int} {i : SlotIx}
    (blocked : p ∈ s.serv.fs.blocked i) :
    ∃ c : ConIx, c.proc = p ∧ (s.clientes c).call ≠ none ∧ s.mensajes c = none := by
  rw [backed.mirrors.blocked] at blocked
  have here := (World.waits_iff_blocked backed.tracks p i).mpr blocked
  exact backed.pending p (backed.linked.waits p i here)

/-! ## Serving a call -/

end System

namespace Serv

variable {s : Serv (Pools Int)} {c : ConIx} {g : Garbage} {bytes : List UInt8} {pedido : Pedido}

/-- What a round sends: to whom it has woken, and to its caller. -/
theorem step_of_read (fresh : ¬s.Stale) (connected : s.statusArray c = true)
    (read : readPedido (s.buf.clear.receive bytes) = some pedido) (asks : pedido ≠ .disconnect)
    (founded : ¬pedido.Derails (s.work c g))
    (held : ¬s.Strays (perform (s.work c g) g pedido).fs) :
    ∃ s' b, s.step (.pedido c bytes g) = some s' ∧
      s'.fs = (perform (s.work c g) g pedido).fs ∧ s'.statusArray = s.statusArray ∧
      ¬s'.Stale ∧ s'.sent = wakes (perform (s.work c g) g pedido).fs ++
        if (perform (s.work c g) g pedido).fs.dontReply then [] else
          [(c.proc, (answerBuffer b (perform (s.work c g) g pedido)).content)] := by
  have begun : s.select.work c g = s.work c g := rfl
  have fresh' : ¬s.select.Stale := mt select_stale.mp fresh
  have buf : s.select.buf = s.buf := rfl
  rw [Serv.step, if_pos ⟨fresh, connected⟩, aceptarPedido, buf, read]
  cases pedido with
  | disconnect => contradiction
  | _ =>
      have held' : ¬s.select.Strays _ := held
      dsimp only
      rw [begun, if_neg founded, if_neg held']
      split
      · exact ⟨_, s.buf, rfl, rfl, rfl, fresh', by rw [List.append_nil]⟩
      · exact ⟨_, _, rfl, rfl, rfl, fresh', rfl⟩

/-- Both servers do the same for a request, and this one tells whomever it wakes. -/
theorem Mirrors.performed {w : World (Pools Int)} (mirrors : s.Mirrors w) (c : ConIx)
    (g : Garbage) (short : pedido.Short) :
    ((w.setErrno (-(g.errno : Int))).fs.step
        (.semaph c.proc pedido.message g.toGarbage)).acts =
      (Linux.perform (s.work c g) g pedido).fs.acts ∧
    (Linux.perform (s.work c g) g pedido).fs.sent =
      (Linux.perform (s.work c g) g pedido).fs.acts.flatMap (Fs.wakeReply s.fs.m1) ∧
    (Linux.perform (s.work c g) g pedido).fs.dontReply =
      Fs.Suppressed (Linux.perform (s.work c g) g pedido).fs.acts := by
  have quiet := mirrors.perform c g short
  obtain ⟨done, recorded, -⟩ := perform_recorded (s.work c g) g short
  obtain rfl : (Linux.perform (s.work c g) g pedido).fs.acts = done := recorded.acts
  exact ⟨(congrArg Fs.acts quiet).symm, recorded.sent, recorded.dontReply⟩

theorem trace_of_read (read : readPedido (s.buf.clear.receive bytes) = some pedido)
    (asks : pedido ≠ .disconnect) :
    s.trace (.pedido c bytes g) =
      [⟨-(g.errno : Int), .semaph c.proc pedido.message g.toGarbage⟩] := by
  rw [trace, read]
  cases pedido with
  | disconnect => contradiction
  | _ => rfl

end Serv

namespace System

variable {s s' : System (Pools Int)} {w : World (Pools Int)} {c : ConIx} {call : Call}
  {g : Garbage}

theorem pedido_ne_disconnect (call : Call) : call.pedido ≠ .disconnect := by
  cases call <;> nofun

/-- The return of a waiting process that a post has woken. -/
def Woken (s : System (Pools Int)) (call : Call) (returned : ConIx × Call × Call.Result) : Prop :=
  ∃ handle handle' i, call = .semPost handle ∧ returned.2.1 = .semWait handle' ∧
    Fs.slotAt handle.toInt = some i ∧ Fs.slotAt handle'.toInt = some i ∧
    (s.clientes returned.1).call = some returned.2.1 ∧
    (s.serv.fs.blocked i).head? = some returned.1.proc ∧ returned.2.2.rta = 0

/-- What a step does in which the request of a call is served. -/
structure Returned (s s' : System (Pools Int)) (c : ConIx) (call : Call) (g : Garbage) : Prop where
  fs : s'.serv.fs = (perform (s.serv.work c g) g call.pedido).fs
  status : s'.serv.statusArray = s.serv.statusArray
  fresh : ¬s'.serv.Stale
  mensajes : s'.mensajes = Function.update s.mensajes c none
  returns : ∃ woken, (∀ x ∈ woken, s.Woken call x) ∧
    (woken.map fun x => x.1.proc) = s'.serv.fs.sent.map Prod.fst ∧ s'.returns = woken ++
      if s'.serv.fs.dontReply then [] else
        [(c, call, (perform (s.serv.work c g) g call.pedido).result)]
  waits : ∀ c', (s'.clientes c').call =
    if c' ∈ s'.returns.map Prod.fst then none else (s.clientes c').call

/-- The state after an answer has reached a process. -/
def after (s : System (Pools Int)) (c : ConIx) (call : Call) (bytes : List UInt8) :
    System (Pools Int) :=
  let buf := Call.answered (s.clientes c).buf bytes
  { s with clientes := Function.update s.clientes c ⟨buf, none⟩
           returns := s.returns ++ [(c, call, call.result buf)] }

theorem receive_proc {s : System (Pools Int)} {bytes : List UInt8}
    (waits : (s.clientes c).call = some call) :
    s.receive (c.proc, bytes) = some (s.after c call bytes) := by
  rw [receive, ConIx.ofProc_proc]
  simp [waits, after]

theorem after_call (s : System (Pools Int)) (bytes : List UInt8) (c' : ConIx) :
    ((s.after c call bytes).clientes c').call = if c' = c then none else (s.clientes c').call := by
  by_cases same : c' = c
  · rw [if_pos same, same]
    simp [after]
  · rw [if_neg same]
    simp [after, same]

theorem Matched.after {calls : Calls Int Reply} {events : List Server.Event}
    (matched : s.Matched calls events) (read : s.mensajes c = none) (bytes : List UInt8)
    (round : Nat) (reply : Reply) :
    (s.after c call bytes).Matched (calls.deliver round (c.proc, reply)) events := by
  constructor
  · intro c' call' waits
    rw [after_call] at waits
    by_cases same : c' = c
    · rw [if_pos same] at waits
      contradiction
    · rw [if_neg same] at waits
      obtain ⟨connected, short, message, underway⟩ := matched.call c' call' waits
      have client : (s.after c call bytes).clientes c' = s.clientes c' := by
        simp [System.after, same]
      refine ⟨connected, short, client ▸ message, ?_⟩
      rw [Underway, client, Calls.deliver_pending, Function.update_of_ne]
      · exact underway
      · exact fun equal => same (ConIx.proc_injective equal)
  · intro p pending
    rw [Calls.deliver_pending] at pending
    by_cases own : p = c.proc
    · rw [own, Function.update_self] at pending
      contradiction
    · rw [Function.update_of_ne own] at pending
      obtain ⟨c', rfl, calls', read'⟩ := matched.pending p pending
      refine ⟨c', rfl, ?_, read'⟩
      rwa [after_call, if_neg fun same => own (congrArg ConIx.proc same)]
  · intro c' bytes' unread
    obtain ⟨connected, ends⟩ := matched.mensaje c' bytes' unread
    have other : c' ≠ c := fun same => by
      have unread : s.mensajes c' = some bytes' := unread
      rw [same, read] at unread
      contradiction
    rw [after_call, if_neg other]
    exact ⟨connected, ends⟩

theorem Matched.taken {calls : Calls Int Reply} {events : List Server.Event}
    (matched : s.Matched calls events) (count : calls.asked = events.length)
    {serv : Serv (Pools Int)} (status : serv.statusArray = s.serv.statusArray)
    (waits : (s.clientes c).call = some call) (g : Server.Garbage) :
    (s.taken serv c).Matched (calls.ask c.proc)
      (events ++ [.semaph c.proc call.pedido.message g]) := by
  constructor
  · intro c' call' waits'
    obtain ⟨connected, short, message, underway⟩ := matched.call c' call' waits'
    refine ⟨(congrFun status c').trans connected, short, message, ?_⟩
    by_cases same : c' = c
    · subst same
      obtain rfl := Option.some.inj (waits.symm.trans waits')
      right
      refine ⟨Function.update_self _ _ _, events.length, g, ?_, ?_⟩
      · rw [Calls.ask_pending, Function.update_self, count]
      · simp
    · have stays : (s.taken serv c).mensajes c' = s.mensajes c' :=
        Function.update_of_ne same _ _
      rw [Underway, stays]
      refine underway.imp_right fun ⟨read, k, g', pending, event⟩ => ⟨read, k, g', ?_, ?_⟩
      · rw [Calls.ask_pending, Function.update_of_ne]
        · exact pending
        · exact fun equal => same (ConIx.proc_injective equal)
      · rw [List.getElem?_append_left (List.getElem?_eq_some_iff.mp event).1]
        exact event
  · intro p pending
    by_cases own : p = c.proc
    · refine ⟨c, own.symm, ?_, Function.update_self _ _ _⟩
      exact fun idle => Option.some_ne_none call (waits.symm.trans idle)
    · rw [Calls.ask_pending, Function.update_of_ne own] at pending
      obtain ⟨c', rfl, calls', read⟩ := matched.pending p pending
      refine ⟨c', rfl, calls', ?_⟩
      exact (Function.update_of_ne (fun same => own (congrArg ConIx.proc same)) _ _).trans read
  · intro c' bytes unread
    have other : c' ≠ c := fun same => by
      subst same
      have unread : Function.update s.mensajes c' none c' = some bytes := unread
      rw [Function.update_self] at unread
      contradiction
    obtain ⟨connected, ends⟩ :=
      matched.mensaje c' bytes ((Function.update_of_ne other _ _).symm.trans unread)
    exact ⟨(congrFun status c').trans connected, ends⟩

theorem funcion_semPost (funcion : Funcion.ofInt call.pedido.message.funcion = some .semPost) :
    ∃ handle, call = .semPost handle := by
  cases call with
  | semPost handle => exact ⟨handle, rfl⟩
  | _ => exact nomatch Option.some.inj funcion

/-- Whoever waits in a list is woken with success: its handle is one of the server. -/
theorem result_of_woken {handle : BitVec 32} {i : SlotIx} {b buf : Buffer UInt8}
    (message : Call.message b (.semWait handle) = some buf)
    (slot : Fs.slotAt handle.toInt = some i) :
    (Call.result (Call.answered buf [toChar 0]) (.semWait handle)).rta = 0 := by
  have inRange : 0 ≤ handle.toInt ∧ handle.toInt < initialSem := by
    by_contra outside
    rw [Fs.slotAt, dif_neg outside] at slot
    contradiction
  have same := BitVec.toInt_eq_toNat_cond handle
  have max : initialSem = 10 := rfl
  refine (wake_succeeds_iff message).mpr ?_
  split at same <;> omega

/-- A request has been served, and the answers are on their way. -/
structure Round (s : System (Pools Int)) (w : World (Pools Int)) (c : ConIx) (call : Call)
    (g : Garbage) (serv : Serv (Pools Int)) : Prop where
  unread : s.mensajes c ≠ none
  calls : (s.clientes c).call = some call
  step : s.step (.serve g) = serv.sent.foldlM receive (s.taken serv c)
  fs : serv.fs = (perform (s.serv.work c g) g call.pedido).fs
  status : serv.statusArray = s.serv.statusArray
  fresh : ¬serv.Stale
  mirrors : serv.Mirrors (w.step (.semaph c.proc call.pedido.message g.toGarbage))
  matched : (s.taken serv c).Matched (w.calls.ask c.proc)
    (w.events ++ [.semaph c.proc call.pedido.message g.toGarbage])

namespace Round

variable {serv : Serv (Pools Int)} {answer : List UInt8}

/-- The process is queued, and nobody is answered. -/
theorem queued (round : Round s w c call g serv) (told : serv.sent = [])
    (wakes : serv.fs.sent = []) (dontReply : serv.fs.dontReply = true)
    (sent : (w.fs.step (.semaph c.proc call.pedido.message g.toGarbage)).sent = []) :
    ∃ s', s.step (.serve g) = some s' ∧ s.Returned s' c call g ∧
      s'.Paired (w.step (.semaph c.proc call.pedido.message g.toGarbage)) := by
  have next : s.step (.serve g) = some (s.taken serv c) := by
    rw [round.step, told]
    rfl
  refine ⟨_, next, ⟨round.fs, round.status, round.fresh, rfl,
    ⟨[], List.forall_mem_nil _, ?_, ?_⟩, fun c' => rfl⟩, ?_⟩
  · rw [show (s.taken serv c).serv = serv from rfl, wakes]
    rfl
  · rw [show (s.taken serv c).serv = serv from rfl, if_pos dontReply]
    rfl
  · refine ⟨?_, round.mirrors⟩
    rw [World.step, sent]
    exact round.matched

/-- The answer to the request reaches its caller. -/
theorem answered (round : Round s w c call g serv) {reply : Reply}
    (told : serv.sent = [(c.proc, answer)]) (wakes : serv.fs.sent = [])
    (result : call.result (Call.answered (s.clientes c).buf answer) =
      (perform (s.serv.work c g) g call.pedido).result)
    (dontReply : serv.fs.dontReply = false)
    (sent : (w.fs.step (.semaph c.proc call.pedido.message g.toGarbage)).sent =
      [(c.proc, reply)]) :
    ∃ s', s.step (.serve g) = some s' ∧ s.Returned s' c call g ∧
      s'.Paired (w.step (.semaph c.proc call.pedido.message g.toGarbage)) := by
  have own : ((s.taken serv c).clientes c).call = some call := round.calls
  refine ⟨(s.taken serv c).after c call answer, ?_,
    ⟨round.fs, round.status, round.fresh, rfl,
      ⟨[], List.forall_mem_nil _, ?_, ?_⟩, fun c' => ?_⟩, ?_⟩
  · rw [round.step, told, List.foldlM_cons, receive_proc own]
    rfl
  · rw [show ((s.taken serv c).after c call answer).serv = serv from rfl, wakes]
    rfl
  · rw [show ((s.taken serv c).after c call answer).serv = serv from rfl,
      if_neg (by simp [dontReply]), ← result]
    rfl
  · rw [after_call]
    by_cases same : c' = c
    · simp [same, after, taken]
    · simp [same, after, taken]
  · refine ⟨?_, round.mirrors⟩
    rw [World.step, sent]
    exact round.matched.after (Function.update_self _ _ _) _ _ _

/-- A process is woken, and the answer to the request reaches its caller. -/
theorem woke (round : Round s w c call g serv) {c₁ : ConIx} {call₁ : Call} {i : SlotIx}
    {handle handle₁ : BitVec 32} {first second : Reply}
    (posts : call = .semPost handle) (slot : Fs.slotAt handle.toInt = some i)
    (waits : (s.clientes c₁).call = some call₁) (read : s.mensajes c₁ = none)
    (waits' : call₁ = .semWait handle₁) (slot₁ : Fs.slotAt handle₁.toInt = some i)
    (message : ∃ b, call₁.message b = some (s.clientes c₁).buf)
    (head : (s.serv.fs.blocked i).head? = some c₁.proc)
    (told : serv.sent = [(c₁.proc, [toChar 0]), (c.proc, answer)])
    (wakes : serv.fs.sent.map Prod.fst = [c₁.proc])
    (result : call.result (Call.answered (s.clientes c).buf answer) =
      (perform (s.serv.work c g) g call.pedido).result)
    (dontReply : serv.fs.dontReply = false)
    (sent : (w.fs.step (.semaph c.proc call.pedido.message g.toGarbage)).sent =
      [(c₁.proc, first), (c.proc, second)]) :
    ∃ s', s.step (.serve g) = some s' ∧ s.Returned s' c call g ∧
      s'.Paired (w.step (.semaph c.proc call.pedido.message g.toGarbage)) := by
  have other : c₁ ≠ c := fun same => round.unread (same ▸ read)
  have own₁ : ((s.taken serv c).clientes c₁).call = some call₁ := waits
  have own : (((s.taken serv c).after c₁ call₁ [toChar 0]).clientes c).call = some call := by
    rw [after_call, if_neg (Ne.symm other)]
    exact round.calls
  have sender : ((s.taken serv c).after c₁ call₁ [toChar 0]).clientes c = s.clientes c :=
    Function.update_of_ne (Ne.symm other) _ _
  refine ⟨((s.taken serv c).after c₁ call₁ [toChar 0]).after c call answer, ?_,
    ⟨round.fs, round.status, round.fresh, rfl,
      ⟨[(c₁, call₁, call₁.result (Call.answered (s.clientes c₁).buf [toChar 0]))],
        ?_, wakes.symm, ?_⟩, fun c' => ?_⟩, ?_⟩
  · rw [round.step, told, List.foldlM_cons, receive_proc own₁]
    simp only [Option.bind_eq_bind, Option.bind_some]
    rw [List.foldlM_cons, receive_proc own]
    rfl
  · intro x mem
    obtain rfl := List.mem_singleton.mp mem
    obtain ⟨b₁, message⟩ := message
    subst waits'
    exact ⟨handle, handle₁, i, posts, rfl, slot, slot₁, waits, head,
      result_of_woken message slot₁⟩
  · rw [show (((s.taken serv c).after c₁ call₁ [toChar 0]).after c call answer).serv =
      serv from rfl, if_neg (by simp [dontReply]), after, sender, result]
    rfl
  · rw [after_call, after_call]
    by_cases same : c' = c
    · simp [same, after, taken]
    · by_cases same₁ : c' = c₁ <;> simp [same, same₁, after, taken]
  · refine ⟨?_, round.mirrors⟩
    rw [World.step, sent]
    have read₁ : (s.taken serv c).mensajes c₁ = none :=
      (Function.update_of_ne other _ _).trans read
    exact (round.matched.after read₁ _ _ _).after (Function.update_self _ _ _) _ _ _

end Round

theorem not_suppressed {acts : List Act} (noQueue : ∀ a ∈ acts, ∀ p, a.deed ≠ .queued p) :
    Fs.Suppressed acts = false := by
  refine List.any_eq_false.mpr fun a mem queues => ?_
  cases deed : a.deed with
  | queued p => exact noQueue a mem p deed
  | _ => simp [deed, Deed.isQueue] at queues

theorem flatMap_wakeReply {acts : List Act} (noWake : ∀ a ∈ acts, ∀ p, ¬a.Wakes p) {m1 : Reply} :
    acts.flatMap (Fs.wakeReply m1) = [] := by
  refine List.flatMap_eq_nil_iff.mpr fun a mem => ?_
  rw [Fs.wakeReply]
  split
  · rename_i p q posts
    exact absurd ⟨p, posts⟩ (noWake a mem q)
  · rfl

/-- The connection whose turn it is has a message. -/
theorem turn_cases (turn : s.turn = some c) :
    s.serv.statusArray c = true ∧ ∃ bytes, s.mensajes c = some bytes := by
  have first := (firstFit_eq_some_iff.mp turn).1
  rw [Bool.and_eq_true] at first
  exact ⟨first.1, Option.isSome_iff_exists.mp first.2⟩

theorem unread_of_turn (turn : s.turn = some c) : s.mensajes c ≠ none := by
  obtain ⟨-, bytes, unread⟩ := turn_cases turn
  rw [unread]
  exact Option.some_ne_none bytes

/-- Nothing is served without a message, or while `select` fails. -/
theorem serve_cases (next : s.step (.serve g) = some s') :
    ¬s.serv.Stale ∧ ∃ c, s.turn = some c := by
  obtain ⟨c, turn, rest⟩ := Option.bind_eq_some_iff.mp next
  obtain ⟨bytes, -, rest⟩ := Option.bind_eq_some_iff.mp rest
  obtain ⟨serv, served, -⟩ := Option.bind_eq_some_iff.mp rest
  refine ⟨fun stale => ?_, c, turn⟩
  rw [Serv.step, if_neg fun fresh => fresh.1 stale] at served
  contradiction

/-- Whom a request wakes, waits at the front of the list. -/
theorem Backed.waiter (backed : s.Backed w T) {errno : Int} {e : Server.Event}
    (lawful : (w.setErrno errno).Lawful e) {p q : Int} {i : SlotIx}
    (acts : ((w.setErrno errno).fs.step e).acts = [⟨i, .posted p (some q)⟩]) :
    ∃ (c' : ConIx) (handle : BitVec 32), c'.proc = q ∧
      (s.clientes c').call = some (.semWait handle) ∧ s.mensajes c' = none ∧
        Fs.slotAt handle.toInt = some i ∧ (s.serv.fs.blocked i).head? = some q := by
  have head : (w.fs.blocked i).head? = some q :=
    head_of_posted (backed.simulated.setErrno errno) (backed.tracks.setErrno errno) lawful acts
  have here := (World.waits_iff_blocked backed.tracks q i).mpr (List.mem_of_head? head)
  rw [← backed.mirrors.blocked] at head
  obtain ⟨c', rfl, calls, read⟩ := backed.blocked (List.mem_of_head? head)
  obtain ⟨call, waits⟩ := Option.ne_none_iff_exists'.mp calls
  obtain ⟨handle, i', rfl, slot, blocked⟩ := backed.waiting waits read
  rw [backed.mirrors.blocked] at blocked
  have here' := (World.waits_iff_blocked backed.tracks c'.proc i').mpr blocked
  obtain rfl : i' = i := backed.linked.settled.only c'.proc i' i here' here
  exact ⟨c', handle, rfl, waits, read, slot, head⟩

/-- No request wakes a process that is at no connection. -/
theorem Backed.not_strays (backed : s.Backed w T) (unread : s.mensajes c ≠ none)
    (short : call.pedido.Short) (fair : s.Fair c call g) :
    ¬s.serv.Strays (perform (s.serv.work c g) g call.pedido).fs := by
  obtain ⟨acts, sent, -⟩ := backed.mirrors.performed c g short
  rintro ⟨m, mem, nobody⟩
  obtain ⟨asks, -⟩ := Fs.step_recorded (w.setErrno (-(g.errno : Int))).fs
    (.semaph c.proc call.pedido.message g.toGarbage)
  rw [sent, ← acts] at mem
  rcases Fs.asks_cases asks with ⟨p, i, -, -, did⟩ | ⟨p, q, i, -, -, did⟩ | ⟨-, noWake, -⟩
  · rw [did] at mem
    exact absurd mem List.not_mem_nil
  · obtain ⟨c', handle, same, waits, -⟩ :=
      backed.waiter (backed.orderly unread fair).1 did
    rw [did] at mem
    obtain rfl := List.mem_singleton.mp mem
    exact nomatch (backed.call c' _ waits).1.symm.trans (nobody c' same)
  · rw [flatMap_wakeReply noWake] at mem
    exact absurd mem List.not_mem_nil

/-- The request of a process is served. -/
theorem Backed.serve (backed : s.Backed w T) (turn : s.turn = some c)
    (calls : (s.clientes c).call = some call) (fair : s.Fair c call g)
    (fresh : ¬s.serv.Stale) :
    ∃ s', s.step (.serve g) = some s' ∧ s.Returned s' c call g ∧
      s'.Paired ((w.setErrno (-(g.errno : Int))).step
        (.semaph c.proc call.pedido.message g.toGarbage)) := by
  have unread := unread_of_turn turn
  obtain ⟨connected, short, ⟨b, message⟩, underway⟩ := backed.call c call calls
  have lawful := (backed.orderly unread fair).1
  have arrives : s.mensajes c = some (s.clientes c).buf.content :=
    underway.resolve_right fun read => unread read.1
  obtain ⟨buf, message', content⟩ := exists_message short b
  obtain rfl := Option.some.inj (message.symm.trans message')
  have read : readPedido (s.serv.buf.clear.receive (s.clientes c).buf.content) =
      some call.pedido :=
    readPedido_of_holds short (content ▸ s.serv.buf.holds_receive (s.clientes c).buf.content)
  obtain ⟨serv, b', served, fs, status, fresh', told⟩ := Serv.step_of_read (g := g) fresh connected
    read (pedido_ne_disconnect call) fair.1 (backed.not_strays unread short fair)
  have mirrors := backed.mirrors.step served
  rw [Serv.trace_of_read read (pedido_ne_disconnect call), List.foldl_cons, List.foldl_nil,
    World.undergo] at mirrors
  have round : s.Round (w.setErrno (-(g.errno : Int))) c call g serv := by
    refine ⟨unread, calls, ?_, fs, status, fresh', mirrors, ?_⟩
    · simp [step, turn, arrives, served]
    · exact backed.toMatched.taken backed.linked.count status calls g.toGarbage
  have result := reply_round_trip call (s.serv.work c g) g (s.clientes c).buf b'
  -- What both servers have done tells whom they have answered.
  obtain ⟨acts, sent, dontReply⟩ := backed.mirrors.performed c g short
  obtain ⟨asks, replies⟩ := Fs.step_recorded (w.setErrno (-(g.errno : Int))).fs
    (.semaph c.proc call.pedido.message g.toGarbage)
  rw [← fs] at acts sent dontReply told
  rw [Serv.wakes, sent, dontReply] at told
  rcases Fs.asks_cases asks with ⟨p, i, rfl, -, did⟩ |
    ⟨p, q, i, rfl, ⟨m, g', same, funcion, slot⟩, did⟩ | ⟨noQueue, noWake, -⟩
  · rw [did] at acts replies
    rw [← acts] at told sent dontReply
    exact round.queued told sent dontReply replies
  · obtain ⟨-, rfl, -⟩ := Server.Event.semaph.inj same
    obtain ⟨handle, rfl⟩ := funcion_semPost funcion
    obtain ⟨c₁, handle₁, rfl, waits, read₁, slot₁, head⟩ := backed.waiter lawful did
    rw [did] at acts replies
    rw [← acts] at told sent dontReply
    exact round.woke rfl slot waits read₁ rfl slot₁ (backed.call c₁ _ waits).2.2.1 head
      told (by rw [sent]; rfl) result dontReply replies
  · rw [flatMap_wakeReply noWake] at replies
    rw [acts] at noQueue noWake replies
    rw [flatMap_wakeReply noWake] at told sent
    rw [not_suppressed noQueue] at told replies dontReply
    exact round.answered told sent result dontReply replies

/-- Whoever returns has no message at its connection. -/
theorem Backed.read_of_returned (backed : s.Backed w T) (returned : s.Returned s' c call g)
    {c' : ConIx} (returns : c' ∈ s'.returns.map Prod.fst) : s'.mensajes c' = none := by
  rw [returned.mensajes]
  by_cases own : c' = c
  · rw [own, Function.update_self]
  obtain ⟨x, mem, rfl⟩ := List.mem_map.mp returns
  obtain ⟨woken, all, -, told⟩ := returned.returns
  rw [told] at mem
  rcases List.mem_append.mp mem with mem | mem
  · obtain ⟨-, -, i, -, -, -, -, -, head, -⟩ := all x mem
    obtain ⟨c₁, same, -, read⟩ := backed.blocked (List.mem_of_head? head)
    rw [Function.update_of_ne own, ← ConIx.proc_injective same]
    exact read
  · split at mem
    · contradiction
    · exact absurd (congrArg Prod.fst (List.mem_singleton.mp mem)) own

/-- What the file system has done keeps it informed. -/
theorem Backed.served (backed : s.Backed w T) (unread : s.mensajes c ≠ none)
    (fair : s.Fair c call g) (paired : s'.Paired ((w.setErrno (-(g.errno : Int))).step
      (.semaph c.proc call.pedido.message g.toGarbage))) :
    ∃ T', Run Table.step Table.Enabled T ((w.setErrno (-(g.errno : Int))).fs.step
        (.semaph c.proc call.pedido.message g.toGarbage)).acts T' ∧
      s'.Backed ((w.setErrno (-(g.errno : Int))).step
        (.semaph c.proc call.pedido.message g.toGarbage)) T' := by
  have orderly := backed.orderly unread fair
  have simulated := backed.simulated.setErrno (-(g.errno : Int))
  have tracks := backed.tracks.setErrno (-(g.errno : Int))
  have linked := backed.linked.setErrno (-(g.errno : Int))
  generalize w.setErrno (-(g.errno : Int)) = v at *
  have orderly := World.orderly_abs simulated orderly
  obtain ⟨T', run, tracks'⟩ := tracks.step orderly.1
  obtain ⟨T'', tracks'', linked', -⟩ := linked.step tracks orderly
  obtain rfl : T'' = T' := tracks''.run.eq_foldl.trans tracks'.run.eq_foldl.symm
  rw [← World.step_abs simulated] at tracks' linked'
  rw [World.step_fs_abs simulated] at run
  exact ⟨T'', run, paired, World.step_simulated simulated _, tracks', linked'⟩

/-! ## Connections -/

/-- What a step does in which a process is connected. -/
structure Connected (s s' : System (Pools Int)) (c : ConIx) : Prop where
  free : s.serv.statusArray c = false
  first : (firstFit fun c => !s.serv.statusArray c) = some c
  served : s.serv.step .connection = some s'.serv
  status : s'.serv.statusArray = Function.update s.serv.statusArray c true
  fresh : ¬s'.serv.Stale
  clientes : s'.clientes = Function.update s.clientes c ⟨⟨fun _ => 0, 0⟩, none⟩
  mensajes : s'.mensajes = s.mensajes

theorem connect_cases (next : s.step .connect = some s') : ∃ c, s.Connected s' c := by
  obtain ⟨c, first, rest⟩ := Option.bind_eq_some_iff.mp next
  obtain ⟨serv, served, same⟩ := Option.bind_eq_some_iff.mp rest
  obtain rfl := Option.some.inj same
  obtain ⟨c', first', rfl⟩ := Option.map_eq_some_iff.mp served
  obtain rfl : c = c' := Option.some.inj (first.symm.trans first')
  refine ⟨c, ?_, first, served, rfl, fun ⟨_, held, _⟩ => Bool.false_ne_true held, rfl, rfl⟩
  simpa using (firstFit_eq_some_iff.mp first).1

/-- A connection is free, and the next process takes it. -/
theorem exists_connect (free : ∃ c, s.serv.statusArray c = false) :
    ∃ s', s.step .connect = some s' := by
  cases first : firstFit fun c => !s.serv.statusArray c with
  | none =>
      obtain ⟨c, free⟩ := free
      have used := firstFit_eq_none_iff.mp first c
      rw [free] at used
      contradiction
  | some c =>
      have served : s.serv.step .connection = some _ := Option.map_eq_some_iff.mpr ⟨c, first, rfl⟩
      exact ⟨_, Option.bind_eq_some_iff.mpr ⟨c, first,
        Option.bind_eq_some_iff.mpr ⟨_, served, rfl⟩⟩⟩

/-- The new process has nothing to do with those at other connections. -/
theorem Connected.backed (connected : s.Connected s' c) (backed : s.Backed w T) :
    s'.Backed w T := by
  obtain ⟨free, -, served, status, -, clientes, mensajes⟩ := connected
  have mirrors : s'.serv.Mirrors w := backed.mirrors.step served
  have other : ∀ c', s.serv.statusArray c' = true → c' ≠ c := by
    rintro c' used rfl
    rw [free] at used
    contradiction
  have client : ∀ c', s.serv.statusArray c' = true → s'.clientes c' = s.clientes c' := by
    intro c' used
    rw [clientes, Function.update_of_ne (other c' used)]
  refine ⟨⟨⟨fun c' call waits => ?_, fun p pending => ?_, fun c' bytes unread => ?_⟩, mirrors⟩,
    backed.simulated, backed.tracks, backed.linked⟩
  · have elsewhere : c' ≠ c := by
      rintro rfl
      rw [clientes, Function.update_self] at waits
      contradiction
    rw [clientes, Function.update_of_ne elsewhere] at waits
    obtain ⟨used, short, message, underway⟩ := backed.call c' call waits
    rw [Underway, client c' used, mensajes, status, Function.update_of_ne elsewhere]
    exact ⟨used, short, message, underway⟩
  · obtain ⟨c', rfl, calls, read⟩ := backed.pending p pending
    obtain ⟨call, waits⟩ := Option.ne_none_iff_exists'.mp calls
    rw [mensajes]
    exact ⟨c', rfl, client c' (backed.call c' call waits).1 ▸ calls, read⟩
  · rw [mensajes] at unread
    obtain ⟨used, ends⟩ := backed.mensaje c' bytes unread
    rw [client c' used, status, Function.update_of_ne (other c' used)]
    exact ⟨used, ends⟩

/-- A process sends a request. -/
theorem Backed.ask (backed : s.Backed w T) (idle : s.Idle c) (short : call.pedido.Short) :
    ∃ s', s.step (.call c call) = some s' ∧ s'.Backed w T ∧ s'.serv = s.serv ∧
      (∀ c', (s'.clientes c').call = if c' = c then some call else (s.clientes c').call) ∧
      ∀ c', c' ≠ c → s'.mensajes c' = s.mensajes c' := by
  obtain ⟨connected, calls, read⟩ := idle
  obtain ⟨buf, message, -⟩ := exists_message short (s.clientes c).buf
  refine ⟨_, Option.bind_eq_some_iff.mpr ⟨buf, message, rfl⟩,
    ⟨⟨⟨fun c' call' waits => ?_, fun p pending => ?_, fun c' bytes unread => ?_⟩,
      backed.mirrors⟩, backed.simulated, backed.tracks, backed.linked⟩, rfl, fun c' => ?_,
    fun c' other => Function.update_of_ne other _ _⟩
  · by_cases same : c' = c
    · subst same
      simp only [Function.update_self] at waits ⊢
      obtain rfl := Option.some.inj waits
      exact ⟨connected, short, ⟨_, message⟩, Or.inl (by simp)⟩
    · simp only [Underway, Function.update_of_ne same] at waits ⊢
      exact backed.toMatched.call c' call' waits
  · obtain ⟨c', rfl, calls', read'⟩ := backed.pending p pending
    have other : c' ≠ c := fun same => calls' (same ▸ calls)
    refine ⟨c', rfl, ?_, ?_⟩ <;> dsimp only
    · rwa [Function.update_of_ne other]
    · rwa [Function.update_of_ne other]
  · by_cases same : c' = c
    · subst same
      refine ⟨connected, fun nothing => ?_⟩
      simp at nothing
    · simp only [Function.update_of_ne same] at unread ⊢
      exact backed.mensaje c' bytes unread
  · by_cases same : c' = c
    · simp [same]
    · simp [same]

/-- A process ends. -/
theorem Backed.exit (backed : s.Backed w T) (idle : s.Idle c) :
    ∃ s', s.step (.exit c) = some s' ∧ s'.Backed w T ∧ s'.serv = s.serv ∧
      s'.clientes = s.clientes ∧ ∀ c', c' ≠ c → s'.mensajes c' = s.mensajes c' := by
  obtain ⟨connected, calls, read⟩ := idle
  refine ⟨_, rfl, ⟨⟨⟨fun c' call' waits => ?_, fun p pending => ?_, fun c' bytes unread => ?_⟩,
    backed.mirrors⟩, backed.simulated, backed.tracks, backed.linked⟩, rfl, rfl,
    fun c' other => Function.update_of_ne other _ _⟩
  · have other : c' ≠ c := by
      rintro rfl
      exact nomatch waits.symm.trans calls
    simp only [Underway, Function.update_of_ne other]
    exact backed.toMatched.call c' call' waits
  · obtain ⟨c', rfl, calls', read'⟩ := backed.pending p pending
    have other : c' ≠ c := fun same => calls' (same ▸ calls)
    refine ⟨c', rfl, calls', ?_⟩
    dsimp only
    rwa [Function.update_of_ne other]
  · by_cases same : c' = c
    · subst same
      simp only [Function.update_self] at unread
      refine ⟨connected, fun _ => ?_⟩
      rw [← Option.some.inj unread, content_putChar]
      rfl
    · simp only [Function.update_of_ne same] at unread
      exact backed.mensaje c' bytes unread

theorem readPedido_disconnect (b : Buffer UInt8) :
    readPedido (b.clear.receive [toChar Comando.disconnect.code]) = some .disconnect := by
  have arrived : (b.clear.receive [toChar Comando.disconnect.code]).Holds
      (toChar Comando.disconnect.code :: []) := b.holds_receive _
  obtain ⟨comando, -⟩ := getChar_code .disconnect arrived
  rw [readPedido]
  simp only [comando]

/-- What a step does in which a connection is closed. -/
structure Closed (s s' : System (Pools Int)) (c : ConIx) : Prop where
  fs : s'.serv.fs = s.serv.fs.getWork c.proc
  status : s'.serv.statusArray = Function.update s.serv.statusArray c false
  stale : s'.serv.Stale
  mensajes : s'.mensajes = Function.update s.mensajes c none
  clientes : s'.clientes = s.clientes
  returns : s'.returns = []

/-- The main loop learns of the end of a process. -/
theorem Backed.close (backed : s.Backed w T) (turn : s.turn = some c)
    (idle : (s.clientes c).call = none) (fresh : ¬s.serv.Stale) (g : Garbage) :
    ∃ s', s.step (.serve g) = some s' ∧ s.Closed s' c ∧ s'.Backed w T := by
  obtain ⟨connected, bytes, unread⟩ := turn_cases turn
  obtain ⟨-, ends⟩ := backed.mensaje c bytes unread
  obtain rfl := ends idle
  have read := readPedido_disconnect s.serv.buf
  obtain ⟨serv, served, fs, status, afds, log, sent⟩ : ∃ serv,
      s.serv.step (.pedido c [toChar Comando.disconnect.code] g) = some serv ∧
        serv.fs = s.serv.fs.getWork c.proc ∧
          serv.statusArray = Function.update s.serv.statusArray c false ∧
            serv.afds c = true ∧ serv.log = s.serv.log ∧ serv.sent = [] := by
    have buf : s.serv.select.buf = s.serv.buf := rfl
    rw [Serv.step, if_pos ⟨fresh, connected⟩, Serv.aceptarPedido, buf, read]
    refine ⟨_, rfl, rfl, rfl, ?_, rfl, rfl⟩
    exact Bool.or_eq_true_iff.mpr (Or.inr connected)
  have mirrors := backed.mirrors.step served
  rw [Serv.trace, read] at mirrors
  have stale : serv.Stale := ⟨c, afds, by rw [status, Function.update_self]⟩
  have next : s.step (.serve g) = some (s.taken serv c) := by
    simp [step, turn, unread, served, sent]
  refine ⟨_, next, ⟨fs, status, stale, rfl, rfl, rfl⟩,
    ⟨⟨⟨fun c' call' waits => ?_, fun p pending => ?_, fun c' bytes unread => ?_⟩,
      mirrors⟩, backed.simulated, backed.tracks, backed.linked⟩⟩
  · have other : c' ≠ c := by
      rintro rfl
      exact Option.some_ne_none call' (waits.symm.trans idle)
    rw [Underway, taken, status, Function.update_of_ne other]
    dsimp only
    rw [Function.update_of_ne other]
    exact backed.toMatched.call c' call' waits
  · obtain ⟨c', rfl, calls', read'⟩ := backed.pending p pending
    have other : c' ≠ c := fun same => calls' (same ▸ idle)
    exact ⟨c', rfl, calls', (Function.update_of_ne other _ _).trans read'⟩
  · have other : c' ≠ c := by
      rintro rfl
      have unread : Function.update s.mensajes c' none c' = some bytes := unread
      rw [Function.update_self] at unread
      contradiction
    obtain ⟨used, ends⟩ :=
      backed.mensaje c' bytes ((Function.update_of_ne other _ _).symm.trans unread)
    rw [taken, status, Function.update_of_ne other]
    exact ⟨used, ends⟩

/-! ## Courses of the system -/

/-- Every orderly course goes together with what the file system has served. -/
theorem exists_backed {es : List Event} (course : Course System.step Orderly boot es s) :
    ∃ w T, s.Backed w T := by
  refine course.invariant (I := fun s => ∃ w T, s.Backed w T) ⟨_, _, boot_backed⟩ ?_
  rintro s e s' ⟨w, T, backed⟩ orderly next
  cases e with
  | connect =>
      obtain ⟨c, connected⟩ := connect_cases next
      exact ⟨_, _, connected.backed backed⟩
  | call c call =>
      obtain ⟨s'', next', backed', -⟩ := backed.ask orderly.1 orderly.2
      obtain rfl := Option.some.inj (next.symm.trans next')
      exact ⟨_, _, backed'⟩
  | exit c =>
      obtain ⟨s'', next', backed', -⟩ := backed.exit orderly
      obtain rfl := Option.some.inj (next.symm.trans next')
      exact ⟨_, _, backed'⟩
  | serve g =>
      obtain ⟨fresh, c, turn⟩ := serve_cases next
      cases calls : (s.clientes c).call with
      | none =>
          obtain ⟨s'', next', -, backed'⟩ := backed.close turn calls fresh g
          obtain rfl := Option.some.inj (next.symm.trans next')
          exact ⟨_, _, backed'⟩
      | some call =>
          have fair := orderly c turn call calls
          obtain ⟨s'', next', -, paired⟩ := backed.serve turn calls fair fresh
          obtain rfl := Option.some.inj (next.symm.trans next')
          obtain ⟨T', -, backed'⟩ := backed.served (unread_of_turn turn) fair paired
          exact ⟨_, _, backed'⟩

/-- The main loop serves a message if there is one, unless `select` fails. -/
theorem Backed.exists_serve (backed : s.Backed w T) (orderly : s.Orderly (.serve g))
    (fresh : ¬s.serv.Stale) (unread : s.mensajes c ≠ none) :
    ∃ s', s.step (.serve g) = some s' := by
  obtain ⟨bytes, unread⟩ := Option.ne_none_iff_exists'.mp unread
  have used := (backed.mensaje c bytes unread).1
  cases turn : s.turn with
  | none =>
      have idle := firstFit_eq_none_iff.mp turn c
      rw [used, unread] at idle
      contradiction
  | some c' =>
      cases calls : (s.clientes c').call with
      | none =>
          obtain ⟨s', next, -⟩ := backed.close turn calls fresh g
          exact ⟨s', next⟩
      | some call =>
          obtain ⟨s', next, -⟩ := backed.serve turn calls (orderly c' turn call calls) fresh
          exact ⟨s', next⟩

/-- In every state of an orderly course, the processes that wait in a call are those whose
request has not been read and those in the lists `blocked_list` of the server. Every step of
a process has a meaning. The main loop serves a message whenever there is one, unless it has
closed a connection: then a process has to be connected first, for which there is room. A
call comes to what its operation comes to; if the operation queues its caller, the call does
not return until a post takes the caller out of the list, and then returns with success. -/
theorem calls_return {es : List Event} (course : Course System.step Orderly boot es s) :
    (∀ c, s.mensajes c = none →
      ((s.clientes c).call ≠ none ↔ ∃ i, c.proc ∈ s.serv.fs.blocked i)) ∧
    (∀ c i, c.proc ∈ s.serv.fs.blocked i → s.mensajes c = none) ∧
    (∀ e, s.Orderly e → (∀ g, e ≠ .serve g) → ∃ s', s.step e = some s') ∧
    (∀ g, s.Orderly (.serve g) →
      ((∃ s', s.step (.serve g) = some s') ↔ ¬s.serv.Stale ∧ ∃ c, s.mensajes c ≠ none)) ∧
    (s.serv.Stale → s.Orderly .connect) ∧
    (∀ s', s.step .connect = some s' → ¬s'.serv.Stale) ∧
    ∀ c g s', s.turn = some c → s.Orderly (.serve g) → s.step (.serve g) = some s' →
      (∀ call, (s.clientes c).call = some call → s.Returned s' c call g) ∧
        ((s.clientes c).call = none → s.Closed s' c) := by
  obtain ⟨w, T, backed⟩ := exists_backed course
  have queued : ∀ c i, c.proc ∈ s.serv.fs.blocked i →
      (s.clientes c).call ≠ none ∧ s.mensajes c = none := by
    intro c i blocked
    obtain ⟨c', same, waits⟩ := backed.blocked blocked
    rwa [← ConIx.proc_injective same]
  refine ⟨?_, fun c i blocked => (queued c i blocked).2, ?_, ?_, ?_, ?_, ?_⟩
  · intro c read
    constructor
    · intro waits
      obtain ⟨call, waits⟩ := Option.ne_none_iff_exists'.mp waits
      obtain ⟨handle, i, -, -, blocked⟩ := backed.waiting waits read
      exact ⟨i, blocked⟩
    · rintro ⟨i, blocked⟩
      exact (queued c i blocked).1
  · intro e orderly serves
    cases e with
    | connect => exact exists_connect orderly
    | call c call =>
        obtain ⟨s', next, -⟩ := backed.ask orderly.1 orderly.2
        exact ⟨s', next⟩
    | exit c => exact ⟨_, rfl⟩
    | serve g => exact absurd rfl (serves g)
  · intro g orderly
    constructor
    · rintro ⟨s', next⟩
      obtain ⟨fresh, c, turn⟩ := serve_cases next
      exact ⟨fresh, c, unread_of_turn turn⟩
    · rintro ⟨fresh, c, unread⟩
      exact backed.exists_serve orderly fresh unread
  · rintro ⟨c, -, free⟩
    exact ⟨c, free⟩
  · intro s' next
    obtain ⟨c, connected⟩ := connect_cases next
    exact connected.fresh
  · intro c g s' turn orderly next
    have fresh := (serve_cases next).1
    constructor
    · intro call calls
      obtain ⟨s'', next', returned, -⟩ :=
        backed.serve turn calls (orderly c turn call calls) fresh
      obtain rfl := Option.some.inj (next.symm.trans next')
      exact returned
    · intro idle
      obtain ⟨s'', next', closed, -⟩ := backed.close turn idle fresh g
      obtain rfl := Option.some.inj (next.symm.trans next')
      exact closed

/-- A process waits for a semaphore, and another one posts it. -/
theorem calls_return_of_post :
    let es : List Event := [.connect, .connect,
      .call 0 (.semOpen ⟨[97], by simp⟩ oCreat 0 0), .serve default,
      .call 1 (.semOpen ⟨[97], by simp⟩ 0 0 0), .serve default,
      .call 0 (.semWait 0), .serve default, .call 1 (.semPost 0)]
    let s := (follow System.step Orderly boot es).getD boot
    let s' := (s.step (.serve default)).getD boot
    (s.clientes 0).call ≠ none ∧ s.Returned s' 1 (.semPost 0) default ∧
      (s'.clientes 0).call = none := by
  intro es s s'
  have reached : (follow System.step Orderly boot es).isSome := by decide +kernel
  obtain ⟨waits, -, -, -, -, -, served⟩ := calls_return (s := s) (Course.of_isSome reached boot)
  have read : s.mensajes 0 = none := by decide +kernel
  have blocked : 0 ∈ s.serv.fs.blocked 0 := by decide +kernel
  have turn : s.turn = some 1 := by decide +kernel
  have next : (s.step (.serve default)).isSome := by decide +kernel
  refine ⟨(waits 0 read).mpr ⟨0, blocked⟩, ?_, by decide +kernel⟩
  refine (served 1 default s' turn (by decide +kernel) ?_).1 _ (by decide +kernel)
  obtain ⟨t, same⟩ := Option.isSome_iff_exists.mp next
  rw [show s' = t by rw [show s' = (s.step _).getD boot from rfl, same]; rfl]
  exact same

/-- When a process has ended, the others wait until the next one is connected. -/
example :
    let es : List Event := [.connect, .connect, .exit 1, .serve default, .call 0 (.semInit 0 1)]
    let s := (follow System.step Orderly boot es).getD boot
    s.serv.Stale ∧ (s.step (.serve default)).isNone ∧
      ((s.step .connect).bind fun s => s.step (.serve default)).isSome := by
  decide +kernel

end System

end MinixSemaphore.Linux
