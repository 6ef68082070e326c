import MinixSemaphore.Client.Library
import MinixSemaphore.Linux.Messages
import MinixSemaphore.Server.States

/-!
# Two servers, one run

The Linux server does to its semaphores what the file system does: whatever bytes its
clients send, there are requests to the file system that lead to the same semaphores, the
same names, the same lists and the same error number, and do the same on the way. Only the
answers differ, and the error number that is found at the beginning of a request.
-/

namespace MinixSemaphore.Server.Fs

open MinixSemaphore.Lists
open MinixSemaphore.Store

universe u

variable {P : Type u}

/-- The file system without its answers. -/
def quiet (σ : Fs P) : Fs P :=
  { σ with m1 := ⟨0, 0, 0, 0⟩, sent := [] }

/-- The file system with nothing in its reply buffer. -/
def mute (σ : Fs P) : Fs P :=
  { σ with m1 := ⟨0, 0, 0, 0⟩ }

/-- The result of an operation, without answers. -/
def quietly {α : Type} (result : Fs P × α) : Fs P × α :=
  (result.1.quiet, result.2)

/-- A test that the answers have no part in. -/
theorem quietly_ite {α : Type} {c : Prop} [Decidable c] {done done' other other' : Fs P × α}
    (first : done' = quietly done) (second : other' = quietly other) :
    (if c then done' else other') = quietly (if c then done else other) := by
  split
  · exact first
  · exact second

variable [ListLib P Int] (σ : Fs P)

/-! ## Operations do not look at answers -/

theorem semCreate_quiet (mode : Int) (value : BitVec 32) :
    σ.quiet.semCreate mode value = quietly (σ.semCreate mode value) := by
  rw [semCreate, semCreate, show σ.quiet.semArray = σ.semArray from rfl,
    show σ.quiet.errno = σ.errno from rfl]
  cases firstFit fun i => decide ((σ.semArray i).refCount = 0) with
  | none => rfl
  | some i =>
      by_cases stale : σ.errno ≠ 0
      · simp only [if_pos stale]
        rfl
      · simp only [if_neg stale]
        split <;> rfl

theorem semOpen_quiet (name : CString) (oflag : BitVec 32) (mod : Int) (val : BitVec 32) :
    σ.quiet.semOpen name oflag mod val = quietly (σ.semOpen name oflag mod val) := by
  have created := (σ.setErrno 0).semCreate_quiet mod val
  rw [semOpen, semOpen]
  simp only [show σ.quiet.setErrno 0 = (σ.setErrno 0).quiet from rfl, created, quietly,
    show (σ.setErrno 0).quiet.semNameMap = (σ.setErrno 0).semNameMap from rfl]
  cases (σ.setErrno 0).semNameMap.hashTableFind name with
  | none =>
      obtain ⟨τ, _ | i⟩ := (σ.setErrno 0).semCreate mod val <;> dsimp only <;>
        (repeat' split) <;> rfl
  | some i =>
      dsimp only
      (repeat' split) <;> rfl

theorem semInit_quiet (pshared : Int) (value : BitVec 32) :
    σ.quiet.semInit pshared value = quietly (σ.semInit pshared value) := by
  rw [semInit, semInit, semCreate_quiet]
  obtain ⟨τ, _ | i⟩ := σ.semCreate 0 value <;> rfl

theorem semDestroy_quiet (handle : Int) :
    σ.quiet.semDestroy handle = quietly (σ.semDestroy handle) := by
  rw [semDestroy, semDestroy, show σ.quiet.granted handle = σ.granted handle from rfl]
  cases σ.granted handle with
  | none => rfl
  | some i => exact quietly_ite rfl rfl

theorem semUnlink_quiet (name : CString) :
    σ.quiet.semUnlink name = quietly (σ.semUnlink name) := by
  rw [semUnlink, semUnlink, show σ.quiet.semNameMap = σ.semNameMap from rfl]
  refine quietly_ite rfl ?_
  cases σ.semNameMap.hashTableFind name with
  | none => rfl
  | some i => exact quietly_ite rfl (quietly_ite rfl rfl)

theorem semClose_quiet (handle : Int) :
    σ.quiet.semClose handle = quietly (σ.semClose handle) := by
  rw [semClose, semClose, show σ.quiet.granted handle = σ.granted handle from rfl]
  cases σ.granted handle with
  | none => rfl
  | some i =>
      refine Prod.ext ?_ rfl
      dsimp only [quietly]
      rw [show σ.quiet.delete (σ.quiet.semArray i).procList σ.quiet.who =
        (σ.delete (σ.semArray i).procList σ.who).quiet from rfl]
      split <;> split <;> first | rfl | contradiction

theorem semWait_quiet (handle : Int) :
    σ.quiet.semWait handle = quietly (σ.semWait handle) := by
  rw [semWait, semWait]
  simp only [show (σ.quiet.setErrno 0).granted handle = (σ.setErrno 0).granted handle from rfl]
  cases (σ.setErrno 0).granted handle with
  | none => rfl
  | some i => exact quietly_ite rfl rfl

theorem semTrywait_quiet (handle : Int) :
    σ.quiet.semTrywait handle = quietly (σ.semTrywait handle) := by
  rw [semTrywait, semTrywait]
  simp only [show (σ.quiet.setErrno 0).granted handle = (σ.setErrno 0).granted handle from rfl]
  cases (σ.setErrno 0).granted handle with
  | none => rfl
  | some i => exact quietly_ite rfl rfl

theorem semPost_quiet (handle proc : Int) :
    (σ.quiet.semPost handle proc).quiet = (σ.semPost handle proc).quiet := by
  rw [semPost, semPost]
  simp only [show (σ.quiet.setErrno 0).granted handle = (σ.setErrno 0).granted handle from rfl]
  cases (σ.setErrno 0).granted handle with
  | none => rfl
  | some i =>
      dsimp only
      rw [show (σ.quiet.setErrno 0).semArray = (σ.setErrno 0).semArray from rfl]
      split <;> rfl

theorem semGetvalue_quiet (handle : Int) :
    σ.quiet.semGetvalue handle = quietly (σ.semGetvalue handle) := by
  rw [semGetvalue, semGetvalue, show σ.quiet.granted handle = σ.granted handle from rfl]
  cases σ.granted handle <;> rfl

omit [ListLib P Int] in
theorem answerHandle_quiet {result result' : Fs P × Int} (same : result' = quietly result)
    (sema : Int) : (answerHandle result' sema).1.quiet = (answerHandle result sema).1.quiet := by
  rw [same]
  rfl

theorem dispatch_quiet (m : Message) (g : Garbage) :
    (σ.quiet.dispatch m g).1.quiet = (σ.dispatch m g).1.quiet := by
  rw [dispatch, dispatch]
  cases Funcion.ofInt m.funcion with
  | none => rfl
  | some funcion =>
      cases funcion with
      | semOpen =>
          dsimp only
          rw [semOpen_quiet]
          rfl
      | semInit =>
          dsimp only
          rw [semInit_quiet]
          rfl
      | semUlink =>
          dsimp only
          rw [semUnlink_quiet]
          rfl
      | semGetval =>
          dsimp only
          rw [semGetvalue_quiet]
          rfl
      | semClose => exact answerHandle_quiet (σ.semClose_quiet m.semaforo) m.semaforo
      | semWait => exact answerHandle_quiet (σ.semWait_quiet m.semaforo) m.semaforo
      | semPost => exact σ.semPost_quiet m.semaforo g.proc
      | semTrywait => exact answerHandle_quiet (σ.semTrywait_quiet m.semaforo) m.semaforo
      | semDestroy => exact answerHandle_quiet (σ.semDestroy_quiet m.semaforo) m.semaforo
      | semTimedwait => rfl

theorem step_quiet (p : Int) (m : Message) (g : Garbage) :
    (σ.step (.semaph p m g)).quiet = ((σ.getWork p).dispatch m g).1.quiet := by
  rw [step]
  split <;> rfl

end MinixSemaphore.Server.Fs

namespace MinixSemaphore.Linux

open MinixSemaphore.Client
open MinixSemaphore.Lists
open MinixSemaphore.Server
open MinixSemaphore.Store

universe u

/-! ## Requests to the file system -/

namespace Pedido

/-- The message to the file system that asks for the same. -/
def message : Pedido → Message
  | .semOpen nombre oflags args =>
      { m2i1 := 1
        m2i2 := args.elim 0 fun args => args.1.toInt
        m2i3 := if args.isSome then 4 else 2
        m2l1 := args.elim 0 fun args => args.2.toInt
        m2l2 := oflags.toInt
        m2p1 := nombre }
  | .semUnlink nombre => semUnlinkRequest default nombre
  | .semClose handle => semCloseRequest default handle.toInt
  | .semWait handle => semWaitRequest default handle.toInt
  | .semPost handle => semPostRequest default handle.toInt
  | .semTrywait handle => semTrywaitRequest default handle.toInt
  | .semInit mode value => semInitRequest default 0 mode.toInt value.toInt
  | .semGetvalue handle => semGetvalueRequest default handle.toInt 0
  | .semDestroy handle => semDestroyRequest default handle.toInt
  | .disconnect => default

end Pedido

variable {P : Type u} [ListLib P Int] {c : ConIx} {g : Garbage} {pedido : Pedido}

theorem requestName_of_length {m : Message} (short : m.nombre.length < 128) :
    Fs.requestName m = m.nombre :=
  take_of_length (short.le.trans (by decide))

/-- Both servers call the same operation. -/
theorem perform_mute (σ : Fs P) (g : Garbage) (short : pedido.Short) :
    (perform σ g pedido).fs.mute = (σ.dispatch pedido.message g.toGarbage).1.mute := by
  cases pedido with
  | semOpen nombre oflags args =>
      have name : Fs.requestName (Pedido.semOpen nombre oflags args).message = nombre :=
        requestName_of_length short
      have served : (σ.dispatch (Pedido.semOpen nombre oflags args).message g.toGarbage).1.mute =
          (σ.semOpen (Fs.requestName (Pedido.semOpen nombre oflags args).message)
            (BitVec.ofInt 32 oflags.toInt)
            (if (if args.isSome then (4 : Int) else 2) = 4 then args.elim 0 fun a => a.1.toInt
              else g.mod)
            (if (if args.isSome then (4 : Int) else 2) = 4 then
              BitVec.ofInt 32 (args.elim 0 fun a => a.2.toInt) else g.val)).1.mute := rfl
      rw [served, name, BitVec.ofInt_toInt, perform]
      cases args with
      | none => rfl
      | some args =>
          simp only [Option.isSome_some, if_true, Option.elim_some, BitVec.ofInt_toInt]
  | semUnlink nombre =>
      have name : Fs.requestName (Pedido.semUnlink nombre).message = nombre :=
        requestName_of_length short
      have served : (σ.dispatch (Pedido.semUnlink nombre).message g.toGarbage).1.mute =
          (σ.semUnlink (Fs.requestName (Pedido.semUnlink nombre).message)).1.mute := rfl
      rw [served, name]
      rfl
  | semInit mode value =>
      have served : (σ.dispatch (Pedido.semInit mode value).message g.toGarbage).1.mute =
          (σ.semInit mode.toInt (BitVec.ofInt 32 value.toInt)).1.mute := rfl
      rw [served, BitVec.ofInt_toInt]
      rfl
  | semClose handle | semWait handle | semPost handle | semTrywait handle | semGetvalue handle
  | semDestroy handle | disconnect => rfl

theorem perform_quiet (σ : Fs P) (g : Garbage) (short : pedido.Short) :
    (perform σ g pedido).fs.quiet = (σ.dispatch pedido.message g.toGarbage).1.quiet := by
  have same := perform_mute σ g short
  rw [show (perform σ g pedido).fs.quiet = (perform σ g pedido).fs.mute.quiet from rfl, same]
  rfl

/-- A request does at most one thing, and tells whomever it wakes. -/
theorem perform_recorded (σ : Fs P) (g : Garbage) (short : pedido.Short) :
    ∃ done, Fs.Recorded σ (perform σ g pedido).fs done (done.flatMap (Fs.wakeReply σ.m1)) ∧
      (done = [] ∨ ∃ a, done = [a] ∧ Fs.Asked σ.who pedido.message a) := by
  obtain ⟨done, recorded, asked⟩ := Fs.dispatch_recorded σ pedido.message g.toGarbage
  have same : (perform σ g pedido).fs.mute.record =
      (σ.dispatch pedido.message g.toGarbage).1.mute.record := by rw [perform_mute σ g short]
  exact ⟨done, recorded.globals same, asked⟩

/-! ## Runs -/

/-- A request to the file system, and the error number that is found when it begins. -/
structure Effect where
  errno : Int
  request : Server.Event

end MinixSemaphore.Linux

namespace MinixSemaphore.Server.World

open MinixSemaphore.Linux
open MinixSemaphore.Lists

universe u

variable {P : Type u}

/-- The world with another error number. -/
def setErrno (w : World P) (errno : Int) : World P :=
  { w with fs := w.fs.setErrno errno }

/-- The file system finds the error number, and serves the request. -/
def undergo [ListLib P Int] (w : World P) (e : Effect) : World P :=
  (w.setErrno e.errno).step e.request

theorem Sturdy.setErrno {w : World (Pools Int)} (sturdy : w.Sturdy) {errno : Int}
    (notPositive : errno ≤ 0) : (w.setErrno errno).Sturdy where
  simulated := Fs.Sim.setErrno sturdy.simulated errno
  paired := sturdy.paired
  anchored := sturdy.anchored.anchors (Fs.Anchors.setErrno _ notPositive)

/-- A slot that is given to a new semaphore has lists. -/
theorem Sturdy.exists_list_of_semCreate {w : World (Pools Int)} (sturdy : w.Sturdy)
    {p mode : Int} {value : BitVec 32} {i : SlotIx}
    (made : ((w.fs.getWork p).semCreate mode value).2 = some i) :
    (((w.fs.getWork p).semCreate mode value).1.semArray i).procList ≠ none := by
  have simulated := (Fs.Sim.getWork sturdy.simulated p).semCreate mode value
  have paired : (w.abs.fs.getWork p).Paired := sturdy.paired
  rw [simulated.2] at made
  rw [← simulated.1.semArray]
  exact (Fs.fills_of_semCreate paired (Prod.ext rfl made)).created

end MinixSemaphore.Server.World

namespace MinixSemaphore.Linux

open MinixSemaphore.Lists
open MinixSemaphore.Server
open MinixSemaphore.Store

variable {P : Type u} [ListLib P Int] {c : ConIx} {g : Garbage} {pedido : Pedido}

namespace Serv

/-- The request to the file system that a message amounts to, unless the message ends the
connection or means nothing. -/
def asks (c : ConIx) (g : Garbage) : Option Pedido → List Effect
  | none | some .disconnect => []
  | some pedido => [⟨-(g.errno : Int), .semaph c.proc pedido.message g.toGarbage⟩]

/-- What a round of the server is for the file system. -/
def trace (s : Serv P) : Event → List Effect
  | .connection => []
  | .pedido c bytes g => asks c g (readPedido (s.buf.clear.receive bytes))

/-- What the rounds of a run are for the file system. -/
def traces (s : Serv P) : List Event → List Effect
  | [] => []
  | e :: es => s.trace e ++ (s.step e).elim [] fun s => s.traces es

/-- The semaphores, the names, the lists and the error number are the same, and the same
has been done to semaphores. -/
structure Mirrors (s : Serv P) (w : World P) : Prop where
  table : s.fs.toSemTable = w.fs.toSemTable
  errno : s.fs.errno = w.fs.errno
  log : s.log = w.log

variable {s s' : Serv P} {w : World P}

omit [ListLib P Int] in
theorem start_mirrors (pools : P) : (start pools).Mirrors (World.start pools) :=
  ⟨rfl, rfl, rfl⟩

omit [ListLib P Int] in
/-- At the start of a request, nothing but the answers differs. -/
theorem Mirrors.getWork (mirrors : s.Mirrors w) (errno p : Int) :
    ((s.fs.setErrno errno).getWork p).quiet = ((w.fs.setErrno errno).getWork p).quiet := by
  obtain ⟨table, -, -⟩ := mirrors
  generalize s.fs = σ at table
  generalize w.fs = τ at table
  cases σ
  cases τ
  obtain rfl : _ = _ := table
  rfl

/-- A request is served alike. -/
theorem Mirrors.perform (mirrors : s.Mirrors w) (c : ConIx) (g : Garbage) (short : pedido.Short) :
    (Linux.perform (s.work c g) g pedido).fs.quiet =
      ((w.setErrno (-(g.errno : Int))).fs.step
        (.semaph c.proc pedido.message g.toGarbage)).quiet := by
  rw [perform_quiet _ g short, ← Fs.dispatch_quiet, work, mirrors.getWork, Fs.dispatch_quiet,
    Fs.step_quiet]
  rfl

/-- What an operation leaves, the file system leaves. -/
theorem Mirrors.of_quiet (mirrors : s.Mirrors w) {e : Effect}
    (quiet : s'.fs.quiet = ((w.setErrno e.errno).fs.step e.request).quiet)
    (log : s'.log = s.log ++ s'.fs.acts) : s'.Mirrors (w.undergo e) where
  table := (congrArg Fs.toSemTable quiet : s'.fs.quiet.toSemTable = _)
  errno := (congrArg Fs.errno quiet : s'.fs.quiet.errno = _)
  log := by
    have acts : s'.fs.quiet.acts = ((w.setErrno e.errno).fs.step e.request).quiet.acts :=
      congrArg Fs.acts quiet
    rw [log, mirrors.log, show s'.fs.acts = _ from acts]
    rfl

omit [ListLib P Int] in
theorem select_stale : s.select.Stale ↔ s.Stale := by
  refine exists_congr fun c => ?_
  rw [select, Bool.or_eq_true]
  constructor
  · rintro ⟨stays | used, free⟩
    · exact ⟨stays, free⟩
    · exact absurd (used.symm.trans free) (by decide)
  · rintro ⟨stays, free⟩
    exact ⟨Or.inl stays, free⟩

/-- The round of a client that has sent a message. -/
theorem Mirrors.aceptarPedido (mirrors : s.Mirrors w) {bytes : List UInt8}
    (served : s.step (.pedido c bytes g) = some s') :
    s'.Mirrors ((s.trace (.pedido c bytes g)).foldl World.undergo w) := by
  by_cases fresh : ¬s.Stale ∧ s.statusArray c = true
  · rw [Serv.step, if_pos fresh, Serv.aceptarPedido] at served
    rw [trace]
    have buf : s.select.buf = s.buf := rfl
    rw [buf] at served
    have short : ∀ pedido, readPedido (s.buf.clear.receive bytes) = some pedido →
        pedido.Short := fun _ => short_of_readPedido
    generalize readPedido (s.buf.clear.receive bytes) = read at served short ⊢
    cases read with
    | none => contradiction
    | some pedido =>
        have quiet := mirrors.perform c g (short pedido rfl)
        cases pedido with
        | disconnect =>
            obtain rfl := Option.some.inj served
            exact ⟨mirrors.table, mirrors.errno, mirrors.log⟩
        | _ =>
            dsimp only at served
            split at served
            · contradiction
            · split at served
              · contradiction
              · split at served <;> obtain rfl := Option.some.inj served <;>
                  exact mirrors.of_quiet quiet rfl
  · rw [Serv.step, if_neg fresh] at served
    contradiction

theorem Mirrors.step (mirrors : s.Mirrors w) {e : Event} (served : s.step e = some s') :
    s'.Mirrors ((s.trace e).foldl World.undergo w) := by
  cases e with
  | connection =>
      obtain ⟨c, -, rfl⟩ := Option.map_eq_some_iff.mp served
      exact ⟨mirrors.table, mirrors.errno, mirrors.log⟩
  | pedido c bytes g => exact mirrors.aceptarPedido served

theorem Mirrors.steps (mirrors : s.Mirrors w) {es : List Event} (run : s.steps es = some s') :
    s'.Mirrors ((s.traces es).foldl World.undergo w) := by
  induction es generalizing s w with
  | nil =>
      obtain rfl := Option.some.inj run
      exact mirrors
  | cons e es ih =>
      obtain ⟨t, served, rest⟩ := Option.bind_eq_some_iff.mp run
      rw [traces, served, List.foldl_append]
      exact ih (mirrors.step served) rest

/-- Whatever is asked for, the file system is left in a state of its own. -/
theorem sturdy_trace (s : Serv (Pools Int)) {w : World (Pools Int)} (sturdy : w.Sturdy)
    (e : Event) : ((s.trace e).foldl World.undergo w).Sturdy := by
  cases e with
  | connection => exact sturdy
  | pedido c bytes g =>
      rw [trace, asks.eq_def]
      split
      · exact sturdy
      · exact sturdy
      · exact (sturdy.setErrno (show -(g.errno : Int) ≤ 0 by omega)).step _

theorem sturdy_traces (s : Serv (Pools Int)) {w : World (Pools Int)} (sturdy : w.Sturdy)
    (es : List Event) : ((s.traces es).foldl World.undergo w).Sturdy := by
  induction es generalizing s w with
  | nil => exact sturdy
  | cons e es ih =>
      rw [traces, List.foldl_append]
      cases s.step e with
      | none => exact sturdy_trace s sturdy e
      | some t => exact ih t (sturdy_trace s sturdy e)

/-- What is made of a slot does not depend on the answers. -/
theorem Mirrors.semCreate (mirrors : s.Mirrors w) (c : ConIx) (g : Garbage) (mode : Int)
    (value : BitVec 32) : Fs.quietly ((s.work c g).semCreate mode value) =
      Fs.quietly (((w.setErrno (-(g.errno : Int))).fs.getWork c.proc).semCreate mode value) := by
  rw [← Fs.semCreate_quiet, ← Fs.semCreate_quiet, work, mirrors.getWork]
  rfl

/-- The Linux server does what the file system does with the requests that arrive. Whatever
bytes the clients send, as long as the rounds of the run end, the table of semaphores, the
names, the pools of list.c and the error number are those of the file system, which finds
the same error number at the beginning of each request, and so is all that has been done to
semaphores. The only list that an operation can find to be `NULL` is that in which it looks
for its caller: the lists of a slot are made together, what a name denotes has lists, and a
slot that is given to a new semaphore gets them. -/
theorem runs_like_file_system {es : List Event} {s : Serv (Pools Int)}
    (run : boot.steps es = some s) :
    s.Mirrors ((boot.traces es).foldl World.undergo World.boot) ∧
      (∀ i, (s.fs.semArray i).procList = none ↔ (s.fs.semArray i).blockedList = none) ∧
      (∀ name i, s.fs.semNameMap.hashTableFind name = some i →
        (s.fs.semArray i).procList ≠ none) ∧
      ∀ c g mode value i, ((s.work c g).semCreate mode value).2 = some i →
        (((s.work c g).semCreate mode value).1.semArray i).procList ≠ none := by
  have mirrors := (start_mirrors Pools.zeroed).steps run
  have sturdy := sturdy_traces boot World.boot_sturdy es
  have array : s.fs.semArray = _ := congrArg SemTable.semArray mirrors.table
  have names : s.fs.semNameMap = _ := congrArg SemTable.semNameMap mirrors.table
  refine ⟨mirrors, fun i => ?_, fun name i found => ?_, fun c g mode value i made => ?_⟩
  · rw [array]
    rcases sturdy.paired.lists i with ⟨procs, blocked⟩ | ⟨k, procs, blocked⟩
    · exact ⟨fun _ => blocked, fun _ => procs⟩
    · constructor <;> intro nothing
      · exact absurd (procs.symm.trans nothing) nofun
      · exact absurd (blocked.symm.trans nothing) nofun
  · rw [array]
    rw [names] at found
    obtain ⟨l, list⟩ := sturdy.anchored.exists_list found
    exact fun nothing => absurd (list.symm.trans nothing) nofun
  · have alike := mirrors.semCreate c g mode value
    have result := congrArg Prod.snd alike
    have slots := congrArg (fun made => made.1.semArray i) alike
    have notPositive : -(g.errno : Int) ≤ 0 := by omega
    rw [show ((s.work c g).semCreate mode value).1.semArray i = _ from slots]
    exact (sturdy.setErrno notPositive).exists_list_of_semCreate (result.symm.trans made)

/-- A client comes and goes. The next one cannot create a semaphore with `sem_init`, because
of the `EBADF` that the failing `select` leaves, but with `sem_open`, and waits for it. -/
theorem runs_like_file_system_of_wait :
    let es : List Event := [.connection, .pedido 0 [toChar Comando.disconnect.code] default,
      .connection, .pedido 0 (Call.semInit 0 1).bytes { (default : Garbage) with errno := 9 },
      .pedido 0 (Call.semOpen ⟨[97], by simp⟩ oCreat 0 1).bytes default,
      .pedido 0 (Call.semWait 0).bytes default]
    ((boot.steps es).getD boot).log.length = 2 ∧
      ((boot.steps es).getD boot).Mirrors
        ((boot.traces es).foldl World.undergo World.boot) := by
  intro es
  have steps : (boot.steps es).isSome := by decide +kernel
  obtain ⟨s, run⟩ := Option.isSome_iff_exists.mp steps
  refine ⟨by decide +kernel, ?_⟩
  rw [run]
  exact (runs_like_file_system run).1

end Serv

end MinixSemaphore.Linux
