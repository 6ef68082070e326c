import MinixSemaphore.Client.Remote
import MinixSemaphore.Server.Order

/-!
# What becomes of a handle

A function on a handle takes `*sem` from the reply. The reply to a request carries the
handle of the request, but `sem_wake` sends the buffer with the handle that an earlier
reply has left there.
-/

namespace MinixSemaphore.Client

open MinixSemaphore.Lists
open MinixSemaphore.Names
open MinixSemaphore.Semaphore
open MinixSemaphore.Server
open MinixSemaphore.Store
open MinixSemaphore.Transition
open World

universe u

/-- The end of a function on a handle: its result, and `*sem`. -/
def handleEnd (syscall : Reply → Int) (f : Funcion) (m : Message) (unset : Int)
    (reply : Reply) : Int × Int :=
  if f = .semGetval then
    ((getvalueResult syscall m.semaforo m.valActual unset reply).1,
      (getvalueResult syscall m.semaforo m.valActual unset reply).2.1)
  else handleResult syscall m.semaforo reply

/-- If the answer ends a function on a handle with result 0, then `*sem` is as it was. -/
def Survives (syscall : Reply → Int) (es : List Event) (a : Answer Reply) : Prop :=
  ∀ p m g f unset, es[a.request]? = some (.semaph p m g) → Funcion.ofInt m.funcion = some f →
    f.onHandle = true → (handleEnd syscall f m unset a.content).1 = 0 →
      (handleEnd syscall f m unset a.content).2 = m.semaforo

/-- If the event is a post that has to wake a process, then the buffer holds the handle
that this process has sent, unless it waits for the end of another function. -/
def Fits (w : World (Pools Int)) (e : Event) : Prop :=
  ∀ p m g i, e = .semaph p m g → Funcion.ofInt m.funcion = some .semPost →
    Fs.slotAt m.semaforo = some i → w.fs.belongs (w.fs.semArray i).procList p = true →
    (w.fs.semArray i).semCount < 0 →
      ∀ n p' m' g' f, (w.calls.ask p).pending ((w.fs.blocked i).head?.getD g.proc) = some n →
        (w.events ++ [e])[n]? = some (.semaph p' m' g') → Funcion.ofInt m'.funcion = some f →
        f.onHandle = true → w.fs.m1.param1 = m'.semaforo

/-! ## The ends of functions -/

section

variable {syscall : Reply → Int} {errno : Reply → Option Int} {f : Funcion} {m : Message}
  {unset : Int} {reply : Reply}

/-- Whatever the function, `*sem` comes from the reply, or stays. -/
theorem handleEnd_snd : (handleEnd syscall f m unset reply).2 =
    if syscall reply = 0 then reply.param1 else m.semaforo := by
  rw [handleEnd]
  split
  · rw [getvalueResult]
    split <;> rfl
  · rw [handleResult]
    split <;> rfl

theorem handleEnd_of_returned (returned : syscall reply = 0) :
    handleEnd syscall f m unset reply = (reply.rta, reply.param1) := by
  rw [handleEnd, getvalueResult, handleResult, if_pos returned, if_pos returned]
  split <;> rfl

/-- A handle that the reply carries has been left as it was. -/
theorem handleEnd_kept (same : reply.param1 = m.semaforo) :
    (handleEnd syscall f m unset reply).2 = m.semaforo := by
  rw [handleEnd_snd, same, ite_self]

end

/-! ## Replies -/

section

variable {P : Type u} [ListLib P Int] {σ : Fs P}

/-- The reply to a request on a handle carries the handle. -/
theorem step_param1 {p : Int} {m : Message} {g : Garbage} {f : Funcion}
    (funcion : Funcion.ofInt m.funcion = some f) (onHandle : f.onHandle = true) :
    (σ.step (.semaph p m g)).m1.param1 = m.semaforo := by
  have replied := Fs.step_replied (σ := σ) (p := p) (m := m) (g := g) rfl
  rw [replied.param1, Fs.dispatch, funcion]
  cases f with
  | semClose | semWait | semPost | semGetval | semTrywait | semDestroy => rfl
  | semOpen | semInit | semUlink | semTimedwait => contradiction

/-- A round sends the buffer of the round before to a process that it wakes, and its own
buffer to its caller. -/
theorem mem_sent {e : Event} {q : Int} {r : Reply} (mem : (q, r) ∈ (σ.step e).sent) :
    (∃ i, σ.Wakes e i q) ∧ r = { σ.m1 with type := ok, rta := 0 } ∨
      q = e.source ∧ r = (σ.step e).m1 := by
  rw [(Fs.step_recorded σ e).2, List.mem_append] at mem
  rcases mem with woken | own
  · obtain ⟨⟨i, deed⟩, did, reply⟩ := List.mem_flatMap.mp woken
    rw [Fs.wakeReply] at reply
    split at reply
    · rename_i p q' posts
      obtain ⟨rfl, rfl⟩ := Prod.mk.inj (List.mem_singleton.mp reply)
      obtain rfl : deed = .posted p (some q) := posts
      exact Or.inl ⟨⟨i, p, did⟩, rfl⟩
    · contradiction
  · split at own
    · contradiction
    · exact Or.inr (Prod.mk.inj (List.mem_singleton.mp own))

end

/-! ## Runs -/

section

variable {syscall : Reply → Int} {errno : Reply → Option Int} {es : List Event} {e : Event}

theorem after_events (es : List Event) : (after es).events = es := by
  induction es using List.reverseRecOn with
  | nil => rfl
  | append_singleton es e ih =>
      rw [after_snoc]
      exact congrArg (· ++ [e]) ih

theorem after_asked (es : List Event) : (after es).calls.asked = es.length := by
  induction es using List.reverseRecOn with
  | nil => rfl
  | append_singleton es e ih =>
      rw [after_snoc, World.step, Calls.foldl_asked, List.length_append]
      exact congrArg (· + 1) ih

theorem after_numbered (es : List Event) : (after es).calls.Numbered := by
  induction es using List.reverseRecOn with
  | nil => exact Calls.start_numbered
  | append_singleton es e ih =>
      rw [after_snoc]
      exact (ih.ask e.source).foldl _

/-- The process that a post on a slot with a negative count wakes. -/
theorem step_wakes {w : World (Pools Int)} (simulated : w.Simulated) {p : Int} {m : Message}
    {g : Garbage} {i : SlotIx} (funcion : Funcion.ofInt m.funcion = some .semPost)
    (slot : Fs.slotAt m.semaforo = some i)
    (member : w.fs.belongs (w.fs.semArray i).procList p = true)
    (negative : (w.fs.semArray i).semCount < 0) :
    (w.fs.step (.semaph p m g)).acts =
      [⟨i, .posted p (some ((w.fs.blocked i).head?.getD g.proc))⟩] := by
  have head := (Pools.getElement_toBegin_refines simulated.wellFormed
    (w.fs.semArray i).blockedList).2
  rw [Fs.step_semPost_acts w.fs funcion slot member, if_pos negative, Fs.takeFirst]
  exact congrArg (fun found : Option Int => [(⟨i, .posted p (some (found.getD g.proc))⟩ : Act)])
    head

/-- An answer is to a request of the past. -/
theorem survives_snoc_iff {a : Answer Reply} (past : a.request < es.length) :
    Survives syscall (es ++ [e]) a ↔ Survives syscall es a := by
  rw [Survives, Survives, List.getElem?_append_left past]

/-- A fitting event answers no request with another handle than it came with. -/
theorem survives_of_sent (fits : Fits (after es) e) {q : Int} {a : Answer Reply}
    (sent : (q, a.content) ∈ ((after es).fs.step e).sent)
    (waits : ((after es).calls.ask e.source).pending q = some a.request) :
    Survives syscall (es ++ [e]) a := by
  intro p m g f unset asked funcion onHandle _
  apply handleEnd_kept
  rcases mem_sent sent with ⟨⟨i, wakes⟩, reply⟩ | ⟨rfl, reply⟩
  · obtain ⟨p', m', g', rfl, post, slot, member, negative⟩ := wakes.rouses
    have acts := step_wakes (g := g') (after_sturdy es).simulated post slot member negative
    obtain ⟨p'', did⟩ := wakes
    rw [acts, List.mem_singleton] at did
    obtain rfl : q = ((after es).fs.blocked i).head?.getD g'.proc :=
      Option.some.inj (Deed.posted.inj (congrArg Action.deed did)).2
    rw [reply]
    apply fits p' m' g' i rfl post slot member negative a.request p m g f waits
    · rw [after_events]
      exact asked
    · exact funcion
    · exact onHandle
  · -- the caller has asked last
    rw [Calls.ask_pending, Function.update_self, Option.some.injEq, after_asked] at waits
    rw [← waits, List.getElem?_concat_length, Option.some.injEq] at asked
    subst asked
    rw [reply]
    exact step_param1 funcion onHandle

/-- All answers leave the handles of their callers after a further event, exactly if they
have done so before it and it fits. -/
theorem survive_snoc_iff (documented : Documented syscall errno) :
    (∀ a ∈ (after (es ++ [e])).calls.answers, Survives syscall (es ++ [e]) a) ↔
      (∀ a ∈ (after es).calls.answers, Survives syscall es a) ∧ Fits (after es) e := by
  have numbered := (after_numbered es).answers
  rw [after_asked] at numbered
  rw [after_snoc, World.step]
  constructor
  · intro survive
    constructor
    · intro a mem
      exact (survives_snoc_iff (numbered a mem)).mp
        (survive a (Calls.answers_subset_foldl _ mem))
    · rintro p m g i rfl post slot member negative n p' m' g' f waits asked funcion onHandle
      have acts := step_wakes (g := g) (after_sturdy es).simulated post slot member negative
      have sent := (Fs.step_recorded (after es).fs (.semaph p m g)).2
      rw [acts] at sent
      rw [sent] at survive
      rw [after_events] at asked
      have kept := survive _ (Calls.mem_answers_first waits _) p' m' g' f 0 asked funcion onHandle
      have returned := (documented.success
        { (after es).fs.m1 with type := ok, rta := 0 } le_rfl).trans rfl
      rw [handleEnd_of_returned returned] at kept
      exact kept rfl
  · rintro ⟨survive, fits⟩ a mem
    rcases Calls.mem_answers_foldl mem with before | ⟨q, sent, waits⟩
    · exact (survives_snoc_iff (numbered a before)).mpr (survive a before)
    · exact survives_of_sent fits sent waits

/-- In a run, every function on a handle that ends with result 0 leaves its handle as it
was, exactly if every event fits. -/
theorem survive_iff_run (documented : Documented syscall errno) (es : List Event) :
    (∀ a ∈ (after es).calls.answers, Survives syscall es a) ↔
      Run World.step Fits boot es (after es) := by
  induction es using List.reverseRecOn with
  | nil => exact iff_of_true (fun _ mem => absurd mem List.not_mem_nil) Run.nil
  | append_singleton es e ih =>
      rw [survive_snoc_iff documented, ih]
      constructor
      · rintro ⟨before, fits⟩
        rw [after_snoc]
        exact before.snoc fits
      · intro run
        exact run.of_snoc

/-- Process 5 waits for semaphore 0, and process 6 posts on it at once. -/
theorem survive_iff_run_of_post :
    let es := [call 5 (semInitRequest default 0 0 0), .fork 5 6, call 5 (semWaitRequest default 0),
      call 6 (semPostRequest default 0)]
    ∀ a ∈ (after es).calls.answers, Survives syscallResult es a := by
  intro es
  apply (survive_iff_run documented_syscall es).mpr
  have quiet : ∀ w who (m : Message), Funcion.ofInt m.funcion ≠ some .semPost →
      Fits w (call who m) := by
    rintro w who m other p m' g i ⟨⟩ post
    exact absurd post other
  have fork : ∀ w, Fits w (.fork 5 6) := by
    rintro w p m g i ⟨⟩
  have start : Run World.step Fits boot [] boot := Run.nil
  have first := start.snoc (quiet _ 5 (semInitRequest default 0 0 0) (by decide))
  have third := (first.snoc (fork _)).snoc (quiet _ 5 (semWaitRequest default 0) (by decide))
  apply third.snoc
  rintro p m g i ⟨⟩ - slot - - n p' m' g' f waits asked - -
  obtain rfl : i = 0 := Option.some.inj (slot.symm.trans (by decide))
  obtain rfl : n = 2 := Option.some.inj (waits.symm.trans (by decide +kernel))
  obtain ⟨-, rfl, -⟩ := Event.semaph.inj (Option.some.inj asked)
  decide +kernel

/-- Process 5 waits for semaphore 0. Process 6 asks for the value of semaphore 1 before it
posts on semaphore 0, and process 5 goes on with handle 1. -/
theorem not_survive_of_getvalue :
    let es := [call 5 (semInitRequest default 0 0 0), .fork 5 6,
      call 6 (semInitRequest default 0 0 1), call 5 (semWaitRequest default 0),
      call 6 (semGetvalueRequest default 1 0), call 6 (semPostRequest default 0)]
    ¬∀ a ∈ (after es).calls.answers, Survives syscallResult es a := by
  intro es survive
  have answered : ⟨3, 5, ⟨0, 0, 1, 1⟩⟩ ∈ (after es).calls.answers := by decide +kernel
  have kept := survive _ answered 5 (semWaitRequest default 0) default .semWait 0 rfl rfl rfl
    (by decide)
  exact absurd kept (by decide)

end

end MinixSemaphore.Client
