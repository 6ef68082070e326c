import MinixSemaphore.Client.Library
import MinixSemaphore.Server.World

/-!
# Operations on different slots

What an operation on a handle does and answers depends on the count, the processes and
the blocked processes of its slot alone, and it changes no other slot. So two operations
on different slots may be served in either order.
-/

namespace MinixSemaphore.Server

open MinixSemaphore.Lists
open MinixSemaphore.Names
open MinixSemaphore.Store
open MinixSemaphore.Semaphore
open MinixSemaphore.Transition

universe u

/-- The functions that use a semaphore or close it. -/
def Funcion.uses : Funcion → Bool
  | .semWait | .semTrywait | .semPost | .semGetval | .semClose => true
  | _ => false

namespace Fs

open SemTable

/-- Two rounds have served a request for this function alike: the same was done, the same
processes were sent a message, and if the caller was, then with the same content. -/
structure SameAnswer {P : Type u} (f : Funcion) (σ σ' : Fs P) : Prop where
  acts : σ'.acts = σ.acts
  receivers : σ'.sent.map Prod.fst = σ.sent.map Prod.fst
  dontReply : σ'.dontReply = σ.dontReply
  type : σ.dontReply = false → σ'.m1.type = σ.m1.type
  rta : σ'.m1.rta = σ.m1.rta
  handle : σ'.m1.param1 = σ.m1.param1
  value : f = .semGetval → σ'.m1.param2 = σ.m1.param2
  errno : f = .semPost → σ'.errno = σ.errno

/-! ## What an operation depends on -/

variable {σ σ' : SeqFs} {i : SlotIx} {p handle : Int}

/-- Both show the same to an operation on slot `i`. -/
structure Alike (σ σ' : SeqFs) (i : SlotIx) : Prop where
  count : (σ'.semArray i).semCount = (σ.semArray i).semCount
  members : σ'.members i = σ.members i
  waiters : σ'.waiters i = σ.waiters i

/-- Two calls have ended alike. The error number matters only if they have failed. -/
structure SameResult (r r' : SeqFs × Int) : Prop where
  acts : r'.1.acts = r.1.acts
  dontReply : r'.1.dontReply = r.1.dontReply
  result : r'.2 = r.2
  errno : r.2 ≠ 0 → r'.1.errno = r.1.errno

theorem granted_getWork (slot : slotAt handle = some i) :
    (σ.getWork p).granted handle = if p ∈ σ.members i then some i else none := by
  by_cases member : p ∈ σ.members i
  · rw [if_pos member]
    exact granted_iff.mpr ⟨slot, member⟩
  · rw [if_neg member, granted, slot, Option.filter_some, if_neg]
    intro belongs
    exact member (belongs_iff.mp belongs)

namespace Alike

variable (alike : Alike σ σ' i) (slot : slotAt handle = some i)
include alike slot

theorem granted : (σ'.getWork p).granted handle = (σ.getWork p).granted handle := by
  rw [granted_getWork slot, granted_getWork slot, alike.members]

theorem granted_setErrno (errno : Int) :
    ((σ'.getWork p).setErrno errno).granted handle =
      ((σ.getWork p).setErrno errno).granted handle :=
  alike.granted slot

theorem semWait : SameResult ((σ.getWork p).semWait handle) ((σ'.getWork p).semWait handle) := by
  rw [Fs.semWait, Fs.semWait, alike.granted_setErrno slot]
  cases granted : ((σ.getWork p).setErrno 0).granted handle with
  | none => exact ⟨rfl, rfl, rfl, fun _ => rfl⟩
  | some j =>
      obtain rfl := Option.some.inj ((slotAt_of_granted granted).symm.trans slot)
      have count : (((σ'.getWork p).setErrno 0).semArray j).semCount =
        (((σ.getWork p).setErrno 0).semArray j).semCount := alike.count
      simp only
      rw [count]
      split
      · exact ⟨rfl, rfl, rfl, fun _ => rfl⟩
      · exact ⟨rfl, rfl, rfl, fun _ => rfl⟩

theorem semTrywait :
    SameResult ((σ.getWork p).semTrywait handle) ((σ'.getWork p).semTrywait handle) := by
  rw [Fs.semTrywait, Fs.semTrywait, alike.granted_setErrno slot]
  cases granted : ((σ.getWork p).setErrno 0).granted handle with
  | none => exact ⟨rfl, rfl, rfl, fun _ => rfl⟩
  | some j =>
      obtain rfl := Option.some.inj ((slotAt_of_granted granted).symm.trans slot)
      have count : (((σ'.getWork p).setErrno 0).semArray j).semCount =
        (((σ.getWork p).setErrno 0).semArray j).semCount := alike.count
      simp only
      rw [count]
      split
      · exact ⟨rfl, rfl, rfl, fun _ => rfl⟩
      · exact ⟨rfl, rfl, rfl, fun _ => rfl⟩

theorem semPost (proc result : Int) :
    SameResult ((σ.getWork p).semPost handle proc, result)
        ((σ'.getWork p).semPost handle proc, result) ∧
      ((σ'.getWork p).semPost handle proc).errno = ((σ.getWork p).semPost handle proc).errno := by
  rw [Fs.semPost, Fs.semPost, alike.granted_setErrno slot]
  cases granted : ((σ.getWork p).setErrno 0).granted handle with
  | none => exact ⟨⟨rfl, rfl, rfl, fun _ => rfl⟩, rfl⟩
  | some j =>
      obtain rfl := Option.some.inj ((slotAt_of_granted granted).symm.trans slot)
      have count : (((σ'.getWork p).setErrno 0).semArray j).semCount =
        (((σ.getWork p).setErrno 0).semArray j).semCount := alike.count
      -- both take the process in front
      have woken : (σ'.takeFirst (σ'.semArray j).blockedList proc).2 =
          (σ.takeFirst (σ.semArray j).blockedList proc).2 :=
        congrArg (fun waiters => waiters.head?.getD proc) alike.waiters
      simp only
      rw [count]
      split
      · exact ⟨⟨congrArg (fun q => [(⟨j, .posted p (some q)⟩ : Act)]) woken, rfl, rfl,
          fun _ => rfl⟩, rfl⟩
      · exact ⟨⟨rfl, rfl, rfl, fun _ => rfl⟩, rfl⟩

theorem semClose :
    SameResult ((σ.getWork p).semClose handle) ((σ'.getWork p).semClose handle) := by
  rw [Fs.semClose, Fs.semClose, alike.granted slot]
  cases (σ.getWork p).granted handle with
  | none => exact ⟨rfl, rfl, rfl, fun _ => rfl⟩
  | some j =>
      refine ⟨?_, ?_, rfl, fun failed => absurd rfl failed⟩
      · simp only
        split <;> split <;> rfl
      · simp only
        split <;> split <;> rfl

theorem semGetvalue :
    ((σ'.getWork p).semGetvalue handle).2 = ((σ.getWork p).semGetvalue handle).2 ∧
      SameResult (((σ.getWork p).semGetvalue handle).1, ((σ.getWork p).semGetvalue handle).2.1)
        (((σ'.getWork p).semGetvalue handle).1, ((σ'.getWork p).semGetvalue handle).2.1) := by
  rw [Fs.semGetvalue, Fs.semGetvalue, alike.granted slot]
  cases granted : (σ.getWork p).granted handle with
  | none => exact ⟨rfl, rfl, rfl, rfl, fun _ => rfl⟩
  | some j =>
      obtain rfl := Option.some.inj ((slotAt_of_granted granted).symm.trans slot)
      exact ⟨congrArg (fun count => (0, some count)) alike.count, rfl, rfl, rfl,
        fun failed => absurd rfl failed⟩

end Alike

/-! ## What is answered -/

theorem receivers_eq {e : Event} (acts : (σ'.step e).acts = (σ.step e).acts) :
    (σ'.step e).sent.map Prod.fst = (σ.step e).sent.map Prod.fst := by
  have woken : ∀ a, (wakeReply σ'.m1 a).map Prod.fst = (wakeReply σ.m1 a).map Prod.fst := by
    intro a
    rw [wakeReply, wakeReply]
    split <;> rfl
  have answered : ∀ (asleep : Bool) (m1 m1' : Reply),
      (if asleep then [] else [(e.source, m1')]).map Prod.fst =
        (if asleep then [] else [(e.source, m1)]).map Prod.fst := by
    intro asleep m1 m1'
    cases asleep <;> rfl
  rw [(step_recorded σ' e).2, (step_recorded σ e).2, acts, List.map_append, List.map_append,
    List.map_flatMap, List.map_flatMap, answered _ (σ.step e).m1]
  exact congrArg (fun told => (σ.step e).acts.flatMap told ++ _) (funext woken)

variable {m : Message} {g : Garbage} {f : Funcion}

/-- Requests that have been served alike are answered alike. -/
theorem SameResult.answer {r r' : SeqFs × Int} (same : SameResult r r')
    (handled : (σ.getWork p).dispatch m g = r) (handled' : (σ'.getWork p).dispatch m g = r')
    (rta : r'.1.m1.rta = r.1.m1.rta) (param1 : r'.1.m1.param1 = r.1.m1.param1)
    (value : f = .semGetval → r'.1.m1.param2 = r.1.m1.param2)
    (errno : f = .semPost → r'.1.errno = r.1.errno) :
    SameAnswer f (σ.step (.semaph p m g)) (σ'.step (.semaph p m g)) := by
  have replied := step_replied handled
  have replied' := step_replied handled'
  have acts : (σ'.step (.semaph p m g)).acts = (σ.step (.semaph p m g)).acts := by
    rw [replied'.acts, replied.acts, same.acts]
  refine ⟨acts, receivers_eq acts, ?_, ?_, ?_, ?_, ?_, ?_⟩
  · rw [replied'.dontReply, replied.dontReply, same.dontReply]
  · intro awake
    have awake : r.1.dontReply = false := replied.dontReply.symm.trans awake
    rw [replied'.type (same.dontReply.trans awake), replied.type awake, same.result]
    split
    · rename_i failed
      exact same.errno failed
    · rfl
  · rw [replied'.rta, replied.rta, rta]
  · rw [replied'.param1, replied.param1, param1]
  · intro getvalue
    rw [replied'.param2, replied.param2, value getvalue]
  · intro post
    rw [replied'.errno, replied.errno, errno post]

/-- An operation that hands its result and the handle back. -/
theorem SameResult.answerHandle {r r' : SeqFs × Int} (same : SameResult r r')
    (handled : (σ.getWork p).dispatch m g = Fs.answerHandle r m.semaforo)
    (handled' : (σ'.getWork p).dispatch m g = Fs.answerHandle r' m.semaforo)
    (notValue : f ≠ .semGetval) (errno : f = .semPost → r'.1.errno = r.1.errno) :
    SameAnswer f (σ.step (.semaph p m g)) (σ'.step (.semaph p m g)) := by
  have served : SameResult (Fs.answerHandle r m.semaforo) (Fs.answerHandle r' m.semaforo) :=
    ⟨same.acts, same.dontReply, same.result, same.errno⟩
  exact served.answer handled handled' same.result rfl (fun value => absurd value notValue) errno

/-- A request is served and answered according to what its slot shows. -/
theorem Alike.step (alike : Alike σ σ' i) {e : Event} (requests : e.Requests p f i)
    (uses : f.uses = true) : SameAnswer f (σ.step e) (σ'.step e) := by
  obtain ⟨m, g, rfl, funcion, slot⟩ := requests
  cases f with
  | semWait =>
      exact (alike.semWait slot).answerHandle (by rw [dispatch, funcion])
        (by rw [dispatch, funcion]) (by decide)
        fun post => absurd post (by decide)
  | semTrywait =>
      exact (alike.semTrywait slot).answerHandle (by rw [dispatch, funcion])
        (by rw [dispatch, funcion]) (by decide)
        fun post => absurd post (by decide)
  | semClose =>
      exact (alike.semClose slot).answerHandle (by rw [dispatch, funcion])
        (by rw [dispatch, funcion]) (by decide)
        fun post => absurd post (by decide)
  | semPost =>
      obtain ⟨same, errno⟩ := alike.semPost slot (p := p) g.proc g.returnVal
      exact same.answerHandle (by rw [dispatch, funcion]) (by rw [dispatch, funcion]) (by decide)
        fun _ => errno
  | semGetval =>
      obtain ⟨value, same⟩ := alike.semGetvalue slot (p := p)
      have handled : ∀ τ : SeqFs, (τ.getWork p).dispatch m g =
          (((τ.getWork p).semGetvalue m.semaforo).1.answer
            ((τ.getWork p).semGetvalue m.semaforo).2.1 m.semaforo
            (((τ.getWork p).semGetvalue m.semaforo).2.2.getD m.valActual) 3,
          ((τ.getWork p).semGetvalue m.semaforo).2.1) := by
        intro τ
        rw [dispatch, funcion]
      have served : SameResult ((σ.getWork p).dispatch m g) ((σ'.getWork p).dispatch m g) := by
        rw [handled, handled]
        exact ⟨same.acts, same.dontReply, same.result, same.errno⟩
      rw [handled, handled] at served
      exact served.answer (handled σ) (handled σ') same.result rfl
        (fun _ => congrArg (fun read : Int × Option Int => read.2.getD m.valActual) value)
        fun post => absurd post (by decide)
  | _ => contradiction

/-! ## What an operation leaves alone -/

/-- An operation on a slot does something to this slot only. -/
theorem places_of_requests {e : Event} (requests : e.Requests p f i) (uses : f.uses = true) :
    ∀ a ∈ (σ.step e).acts, a.place = i := by
  obtain ⟨m, g, rfl, funcion, slot⟩ := requests
  have other : ∀ {f' : Funcion}, f'.uses = false → Funcion.ofInt m.funcion ≠ some f' := by
    intro f' unused same
    rw [Option.some.inj (funcion.symm.trans same), unused] at uses
    contradiction
  have here : ∀ {j : SlotIx}, slotAt m.semaforo = some j → j = i :=
    fun same => Option.some.inj (same.symm.trans slot)
  intro a mem
  rcases (step_recorded σ (.semaph p m g)).1 with nothing | ⟨b, done, asked⟩
  · rw [nothing] at mem
    contradiction
  rw [done, List.mem_singleton] at mem
  subst mem
  cases asked with
  | opened same => exact absurd same (other rfl)
  | created same => exact absurd same (other rfl)
  | initialized same => exact absurd same (other rfl)
  | unlinked same => exact absurd same (other rfl)
  | destroyed same => exact absurd same (other rfl)
  | closed _ same => exact here same
  | passed _ same => exact here same
  | queued _ same => exact here same
  | tried _ same => exact here same
  | posted _ same => exact here same

theorem view_isSome (σ : SeqFs) (i : SlotIx) :
    (σ.view i).isSome = decide (0 < (σ.semArray i).refCount) := by
  rw [view]
  by_cases live : 0 < (σ.semArray i).refCount
  · rw [if_pos live, decide_eq_true live]
    rfl
  · rw [if_neg live, decide_eq_false live]
    rfl

/-- The names and the permissions are as they were. -/
structure Settings (σ σ' : SeqFs) : Prop where
  names : σ'.semNameMap = σ.semNameMap
  permision : ∀ j, (σ'.semArray j).permision = (σ.semArray j).permision

namespace Settings

theorem refl (σ : SeqFs) : Settings σ σ :=
  ⟨rfl, fun _ => rfl⟩

theorem symm (settings : Settings σ σ') : Settings σ' σ :=
  ⟨settings.names.symm, fun j => (settings.permision j).symm⟩

theorem trans {σ'' : SeqFs} (first : Settings σ σ') (second : Settings σ' σ'') : Settings σ σ'' :=
  ⟨second.names.trans first.names, fun j => (second.permision j).trans (first.permision j)⟩

/-- A change of other variables. -/
theorem globals {σ'' : SeqFs} (settings : Settings σ σ') (names : σ''.semNameMap = σ'.semNameMap)
    (array : σ''.semArray = σ'.semArray) : Settings σ σ'' := by
  refine ⟨names.trans settings.names, fun j => ?_⟩
  rw [array]
  exact settings.permision j

theorem modSem (settings : Settings σ σ') (i : SlotIx) (h : SemCdt → SemCdt)
    (kept : ∀ s, (h s).permision = s.permision) : Settings σ (σ'.modSem i h) := by
  refine ⟨settings.names, fun j => ?_⟩
  rw [← settings.permision j]
  by_cases same : j = i
  · subst same
    simp [Fs.modSem, kept]
  · simp [Fs.modSem, same]

theorem addCount (settings : Settings σ σ') (i : SlotIx) (amount : Int) :
    Settings σ (σ'.addCount i amount) :=
  settings.modSem i (fun s => { s with semCount := s.semCount + amount }) fun _ => rfl

end Settings

theorem settings_semWait (σ : SeqFs) (handle : Int) : Settings σ (σ.semWait handle).1 := by
  have cleared : Settings σ (σ.setErrno 0) := (Settings.refl σ).globals rfl rfl
  have ends := σ.semWait_ends handle
  generalize σ.semWait handle = result at ends ⊢
  cases ends with
  | refused => exact (Settings.refl σ).globals rfl rfl
  | @queued i =>
      have inserted : Settings σ (((σ.setErrno 0).setDontReply true).insert
          (σ.semArray i).blockedList σ.who) := (Settings.refl σ).globals rfl rfl
      exact (inserted.addCount i (-1)).globals rfl rfl
  | @passed i => exact (cleared.addCount i (-1)).globals rfl rfl

theorem settings_semTrywait (σ : SeqFs) (handle : Int) : Settings σ (σ.semTrywait handle).1 := by
  have cleared : Settings σ (σ.setErrno 0) := (Settings.refl σ).globals rfl rfl
  have ends := σ.semTrywait_ends handle
  generalize σ.semTrywait handle = result at ends ⊢
  cases ends with
  | refused | again => exact (Settings.refl σ).globals rfl rfl
  | @tried i => exact (cleared.addCount i (-1)).globals rfl rfl

theorem settings_semPost (σ : SeqFs) (handle proc : Int) :
    Settings σ (σ.semPost handle proc) := by
  have cleared : Settings σ (σ.setErrno 0) := (Settings.refl σ).globals rfl rfl
  have ends := σ.semPost_ends handle proc
  generalize σ.semPost handle proc = after at ends ⊢
  cases ends with
  | refused => exact (Settings.refl σ).globals rfl rfl
  | @woken i first _ _ took =>
      subst took
      have taken : Settings σ (((σ.setErrno 0).takeFirst (σ.semArray i).blockedList
          proc).1.semWake ((σ.setErrno 0).takeFirst (σ.semArray i).blockedList proc).2 0) :=
        (Settings.refl σ).globals rfl rfl
      exact (taken.addCount i 1).globals rfl rfl
  | @counted i => exact (cleared.addCount i 1).globals rfl rfl

theorem settings_semClose (σ : SeqFs) (handle : Int) : Settings σ (σ.semClose handle).1 := by
  have ends := σ.semClose_ends handle
  generalize σ.semClose handle = result at ends ⊢
  cases ends with
  | refused | left => exact (Settings.refl σ).globals rfl rfl
  | @last i =>
      have deleted : Settings σ (σ.delete (σ.semArray i).procList σ.who) :=
        (Settings.refl σ).globals rfl rfl
      exact (deleted.modSem i (fun s => { s with refCount := 0 }) fun _ => rfl).globals rfl rfl

theorem settings_semGetvalue (σ : SeqFs) (handle : Int) :
    Settings σ (σ.semGetvalue handle).1 := by
  have ends := σ.semGetvalue_ends handle
  generalize σ.semGetvalue handle = result at ends ⊢
  cases ends with
  | refused => exact (Settings.refl σ).globals rfl rfl
  | read => exact Settings.refl σ

theorem settings_of_requests {e : Event} (requests : e.Requests p f i) (uses : f.uses = true) :
    Settings σ (σ.step e) := by
  obtain ⟨m, g, rfl, funcion, slot⟩ := requests
  have served : Settings (σ.getWork p) ((σ.getWork p).dispatch m g).1 := by
    rw [dispatch, funcion]
    cases f with
    | semWait => exact (settings_semWait (σ.getWork p) m.semaforo).globals rfl rfl
    | semTrywait => exact (settings_semTrywait (σ.getWork p) m.semaforo).globals rfl rfl
    | semPost => exact (settings_semPost (σ.getWork p) m.semaforo g.proc).globals rfl rfl
    | semClose => exact (settings_semClose (σ.getWork p) m.semaforo).globals rfl rfl
    | semGetval => exact (settings_semGetvalue (σ.getWork p) m.semaforo).globals rfl rfl
    | _ => contradiction
  rw [step_semaph]
  simp only
  split
  · exact ⟨served.names, served.permision⟩
  · exact ⟨served.names, served.permision⟩

end Fs

namespace World

section

variable {w : World (SeqStore Int)} {T : SlotTable} {e e₁ e₂ : Event} {p q : Int}
  {s t : SlotIx} {f f₁ f₂ : Funcion}

/-- An operation on one slot leaves alone what an operation on another one depends on. -/
theorem Tracks.alike (tracks : w.Tracks T) (lawful : w.Lawful e) (requests : e.Requests p f s)
    (uses : f.uses = true) (other : t ≠ s) (live : 0 < (w.fs.semArray t).refCount) :
    Fs.Alike w.fs (w.step e).fs t := by
  obtain ⟨T', steps, tracks'⟩ := tracks.step lawful
  have elsewhere : deedsAt t (w.fs.step e).acts = [] := by
    apply deedsAt_eq_nil
    intro a mem here
    exact other (here.symm.trans (Fs.places_of_requests requests uses a mem))
  have kept : T' t = T t := by
    have run := run_deedsAt steps t
    rw [elsewhere] at run
    exact run.eq_foldl
  obtain ⟨sem, here, shown⟩ := tracks.exists_sem live
  have here' : T' t = some sem := kept.trans here
  obtain ⟨sem', found, shown'⟩ := tracks'.exists_sem (tracks'.live_of_sem here')
  obtain rfl : sem = sem' := Option.some.inj (here'.symm.trans found)
  obtain ⟨count, members, waiters, -⟩ := Fs.shown_fields shown
  obtain ⟨count', members', waiters', -⟩ := Fs.shown_fields shown'
  exact ⟨count'.symm.trans count, members'.symm.trans members, waiters'.symm.trans waiters⟩

/-- Operations on different slots lead to slots that show the same in either order. -/
theorem Tracks.view_comm (tracks : w.Tracks T) (differ : s ≠ t)
    (first : e₁.Requests p f₁ s) (uses₁ : f₁.uses = true)
    (second : e₂.Requests q f₂ t) (uses₂ : f₂.uses = true)
    (lawful₁ : w.Lawful e₁) (lawful₁₂ : (w.step e₁).Lawful e₂)
    (lawful₂ : w.Lawful e₂) (lawful₂₁ : (w.step e₂).Lawful e₁)
    (same₁ : ((w.step e₂).fs.step e₁).acts = (w.fs.step e₁).acts)
    (same₂ : ((w.step e₁).fs.step e₂).acts = (w.fs.step e₂).acts) :
    ((w.step e₂).step e₁).fs.view = ((w.step e₁).step e₂).fs.view := by
  obtain ⟨T₁, run₁, tracks₁⟩ := tracks.step lawful₁
  obtain ⟨T₁₂, run₁₂, tracks₁₂⟩ := tracks₁.step lawful₁₂
  obtain ⟨T₂, run₂, tracks₂⟩ := tracks.step lawful₂
  obtain ⟨T₂₁, run₂₁, tracks₂₁⟩ := tracks₂.step lawful₂₁
  rw [same₂] at run₁₂
  rw [same₁] at run₂₁
  have places₁ := Fs.places_of_requests (σ := w.fs) first uses₁
  have places₂ := Fs.places_of_requests (σ := w.fs) second uses₂
  have tables : T₂₁ = T₁₂ := by
    funext i
    have deeds : deedsAt i ((w.fs.step e₂).acts ++ (w.fs.step e₁).acts) =
        deedsAt i ((w.fs.step e₁).acts ++ (w.fs.step e₂).acts) := by
      rw [deedsAt_append, deedsAt_append]
      by_cases same : i = s
      · have nothing : deedsAt i (w.fs.step e₂).acts = [] := by
          apply deedsAt_eq_nil
          intro a mem here
          exact differ (same.symm.trans (here.symm.trans (places₂ a mem)))
        rw [nothing, List.append_nil, List.nil_append]
      · have nothing : deedsAt i (w.fs.step e₁).acts = [] := by
          apply deedsAt_eq_nil
          intro a mem here
          exact same (here.symm.trans (places₁ a mem))
        rw [nothing, List.append_nil, List.nil_append]
    rw [(run_deedsAt (run₂.trans run₂₁) i).eq_foldl, deeds,
      (run_deedsAt (run₁.trans run₁₂) i).eq_foldl]
  funext i
  rw [← tracks₂₁.shows i, tables, tracks₁₂.shows i]

end

/-- The same slots are live and show the same, and the names are the same. -/
structure SameSlots (w w' : World (Pools Int)) : Prop where
  live : ∀ i, 0 < (w'.fs.semArray i).refCount ↔ 0 < (w.fs.semArray i).refCount
  count : ∀ i, 0 < (w.fs.semArray i).refCount →
    (w'.fs.semArray i).semCount = (w.fs.semArray i).semCount
  unlinked : ∀ i, 0 < (w.fs.semArray i).refCount →
    (w'.fs.semArray i).unlinked = (w.fs.semArray i).unlinked
  permision : ∀ i, (w'.fs.semArray i).permision = (w.fs.semArray i).permision
  procs : ∀ i, 0 < (w.fs.semArray i).refCount → w'.fs.procs i = w.fs.procs i
  blocked : ∀ i, 0 < (w.fs.semArray i).refCount → w'.fs.blocked i = w.fs.blocked i
  names : w'.fs.semNameMap = w.fs.semNameMap

variable {w w' : World (Pools Int)} {es : List Event}

theorem sameSlots_of_view (view : w'.abs.fs.view = w.abs.fs.view)
    (settings : Fs.Settings w.abs.fs w'.abs.fs) : SameSlots w w' := by
  have live : ∀ i, 0 < (w'.fs.semArray i).refCount ↔ 0 < (w.fs.semArray i).refCount := by
    intro i
    have here := congrArg Option.isSome (congrFun view i)
    rw [Fs.view_isSome, Fs.view_isSome] at here
    exact decide_eq_decide.mp here
  have shown : ∀ i, 0 < (w.fs.semArray i).refCount → w'.abs.fs.shown i = w.abs.fs.shown i := by
    intro i here
    have same := congrFun view i
    rw [Fs.view_of_live (σ := w.abs.fs) here,
      Fs.view_of_live (σ := w'.abs.fs) ((live i).mpr here)] at same
    exact Option.some.inj same
  refine ⟨live, fun i here => congrArg View.count (shown i here),
    fun i here => congrArg View.unlinked (shown i here), settings.permision, fun i here => ?_,
    fun i here => ?_, settings.names⟩
  · rw [← members_abs, ← members_abs]
    exact congrArg View.members (shown i here)
  · rw [← waiters_abs, ← waiters_abs]
    exact congrArg View.waiters (shown i here)

/-- What both stores show has been answered alike. -/
theorem sameAnswer_of_abs {f : Funcion} (same : Fs.SameAnswer f w.abs.fs w'.abs.fs) :
    Fs.SameAnswer f w.fs w'.fs :=
  ⟨same.acts, same.receivers, same.dontReply, same.type, same.rta, same.handle, same.value,
    same.errno⟩

/-- In every state that a lawful run reaches, two requests on different live slots may be
served in either order, if this is lawful: they are answered alike, queue and wake the
same processes, and lead to the same slots and names. -/
theorem operations_commute (run : Run World.step Lawful boot es w) {p q : Int} {s t : SlotIx}
    (differ : s ≠ t) (liveS : 0 < (w.fs.semArray s).refCount)
    (liveT : 0 < (w.fs.semArray t).refCount) {e₁ e₂ : Event} {f₁ f₂ : Funcion}
    (first : e₁.Requests p f₁ s) (uses₁ : f₁.uses = true)
    (second : e₂.Requests q f₂ t) (uses₂ : f₂.uses = true)
    (lawful₁ : w.Lawful e₁) (lawful₁₂ : (w.step e₁).Lawful e₂)
    (lawful₂ : w.Lawful e₂) (lawful₂₁ : (w.step e₂).Lawful e₁) :
    SameSlots ((w.step e₁).step e₂) ((w.step e₂).step e₁) ∧
      Fs.SameAnswer f₁ (w.step e₁).fs ((w.step e₂).step e₁).fs ∧
      Fs.SameAnswer f₂ (w.step e₂).fs ((w.step e₁).step e₂).fs := by
  obtain ⟨simulated, T, tracks⟩ := exists_tracks_abs run
  have simulated₁ := step_simulated simulated e₁
  have simulated₂ := step_simulated simulated e₂
  have abs₁ : (w.step e₁).abs = w.abs.step e₁ := step_abs simulated e₁
  have abs₂ : (w.step e₂).abs = w.abs.step e₂ := step_abs simulated e₂
  have abs₁₂ : ((w.step e₁).step e₂).abs = (w.abs.step e₁).step e₂ := by
    rw [step_abs simulated₁, abs₁]
  have abs₂₁ : ((w.step e₂).step e₁).abs = (w.abs.step e₂).step e₁ := by
    rw [step_abs simulated₂, abs₂]
  have lawful₁ := lawful_abs simulated lawful₁
  have lawful₂ := lawful_abs simulated lawful₂
  have lawful₁₂ : (w.abs.step e₁).Lawful e₂ := abs₁ ▸ lawful_abs simulated₁ lawful₁₂
  have lawful₂₁ : (w.abs.step e₂).Lawful e₁ := abs₂ ▸ lawful_abs simulated₂ lawful₂₁
  -- neither request changes what the other one depends on
  have answer₁ : Fs.SameAnswer f₁ (w.abs.fs.step e₁) ((w.abs.step e₂).fs.step e₁) :=
    (tracks.alike lawful₂ second uses₂ differ liveS).step first uses₁
  have answer₂ : Fs.SameAnswer f₂ (w.abs.fs.step e₂) ((w.abs.step e₁).fs.step e₂) :=
    (tracks.alike lawful₁ first uses₁ differ.symm liveT).step second uses₂
  refine ⟨sameSlots_of_view ?_ ?_, sameAnswer_of_abs ?_, sameAnswer_of_abs ?_⟩
  · rw [abs₁₂, abs₂₁]
    exact tracks.view_comm differ first uses₁ second uses₂ lawful₁ lawful₁₂ lawful₂ lawful₂₁
      answer₁.acts answer₂.acts
  · rw [abs₁₂, abs₂₁]
    have settings₁₂ : Fs.Settings w.abs.fs ((w.abs.step e₁).step e₂).fs :=
      (Fs.settings_of_requests first uses₁).trans (Fs.settings_of_requests second uses₂)
    have settings₂₁ : Fs.Settings w.abs.fs ((w.abs.step e₂).step e₁).fs :=
      (Fs.settings_of_requests second uses₂).trans (Fs.settings_of_requests first uses₁)
    exact settings₁₂.symm.trans settings₂₁
  · rw [abs₁, abs₂₁]
    exact answer₁
  · rw [abs₂, abs₁₂]
    exact answer₂

/-- One process waits on a semaphore, and another one wakes a third one on a second
semaphore. -/
theorem operations_commute_of_wait_post :
    let es := [Client.call 5 (Client.semOpenRequest default ⟨[97], by simp⟩ 0o100 0 0),
      Client.call 6 (Client.semOpenRequest default ⟨[98], by simp⟩ 0o100 0 0),
      Client.call 7 (Client.semOpenRequest default ⟨[98], by simp⟩ 0 0 0),
      Client.call 7 (Client.semWaitRequest default 1)]
    let w := es.foldl World.step boot
    let wait := Client.call 5 (Client.semWaitRequest default 0)
    let post := Client.call 6 (Client.semPostRequest default 1)
    SameSlots ((w.step wait).step post) ((w.step post).step wait) ∧
      Fs.SameAnswer .semWait (w.step wait).fs ((w.step post).step wait).fs ∧
      Fs.SameAnswer .semPost (w.step post).fs ((w.step wait).step post).fs := by
  intro es w wait post
  have allowed : Allowed World.step Lawful boot es := by decide +kernel
  exact operations_commute allowed.run
    (s := 0) (t := 1) (by decide) (by decide +kernel) (by decide +kernel)
    ⟨_, _, rfl, rfl, by decide⟩ rfl ⟨_, _, rfl, rfl, by decide⟩ rfl (by decide +kernel)
    (by decide +kernel) (by decide +kernel) (by decide +kernel)

end World

end MinixSemaphore.Server
