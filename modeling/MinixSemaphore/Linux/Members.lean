import MinixSemaphore.Linux.Returns
import MinixSemaphore.Server.Labels

/-!
# Calls of members

What a call does to its semaphore tells which calls return in the same step: its own one,
unless its caller is queued, and that of the process which it wakes. A process that uses a
semaphore is not refused.
-/

namespace MinixSemaphore.Linux

open MinixSemaphore.Lists
open MinixSemaphore.Semaphore
open MinixSemaphore.Server
open MinixSemaphore.Store
open MinixSemaphore.Transition

namespace System

variable {s s' : System (Pools Int)} {w : World (Pools Int)} {T : SlotTable} {c : ConIx}
  {call : Call} {g : Garbage} {handle : BitVec 32} {i : SlotIx}

/-- Whoever uses a semaphore may use it. -/
theorem Paired.granted (paired : s.Paired w) (simulated : w.Simulated) (tracks : w.abs.Tracks T)
    {sem : Sem Int} (here : T i = some sem) (member : c.proc ∈ sem.members)
    (slot : Fs.slotAt handle.toInt = some i) :
    (s.serv.work c g).granted handle.toInt = some i := by
  obtain ⟨sem', here', -, members, -⟩ := World.exists_sem_abs tracks (tracks.live_of_sem here)
  obtain rfl : sem = sem' := Option.some.inj (here.symm.trans here')
  rw [members, ← World.members_abs] at member
  have granted : ((w.abs.fs.setErrno (-(g.errno : Int))).getWork c.proc).granted handle.toInt =
      some i := Fs.granted_iff.mpr ⟨slot, member⟩
  have sim : Fs.Sim w.fs w.abs.fs := simulated
  rw [((sim.setErrno _).getWork c.proc).granted] at granted
  have same : (s.serv.work c g).quiet.granted handle.toInt =
      ((w.fs.setErrno (-(g.errno : Int))).getWork c.proc).quiet.granted handle.toInt := by
    rw [Serv.work, paired.mirrors.getWork]
  exact same.trans granted

namespace Returned

/-- The file system does what the server has done. -/
theorem acts (returned : s.Returned s' c call g) (paired : s.Paired w) (short : call.pedido.Short) :
    ((w.setErrno (-(g.errno : Int))).fs.step
      (.semaph c.proc call.pedido.message g.toGarbage)).acts = s'.serv.fs.acts := by
  have quiet := paired.mirrors.perform c g short
  rw [← returned.fs] at quiet
  exact (congrArg Fs.acts quiet).symm

/-! ## Who returns -/

theorem recorded (returned : s.Returned s' c call g) (short : call.pedido.Short) :
    s'.serv.fs.sent = s'.serv.fs.acts.flatMap (Fs.wakeReply s.serv.fs.m1) ∧
      s'.serv.fs.dontReply = Fs.Suppressed s'.serv.fs.acts := by
  obtain ⟨done, recorded, -⟩ := perform_recorded (s.serv.work c g) g short
  rw [← returned.fs] at recorded
  obtain rfl : s'.serv.fs.acts = done := recorded.acts
  exact ⟨recorded.sent, recorded.dontReply⟩

theorem of_queued (returned : s.Returned s' c call g) (short : call.pedido.Short) {p : Int}
    (acts : s'.serv.fs.acts = [⟨i, .queued p⟩]) : s'.returns = [] := by
  obtain ⟨sent, dontReply⟩ := returned.recorded short
  obtain ⟨woken, -, told, returns⟩ := returned.returns
  rw [acts] at sent dontReply
  rw [sent] at told
  have queues : s'.serv.fs.dontReply = true := dontReply
  rw [returns, List.map_eq_nil_iff.mp told, if_pos queues]
  rfl

/-- If nobody is queued or woken, the caller returns. -/
theorem of_quiet (returned : s.Returned s' c call g) (short : call.pedido.Short)
    (noQueue : ∀ a ∈ s'.serv.fs.acts, ∀ p, a.deed ≠ .queued p)
    (noWake : ∀ a ∈ s'.serv.fs.acts, ∀ p, ¬a.Wakes p) :
    s'.returns = [(c, call, (perform (s.serv.work c g) g call.pedido).result)] := by
  obtain ⟨sent, dontReply⟩ := returned.recorded short
  obtain ⟨woken, -, told, returns⟩ := returned.returns
  rw [flatMap_wakeReply noWake] at sent
  rw [not_suppressed noQueue] at dontReply
  rw [sent] at told
  rw [returns, List.map_eq_nil_iff.mp told, if_neg (by simp [dontReply])]
  rfl

theorem of_woken (returned : s.Returned s' c call g) (short : call.pedido.Short) {p q : Int}
    (acts : s'.serv.fs.acts = [⟨i, .posted p (some q)⟩]) :
    ∃ x, x.1.proc = q ∧ s.Woken call x ∧ s'.returns =
      [x, (c, call, (perform (s.serv.work c g) g call.pedido).result)] := by
  obtain ⟨sent, dontReply⟩ := returned.recorded short
  obtain ⟨woken, all, told, returns⟩ := returned.returns
  rw [acts] at sent dontReply
  rw [sent] at told
  obtain ⟨x, rfl, same⟩ := List.map_eq_singleton_iff.mp told
  have replies : ¬s'.serv.fs.dontReply = true := by
    rw [dontReply]
    exact Bool.false_ne_true
  refine ⟨x, same, all x (List.mem_singleton_self x), ?_⟩
  rw [returns, if_neg replies]
  rfl

/-! ## Calls -/

/-- A member that waits is queued, or passes and returns. -/
theorem semWait (returned : s.Returned s' c (.semWait handle) g)
    (granted : (s.serv.work c g).granted handle.toInt = some i) :
    s'.serv.fs.acts = [⟨i, .queued c.proc⟩] ∧ s'.returns = [] ∨
      s'.serv.fs.acts = [⟨i, .passed c.proc⟩] ∧
        ∃ result, s'.returns = [(c, .semWait handle, result)] := by
  have same : s'.serv.fs = ((s.serv.work c g).semWait handle.toInt).1 := returned.fs
  have ends := (s.serv.work c g).semWait_ends handle.toInt
  generalize (s.serv.work c g).semWait handle.toInt = result at ends same
  cases ends with
  | refused refused =>
      rw [refused] at granted
      contradiction
  | queued granted' =>
      obtain rfl := Option.some.inj (granted'.symm.trans granted)
      have acts : s'.serv.fs.acts = [⟨_, .queued c.proc⟩] := congrArg Fs.acts same
      exact Or.inl ⟨acts, returned.of_queued trivial acts⟩
  | passed granted' =>
      obtain rfl := Option.some.inj (granted'.symm.trans granted)
      have acts : s'.serv.fs.acts = [⟨_, .passed c.proc⟩] := congrArg Fs.acts same
      exact Or.inr ⟨acts, _, returned.of_quiet trivial (by simp [acts])
        (by simp [acts, Action.Wakes])⟩

/-- A member that posts returns, and if it wakes a process, then that one returns before. -/
theorem semPost (returned : s.Returned s' c (.semPost handle) g)
    (granted : (s.serv.work c g).granted handle.toInt = some i) :
    s'.serv.fs.acts = [⟨i, .posted c.proc none⟩] ∧
        (∃ result, s'.returns = [(c, .semPost handle, result)]) ∨
      ∃ x, s'.serv.fs.acts = [⟨i, .posted c.proc (some x.1.proc)⟩] ∧
        s.Woken (.semPost handle) x ∧
          ∃ result, s'.returns = [x, (c, .semPost handle, result)] := by
  have same : s'.serv.fs = (s.serv.work c g).semPost handle.toInt g.proc := returned.fs
  have ends := (s.serv.work c g).semPost_ends handle.toInt g.proc
  generalize (s.serv.work c g).semPost handle.toInt g.proc = result at ends same
  cases ends with
  | refused refused =>
      rw [refused] at granted
      contradiction
  | counted granted' =>
      obtain rfl := Option.some.inj (granted'.symm.trans granted)
      have acts : s'.serv.fs.acts = [⟨_, .posted c.proc none⟩] := congrArg Fs.acts same
      exact Or.inl ⟨acts, _, returned.of_quiet trivial (by simp [acts])
        (by simp [acts, Action.Wakes])⟩
  | @woken _ first granted' _ took =>
      obtain rfl := Option.some.inj (granted'.symm.trans granted)
      subst took
      have acts : s'.serv.fs.acts = [⟨_, .posted c.proc (some _)⟩] := congrArg Fs.acts same
      obtain ⟨x, told, woken, returns⟩ := returned.of_woken trivial acts
      rw [← told] at acts
      exact Or.inr ⟨x, acts, woken, _, returns⟩

theorem semClose (returned : s.Returned s' c (.semClose handle) g)
    (granted : (s.serv.work c g).granted handle.toInt = some i) :
    s'.serv.fs.acts = [⟨i, .closed c.proc⟩] ∧
      ∃ result, s'.returns = [(c, .semClose handle, result)] := by
  have same : s'.serv.fs = ((s.serv.work c g).semClose handle.toInt).1 := returned.fs
  have ends := (s.serv.work c g).semClose_ends handle.toInt
  have acts : s'.serv.fs.acts = [⟨i, .closed c.proc⟩] := by
    generalize (s.serv.work c g).semClose handle.toInt = result at ends same
    cases ends with
    | refused refused =>
        rw [refused] at granted
        contradiction
    | last granted' | left granted' =>
        obtain rfl := Option.some.inj (granted'.symm.trans granted)
        exact congrArg Fs.acts same
  exact ⟨acts, _, returned.of_quiet trivial (by simp [acts]) (by simp [acts, Action.Wakes])⟩

theorem semUnlink {name : CString} (returned : s.Returned s' c (.semUnlink name) g)
    (short : name.length < 128) :
    (s'.serv.fs.acts = [] ∨ ∃ i, s'.serv.fs.acts = [⟨i, .unlinked c.proc⟩]) ∧
      ∃ result, s'.returns = [(c, .semUnlink name, result)] := by
  have same : s'.serv.fs = ((s.serv.work c g).semUnlink name).1 := returned.fs
  have ends := (s.serv.work c g).semUnlink_ends name
  have acts : s'.serv.fs.acts = [] ∨ ∃ i, s'.serv.fs.acts = [⟨i, .unlinked c.proc⟩] := by
    generalize (s.serv.work c g).semUnlink name = result at ends same
    cases ends with
    | tooLong | absent | stranger | unused => exact Or.inl (congrArg Fs.acts same)
    | unlinked => exact Or.inr ⟨_, congrArg Fs.acts same⟩
  refine ⟨acts, _, returned.of_quiet short ?_ ?_⟩ <;>
    rcases acts with acts | ⟨i, acts⟩ <;> simp [acts, Action.Wakes]

/-- Whoever opens a semaphore returns, with -1 or with the slot that was found under the name
or created. -/
theorem semOpen {nombre : CString} {oflags mode value : BitVec 32}
    (returned : s.Returned s' c (.semOpen nombre oflags mode value) g)
    (short : nombre.length < 128) (creates : oflags &&& oCreat ≠ 0) :
    (s'.serv.fs.acts = [] ∧ ∃ result : Call.Result, result.rta = -1 ∧
        s'.returns = [(c, .semOpen nombre oflags mode value, result)]) ∨
      ∃ i : SlotIx, (s.serv.fs.semNameMap.hashTableFind nombre = some i ∧
          s'.serv.fs.acts = [⟨i, .opened c.proc⟩] ∨
        ∃ entry, s'.serv.fs.acts = [⟨i, .created c.proc value.toNat (some entry)⟩]) ∧
        ∃ result : Call.Result, result.rta = BitVec.ofInt 32 (i : Nat) ∧
          s'.returns = [(c, .semOpen nombre oflags mode value, result)] := by
  have asked : (Call.semOpen nombre oflags mode value).pedido =
      .semOpen nombre oflags (some (mode, value)) := by
    rw [Call.pedido, if_pos creates]
  have same : s'.serv.fs =
      ((s.serv.work c g).semOpen nombre oflags mode.toInt value).1 := by
    rw [returned.fs, asked]
    rfl
  have answer : (perform (s.serv.work c g) g
      (Call.semOpen nombre oflags mode value).pedido).result.rta = BitVec.ofInt 32
        (((s.serv.work c g).semOpen nombre oflags mode.toInt value).2.elim (-1)
          fun i => (i : Nat)) := by
    rw [asked]
    rfl
  cases result : ((s.serv.work c g).semOpen nombre oflags mode.toInt value).2 with
  | none =>
      have acts : s'.serv.fs.acts = [] := (congrArg Fs.acts same).trans
        (Fs.semOpen_failed (σ := s.serv.work c g) result).acts
      rw [result] at answer
      exact Or.inl ⟨acts, _, answer, returned.of_quiet short (by simp [acts]) (by simp [acts])⟩
  | some i =>
      have made := Fs.semOpen_made result
      rw [← same] at made
      rw [result] at answer
      have made := made.imp_right And.right
      refine Or.inr ⟨i, made, _, answer, returned.of_quiet short ?_ ?_⟩ <;>
        rcases made with ⟨-, acts⟩ | ⟨entry, acts⟩ <;> rw [acts] <;>
          simp [Serv.work, Fs.getWork, Action.Wakes]

end Returned

end System

end MinixSemaphore.Linux
