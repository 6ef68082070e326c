import MinixSemaphore.Client.Library
import MinixSemaphore.Server.World

/-!
# Blocked processes and their answers

A process is blocked while its request is not answered. In an orderly run, where
blocked processes do nothing, the blocked processes are those in the lists
`blocked_list` of the slots they asked to wait on, and each is answered once, by a
post on that slot.
-/

namespace MinixSemaphore.Server

open MinixSemaphore.Lists
open MinixSemaphore.Names
open MinixSemaphore.Semaphore
open MinixSemaphore.Store
open MinixSemaphore.Transition

universe u

namespace World

/-- The request was a wait on a slot, and a later post on this slot has answered it
with success. -/
def AnsweredByPost {P : Type u} (w : World P) (a : Answer Reply) : Prop :=
  a.request < a.round ∧ a.content.type = ok ∧ a.content.rta = 0 ∧
    ∃ e e' p q i, w.events[a.request]? = some e ∧ e.Requests p .semWait i ∧
      w.events[a.round]? = some e' ∧ e'.Requests q .semPost i

/-- Lawful, and blocked processes do nothing. -/
def Orderly {P : Type u} [ListLib P Int] (w : World P) (e : Event) : Prop :=
  w.Lawful e ∧ w.Patient e

instance {P : Type u} [ListLib P Int] (w : World P) (e : Event) : Decidable (w.Orderly e) :=
  inferInstanceAs (Decidable (_ ∧ _))

variable {w : World (SeqStore Int)} {e : Event} {T T' : SlotTable}

/-- The processes that wait for an answer are those that wait in the table, on the
slot they have asked for. -/
structure Linked (w : World (SeqStore Int)) (T : SlotTable) : Prop where
  settled : T.Settled
  sound : w.calls.Sound
  count : w.calls.asked = w.events.length
  pending : ∀ p n, w.calls.pending p = some n →
    ∃ e i, w.events[n]? = some e ∧ e.Requests p .semWait i ∧ T.Waits p i
  waits : ∀ p i, T.Waits p i → w.calls.pending p ≠ none
  answers : ∀ a ∈ w.calls.answers, a.round = a.request ∨ w.AnsweredByPost a

theorem start_linked : (start SeqStore.empty).Linked fun _ => none where
  settled := Table.settled_empty
  sound := Calls.start_sound
  count := rfl
  pending _ _ waits := nomatch waits
  waits _ _ := fun ⟨_, here, _⟩ => nomatch here
  answers _ mem := absurd mem List.not_mem_nil

theorem step_events {n : Nat} {e' : Event} (event : w.events[n]? = some e') :
    (w.step e).events[n]? = some e' := by
  rw [World.step, List.getElem?_append_left (List.getElem?_eq_some_iff.mp event).1]
  exact event

/-- What has been answered stays answered. -/
theorem AnsweredByPost.step {a : Answer Reply} (answered : w.AnsweredByPost a) :
    (w.step e).AnsweredByPost a :=
  let ⟨later, type, rta, e₁, e₂, p, q, i, wait, requests₁, post, requests₂⟩ := answered
  ⟨later, type, rta, e₁, e₂, p, q, i, step_events wait, requests₁, step_events post, requests₂⟩

/-- A round that answers its own request, and queues and wakes nobody. -/
theorem Linked.answer (linked : w.Linked T) (free : w.calls.pending e.source = none)
    (settled : T'.Settled) (same : ∀ p x, T'.Waits p x ↔ T.Waits p x) {reply : Reply}
    (sent : (w.fs.step e).sent = [(e.source, reply)]) : (w.step e).Linked T' := by
  have calls : (w.step e).calls =
      (w.calls.ask e.source).deliver w.events.length (e.source, reply) := by
    rw [World.step, sent]
    rfl
  have pending : (w.step e).calls.pending = w.calls.pending := by
    rw [calls, Calls.ask_deliver_pending free]
  refine ⟨settled, ?_, ?_, fun p n waits => ?_, fun p i waits => ?_, fun a mem => ?_⟩
  · rw [calls]
    exact linked.sound.ask_deliver free _ _
  · rw [calls, Calls.deliver_asked]
    simp [Calls.ask, World.step, linked.count]
  · rw [pending] at waits
    obtain ⟨e', i, event, requests, here⟩ := linked.pending p n waits
    exact ⟨e', i, step_events event, requests, (same p i).mpr here⟩
  · rw [pending]
    exact linked.waits p i ((same p i).mp waits)
  · rw [calls, Calls.ask_deliver_answers] at mem
    rcases List.mem_append.mp mem with mem | mem
    · exact (linked.answers a mem).imp_right fun answered => answered.step
    · rw [List.mem_singleton.mp mem]
      exact Or.inl linked.count.symm

/-- A round that queues its caller and sends nothing. -/
theorem Linked.queue (linked : w.Linked T) {p : Int} {i : SlotIx}
    (free : w.calls.pending p = none) (source : e.source = p) (requests : e.Requests p .semWait i)
    (settled : T'.Settled) (same : ∀ q x, T'.Waits q x ↔ T.Waits q x ∨ q = p ∧ x = i)
    (sent : (w.fs.step e).sent = []) : (w.step e).Linked T' := by
  have calls : (w.step e).calls = w.calls.ask p := by
    rw [World.step, sent, source]
    rfl
  refine ⟨settled, ?_, ?_, fun q n waits => ?_, fun q x waits => ?_, fun a mem => ?_⟩
  · rw [calls]
    exact linked.sound.ask free
  · rw [calls]
    simp [Calls.ask, World.step, linked.count]
  · rw [calls, Calls.ask_pending] at waits
    by_cases caller : q = p
    · rw [caller, Function.update_self, linked.count] at waits
      refine ⟨e, i, ?_, caller ▸ requests, (same q i).mpr (Or.inr ⟨caller, rfl⟩)⟩
      rw [← Option.some.inj waits]
      simp [World.step]
    · rw [Function.update_of_ne caller] at waits
      obtain ⟨e', x, event, requests', here⟩ := linked.pending q n waits
      exact ⟨e', x, step_events event, requests', (same q x).mpr (Or.inl here)⟩
  · rw [calls, Calls.ask_pending]
    by_cases caller : q = p
    · simp [caller]
    · rw [Function.update_of_ne caller]
      rcases (same q x).mp waits with before | ⟨new, -⟩
      · exact linked.waits q x before
      · exact absurd new caller
  · rw [calls] at mem
    exact (linked.answers a mem).imp_right fun answered => answered.step

/-- A round that answers a process that waits, and then its own request. -/
theorem Linked.wake (linked : w.Linked T) {p q : Int} {i : SlotIx}
    (free : w.calls.pending p = none) (source : e.source = p) (requests : e.Requests p .semPost i)
    (waiting : T.Waits q i) (settled : T'.Settled)
    (same : ∀ r x, T'.Waits r x ↔ T.Waits r x ∧ r ≠ q) {first second : Reply}
    (type : first.type = ok) (rta : first.rta = 0)
    (sent : (w.fs.step e).sent = [(q, first), (p, second)]) : (w.step e).Linked T' := by
  have other : q ≠ p := fun same => linked.waits q i waiting (same ▸ free)
  obtain ⟨n, pendingQ⟩ := Option.ne_none_iff_exists'.mp (linked.waits q i waiting)
  obtain ⟨e', x, event, requests', here⟩ := linked.pending q n pendingQ
  obtain rfl : x = i := linked.settled.only q x i here waiting
  have calls : (w.step e).calls = ((w.calls.ask p).deliver w.events.length (q, first)).deliver
      w.events.length (p, second) := by
    rw [World.step, sent, source]
    rfl
  have asks : (w.calls.ask p).pending q = some n := by
    rw [Calls.ask_pending, Function.update_of_ne other]
    exact pendingQ
  have asks' : ((w.calls.ask p).deliver w.events.length (q, first)).pending p =
      some w.calls.asked := by
    rw [Calls.deliver_pending, Function.update_of_ne (Ne.symm other), Calls.ask_pending,
      Function.update_self]
  have pending : (w.step e).calls.pending = Function.update w.calls.pending q none := by
    rw [calls, Calls.deliver_pending, Calls.deliver_pending, Calls.ask_pending]
    funext r
    by_cases caller : r = p
    · simp [caller, Ne.symm other, free]
    · by_cases woken : r = q <;> simp [caller, woken, other]
  refine ⟨settled, ?_, ?_, fun r k waits => ?_, fun r y waits => ?_, fun a mem => ?_⟩
  · rw [calls]
    exact ((linked.sound.ask free).deliver asks).deliver asks'
  · rw [calls, Calls.deliver_asked, Calls.deliver_asked]
    simp [Calls.ask, World.step, linked.count]
  · rw [pending] at waits
    have woken : r ≠ q := fun woken => by simp [woken] at waits
    rw [Function.update_of_ne woken] at waits
    obtain ⟨e'', y, event', requests'', here'⟩ := linked.pending r k waits
    exact ⟨e'', y, step_events event', requests'', (same r y).mpr ⟨here', woken⟩⟩
  · obtain ⟨before, woken⟩ := (same r y).mp waits
    rw [pending, Function.update_of_ne woken]
    exact linked.waits r y before
  · rw [calls, Calls.deliver_answers asks', Calls.deliver_answers asks] at mem
    rcases List.mem_append.mp mem with mem | mem
    · rcases List.mem_append.mp mem with mem | mem
      · exact (linked.answers a mem).imp_right fun answered => answered.step
      · rw [List.mem_singleton.mp mem]
        refine Or.inr ⟨?_, type, rta, e', e, q, p, x, step_events event, requests', ?_, requests⟩
        · exact linked.count ▸ linked.sound.bound q n pendingQ
        · simp [World.step]
    · rw [List.mem_singleton.mp mem]
      exact Or.inl linked.count.symm

/-- In an orderly step the callers of closes and waits are not waiting. -/
theorem Linked.not_waiting (linked : w.Linked T) (patient : w.Patient e) {p : Int}
    (active : p = e.source ∨ e.leaver = some p) (x : SlotIx) : ¬T.Waits p x := by
  intro waits
  rcases active with rfl | leaves
  · exact linked.waits _ x waits patient.1
  · exact linked.waits p x waits (patient.2 p leaves)

/-- An orderly step keeps the link. A process that waits goes on waiting on the same
semaphore, or is sent a reply. -/
theorem Linked.step (linked : w.Linked T) (tracks : w.Tracks T) (orderly : w.Orderly e) :
    ∃ T', (w.step e).Tracks T' ∧ (w.step e).Linked T' ∧
      ∀ q x, T.Waits q x → (∃ s, T' x = some s) ∧
        (T'.Waits q x ∨ ∃ reply, (q, reply) ∈ (w.fs.step e).sent) := by
  obtain ⟨lawful, patient⟩ := orderly
  obtain ⟨T', run, tracks'⟩ := tracks.step lawful
  refine ⟨T', tracks', ?_⟩
  obtain ⟨asks, sent⟩ := Fs.step_recorded w.fs e
  have single : ∀ a, (w.fs.step e).acts = [a] → T.Enabled a ∧ T' = T.step a := by
    intro a acts
    rw [acts] at run
    exact Run.singleton run
  rcases Fs.asks_cases asks with ⟨p, i, source, requests, acts⟩ |
    ⟨p, q, i, source, requests, acts⟩ | ⟨noQueue, noWake, leaves⟩
  · obtain ⟨enabled, rfl⟩ := single _ acts
    have awake := linked.not_waiting patient (Or.inl source.symm)
    have calm : T.Patient (⟨i, .queued p⟩ : Act) := by
      rintro r (queues | closes)
      · cases queues
        exact awake
      · contradiction
    have same : ∀ r x, (T.step (⟨i, .queued p⟩ : Act)).Waits r x ↔
        T.Waits r x ∨ r = p ∧ x = i := by
      intro r x
      rw [Table.waits_step_iff linked.settled enabled calm]
      simp only [Action.Wakes, reduceCtorEq, exists_false, not_false_eq_true, and_true,
        Semaphore.Action.mk.injEq, Deed.queued.injEq]
      refine or_congr_right (and_comm.trans (and_congr ?_ ?_)) <;> exact eq_comm
    refine ⟨linked.queue (source ▸ patient.1) source requests
      (linked.settled.step enabled calm) same ?_, fun r x waits => ?_⟩
    · rw [sent, acts]
      rfl
    · exact ⟨linked.settled.stays enabled calm waits, Or.inl ((same r x).mpr (Or.inl waits))⟩
  · obtain ⟨enabled, rfl⟩ := single _ acts
    have calm : T.Patient (⟨i, .posted p (some q)⟩ : Act) := by
      rintro r (queues | closes) <;> contradiction
    have waiting : T.Waits q i := by
      obtain ⟨s, here, -, woken⟩ := Sem.exists_of_enabled enabled fun _ _ _ => by simp
      split at woken
      · exact ⟨s, here, List.mem_of_head? woken.symm⟩
      · contradiction
    have same : ∀ r x, (T.step (⟨i, .posted p (some q)⟩ : Act)).Waits r x ↔
        T.Waits r x ∧ r ≠ q := by
      intro r x
      rw [Table.waits_step_iff linked.settled enabled calm]
      simp only [Action.Wakes, Deed.posted.injEq, exists_eq_left', Option.some.injEq,
        Semaphore.Action.mk.injEq, reduceCtorEq, and_false, or_false]
      exact and_congr_right fun _ => not_congr eq_comm
    have replies : (w.fs.step e).sent =
        [(q, { w.fs.m1 with type := ok, rta := 0 }), (p, (w.fs.step e).m1)] := by
      rw [sent, acts, ← source]
      rfl
    refine ⟨linked.wake (source ▸ patient.1) source requests waiting
      (linked.settled.step enabled calm) same rfl rfl replies, fun r x waits => ?_⟩
    refine ⟨linked.settled.stays enabled calm waits, ?_⟩
    by_cases woken : r = q
    · exact Or.inr ⟨_, by rw [woken, replies]; exact List.mem_cons_self⟩
    · exact Or.inl ((same r x).mpr ⟨waits, woken⟩)
  · obtain ⟨settled, same⟩ := linked.settled.of_run run noQueue noWake fun a mem p closes =>
      linked.not_waiting patient (leaves a mem p closes)
    refine ⟨linked.answer patient.1 settled same (Fs.step_sent_of_quiet noQueue noWake),
      fun r x waits => ?_⟩
    obtain ⟨s, here, waiter⟩ := (same r x).mpr waits
    exact ⟨⟨s, here⟩, Or.inl ⟨s, here, waiter⟩⟩

/-- An orderly run is tracked by a table that knows who waits. -/
theorem exists_linked {es : List Event}
    (run : Run World.step Orderly (start SeqStore.empty) es w) : ∃ T, w.Tracks T ∧ w.Linked T :=
  run.invariant (I := fun w => ∃ T, w.Tracks T ∧ w.Linked T) ⟨_, start_tracks, start_linked⟩
    fun _ _ ⟨_, tracks, linked⟩ orderly =>
      let ⟨T', tracks', linked', _⟩ := linked.step tracks orderly
      ⟨T', tracks', linked'⟩

end World

/-! ## Runs of the program -/

namespace World

variable {w : World (Pools Int)} {es : List Event} {T : SlotTable}

theorem orderly_abs {e : Event} (simulated : w.Simulated) (orderly : w.Orderly e) :
    w.abs.Orderly e :=
  ⟨lawful_abs simulated orderly.1, orderly.2⟩

theorem exists_linked_abs (run : Run World.step Orderly boot es w) :
    w.Simulated ∧ ∃ T, w.abs.Tracks T ∧ w.abs.Linked T := by
  obtain ⟨simulated, run'⟩ := run_abs run fun _ _ => orderly_abs
  exact ⟨simulated, exists_linked run'⟩

/-- The lists `blocked_list` hold exactly the processes that wait in the table. -/
theorem waits_iff_blocked (tracks : w.abs.Tracks T) (p : Int) (i : SlotIx) :
    T.Waits p i ↔ p ∈ w.fs.blocked i := by
  constructor
  · rintro ⟨s, here, waiter⟩
    obtain ⟨s', here', -, -, waiters, -⟩ := exists_sem_abs tracks (tracks.live_of_sem here)
    obtain rfl : s = s' := Option.some.inj (here.symm.trans here')
    exact waiters ▸ waiter
  · intro blocked
    have live : 0 < (w.fs.semArray i).refCount := by
      refine lt_of_le_of_ne (tracks.owned.counted i) fun idle => ?_
      rw [← waiters_abs, (tracks.owned.idle i idle.symm).2] at blocked
      exact absurd blocked List.not_mem_nil
    obtain ⟨s, here, -, -, waiters, -⟩ := exists_sem_abs tracks live
    exact ⟨s, here, waiters.symm ▸ blocked⟩

/-- In every state that an orderly run reaches, the blocked processes are those in the
lists `blocked_list`. Each is in one list once, the slot of this list is live, and the
process is in its list `proc_list`. No event releases the slot, and none takes the
process out of the list without sending it a reply. -/
theorem blocked_process (run : Run World.step Orderly boot es w) :
    (∀ p, w.calls.pending p ≠ none ↔ ∃ i, p ∈ w.fs.blocked i) ∧
    (∀ p, w.calls.pending p ≠ none →
      ((List.finRange initialSem).flatMap w.fs.blocked).count p = 1) ∧
    (∀ p i, p ∈ w.fs.blocked i → 0 < (w.fs.semArray i).refCount ∧ p ∈ w.fs.procs i) ∧
    ∀ e, w.Orderly e → ∀ p i, p ∈ w.fs.blocked i →
      0 < ((w.step e).fs.semArray i).refCount ∧
        (p ∈ (w.step e).fs.blocked i ∨ ∃ reply, (p, reply) ∈ (w.fs.step e).sent) := by
  obtain ⟨simulated, T, tracks, linked⟩ := exists_linked_abs run
  have blockedIff := waits_iff_blocked tracks
  have pendingIff : ∀ p, w.calls.pending p ≠ none ↔ ∃ i, p ∈ w.fs.blocked i := by
    intro p
    constructor
    · intro waits
      obtain ⟨n, pending⟩ := Option.ne_none_iff_exists'.mp waits
      obtain ⟨-, i, -, -, here⟩ := linked.pending p n pending
      exact ⟨i, (blockedIff p i).mp here⟩
    · rintro ⟨i, blocked⟩
      exact linked.waits p i ((blockedIff p i).mpr blocked)
  have inTable : ∀ p i, p ∈ w.fs.blocked i → ∃ s, T i = some s ∧ s.waiters = w.fs.blocked i ∧
      p ∈ s.waiters ∧ s.members = w.fs.procs i ∧ 0 < (w.fs.semArray i).refCount := by
    intro p i blocked
    obtain ⟨s, here, waiter⟩ := (blockedIff p i).mpr blocked
    have live : 0 < (w.fs.semArray i).refCount := tracks.live_of_sem here
    obtain ⟨s', here', -, members, waiters, -⟩ := exists_sem_abs tracks live
    obtain rfl : s = s' := Option.some.inj (here.symm.trans here')
    exact ⟨s, here, waiters, waiter, members, live⟩
  have nodup : ((List.finRange initialSem).flatMap w.fs.blocked).Nodup := by
    refine List.nodup_flatMap.mpr ⟨fun i _ => ?_, ?_⟩
    · rcases List.eq_nil_or_concat (w.fs.blocked i) with empty | ⟨_, p, split⟩
      · simp [empty]
      · obtain ⟨s, here, waiters, -⟩ := inTable p i (by simp [split])
        exact waiters ▸ linked.settled.once i s here
    · refine (List.nodup_finRange initialSem).imp fun {i j} differ p first second => differ ?_
      exact linked.settled.only p i j ((blockedIff p i).mpr first) ((blockedIff p j).mpr second)
  refine ⟨pendingIff, fun p waits => ?_, fun p i blocked => ?_, fun e orderly p i blocked => ?_⟩
  · obtain ⟨i, blocked⟩ := (pendingIff p).mp waits
    exact List.count_eq_one_of_mem nodup
      (List.mem_flatMap.mpr ⟨i, List.mem_finRange i, blocked⟩)
  · obtain ⟨s, here, -, waiter, members, live⟩ := inTable p i blocked
    exact ⟨live, members ▸ linked.settled.member i s here p waiter⟩
  · obtain ⟨T', tracks', -, stays⟩ := linked.step tracks (orderly_abs simulated orderly)
    rw [← step_abs simulated] at tracks'
    obtain ⟨⟨s, here⟩, goes⟩ := stays p i ((blockedIff p i).mpr blocked)
    refine ⟨tracks'.live_of_sem here, goes.imp (waits_iff_blocked tracks' p i).mp fun replied => ?_⟩
    rwa [step_fs_abs simulated] at replied

/-- A process waits, and its child exits. -/
theorem blocked_process_of_exit :
    let es := [Client.call 5 (Client.semOpenRequest default ⟨[97], by simp⟩ 0o100 0 0),
      .fork 5 6, Client.call 5 (Client.semWaitRequest default 0)]
    let w := es.foldl World.step boot
    ((List.finRange initialSem).flatMap w.fs.blocked).count 5 = 1 ∧ 5 ∈ w.fs.procs 0 ∧
      0 < ((w.step (.exit 6)).fs.semArray 0).refCount := by
  intro es w
  have allowed : Allowed World.step Orderly boot es := by decide +kernel
  obtain ⟨pending, once, member, stays⟩ := blocked_process allowed.run
  exact ⟨once 5 (by decide +kernel), (member 5 0 (by decide +kernel)).2,
    (stays (.exit 6) (by decide +kernel) 5 0 (by decide +kernel)).1⟩

end World

end MinixSemaphore.Server
