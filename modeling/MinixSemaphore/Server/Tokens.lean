import MinixSemaphore.Server.Blocking

/-!
# Counts, waiters and tokens

In a lawful run the count of a semaphore tells how many processes wait on it, and
the tokens that have been handed out are those that were put in.
-/

namespace MinixSemaphore.Server

open MinixSemaphore.Lists
open MinixSemaphore.Names
open MinixSemaphore.Semaphore
open MinixSemaphore.Store
open MinixSemaphore.Transition

namespace World

variable {w : World (Pools Int)} {es : List Event}

/-- A negative count has a first waiter, and `sem_post` takes this process out of the
list whatever its variable holds. -/
theorem takeFirst_eq (simulated : w.Simulated) {T : SlotTable} (tracks : w.abs.Tracks T)
    {p handle : Int} {i : SlotIx} (granted : (w.fs.getWork p).granted handle = some i)
    (negative : (w.fs.semArray i).semCount < 0) :
    ∃ q rest, w.fs.blocked i = q :: rest ∧
      ∀ proc, (w.fs.takeFirst (w.fs.semArray i).blockedList proc).2 = q := by
  obtain ⟨-, live⟩ := granted_abs simulated tracks.owned granted
  obtain ⟨s, -, count, -, waiters, -⟩ := exists_sem_abs tracks live
  obtain ⟨q, rest, first⟩ := Sem.exists_waiter (s := s) (count ▸ negative)
  have blocked : w.fs.blocked i = q :: rest := waiters.symm.trans first
  refine ⟨q, rest, blocked, fun proc => ?_⟩
  have head := (Pools.getElement_toBegin_refines simulated.wellFormed
    (w.fs.semArray i).blockedList).2
  rw [← Fs.blocked, blocked] at head
  exact congrArg (fun found => Option.getD found proc) head

/-- In every state that a lawful run reaches, as many processes wait on a live
semaphore as its count is below zero. So a post on a negative count finds a waiter and
does not depend on its unset variable, and a negative value that `sem_getvalue`
reports tells how many processes wait. -/
theorem blocked_length_eq (run : Run World.step Lawful boot es w) :
    (∀ i, 0 < (w.fs.semArray i).refCount →
      ((w.fs.blocked i).length : Int) = max 0 (-(w.fs.semArray i).semCount)) ∧
    (∀ p handle i, (w.fs.getWork p).granted handle = some i → (w.fs.semArray i).semCount < 0 →
      ListLib.listIsEmpty w.fs.pools (w.fs.semArray i).blockedList = false ∧
        ∃ q rest, w.fs.blocked i = q :: rest ∧
          ∀ proc, (w.fs.takeFirst (w.fs.semArray i).blockedList proc).2 = q) ∧
    (∀ p handle proc proc',
      (w.fs.getWork p).semPost handle proc = (w.fs.getWork p).semPost handle proc') ∧
    ∀ p handle value, ((w.fs.getWork p).semGetvalue handle).2.2 = some value → value < 0 →
      ∃ i, Fs.slotAt handle = some i ∧ value.natAbs = (w.fs.blocked i).length := by
  obtain ⟨simulated, T, tracks⟩ := exists_tracks_abs run
  have lengths : ∀ i, 0 < (w.fs.semArray i).refCount →
      (w.fs.blocked i).length = (-(w.fs.semArray i).semCount).toNat := by
    intro i live
    obtain ⟨s, -, count, -, waiters, -⟩ := exists_sem_abs tracks live
    rw [← waiters, ← count]
    exact s.balance
  refine ⟨fun i live => ?_, fun p handle i granted negative => ?_, fun p handle proc proc' => ?_,
    fun p handle value read negative => ?_⟩
  · rw [lengths i live, Int.toNat_eq_max, max_comm]
  · obtain ⟨q, rest, blocked, taken⟩ := takeFirst_eq simulated tracks granted negative
    refine ⟨?_, q, rest, blocked, taken⟩
    change Pools.listIsEmpty _ _ = false
    rw [Pools.listIsEmpty_eq simulated.wellFormed, SeqStore.listIsEmpty, Pools.abs_seq,
      ← Fs.blocked, blocked]
    rfl
  · rw [Fs.semPost, Fs.semPost]
    cases granted : ((w.fs.getWork p).setErrno 0).granted handle with
    | none => rfl
    | some i =>
        simp only
        split
        · rename_i negative
          obtain ⟨q, -, -, taken⟩ := takeFirst_eq simulated tracks
            (show (w.fs.getWork p).granted handle = some i from granted) negative
          have same : ∀ proc, ((w.fs.getWork p).setErrno 0).takeFirst
              (((w.fs.getWork p).setErrno 0).semArray i).blockedList proc =
                ((((w.fs.getWork p).setErrno 0).takeFirst
                  (((w.fs.getWork p).setErrno 0).semArray i).blockedList 0).1, q) :=
            fun proc => Prod.ext rfl (taken proc)
          rw [same proc, same proc']
        · rfl
  · cases granted : (w.fs.getWork p).granted handle with
    | none =>
        rw [Fs.semGetvalue_refused granted] at read
        contradiction
    | some i =>
        rw [Fs.semGetvalue_granted granted] at read
        obtain ⟨-, live⟩ := granted_abs simulated tracks.owned granted
        obtain rfl : (w.fs.semArray i).semCount = value := Option.some.inj read
        refine ⟨i, Fs.slotAt_of_granted granted, ?_⟩
        rw [lengths i live]
        omega

/-- One process waits, and another one posts. -/
theorem blocked_length_eq_of_wait :
    let es := [Client.call 5 (Client.semOpenRequest default ⟨[97], by simp⟩ 0o100 0 0),
      Client.call 6 (Client.semOpenRequest default ⟨[97], by simp⟩ 0 0 0),
      Client.call 5 (Client.semWaitRequest default 0)]
    let w := es.foldl World.step boot
    (w.fs.semArray 0).semCount = -1 ∧
      ((w.fs.blocked 0).length : Int) = max 0 (-(w.fs.semArray 0).semCount) ∧
      (∃ q rest, w.fs.blocked 0 = q :: rest ∧
        ∀ proc, (w.fs.takeFirst (w.fs.semArray 0).blockedList proc).2 = q) ∧
      (w.fs.getWork 6).semPost 0 7 = (w.fs.getWork 6).semPost 0 8 ∧
      ∃ i, Fs.slotAt 0 = some i ∧ (-1 : Int).natAbs = (w.fs.blocked i).length := by
  intro es w
  have allowed : Allowed World.step Lawful boot es := by decide +kernel
  obtain ⟨lengths, waiter, post, value⟩ := blocked_length_eq allowed.run
  exact ⟨by decide +kernel, lengths 0 (by decide +kernel),
    (waiter 6 0 0 (by decide +kernel) (by decide +kernel)).2, post 6 0 7 8,
    value 6 0 (-1) (by decide +kernel) (by decide)⟩

/-- In every state that an orderly run reaches, the tokens a semaphore has given out
since it was created are those that were put in, without those its count shows; the
deeds of a round are what its requests and replies were. Every request is answered at
most once, a wait that was not answered at once by a post on its slot, and the
requests without an answer are the waits of the processes that are blocked. -/
theorem tokens_conserved (run : Run World.step Orderly boot es w) :
    (∀ i, 0 < (w.fs.semArray i).refCount →
      (tokensOut (current (deedsAt i w.log)) : Int) =
        tokensIn (current (deedsAt i w.log)) - max 0 (w.fs.semArray i).semCount) ∧
    (∀ e, w.fs.Accounted e) ∧
    w.calls.stray = [] ∧ (w.calls.answers.map Answer.request).Nodup ∧
    (∀ a ∈ w.calls.answers, a.round = a.request ∨ w.AnsweredByPost a) ∧
    (∀ n e, w.events[n]? = some e →
      ((∀ a ∈ w.calls.answers, a.request ≠ n) ↔ w.calls.pending e.source = some n) ∧
        (w.calls.pending e.source = some n →
          ∃ i, e.Requests e.source .semWait i ∧ e.source ∈ w.fs.blocked i)) ∧
    ∀ p i, p ∈ w.fs.blocked i → ∃ n e, w.calls.pending p = some n ∧ w.events[n]? = some e ∧
      e.Requests p .semWait i := by
  obtain ⟨simulated, T, tracks, linked⟩ := exists_linked_abs run
  have blockedIff := waits_iff_blocked tracks
  have pending : ∀ p n, w.calls.pending p = some n → ∃ e i, w.events[n]? = some e ∧
      e.source = p ∧ e.Requests p .semWait i ∧ p ∈ w.fs.blocked i := by
    intro p n waits
    obtain ⟨e, i, event, requests, here⟩ := linked.pending p n waits
    refine ⟨e, i, event, ?_, requests, (blockedIff p i).mp here⟩
    obtain ⟨m, g, rfl, -⟩ := requests
    rfl
  refine ⟨fun i live => ?_, fun e => Fs.accounted w.fs e, linked.sound.stray, linked.sound.once,
    linked.answers, fun n e event => ⟨⟨fun unanswered => ?_, fun waits => ?_⟩, fun waits => ?_⟩,
    fun p i blocked => ?_⟩
  · obtain ⟨s, here, count, -⟩ := exists_sem_abs tracks live
    rw [← count]
    exact Sem.conserved_of_run (run_deedsAt tracks.run i) here
  · have bound : n < w.calls.asked := linked.count ▸ (List.getElem?_eq_some_iff.mp event).1
    rcases linked.sound.complete n bound with ⟨p, waits⟩ | ⟨a, mem, answered⟩
    · obtain ⟨e', -, event', rfl, -⟩ := pending p n waits
      obtain rfl : e = e' := Option.some.inj (event.symm.trans event')
      exact waits
    · exact absurd answered (unanswered a mem)
  · exact linked.sound.unanswered e.source n waits
  · obtain ⟨e', i, event', -, requests, blocked⟩ := pending e.source n waits
    obtain rfl : e = e' := Option.some.inj (event.symm.trans event')
    exact ⟨i, requests, blocked⟩
  · have here := (blockedIff p i).mpr blocked
    obtain ⟨n, waits⟩ := Option.ne_none_iff_exists'.mp (linked.waits p i here)
    obtain ⟨e, j, event, requests, here'⟩ := linked.pending p n waits
    obtain rfl := linked.settled.only p i j here here'
    exact ⟨n, e, waits, event, requests⟩

/-- One process waits, another one posts and wakes it. -/
theorem tokens_conserved_of_wake :
    let es := [Client.call 5 (Client.semOpenRequest default ⟨[97], by simp⟩ 0o100 0 0),
      Client.call 6 (Client.semOpenRequest default ⟨[97], by simp⟩ 0 0 0),
      Client.call 5 (Client.semWaitRequest default 0),
      Client.call 6 (Client.semPostRequest default 0)]
    let w := es.foldl World.step boot
    (tokensOut (current (deedsAt 0 w.log)) = 1 ∧ (tokensOut (current (deedsAt 0 w.log)) : Int) =
        tokensIn (current (deedsAt 0 w.log)) - max 0 (w.fs.semArray 0).semCount) ∧
      w.calls.stray = [] ∧ (w.calls.answers.map Answer.request).Nodup ∧
      ∀ a ∈ w.calls.answers, a.round = a.request ∨ w.AnsweredByPost a := by
  intro es w
  have allowed : Allowed World.step Orderly boot es := by decide +kernel
  obtain ⟨tokens, -, stray, once, answers, -⟩ := tokens_conserved allowed.run
  exact ⟨⟨by decide +kernel, tokens 0 (by decide +kernel)⟩, stray, once, answers⟩

end World

end MinixSemaphore.Server
