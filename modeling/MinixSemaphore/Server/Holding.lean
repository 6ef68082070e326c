import MinixSemaphore.Semaphore.Holding
import MinixSemaphore.Server.Unlink

/-!
# Exclusion

What semaphores are for: processes that post only what they have taken are never more
inside than the semaphore had tokens at first, and nobody is kept waiting as long as a
token is left.
-/

namespace MinixSemaphore.Server

open MinixSemaphore.Lists
open MinixSemaphore.Names
open MinixSemaphore.Semaphore
open MinixSemaphore.Store
open MinixSemaphore.Transition

universe u

namespace World

/-- Whoever posts gives back a token that it holds. -/
def GivesOwn {P : Type u} [ListLib P Int] (w : World P) (e : Event) : Prop :=
  ∀ a ∈ (w.fs.step e).acts, ∀ p ∈ a.deed.giver, 0 < held p (current (deedsAt a.place w.log))

instance {P : Type u} [ListLib P Int] (w : World P) (e : Event) : Decidable (w.GivesOwn e) :=
  inferInstanceAs (Decidable (∀ a ∈ (w.fs.step e).acts, ∀ p ∈ a.deed.giver,
    0 < held p (current (deedsAt a.place w.log))))

variable {w : World (Pools Int)} {e : Event} {es : List Event} {i : SlotIx}

/-- A round does at most one thing to a semaphore, and a post gives what its caller
holds. -/
theorem honest_step (honest : Honest (current (deedsAt i w.log))) (gives : w.GivesOwn e) :
    Honest (current (deedsAt i (w.step e).log)) := by
  have log : deedsAt i (w.step e).log = deedsAt i w.log ++ deedsAt i (w.fs.step e).acts :=
    deedsAt_append i w.log (w.fs.step e).acts
  rw [log]
  rcases deedsAt_of_nodup (Fs.asks_nodup (Fs.step_recorded w.fs e).1) i with
    nothing | ⟨deed, only, mem⟩
  · rw [nothing, List.append_nil]
    exact honest
  · rw [only, current_snoc]
    split
    · rename_i creates
      exact honest_of_creates creates
    · exact honest.snoc fun p giver => gives ⟨i, deed⟩ mem p giver

theorem boot_log : (boot : World (Pools Int)).log = [] :=
  rfl

theorem honest_of_run (run : Run World.step GivesOwn boot es w) (i : SlotIx) :
    Honest (current (deedsAt i w.log)) := by
  induction run with
  | nil =>
      rw [boot_log]
      exact honest_nil
  | snoc _ gives honest => exact honest_step honest gives

/-- In every state of a lawful run in which processes post only what they have taken, the
processes that hold tokens of a live semaphore are not more than the tokens it began with;
with one token, there is one holder. All of them together hold the tokens that the count
does not show, and all tokens while somebody is blocked. -/
theorem holders_bounded (run : Run World.step (fun w e => w.Lawful e ∧ w.GivesOwn e) boot es w)
    (live : 0 < (w.fs.semArray i).refCount) :
    (∀ S : Finset Int, (∀ p ∈ S, 0 < held p (current (deedsAt i w.log))) →
      S.card ≤ initialValue (current (deedsAt i w.log))) ∧
    (initialValue (current (deedsAt i w.log)) = 1 → ∀ p q,
      0 < held p (current (deedsAt i w.log)) → 0 < held q (current (deedsAt i w.log)) → p = q) ∧
    (∀ S : Finset Int, (∀ p, held p (current (deedsAt i w.log)) ≠ 0 → p ∈ S) →
      ∑ p ∈ S, held p (current (deedsAt i w.log)) =
        initialValue (current (deedsAt i w.log)) - max 0 (w.fs.semArray i).semCount) ∧
    (w.fs.blocked i ≠ [] → ∀ S : Finset Int,
      (∀ p, held p (current (deedsAt i w.log)) ≠ 0 → p ∈ S) →
        ∑ p ∈ S, held p (current (deedsAt i w.log)) =
          initialValue (current (deedsAt i w.log))) := by
  have honest := honest_of_run (run.mono fun _ _ allowed => allowed.2) i
  obtain ⟨-, T, tracks⟩ := exists_tracks_abs (run.mono fun _ _ allowed => allowed.1)
  obtain ⟨s, here, count, -, waiters, -⟩ := exists_sem_abs tracks live
  have out : (tokensOut (current (deedsAt i w.log)) : Int) -
      (current (deedsAt i w.log)).countP Deed.isPost =
        initialValue (current (deedsAt i w.log)) - max 0 (w.fs.semArray i).semCount := by
    rw [← count]
    exact Sem.tokens_out_of_run (run_deedsAt tracks.run i) here
  have bound : ∀ S : Finset Int, (∀ p ∈ S, 0 < held p (current (deedsAt i w.log))) →
      S.card ≤ initialValue (current (deedsAt i w.log)) := by
    intro S holders
    have card := honest.card_le holders
    omega
  refine ⟨bound, fun single p q holds holds' => ?_, fun S all => (sum_held all).trans out,
    fun wait S all => ?_⟩
  · by_contra other
    have pair := bound {p, q} (by simp [holds, holds'])
    rw [Finset.card_pair other, single] at pair
    omega
  · have balance := s.balance
    have waiting : 0 < (w.fs.blocked i).length := List.length_pos_iff.mpr wait
    rw [waiters, count] at balance
    rw [sum_held all, out]
    omega

/-- A semaphore with one token. Process 5 has it, and process 6 waits for it. -/
theorem holders_bounded_of_wait :
    let es := [Client.call 5 (Client.semInitRequest default 0 0 1), .fork 5 6,
      Client.call 5 (Client.semWaitRequest default 0),
      Client.call 6 (Client.semWaitRequest default 0)]
    let w := es.foldl World.step boot
    held 5 (current (deedsAt 0 w.log)) = 1 ∧ (w.fs.blocked 0 ≠ [] ∧
      ∀ S : Finset Int, (∀ p ∈ S, 0 < held p (current (deedsAt 0 w.log))) →
        S.card ≤ initialValue (current (deedsAt 0 w.log))) := by
  intro es w
  have allowed : Allowed World.step (fun w e => w.Lawful e ∧ w.GivesOwn e) boot es := by
    decide +kernel
  obtain ⟨bound, -⟩ := holders_bounded (i := 0) allowed.run (by decide +kernel)
  exact ⟨by decide +kernel, by decide +kernel, bound⟩

end World

end MinixSemaphore.Server
