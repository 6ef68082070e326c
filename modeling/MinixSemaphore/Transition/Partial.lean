import Mathlib

/-!
# Guarded runs of a partial system

The step of a partial system has no result where the input means nothing to it. A course
is a run all of whose steps have one.
-/

namespace MinixSemaphore.Transition

universe u v

variable {σ : Type u} {ε : Type v}

/-- `Course step guard s es t`: feeding `es` to `s` leads to `t`, and every input meets the
guard in the state it is fed to. -/
inductive Course (step : σ → ε → Option σ) (guard : σ → ε → Prop) (s : σ) : List ε → σ → Prop
  | nil : Course step guard s [] s
  | snoc {es : List ε} {t u : σ} {e : ε} :
      Course step guard s es t → guard t e → step t e = some u →
        Course step guard s (es ++ [e]) u

/-- Feed the inputs to a state, as long as they meet the guard. -/
def follow (step : σ → ε → Option σ) (guard : σ → ε → Prop) [∀ s e, Decidable (guard s e)] :
    σ → List ε → Option σ
  | s, [] => some s
  | s, e :: es => if guard s e then (step s e).bind fun t => follow step guard t es else none

namespace Course

variable {step : σ → ε → Option σ} {guard : σ → ε → Prop} {s t u : σ} {es fs : List ε}

/-- What holds at the start and is kept by every guarded step holds at the end. -/
theorem invariant {I : σ → Prop} (course : Course step guard s es t) (start : I s)
    (keeps : ∀ t e u, I t → guard t e → step t e = some u → I u) : I t := by
  induction course with
  | nil => exact start
  | snoc _ allowed next ih => exact keeps _ _ _ ih allowed next

theorem trans (first : Course step guard s es t) (second : Course step guard t fs u) :
    Course step guard s (es ++ fs) u := by
  induction second with
  | nil => simpa using first
  | snoc _ allowed next ih =>
      rw [← List.append_assoc]
      exact ih.snoc allowed next

/-- Inputs that can be fed to a state make up a course. -/
theorem of_follow [∀ s e, Decidable (guard s e)] (reached : follow step guard s es = some t) :
    Course step guard s es t := by
  induction es generalizing s with
  | nil =>
      obtain rfl := Option.some.inj reached
      exact nil
  | cons e es ih =>
      by_cases allowed : guard s e
      · rw [follow, if_pos allowed] at reached
        obtain ⟨v, next, rest⟩ := Option.bind_eq_some_iff.mp reached
        have first : Course step guard s [e] v := nil.snoc allowed next
        exact first.trans (ih rest)
      · rw [follow, if_neg allowed] at reached
        contradiction

/-- Inputs that can be followed lead to the last state of a course. -/
theorem of_isSome [∀ s e, Decidable (guard s e)] (reached : (follow step guard s es).isSome)
    (other : σ) : Course step guard s es ((follow step guard s es).getD other) := by
  obtain ⟨t, same⟩ := Option.isSome_iff_exists.mp reached
  rw [same]
  exact of_follow same

end Course

end MinixSemaphore.Transition
