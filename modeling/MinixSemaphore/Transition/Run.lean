import Mathlib

/-!
# Guarded runs of a deterministic system

A run feeds a list of inputs to a step function. Every input has to satisfy a
guard in the state it meets, so that a restriction on the environment is a guard
and not a side condition of each theorem. Inputs carry whatever the system
leaves undetermined, which keeps the step a function.
-/

namespace MinixSemaphore.Transition

universe u v w

variable {σ : Type u} {τ : Type w} {ε : Type v}

/-- `Run step guard s es t`: feeding `es` to `s` leads to `t`, and every input
meets the guard in the state it is fed to. -/
inductive Run (step : σ → ε → σ) (guard : σ → ε → Prop) (s : σ) : List ε → σ → Prop
  | nil : Run step guard s [] s
  | snoc {es : List ε} {t : σ} {e : ε} :
      Run step guard s es t → guard t e → Run step guard s (es ++ [e]) (step t e)

namespace Run

variable {step : σ → ε → σ} {guard guard' : σ → ε → Prop} {s t u : σ} {es fs : List ε}

/-- A predicate that holds at the start and that every guarded step keeps holds
at the end of every run. -/
theorem invariant {I : σ → Prop} (run : Run step guard s es t) (start : I s)
    (keeps : ∀ t e, I t → guard t e → I (step t e)) : I t := by
  induction run with
  | nil => exact start
  | snoc _ allowed ih => exact keeps _ _ ih allowed

/-- Along an invariant, a run may be given a weaker guard. -/
theorem weaken {I : σ → Prop} (run : Run step guard s es t) (start : I s)
    (keeps : ∀ t e, I t → guard t e → I (step t e))
    (weaker : ∀ t e, I t → guard t e → guard' t e) : Run step guard' s es t := by
  induction run with
  | nil => exact Run.nil
  | snoc before allowed ih =>
      exact Run.snoc ih (weaker _ _ (before.invariant start keeps) allowed)

theorem mono (run : Run step guard s es t) (weaker : ∀ t e, guard t e → guard' t e) :
    Run step guard' s es t :=
  run.weaken (I := fun _ => True) trivial (fun _ _ _ _ => trivial)
    (fun t e _ => weaker t e)

theorem trans (first : Run step guard s es t) (second : Run step guard t fs u) :
    Run step guard s (es ++ fs) u := by
  induction second with
  | nil => simpa using first
  | snoc _ allowed ih =>
      rw [← List.append_assoc]
      exact Run.snoc ih allowed

/-- The end of a run is the fold of the step function over its inputs. -/
theorem eq_foldl (run : Run step guard s es t) : t = es.foldl step s := by
  induction run with
  | nil => rfl
  | snoc _ _ ih => simp [ih]

/-- The last step of a run. -/
theorem of_snoc {e : ε} (run : Run step guard s (es ++ [e]) t) :
    Run step guard s es (es.foldl step s) ∧ guard (es.foldl step s) e := by
  generalize inputs : es ++ [e] = fs at run
  cases run with
  | nil => exact absurd inputs (List.concat_ne_nil e es)
  | snoc before allowed =>
      obtain ⟨rfl, same⟩ := List.append_inj' inputs rfl
      rw [List.singleton_inj.mp same, ← before.eq_foldl]
      exact ⟨before, allowed⟩

/-- If every step keeps a property exactly when it meets a further guard, then the property
holds all along a run exactly when the run meets that guard. -/
theorem always_iff {I Q : σ → Prop} (run : Run step guard s es t) (start : I s)
    (first : Q s) (keeps : ∀ t e, I t → guard t e → I (step t e))
    (exactly : ∀ t e, I t → guard t e → Q t → (Q (step t e) ↔ guard' t e)) :
    (∀ fs, fs <+: es → Q (fs.foldl step s)) ↔ Run step guard' s es t := by
  induction run with
  | nil =>
      constructor
      · exact fun _ => Run.nil
      · intro _ fs upTo
        rw [List.prefix_nil.mp upTo]
        exact first
  | @snoc es t e before allowed ih =>
      have inv := before.invariant start keeps
      have reached : (es ++ [e]).foldl step s = step t e := by
        rw [List.foldl_append, ← before.eq_foldl]
        rfl
      have last : Q t → (Q (step t e) ↔ guard' t e) := exactly t e inv allowed
      constructor
      · intro all
        have run' := ih.mp fun fs upTo => all fs (upTo.trans (List.prefix_append es [e]))
        have now : Q t := before.eq_foldl ▸ all es (List.prefix_append es [e])
        exact run'.snoc ((last now).mp (reached ▸ all _ List.prefix_rfl))
      · intro run' fs upTo
        have split := run'.of_snoc
        rw [← before.eq_foldl] at split
        have all := ih.mpr split.1
        rcases List.prefix_concat_iff.mp upTo with rfl | upTo
        · rw [reached]
          have now : Q t := before.eq_foldl ▸ all es List.prefix_rfl
          exact (last now).mpr split.2
        · exact all fs upTo

/-- A run of one step. -/
theorem singleton {e : ε} (run : Run step guard s [e] t) : guard s e ∧ t = step s e :=
  have last : Run step guard s ([] ++ [e]) t := run
  ⟨last.of_snoc.2, run.eq_foldl⟩

/-- A map that commutes with the step functions along an invariant carries runs
to runs on the same inputs. -/
theorem map {I : σ → Prop} {step' : τ → ε → τ} {guard' : τ → ε → Prop} (abs : σ → τ)
    (run : Run step guard s es t) (start : I s)
    (keeps : ∀ t e, I t → guard t e → I (step t e))
    (commutes : ∀ t e, I t → guard t e → abs (step t e) = step' (abs t) e)
    (allowed : ∀ t e, I t → guard t e → guard' (abs t) e) :
    Run step' guard' (abs s) es (abs t) := by
  induction run with
  | nil => exact Run.nil
  | snoc before now ih =>
      have inv := before.invariant start keeps
      rw [commutes _ _ inv now]
      exact Run.snoc ih (allowed _ _ inv now)

end Run

/-- The guard holds along a list of inputs. Unlike `Run` it can be evaluated. -/
def Allowed (step : σ → ε → σ) (guard : σ → ε → Prop) : σ → List ε → Prop
  | _, [] => True
  | s, e :: es => guard s e ∧ Allowed step guard (step s e) es

instance decidableAllowed (step : σ → ε → σ) (guard : σ → ε → Prop)
    [∀ s e, Decidable (guard s e)] : ∀ s es, Decidable (Allowed step guard s es)
  | _, [] => inferInstanceAs (Decidable True)
  | s, e :: es =>
      have := decidableAllowed step guard (step s e) es
      inferInstanceAs (Decidable (guard s e ∧ Allowed step guard (step s e) es))

theorem Allowed.run {step : σ → ε → σ} {guard : σ → ε → Prop} {s : σ} {es : List ε}
    (allowed : Allowed step guard s es) : Run step guard s es (es.foldl step s) := by
  induction es generalizing s with
  | nil => exact Run.nil
  | cons e es ih =>
      have first : Run step guard s [e] (step s e) := Run.snoc Run.nil allowed.1
      exact first.trans (ih allowed.2)

end MinixSemaphore.Transition
