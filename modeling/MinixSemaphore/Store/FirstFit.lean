import Mathlib

/-!
# Loops over a static array

A static array is searched from its first cell for one that passes a test: this
is the loop with a `break` that every allocator of a fixed pool is made of. A
sweep is the loop without the `break`.
-/

namespace MinixSemaphore.Store

universe u v

variable {n : Nat} {free : Fin n → Bool} {i : Fin n} {β : Type u} {γ : Type v}

/-- The first index that passes the test. Unfolding it would run the search, so
proofs go through the two characterizations below. -/
@[irreducible]
def firstFit (free : Fin n → Bool) : Option (Fin n) :=
  Fin.find? free

theorem firstFit_eq_some_iff :
    firstFit free = some i ↔ free i = true ∧ ∀ j < i, free j = false := by
  rw [firstFit]
  exact Fin.find?_eq_some_iff

theorem firstFit_eq_none_iff : firstFit free = none ↔ ∀ i, free i = false := by
  rw [firstFit]
  exact Fin.find?_eq_none_iff

theorem firstFit_isSome_of (fits : free i = true) : (firstFit free).isSome := by
  rw [firstFit]
  exact Fin.isSome_find?_iff.mpr ⟨i, fits⟩

/-- Run the body of a loop on every index in turn. It is kept folded for the same
reason. -/
@[irreducible]
def sweep (body : β → Fin n → β) (b : β) : β :=
  (List.finRange n).foldl body b

/-- What holds before a sweep, and what every round keeps, holds after it. -/
theorem sweep_invariant {I : β → Prop} {body : β → Fin n → β} {b : β} (start : I b)
    (keeps : ∀ c i, I c → I (body c i)) : I (sweep body b) := by
  rw [sweep]
  exact List.foldlRecOn _ _ start fun c inv i _ => keeps c i inv

/-- Two sweeps whose rounds go together stay together. -/
theorem sweep_relation {R : β → γ → Prop} {body : β → Fin n → β} {body' : γ → Fin n → γ}
    {b : β} {c : γ} (start : R b c) (keeps : ∀ b c i, R b c → R (body b i) (body' c i)) :
    R (sweep body b) (sweep body' c) := by
  have all : ∀ (todo : List (Fin n)) b c, R b c → R (todo.foldl body b) (todo.foldl body' c) := by
    intro todo
    induction todo with
    | nil => exact fun _ _ related => related
    | cons i rest ih => exact fun b c related => ih _ _ (keeps b c i related)
  rw [sweep, sweep]
  exact all _ b c start

/-- A statement about the rounds that are done, which grows with every round,
covers all indices after a sweep. -/
theorem sweep_progress {I : List (Fin n) → β → Prop} (body : β → Fin n → β) (b : β)
    (start : I [] b)
    (keeps : ∀ done c i, i ∉ done → I done c → I (done ++ [i]) (body c i)) :
    I (List.finRange n) (sweep body b) := by
  have all : ∀ todo done c, (done ++ todo).Nodup → I done c →
      I (done ++ todo) (todo.foldl body c) := by
    intro todo
    induction todo with
    | nil => exact fun done c _ inv => by simpa using inv
    | cons i rest ih =>
        intro done c nodup inv
        have fresh : i ∉ done := fun mem =>
          (List.nodup_append.mp nodup).2.2 i mem i List.mem_cons_self rfl
        have next := ih (done ++ [i]) (body c i) (by simpa using nodup) (keeps done c i fresh inv)
        simpa using next
  rw [sweep]
  simpa using all (List.finRange n) [] b (by simpa using List.nodup_finRange n) start

end MinixSemaphore.Store
