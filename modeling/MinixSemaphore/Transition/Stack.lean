import Mathlib

/-!
# Stacks over time

A stack is observed after every input. Whatever is in it has been there for some time,
and what is at its bottom has been there longest. So if something has been in the stack
since before something else was, then it is not the bottom that has been overtaken.
-/

namespace MinixSemaphore.Transition

universe u v

variable {α : Type u} {ε : Type v}

/-- What an input can do to a stack. -/
inductive Moves : List α → List α → Prop
  | still (xs : List α) : Moves xs xs
  | push (x : α) (xs : List α) : Moves xs (x :: xs)
  | pop (x : α) (xs : List α) : Moves (x :: xs) xs
  | clear (xs : List α) : Moves xs []

/-- Unless the stack is new or left empty, it keeps its bottom. -/
theorem Moves.last {xs ys : List α} (moves : Moves xs ys) {x : α} (last : ys.getLast? = some x) :
    ys = [x] ∨ xs.getLast? = some x := by
  cases moves with
  | still => exact Or.inr last
  | push y =>
      cases xs with
      | nil =>
          obtain rfl := Option.some.inj last
          exact Or.inl rfl
      | cons z zs =>
          rw [List.getLast?_cons_cons] at last
          exact Or.inr last
  | pop y =>
      right
      cases ys with
      | nil => contradiction
      | cons z zs =>
          rw [List.getLast?_cons_cons]
          exact last
  | clear => contradiction

/-- `x` has been in the stack since before `y` was, and both are in it now. -/
def Precedes (contents : List ε → List α) (inputs : List ε) (x y : α) : Prop :=
  y ∈ contents inputs ∧ ∃ earlier, earlier <+: inputs ∧ y ∉ contents earlier ∧
    ∀ past, earlier <+: past → past <+: inputs → x ∈ contents past

section

variable {contents : List ε → List α} {inputs : List ε} {x y : α}

theorem Precedes.snoc {e : ε} (absent : y ∉ contents inputs) (before : x ∈ contents inputs)
    (now : y ∈ contents (inputs ++ [e])) (still : x ∈ contents (inputs ++ [e])) :
    Precedes contents (inputs ++ [e]) x y := by
  refine ⟨now, inputs, List.prefix_append inputs [e], absent, ?_⟩
  intro past after upTo
  rcases List.prefix_concat_iff.mp upTo with rfl | upTo
  · exact still
  · obtain rfl := after.eq_of_length (le_antisymm after.length_le upTo.length_le)
    exact before

/-- What is at the bottom was once alone in the stack, and has been at the bottom ever
since. -/
theorem exists_alone (empty : contents [] = [])
    (moves : ∀ inputs e, Moves (contents inputs) (contents (inputs ++ [e])))
    (last : (contents inputs).getLast? = some x) :
    ∃ alone, alone <+: inputs ∧ contents alone = [x] ∧
      ∀ past, alone <+: past → past <+: inputs → (contents past).getLast? = some x := by
  induction inputs using List.reverseRecOn with
  | nil =>
      rw [empty] at last
      contradiction
  | append_singleton inputs e ih =>
      rcases (moves inputs e).last last with fresh | older
      · refine ⟨inputs ++ [e], List.prefix_rfl, fresh, ?_⟩
        intro past after upTo
        obtain rfl := after.eq_of_length (le_antisymm after.length_le upTo.length_le)
        exact last
      · obtain ⟨alone, upTo, lone, since⟩ := ih older
        refine ⟨alone, upTo.trans (List.prefix_append inputs [e]), lone, ?_⟩
        intro past after upTo
        rcases List.prefix_concat_iff.mp upTo with rfl | upTo
        · exact last
        · exact since past after upTo

/-- Everything in a stack has something before it, except what is at the bottom. -/
theorem exists_precedes_iff (empty : contents [] = [])
    (moves : ∀ inputs e, Moves (contents inputs) (contents (inputs ++ [e])))
    (present : y ∈ contents inputs) :
    (∃ x, Precedes contents inputs x y) ↔ (contents inputs).getLast? ≠ some y := by
  constructor
  · rintro ⟨x, -, earlier, before, absent, since⟩ last
    obtain ⟨alone, upTo, lone, bottom⟩ := exists_alone empty moves last
    rcases List.prefix_or_prefix_of_prefix upTo before with first | first
    · exact absent (List.mem_of_getLast? (bottom earlier first before))
    · -- when the bottom was alone, `x` was there
      have there := since alone first upTo
      rw [lone, List.mem_singleton] at there
      subst there
      exact absent (since earlier List.prefix_rfl before)
  · intro notLast
    obtain ⟨x, last⟩ : ∃ x, (contents inputs).getLast? = some x := by
      rw [← Option.isSome_iff_exists, List.getLast?_isSome]
      exact List.ne_nil_of_mem present
    obtain ⟨alone, upTo, lone, bottom⟩ := exists_alone empty moves last
    refine ⟨x, present, alone, upTo, ?_, ?_⟩
    · rw [lone, List.mem_singleton]
      rintro rfl
      exact notLast last
    · intro past after upTo
      exact List.mem_of_getLast? (bottom past after upTo)

end

end MinixSemaphore.Transition
