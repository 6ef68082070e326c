import Mathlib

/-!
# Sequences that increase under a comparison

A comparison function in the manner of C is negative, zero or positive. Elements that
compare as zero count as the same, so an increasing sequence holds at most one of them.
Searching it from the front may stop at the first element that is not smaller.
-/

namespace MinixSemaphore.Store

universe u

variable {α : Type u}

/-- The comparison is a total order. -/
structure TotalOrder (fn : α → α → Int) : Prop where
  swap : ∀ x y, fn x y < 0 ↔ 0 < fn y x
  trans : ∀ x y z, fn x y ≤ 0 → fn y z ≤ 0 → fn x z ≤ 0

/-- Each element is smaller than all that follow it. -/
def Increasing (fn : α → α → Int) (xs : List α) : Prop :=
  xs.Pairwise fun x y => fn x y < 0

namespace TotalOrder

variable {fn : α → α → Int} {x y z : α}

theorem same_self (order : TotalOrder fn) (x : α) : fn x x = 0 := by
  have swap := order.swap x x
  omega

theorem same_comm (order : TotalOrder fn) : fn x y = 0 ↔ fn y x = 0 := by
  have swap := order.swap x y
  have swap' := order.swap y x
  omega

theorem lt_of_lt_of_le (order : TotalOrder fn) (less : fn x y < 0) (le : fn y z ≤ 0) :
    fn x z < 0 := by
  by_contra back
  have swap := order.swap x z
  have above := order.trans y z x le (by omega)
  have swap' := order.swap x y
  omega

/-- Elements that count as the same compare alike. -/
theorem same_congr (order : TotalOrder fn) (same : fn x y = 0) : fn x z = 0 ↔ fn y z = 0 := by
  have same' := order.same_comm.mp same
  constructor
  · intro zero
    have le := order.trans y x z same'.le zero.le
    have ge := order.trans z x y (order.same_comm.mp zero).le same.le
    have swap := order.swap y z
    omega
  · intro zero
    have le := order.trans x y z same.le zero.le
    have ge := order.trans z y x (order.same_comm.mp zero).le same'.le
    have swap := order.swap x z
    omega

end TotalOrder

namespace Increasing

variable {fn : α → α → Int} {xs front rest : List α} {x y : α}

/-- An increasing sequence holds no two elements that count as the same. -/
theorem eq_of_same (increasing : Increasing fn xs) (order : TotalOrder fn) (xMem : x ∈ xs)
    (yMem : y ∈ xs) (same : fn x y = 0) : x = y := by
  induction xs with
  | nil => exact absurd xMem List.not_mem_nil
  | cons first others ih =>
      rcases List.pairwise_cons.mp increasing with ⟨less, increasing⟩
      rcases List.mem_cons.mp xMem with xFirst | xLater <;>
        rcases List.mem_cons.mp yMem with yFirst | yLater
      · exact xFirst.trans yFirst.symm
      · have below := less y yLater
        rw [← xFirst, same] at below
        exact absurd below (lt_irrefl 0)
      · have below := less x xLater
        rw [← yFirst, order.same_comm.mp same] at below
        exact absurd below (lt_irrefl 0)
      · exact ih increasing xLater yLater

/-- What follows an element that is greater than `x` is greater too. -/
theorem above_of_head (increasing : Increasing fn rest) (order : TotalOrder fn)
    (head : ∀ h ∈ rest.head?, fn x h < 0) : ∀ y ∈ rest, fn x y < 0 := by
  cases rest with
  | nil => exact fun y mem => absurd mem List.not_mem_nil
  | cons h others =>
      intro y mem
      have less := head h rfl
      rcases List.mem_cons.mp mem with rfl | mem
      · exact less
      · have below := (List.pairwise_cons.mp increasing).1 y mem
        exact order.lt_of_lt_of_le less below.le

/-- If the search for `x` goes past smaller elements and then meets a greater one or the
end, no element counts as the same as `x`. -/
theorem ne_of_missed (increasing : Increasing fn (front ++ rest)) (order : TotalOrder fn)
    (past : ∀ y ∈ front, fn y x < 0) (stop : ∀ h ∈ rest.head?, fn x h < 0) :
    ∀ y ∈ front ++ rest, fn y x ≠ 0 := by
  have later : Increasing fn rest := (List.pairwise_append.mp increasing).2.1
  intro y mem same
  rcases List.mem_append.mp mem with mem | mem
  · have below := past y mem
    omega
  · have above := later.above_of_head order stop y mem
    rw [order.same_comm.mp same] at above
    omega

/-- At that place the element may be put in. -/
theorem insert (increasing : Increasing fn (front ++ rest)) (order : TotalOrder fn)
    (past : ∀ y ∈ front, fn y x < 0) (stop : ∀ h ∈ rest.head?, fn x h < 0) :
    Increasing fn (front ++ x :: rest) := by
  rcases List.pairwise_append.mp increasing with ⟨first, second, between⟩
  have above := Increasing.above_of_head second order stop
  apply List.pairwise_append.mpr
  refine ⟨first, List.pairwise_cons.mpr ⟨above, second⟩, ?_⟩
  intro y yMem z zMem
  rcases List.mem_cons.mp zMem with rfl | zMem
  · exact past y yMem
  · exact between y yMem z zMem

theorem remove (increasing : Increasing fn (front ++ x :: rest)) :
    Increasing fn (front ++ rest) := by
  have shorter : List.Sublist (front ++ rest) (front ++ x :: rest) :=
    List.Sublist.append_left (List.sublist_cons_self x rest) front
  exact List.Pairwise.sublist shorter increasing

end Increasing

end MinixSemaphore.Store
