import MinixSemaphore.Semaphore.History

/-!
# Who holds the tokens

A process takes a token by a granted wait, by a successful try, or by being woken, and
gives one by a post. What it has taken and not given it holds. If nobody gives what it
does not hold, then no more processes hold tokens than there were tokens at first.
-/

namespace MinixSemaphore.Semaphore

open MinixSemaphore.Transition

universe u v

variable {Proc : Type u} {Origin : Type v}

namespace Deed

/-- The process that a deed hands a token to. -/
def taker : Deed Proc Origin → Option Proc
  | .passed p => some p
  | .tried p => some p
  | .posted _ woken => woken
  | _ => none

/-- The process that a deed takes a token from. -/
def giver : Deed Proc Origin → Option Proc
  | .posted p _ => some p
  | _ => none

end Deed

/-- The processes that have taken tokens, in order. -/
def takers (deeds : List (Deed Proc Origin)) : List Proc :=
  deeds.filterMap Deed.taker

/-- The processes that have given tokens, in order. -/
def givers (deeds : List (Deed Proc Origin)) : List Proc :=
  deeds.filterMap Deed.giver

/-- Every token that went out has a taker. -/
theorem length_takers (deeds : List (Deed Proc Origin)) :
    (takers deeds).length = tokensOut deeds := by
  rw [takers, List.length_filterMap_eq_countP, tokensOut]
  induction deeds with
  | nil => rfl
  | cons deed rest ih =>
      simp only [List.countP_cons, ih]
      rcases deed with _ | _ | _ | _ | p | _ | p | ⟨p, _ | q⟩ | _ | _ <;>
        simp [Deed.taker, Deed.isPass, Deed.isTry, Deed.isWake] <;> omega

/-- Every post has a giver. -/
theorem length_givers (deeds : List (Deed Proc Origin)) :
    (givers deeds).length = deeds.countP Deed.isPost := by
  rw [givers, List.length_filterMap_eq_countP]
  apply List.countP_congr
  intro deed _
  cases deed <;> simp [Deed.giver, Deed.isPost]

variable [DecidableEq Proc] {deeds : List (Deed Proc Origin)} {p : Proc}

/-- The tokens that `p` has taken and not given. -/
def held (p : Proc) (deeds : List (Deed Proc Origin)) : Int :=
  (takers deeds).count p - (givers deeds).count p

/-- Nobody has given a token that it had not taken. -/
def Honest (deeds : List (Deed Proc Origin)) : Prop :=
  ∀ p, 0 ≤ held p deeds

/-- Who holds something has taken it. -/
theorem mem_takers_of_held (holds : 0 < held p deeds) : p ∈ takers deeds := by
  rw [held] at holds
  exact List.count_pos_iff.mp (by omega)

theorem held_snoc (p : Proc) (deeds : List (Deed Proc Origin)) (deed : Deed Proc Origin) :
    held p (deeds ++ [deed]) =
      held p deeds + (if deed.taker = some p then 1 else 0) -
        if deed.giver = some p then 1 else 0 := by
  have taken : (takers (deeds ++ [deed])).count p =
      (takers deeds).count p + if deed.taker = some p then 1 else 0 := by
    rw [takers, List.filterMap_append, List.count_append]
    cases taker : deed.taker <;> simp [takers, taker, List.count_singleton]
  have given : (givers (deeds ++ [deed])).count p =
      (givers deeds).count p + if deed.giver = some p then 1 else 0 := by
    rw [givers, List.filterMap_append, List.count_append]
    cases giver : deed.giver <;> simp [givers, giver, List.count_singleton]
  rw [held, held, taken, given]
  push_cast
  ring

theorem honest_nil : Honest ([] : List (Deed Proc Origin)) :=
  fun _ => le_rfl

/-- A creation moves no token. -/
theorem honest_of_creates {deed : Deed Proc Origin} (creates : deed.creates = true) :
    Honest [deed] := by
  intro p
  cases deed with
  | created => exact le_rfl
  | _ => contradiction

/-- Whoever gives a token holds one. -/
theorem Honest.snoc (honest : Honest deeds) {deed : Deed Proc Origin}
    (gives : ∀ p, deed.giver = some p → 0 < held p deeds) : Honest (deeds ++ [deed]) := by
  intro p
  have before := honest p
  rw [held_snoc]
  by_cases giver : deed.giver = some p
  · have positive := gives p giver
    rw [if_pos giver]
    split <;> omega
  · rw [if_neg giver]
    split <;> omega

/-! ## All holders together -/

theorem sum_count {S : Finset Proc} {procs : List Proc} (all : ∀ p ∈ procs, p ∈ S) :
    ∑ p ∈ S, procs.count p = procs.length := by
  have counted := Multiset.sum_count_eq_card (s := S) (m := (procs : Multiset Proc)) all
  simpa using counted

/-- What all processes hold together went out and did not come back. -/
theorem sum_held {S : Finset Proc} (all : ∀ p, held p deeds ≠ 0 → p ∈ S) :
    ∑ p ∈ S, held p deeds = (tokensOut deeds : Int) - deeds.countP Deed.isPost := by
  have wider : ∑ p ∈ S, held p deeds =
      ∑ p ∈ S ∪ ((takers deeds).toFinset ∪ (givers deeds).toFinset), held p deeds := by
    apply Finset.sum_subset Finset.subset_union_left
    intro p _ outside
    by_contra holds
    exact outside (all p holds)
  have taken : ∑ p ∈ S ∪ ((takers deeds).toFinset ∪ (givers deeds).toFinset),
      (takers deeds).count p = (takers deeds).length := by
    apply sum_count
    intro p mem
    simp [mem]
  have given : ∑ p ∈ S ∪ ((takers deeds).toFinset ∪ (givers deeds).toFinset),
      (givers deeds).count p = (givers deeds).length := by
    apply sum_count
    intro p mem
    simp [mem]
  rw [wider, ← length_takers, ← length_givers, ← taken, ← given]
  push_cast
  exact Finset.sum_sub_distrib _ _

/-- Among honest processes, every holder has at least one of the tokens that are out. -/
theorem Honest.card_le (honest : Honest deeds) {S : Finset Proc}
    (holders : ∀ p ∈ S, 0 < held p deeds) :
    (S.card : Int) ≤ (tokensOut deeds : Int) - deeds.countP Deed.isPost := by
  have all : ∀ p, held p deeds ≠ 0 → p ∈ S ∪ (takers deeds).toFinset := by
    intro p holds
    have positive : 0 < held p deeds := lt_of_le_of_ne (honest p) (Ne.symm holds)
    exact Finset.mem_union_right _ (List.mem_toFinset.mpr (mem_takers_of_held positive))
  calc (S.card : Int) = ∑ p ∈ S, 1 := by simp
    _ ≤ ∑ p ∈ S, held p deeds := Finset.sum_le_sum holders
    _ ≤ ∑ p ∈ S ∪ (takers deeds).toFinset, held p deeds :=
        Finset.sum_le_sum_of_subset_of_nonneg Finset.subset_union_left fun p _ _ => honest p
    _ = (tokensOut deeds : Int) - deeds.countP Deed.isPost := sum_held all

/-! ## Tokens of a semaphore -/

variable {place : Option (Sem Proc)} {s : Sem Proc}

/-- The tokens that are out are those that the semaphore began with, without those its
count shows. -/
theorem Sem.tokens_out_of_run (run : Run Sem.step Sem.Enabled none deeds place)
    (here : place = some s) :
    (tokensOut (current deeds) : Int) - (current deeds).countP Deed.isPost =
      initialValue (current deeds) - max 0 s.count := by
  have conserved := Sem.conserved_of_run run here
  rw [Sem.Conserved, tokensIn] at conserved
  omega

end MinixSemaphore.Semaphore
