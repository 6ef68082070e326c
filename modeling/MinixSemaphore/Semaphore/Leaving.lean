import Mathlib

/-!
# Leaving a pair of lists

One list holds the users of something, with repetitions, and another one holds the
processes that wait for it. A process that leaves is taken out of the first list once. If
the visit says that this may be the end, and the first list is empty then, both lists are
dropped. What is left of a process after a number of visits is determined here.
-/

namespace MinixSemaphore.Semaphore

universe u v

variable {Proc : Type u} {ι : Type v} {p : Proc} {last : ι → Bool} {places : List ι}

/-- One of the visits may be the end, and takes `p` out as the only user. -/
def Ends (p : Proc) (last : ι → Bool) (places : List ι) (users : List Proc) : Prop :=
  ∃ before i after, places = before ++ i :: after ∧ last i = true ∧
    users = List.replicate (before.length + 1) p

/-- Nobody leaves a list without being in it. -/
theorem not_ends_of_notMem {users : List Proc} (outsider : p ∉ users) :
    ¬Ends p last places users := by
  rintro ⟨before, i, after, -, -, rfl⟩
  exact outsider (List.mem_replicate.mpr ⟨Nat.succ_ne_zero _, rfl⟩)

variable [DecidableEq Proc]

/-- `p` leaves once, if it is a user. -/
def visit (p : Proc) (lists : List Proc × List Proc) (last : Bool) : List Proc × List Proc :=
  if p ∈ lists.1 then
    if last = true ∧ lists.1.erase p = [] then ([], []) else (lists.1.erase p, lists.2)
  else lists

/-- `p` leaves at each of the given places. -/
def visits (p : Proc) (last : ι → Bool) (places : List ι) (lists : List Proc × List Proc) :
    List Proc × List Proc :=
  places.foldl (fun lists i => visit p lists (last i)) lists

variable {lists : List Proc × List Proc}

theorem visit_of_notMem (outsider : p ∉ lists.1) (end' : Bool) :
    visit p lists end' = lists :=
  if_neg outsider

theorem visit_fst (p : Proc) (lists : List Proc × List Proc) (end' : Bool) :
    (visit p lists end').1 = lists.1.erase p := by
  rw [visit]
  split
  · split
    · rename_i ends
      exact ends.2.symm
    · rfl
  · rename_i outsider
    exact (List.erase_of_not_mem outsider).symm

/-- Every visit takes away one use. -/
theorem count_visits (p : Proc) (last : ι → Bool) (places : List ι)
    (lists : List Proc × List Proc) :
    (visits p last places lists).1.count p = lists.1.count p - places.length := by
  induction places generalizing lists with
  | nil => rfl
  | cons i rest ih =>
      have next := ih (visit p lists (last i))
      rw [visit_fst, List.count_erase_self, Nat.sub_sub, Nat.add_comm] at next
      exact next

theorem visits_fst_subset (p : Proc) (last : ι → Bool) (places : List ι)
    (lists : List Proc × List Proc) : (visits p last places lists).1 ⊆ lists.1 := by
  induction places generalizing lists with
  | nil => exact List.Subset.refl _
  | cons i rest ih =>
      have next := ih (visit p lists (last i))
      rw [visit_fst] at next
      exact List.Subset.trans next List.erase_subset

theorem notMem_visits_fst_iff :
    p ∉ (visits p last places lists).1 ↔ lists.1.count p ≤ places.length := by
  rw [← List.count_eq_zero, count_visits, Nat.sub_eq_zero_iff_le]

/-- A process leaves a list of its own uses only. -/
theorem erase_eq_replicate_iff {users : List Proc} (member : p ∈ users) (n : Nat) :
    users.erase p = List.replicate n p ↔ users = List.replicate (n + 1) p := by
  have same := List.perm_cons_erase member
  constructor
  · intro rest
    rw [rest, ← List.replicate_succ] at same
    exact List.perm_replicate.mp same
  · rintro rfl
    rw [List.replicate_succ, List.erase_cons_head]

theorem ends_cons_iff {i : ι} {rest : List ι} {users : List Proc} (member : p ∈ users) :
    Ends p last (i :: rest) users ↔
      last i = true ∧ users.erase p = [] ∨ Ends p last rest (users.erase p) := by
  constructor
  · rintro ⟨before, j, after, split, may, only⟩
    cases before with
    | nil =>
        obtain ⟨rfl, -⟩ := List.cons.inj split
        exact Or.inl ⟨may, (erase_eq_replicate_iff member 0).mpr only⟩
    | cons i' before =>
        obtain ⟨-, later⟩ := List.cons.inj split
        exact Or.inr ⟨before, j, after, later, may, (erase_eq_replicate_iff member _).mpr only⟩
  · rintro (⟨may, empty⟩ | ⟨before, j, after, split, may, only⟩)
    · exact ⟨[], i, rest, rfl, may, (erase_eq_replicate_iff member 0).mp empty⟩
    · refine ⟨i :: before, j, after, ?_, may, (erase_eq_replicate_iff member _).mp only⟩
      rw [split]
      rfl

theorem visits_of_notMem (outsider : p ∉ lists.1) : visits p last places lists = lists := by
  induction places with
  | nil => rfl
  | cons i rest ih =>
      rw [visits, List.foldl_cons, visit_of_notMem outsider]
      exact ih

/-- As many visits as there are uses in front of other users bring back what was behind
them. -/
theorem visits_replicate {users : List Proc} (company : users ≠ []) (waiting : List Proc) :
    visits p last places (List.replicate places.length p ++ users, waiting) =
      (users, waiting) := by
  induction places with
  | nil => rfl
  | cons i rest ih =>
      have erased : (List.replicate (i :: rest).length p ++ users).erase p =
          List.replicate rest.length p ++ users := by
        rw [List.length_cons, List.replicate_succ, List.cons_append, List.erase_cons_head]
      have first : visit p (List.replicate (i :: rest).length p ++ users, waiting) (last i) =
          (List.replicate rest.length p ++ users, waiting) := by
        rw [visit, if_pos (by simp)]
        simp only [erased]
        exact if_neg fun ends => company (List.append_eq_nil_iff.mp ends.2).2
      rw [visits, List.foldl_cons, first]
      exact ih

/-- The second list is dropped if a visit is the end, and stays otherwise. -/
theorem visits_snd (p : Proc) (last : ι → Bool) (places : List ι)
    (lists : List Proc × List Proc) :
    Ends p last places lists.1 ∧ (visits p last places lists).2 = [] ∨
      ¬Ends p last places lists.1 ∧ (visits p last places lists).2 = lists.2 := by
  induction places generalizing lists with
  | nil =>
      right
      constructor
      · rintro ⟨before, i, after, split, -⟩
        exact absurd split.symm (List.append_ne_nil_of_right_ne_nil _ (List.cons_ne_nil _ _))
      · rfl
  | cons i rest ih =>
      by_cases member : p ∈ lists.1
      · rw [ends_cons_iff member]
        have next := ih (visit p lists (last i))
        rw [visit_fst] at next
        by_cases now : last i = true ∧ lists.1.erase p = []
        · left
          constructor
          · exact Or.inl now
          · have dropped : visit p lists (last i) = ([], []) := by
              rw [visit, if_pos member, if_pos now]
            rw [visits, List.foldl_cons, dropped]
            exact congrArg Prod.snd (visits_of_notMem List.not_mem_nil)
        · have kept : (visit p lists (last i)).2 = lists.2 := by
            rw [visit, if_pos member, if_neg now]
          rcases next with ⟨ends, gone⟩ | ⟨goesOn, stays⟩
          · exact Or.inl ⟨Or.inr ends, gone⟩
          · exact Or.inr ⟨not_or.mpr ⟨now, goesOn⟩, stays.trans kept⟩
      · exact Or.inr ⟨not_ends_of_notMem member, congrArg Prod.snd (visits_of_notMem member)⟩

/-- A process waits no more if it has not waited before, or if a visit is the end. -/
theorem notMem_visits_snd_iff :
    p ∉ (visits p last places lists).2 ↔ (p ∈ lists.2 → Ends p last places lists.1) := by
  rcases visits_snd p last places lists with ⟨ends, gone⟩ | ⟨goesOn, stays⟩
  · rw [gone]
    exact iff_of_true List.not_mem_nil fun _ => ends
  · rw [stays]
    constructor
    · exact fun idle waits => absurd waits idle
    · exact fun implies waits => goesOn (implies waits)

end MinixSemaphore.Semaphore
