import MinixSemaphore.Semaphore.Waiting

/-!
# A ledger of tokens

Semaphores come and go at their places. A ledger knows the value with which the semaphore
at a place began. For each value it counts the semaphores that began with it, the tokens
that were taken from them, and the tokens that were given to them. However often places
are used again, no more is taken than was there at the beginning or was given later.
-/

namespace MinixSemaphore.Semaphore

open MinixSemaphore.Transition

universe u v w

variable {Proc : Type u} {Origin : Type v} {Place : Type w}

/-- The tokens that a deed takes: a wait that is granted, a try, and a post that wakes. -/
def Deed.takes : Deed Proc Origin → Nat
  | .passed _ | .tried _ | .posted _ (some _) => 1
  | _ => 0

/-- The tokens that a deed gives. -/
def Deed.gives : Deed Proc Origin → Nat
  | .posted _ _ => 1
  | _ => 0

/-- The tokens that a place has to spare. -/
def spare : Option (Sem Proc) → Nat
  | none => 0
  | some s => s.count.toNat

/-- In a run that visits every place at most once, every action is enabled from the start. -/
theorem enabled_of_nodup [DecidableEq Place] [DecidableEq Proc] {T T' : Table Place Proc}
    {log : List (Action Place Proc Origin)} {a : Action Place Proc Origin}
    (run : Run Table.step Table.Enabled T log T') (once : (log.map Action.place).Nodup)
    (mem : a ∈ log) : T.Enabled a := by
  have here : a.deed ∈ deedsAt a.place log :=
    List.mem_map_of_mem (List.mem_filter.mpr ⟨mem, decide_eq_true rfl⟩)
  have run := run_deedsAt run a.place
  rcases deedsAt_of_nodup once a.place with nothing | ⟨deed, only, -⟩
  · rw [nothing] at here
    contradiction
  · rw [only] at here run
    rw [Table.Enabled, List.mem_singleton.mp here]
    exact run.singleton.1

structure Ledger (Place : Type w) where
  kind : Place → Nat
  made : Nat → Nat
  taken : Nat → Nat
  given : Nat → Nat

namespace Ledger

/-- Before anything has been done. -/
def empty : Ledger Place :=
  ⟨fun _ => 0, fun _ => 0, fun _ => 0, fun _ => 0⟩

section

variable [DecidableEq Place]

/-- Enter an action. -/
def enter (L : Ledger Place) (a : Action Place Proc Origin) : Ledger Place where
  kind := if a.deed.creates then Function.update L.kind a.place a.deed.value else L.kind
  made v := L.made v + if a.deed.creates ∧ a.deed.value = v then 1 else 0
  taken v := L.taken v + if L.kind a.place = v then a.deed.takes else 0
  given v := L.given v + if L.kind a.place = v then a.deed.gives else 0

/-- The ledger of a log. -/
def ofLog (log : List (Action Place Proc Origin)) : Ledger Place :=
  log.foldl enter empty

@[simp]
theorem ofLog_snoc (log : List (Action Place Proc Origin)) (a : Action Place Proc Origin) :
    ofLog (log ++ [a]) = (ofLog log).enter a := by
  rw [ofLog, List.foldl_append]
  rfl

variable {L : Ledger Place} {T : Table Place Proc} {a : Action Place Proc Origin} {p : Proc}
  {x : Place} {value : Nat}

theorem taken_enter (value : Nat) : (L.enter a).taken value =
    L.taken value + if L.kind a.place = value then a.deed.takes else 0 :=
  rfl

theorem given_enter (value : Nat) : (L.enter a).given value =
    L.given value + if L.kind a.place = value then a.deed.gives else 0 :=
  rfl

theorem kind_enter (notCreation : a.deed.creates = false) : (L.enter a).kind = L.kind := by
  rw [enter, notCreation]
  rfl

theorem kind_enter_of_created {origin : Option Origin} (deed : a.deed = .created p value origin) :
    (L.enter a).kind a.place = value := by
  rw [enter, deed]
  exact Function.update_self _ _ _

theorem kind_enter_of_ne {y : Place} (other : y ≠ a.place) :
    (L.enter a).kind y = L.kind y := by
  rw [enter]
  dsimp only
  split
  · exact Function.update_of_ne other _ _
  · rfl

/-- Where nothing has been created, the semaphore is the one that was there before. -/
theorem kind_append {log more : List (Action Place Proc Origin)}
    (elsewhere : ∀ a ∈ more, a.deed.creates = true → a.place ≠ x) :
    (ofLog (log ++ more)).kind x = (ofLog log).kind x := by
  induction more using List.reverseRecOn with
  | nil => rw [List.append_nil]
  | append_singleton more a ih =>
      rw [← List.append_assoc, ofLog_snoc, ← ih fun b mem => elsewhere b (by simp [mem])]
      by_cases creates : a.deed.creates = true
      · exact kind_enter_of_ne (Ne.symm (elsewhere a (by simp) creates))
      · rw [kind_enter (Bool.not_eq_true _ ▸ creates)]

theorem made_enter (notCreation : a.deed.creates = false) : (L.enter a).made = L.made := by
  funext v
  rw [enter, notCreation]
  simp

/-! ## Processes and what they use -/

/-- At the place is a semaphore that began with the value, and the process is a member. -/
def Uses (L : Ledger Place) (T : Table Place Proc) (p : Proc) (x : Place) (value : Nat) : Prop :=
  ∃ s, T x = some s ∧ p ∈ s.members ∧ L.kind x = value

variable [DecidableEq Proc]

omit [DecidableEq Place] [DecidableEq Proc] in
theorem not_creates_of_some {s : Sem Proc} (enabled : T.Enabled a) (here : T a.place = some s) :
    a.deed.creates = false := by
  rw [Table.Enabled, here] at enabled
  cases deed : a.deed with
  | created p value origin =>
      rw [deed] at enabled
      exact enabled.elim
  | _ => rfl

/-- Nobody is deprived of a semaphore but by a close of his own, or by its destruction. -/
theorem Uses.step (uses : L.Uses T p x value) (enabled : T.Enabled a)
    (stays : a ≠ ⟨x, .closed p⟩) (lasts : ∀ q, a ≠ ⟨x, .destroyed q⟩) :
    (L.enter a).Uses (T.step a) p x value := by
  obtain ⟨s, here, member, kind⟩ := uses
  obtain ⟨y, deed⟩ := a
  by_cases same : x = y
  · subst same
    have admits : s.Admits deed := by
      rw [Table.Enabled, here] at enabled
      exact enabled
    have kept : (L.enter ⟨x, deed⟩).kind = L.kind :=
      kind_enter (not_creates_of_some enabled here)
    have result : T.step ⟨x, deed⟩ x = Sem.step (some s) deed := by
      rw [← here]
      exact Table.step_self
    cases after : Sem.step (some s) deed with
    | none =>
        rcases Sem.closed_of_step_none admits after with ⟨q, rfl, alone⟩ | ⟨q, rfl⟩
        · rw [alone, List.mem_singleton] at member
          exact absurd (by rw [member]) stays
        · exact absurd rfl (lasts q)
    | some t =>
        have stays : deed ≠ .closed p := fun closes => stays (by rw [closes])
        exact ⟨t, result.trans after, Sem.mem_members_step admits after member stays,
          (congrFun kept x).trans kind⟩
  · exact ⟨s, (Table.step_of_ne same).trans here, member, (kind_enter_of_ne same).trans kind⟩

/-- Whoever uses a semaphore still uses it after a run in which he does not close it. -/
theorem Uses.run {T' : Table Place Proc} {log more : List (Action Place Proc Origin)}
    (uses : (ofLog log).Uses T p x value) (run : Run Table.step Table.Enabled T more T')
    (stays : ∀ a ∈ more, a ≠ ⟨x, .closed p⟩) (lasts : ∀ a ∈ more, ∀ q, a ≠ ⟨x, .destroyed q⟩) :
    (ofLog (log ++ more)).Uses T' p x value := by
  induction run with
  | nil => rwa [List.append_nil]
  | @snoc more T' a before enabled ih =>
      rw [← List.append_assoc, ofLog_snoc]
      exact (ih (fun b mem => stays b (by simp [mem])) fun b mem => lasts b (by simp [mem])).step
        enabled (stays a (by simp)) (lasts a (by simp))

/-- Whoever creates a semaphore uses it. -/
theorem uses_of_created {origin : Option Origin} (deed : a.deed = .created p value origin) :
    (L.enter a).Uses (T.step a) p a.place value := by
  refine ⟨Sem.fresh p value origin.isNone, ?_, List.mem_singleton_self p, ?_⟩
  · rw [Table.step_self, deed]
    rfl
  · exact kind_enter_of_created deed

/-- Whoever opens a semaphore uses it. -/
theorem uses_of_opened (enabled : T.Enabled a) (deed : a.deed = .opened p)
    (kind : L.kind a.place = value) : (L.enter a).Uses (T.step a) p a.place value := by
  rw [Table.Enabled, deed] at enabled
  obtain ⟨s, here, -⟩ := Sem.exists_of_enabled enabled fun _ _ _ => by simp
  refine ⟨s.join p, ?_, List.mem_cons_self, ?_⟩
  · rw [Table.step_self, here, deed]
    rfl
  · rw [kind_enter (by rw [deed]; rfl)]
    exact kind

/-! ## The balance -/

/-- A deed other than a creation gives at least what it takes and adds to the spare
tokens. -/
theorem spare_step {s : Sem Proc} {deed : Deed Proc Origin} (admits : s.Admits deed) :
    deed.takes + spare (Sem.step (some s) deed) ≤ spare (some s) + deed.gives := by
  cases deed with
  | created => exact admits.elim
  | destroyed p => exact Nat.zero_le _
  | opened p | inherited parent child | unlinked p => exact (Nat.zero_add _).le
  | closed p =>
      rw [show Sem.step (some s) (Deed.closed p : Deed Proc Origin) = s.leave p from rfl]
      cases left : s.leave p with
      | none => exact Nat.zero_le _
      | some t =>
          rw [Sem.leave_eq_some left]
          exact (Nat.zero_add _).le
  | passed p | tried p =>
      obtain ⟨-, positive⟩ := admits
      change 1 + (s.wait p).count.toNat ≤ s.count.toNat + 0
      rw [Sem.wait_count]
      omega
  | queued p =>
      change 0 + (s.wait p).count.toNat ≤ s.count.toNat + 0
      rw [Sem.wait_count]
      omega
  | posted p woken =>
      change Deed.takes (Deed.posted p woken : Deed Proc Origin) + s.post.count.toNat ≤
        s.count.toNat + 1
      rw [Sem.post_count]
      cases woken with
      | none =>
          change 0 + _ ≤ _
          omega
      | some q =>
          obtain ⟨-, woken⟩ := admits
          split at woken
          · change 1 + _ ≤ _
            omega
          · contradiction

end

section

variable [Fintype Place]

/-- A sum in which one term changes. -/
theorem sum_add_of_ne {f g : Place → Nat} {x : Place} (same : ∀ y, y ≠ x → g y = f y) :
    (∑ y, g y) + f x = (∑ y, f y) + g x := by
  classical
  have rest : ∑ y ∈ Finset.univ.erase x, g y = ∑ y ∈ Finset.univ.erase x, f y :=
    Finset.sum_congr rfl fun y mem => same y (Finset.ne_of_mem_erase mem)
  rw [← Finset.add_sum_erase _ f (Finset.mem_univ x), ← Finset.add_sum_erase _ g
    (Finset.mem_univ x), rest]
  omega

/-- The tokens that a place has to spare, if its semaphore began with the value. -/
def sparesAt (L : Ledger Place) (T : Table Place Proc) (value : Nat) (x : Place) : Nat :=
  if L.kind x = value then spare (T x) else 0

/-- The spare tokens of all semaphores that began with the value. -/
def spares (L : Ledger Place) (T : Table Place Proc) (value : Nat) : Nat :=
  ∑ x, L.sparesAt T value x

/-- No more tokens are out and to spare than there were at the beginning or were given. -/
def Balanced (L : Ledger Place) (T : Table Place Proc) : Prop :=
  ∀ value, L.taken value + L.spares T value ≤ value * L.made value + L.given value

theorem balanced_empty : (empty : Ledger Place).Balanced (fun _ => none : Table Place Proc) := by
  intro value
  have nothing : (empty : Ledger Place).spares (fun _ => none : Table Place Proc) value = 0 :=
    Finset.sum_eq_zero fun x _ => ite_self 0
  rw [nothing]
  exact Nat.zero_le _

variable [DecidableEq Place] [DecidableEq Proc]
  {L : Ledger Place} {T : Table Place Proc} {a : Action Place Proc Origin}

/-- An action changes what is to spare at its place only. -/
theorem spares_enter (L : Ledger Place) (T : Table Place Proc) (a : Action Place Proc Origin)
    (value : Nat) : (L.enter a).spares (T.step a) value +
      (if L.kind a.place = value then spare (T a.place) else 0) = L.spares T value +
        if (L.enter a).kind a.place = value then spare (Sem.step (T a.place) a.deed) else 0 := by
  have here : T.step a a.place = Sem.step (T a.place) a.deed := Table.step_self
  rw [← here]
  refine sum_add_of_ne (f := L.sparesAt T value) (g := (L.enter a).sparesAt (T.step a) value)
    fun y other => ?_
  rw [sparesAt, sparesAt, kind_enter_of_ne other, Table.step_of_ne other]

theorem Balanced.step (balanced : L.Balanced T) (enabled : T.Enabled a) :
    (L.enter a).Balanced (T.step a) := by
  intro value
  have before := balanced value
  have moved := spares_enter L T a value
  rw [taken_enter, given_enter]
  cases here : T a.place with
  | none =>
      rw [Table.Enabled, here] at enabled
      obtain ⟨p, initial, origin, deed⟩ := Sem.creates_of_enabled enabled
      have kind : (L.enter a).kind a.place = initial := kind_enter_of_created deed
      have made : (L.enter a).made value = L.made value + if initial = value then 1 else 0 := by
        rw [enter, deed]
        simp [Deed.creates, Deed.value]
      rw [here, kind, deed] at moved
      rw [made, deed]
      change _ + (if _ then 0 else 0) = _ + (if _ then (initial : Int).toNat else 0) at moved
      change _ + (if _ then 0 else 0) + _ ≤ _ + (_ + if _ then 0 else 0)
      rw [ite_self] at moved ⊢
      by_cases same : initial = value
      · rw [if_pos same] at moved ⊢
        rw [Nat.mul_add]
        omega
      · rw [if_neg same] at moved ⊢
        rw [Nat.add_zero (L.made value)]
        omega
  | some s =>
      have notCreation := not_creates_of_some enabled here
      rw [Table.Enabled, here] at enabled
      have exchange := spare_step enabled
      rw [kind_enter notCreation, here] at moved
      rw [made_enter notCreation]
      by_cases same : L.kind a.place = value
      · rw [if_pos same, if_pos same] at moved ⊢
        omega
      · rw [if_neg same, if_neg same] at moved ⊢
        omega

/-- However the places are used, the ledger stays balanced. -/
theorem balanced_of_run {log : List (Action Place Proc Origin)}
    (run : Run Table.step Table.Enabled (fun _ => none) log T) : (ofLog log).Balanced T := by
  induction run with
  | nil => exact balanced_empty
  | snoc _ enabled ih =>
      rw [ofLog_snoc]
      exact ih.step enabled

/-- What is taken was there at the beginning, or has been given. -/
theorem taken_le {log : List (Action Place Proc Origin)}
    (run : Run Table.step Table.Enabled (fun _ => none) log T) (value : Nat) :
    (ofLog log).taken value ≤ value * (ofLog log).made value + (ofLog log).given value :=
  (Nat.le_add_right _ _).trans (balanced_of_run run value)

end

end Ledger

end MinixSemaphore.Semaphore
