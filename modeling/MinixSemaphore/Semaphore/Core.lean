import MinixSemaphore.Transition.Run

/-!
# Counting semaphores

A semaphore has a count, the processes that may use it, and the processes that
wait on it. A place for semaphores is empty or holds one, and the deeds done to it
create a semaphore there, use it, and release it. The types of processes and of
the names that semaphores may be created under are left open.
-/

namespace MinixSemaphore.Semaphore

open MinixSemaphore.Transition

universe u v w

/-- What there is to see of a semaphore. -/
structure View (Proc : Type u) where
  count : Int
  members : List Proc
  waiters : List Proc
  unlinked : Bool

/-- A semaphore. As many processes wait on it as its count is below zero. -/
structure Sem (Proc : Type u) extends View Proc where
  balance : waiters.length = (-count).toNat

/-- What can be done to a semaphore. One that is created without an origin has no
name. -/
inductive Deed (Proc : Type u) (Origin : Type v)
  | created (p : Proc) (value : Nat) (origin : Option Origin)
  | opened (p : Proc)
  | inherited (parent child : Proc)
  | closed (p : Proc)
  | passed (p : Proc)
  | queued (p : Proc)
  | tried (p : Proc)
  | posted (p : Proc) (woken : Option Proc)
  | unlinked (p : Proc)
  | destroyed (p : Proc)
  deriving DecidableEq

namespace Sem

variable {Proc : Type u} {Origin : Type v}

/-- A new semaphore, used by its creator alone. -/
def fresh (p : Proc) (value : Nat) (unlinked : Bool) : Sem Proc where
  count := value
  members := [p]
  waiters := []
  unlinked := unlinked
  balance := by simp

/-- One more use by a process. -/
def join (p : Proc) (s : Sem Proc) : Sem Proc :=
  { s with members := p :: s.members }

/-- Take the name away. -/
def mark (s : Sem Proc) : Sem Proc :=
  { s with unlinked := true }

/-- Count down, and wait if the count is not positive. -/
def wait (p : Proc) (s : Sem Proc) : Sem Proc :=
  if blocked : s.count ≤ 0 then
    { s with
      count := s.count - 1
      waiters := p :: s.waiters
      balance := by
        have balance := s.balance
        rw [List.length_cons]
        omega }
  else
    { s with
      count := s.count - 1
      balance := by
        have balance := s.balance
        omega }

/-- Count up, and wake the first waiter if the count is negative. -/
def post (s : Sem Proc) : Sem Proc :=
  if negative : s.count < 0 then
    { s with
      count := s.count + 1
      waiters := s.waiters.tail
      balance := by
        have balance := s.balance
        rw [List.length_tail]
        omega }
  else
    { s with
      count := s.count + 1
      balance := by
        have balance := s.balance
        omega }

/-- When a deed may be done to a semaphore that exists. Whoever uses it is a
member, and a post wakes the first waiter if there has to be one. -/
def Admits (s : Sem Proc) : Deed Proc Origin → Prop
  | .created _ _ _ => False
  | .opened _ => s.unlinked = false
  | .inherited parent _ => parent ∈ s.members
  | .closed p => p ∈ s.members
  | .passed p => p ∈ s.members ∧ 0 < s.count
  | .queued p => p ∈ s.members ∧ s.count ≤ 0
  | .tried p => p ∈ s.members ∧ 0 < s.count
  | .posted p woken =>
      p ∈ s.members ∧ woken = if s.count < 0 then s.waiters.head? else none
  | .unlinked p => p ∈ s.members ∧ s.unlinked = false
  | .destroyed p => p ∈ s.members ∧ s.waiters = []

/-- When a deed may be done to a place: only a creation fills an empty one. -/
def Enabled : Option (Sem Proc) → Deed Proc Origin → Prop
  | none, .created _ _ _ => True
  | none, _ => False
  | some s, deed => s.Admits deed

/-- Where there is no semaphore, only a creation is possible. -/
theorem creates_of_enabled {deed : Deed Proc Origin} (enabled : Enabled none deed) :
    ∃ p value origin, deed = .created p value origin := by
  cases deed with
  | created p value origin => exact ⟨p, value, origin, rfl⟩
  | _ => exact enabled.elim

theorem exists_of_enabled {place : Option (Sem Proc)} {deed : Deed Proc Origin}
    (enabled : Enabled place deed) (notCreated : ∀ p value origin, deed ≠ .created p value origin) :
    ∃ s, place = some s ∧ s.Admits deed := by
  cases place with
  | some s => exact ⟨s, rfl, enabled⟩
  | none =>
      obtain ⟨p, value, origin, created⟩ := creates_of_enabled enabled
      exact absurd created (notCreated p value origin)

variable [DecidableEq Proc]

/-- One use less by a process; a semaphore without a name ends with its last use. -/
def leave (p : Proc) (s : Sem Proc) : Option (Sem Proc) :=
  if s.unlinked = true ∧ s.members.erase p = [] then none
  else some { s with members := s.members.erase p }

/-- The effect of a deed on a place. -/
def step : Option (Sem Proc) → Deed Proc Origin → Option (Sem Proc)
  | _, .created p value origin => some (fresh p value origin.isNone)
  | place, .opened p => place.map (join p)
  | place, .inherited _ child => place.map (join child)
  | place, .closed p => place.bind (leave p)
  | place, .passed p => place.map (wait p)
  | place, .queued p => place.map (wait p)
  | place, .tried p => place.map (wait p)
  | place, .posted _ _ => place.map post
  | place, .unlinked _ => place.map mark
  | _, .destroyed _ => none

end Sem

/-! ## Tables -/

section Tables

variable {Proc : Type u} {Origin : Type v} {Place : Type w}

/-- A semaphore, or none, at every place. -/
abbrev Table (Place : Type w) (Proc : Type u) :=
  Place → Option (Sem Proc)

/-- A deed and where it is done. -/
structure Action (Place : Type w) (Proc : Type u) (Origin : Type v) where
  place : Place
  deed : Deed Proc Origin
  deriving DecidableEq

variable [DecidableEq Place]

namespace Table

variable [DecidableEq Proc]

/-- The effect of an action on a table. -/
def step (T : Table Place Proc) (a : Action Place Proc Origin) : Table Place Proc :=
  Function.update T a.place (Sem.step (T a.place) a.deed)

/-- The action is enabled at its place. -/
def Enabled (T : Table Place Proc) (a : Action Place Proc Origin) : Prop :=
  Sem.Enabled (T a.place) a.deed

end Table

/-- What a log says was done at one place. -/
def deedsAt (x : Place) (log : List (Action Place Proc Origin)) : List (Deed Proc Origin) :=
  (log.filter fun a => a.place = x).map Action.deed

@[simp]
theorem deedsAt_append (x : Place) (log more : List (Action Place Proc Origin)) :
    deedsAt x (log ++ more) = deedsAt x log ++ deedsAt x more := by
  simp [deedsAt]

theorem deedsAt_singleton_self (a : Action Place Proc Origin) :
    deedsAt a.place [a] = [a.deed] := by
  simp [deedsAt]

theorem deedsAt_singleton_of_ne {x : Place} {a : Action Place Proc Origin}
    (other : a.place ≠ x) : deedsAt x [a] = [] := by
  simp [deedsAt, other]

theorem deedsAt_eq_nil {x : Place} {log : List (Action Place Proc Origin)}
    (elsewhere : ∀ a ∈ log, a.place ≠ x) : deedsAt x log = [] := by
  rw [deedsAt, List.map_eq_nil_iff, List.filter_eq_nil_iff]
  intro a mem here
  exact elsewhere a mem (of_decide_eq_true here)

/-- If a log visits every place at most once, then at most one deed is done at a place. -/
theorem deedsAt_of_nodup {log : List (Action Place Proc Origin)}
    (once : (log.map Action.place).Nodup) (x : Place) :
    deedsAt x log = [] ∨ ∃ deed, deedsAt x log = [deed] ∧ ⟨x, deed⟩ ∈ log := by
  by_cases visited : ∃ deed, ⟨x, deed⟩ ∈ log
  · right
    obtain ⟨deed, mem⟩ := visited
    obtain ⟨before, after, rfl⟩ := List.append_of_mem mem
    rw [List.map_append, List.map_cons, List.nodup_append, List.nodup_cons] at once
    obtain ⟨-, ⟨fresh, -⟩, apart⟩ := once
    refine ⟨deed, ?_, mem⟩
    have first : deedsAt x before = [] := by
      apply deedsAt_eq_nil
      intro a mem here
      exact apart _ (List.mem_map_of_mem mem) _ List.mem_cons_self here
    have rest : deedsAt x after = [] := by
      apply deedsAt_eq_nil
      intro a mem here
      exact fresh (List.mem_map.mpr ⟨a, mem, here⟩)
    have self := deedsAt_singleton_self (⟨x, deed⟩ : Action Place Proc Origin)
    rw [← List.singleton_append, deedsAt_append, deedsAt_append, first, rest, List.nil_append,
      List.append_nil]
    exact self
  · left
    apply deedsAt_eq_nil
    rintro ⟨y, deed⟩ mem rfl
    exact visited ⟨deed, mem⟩

/-- What happens at one place of a table is a run of that place. -/
theorem run_deedsAt [DecidableEq Proc] {T T' : Table Place Proc}
    {log : List (Action Place Proc Origin)} (run : Run Table.step Table.Enabled T log T')
    (x : Place) :
    Run Sem.step Sem.Enabled (T x) (deedsAt x log) (T' x) := by
  induction run with
  | nil => exact Run.nil
  | @snoc log T' a before enabled ih =>
      by_cases same : a.place = x
      · subst same
        rw [deedsAt_append, deedsAt_singleton_self, Table.step, Function.update_self]
        exact Run.snoc ih enabled
      · rw [deedsAt_append, deedsAt_singleton_of_ne same, List.append_nil, Table.step,
          Function.update_of_ne (Ne.symm same)]
        exact ih

end Tables

end MinixSemaphore.Semaphore
