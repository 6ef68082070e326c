import MinixSemaphore.Semaphore.History

/-!
# Who waits where

A process that waits does nothing. As long as this is so, nobody waits at two
places or twice at one, whoever waits is a member, and a semaphore ends only when
nobody waits on it.
-/

namespace MinixSemaphore.Semaphore

open MinixSemaphore.Transition

universe u v w

variable {Proc : Type u} {Origin : Type v} {Place : Type w}

/-- The action wakes `p`. -/
def Action.Wakes (p : Proc) (a : Action Place Proc Origin) : Prop :=
  ∃ q, a.deed = .posted q (some p)

/-- The waiters a deed leaves. -/
def Deed.queue (waiters : List Proc) : Deed Proc Origin → List Proc
  | .queued p => p :: waiters
  | .posted _ (some _) => waiters.tail
  | _ => waiters

namespace Table

variable {T : Table Place Proc} {a : Action Place Proc Origin} {p : Proc} {x y : Place}

/-- `p` waits on the semaphore at `x`. -/
def Waits (T : Table Place Proc) (p : Proc) (x : Place) : Prop :=
  ∃ s, T x = some s ∧ p ∈ s.waiters

/-- Nobody who waits asks for more or leaves. -/
def Patient (T : Table Place Proc) (a : Action Place Proc Origin) : Prop :=
  ∀ p, a.deed = .queued p ∨ a.deed = .closed p → ∀ x, ¬T.Waits p x

/-- Whoever waits is a member and waits only once, at one place. -/
structure Settled (T : Table Place Proc) : Prop where
  member : ∀ x s, T x = some s → ∀ p ∈ s.waiters, p ∈ s.members
  once : ∀ x s, T x = some s → s.waiters.Nodup
  only : ∀ p x y, T.Waits p x → T.Waits p y → x = y

theorem settled_empty : Settled (fun _ => none : Table Place Proc) where
  member _ _ here := nomatch here
  once _ _ here := nomatch here
  only _ _ _ := fun ⟨_, here, _⟩ => nomatch here

theorem Patient.stays {s : Sem Proc} (patient : T.Patient a) (here : T x = some s) :
    ∀ p ∈ s.waiters, a.deed ≠ .closed p :=
  fun p waits closes => patient p (Or.inr closes) x ⟨s, here, waits⟩

theorem Settled.not_woken (settled : T.Settled) (enabled : T.Enabled a) (other : x ≠ a.place)
    (waits : T.Waits p x) : ¬a.Wakes p := by
  rintro ⟨q, posts⟩
  rw [Table.Enabled, posts] at enabled
  obtain ⟨s, here, -, woken⟩ := Sem.exists_of_enabled enabled fun _ _ _ => by simp
  split at woken
  · have waiter : p ∈ s.waiters := List.mem_of_head? woken.symm
    exact other (settled.only p x a.place waits ⟨s, here, waiter⟩)
  · contradiction

end Table

namespace Sem

variable [DecidableEq Proc] {s t : Sem Proc} {deed : Deed Proc Origin} {p : Proc}

/-- Who waits on a semaphore after a deed that leaves it in place. -/
theorem waiters_step (admits : s.Admits deed) (result : Sem.step (some s) deed = some t) :
    t.waiters = deed.queue s.waiters := by
  cases deed with
  | created => exact admits.elim
  | destroyed => exact nomatch result
  | opened => rw [← Option.some.inj result]; rfl
  | inherited => rw [← Option.some.inj result]; rfl
  | unlinked => rw [← Option.some.inj result]; rfl
  | closed => rw [leave_eq_some result]; rfl
  | passed => rw [← Option.some.inj result, wait, dif_neg (Int.not_le.mpr admits.2)]; rfl
  | tried => rw [← Option.some.inj result, wait, dif_neg (Int.not_le.mpr admits.2)]; rfl
  | queued => rw [← Option.some.inj result, wait, dif_pos admits.2]; rfl
  | posted q woken =>
      rw [← Option.some.inj result, post]
      obtain ⟨-, woken⟩ := admits
      by_cases negative : s.count < 0
      · obtain ⟨r, rest, waiters⟩ := exists_waiter negative
        rw [if_pos negative, waiters, List.head?_cons] at woken
        rw [dif_pos negative, woken]
        rfl
      · rw [if_neg negative] at woken
        rw [dif_neg negative, woken]
        rfl

/-- A post takes away the first waiter, who does not wait a second time. -/
theorem mem_waiters_step_iff (once : s.waiters.Nodup) (admits : s.Admits deed)
    (result : Sem.step (some s) deed = some t) : p ∈ t.waiters ↔
      p ∈ s.waiters ∧ (∀ q, deed ≠ .posted q (some p)) ∨ deed = .queued p := by
  rw [waiters_step admits result]
  cases deed with
  | posted q woken =>
      cases woken with
      | none => simp [Deed.queue]
      | some r =>
          have head : some r = s.waiters.head? := by
            have woken := admits.2
            split at woken
            · exact woken
            · contradiction
          obtain ⟨rest, split⟩ : ∃ rest, s.waiters = r :: rest := by
            cases waiters : s.waiters with
            | nil => simp [waiters] at head
            | cons first rest =>
                rw [waiters, List.head?_cons, Option.some.injEq] at head
                exact ⟨rest, by rw [head]⟩
          rw [split, List.nodup_cons] at once
          by_cases same : p = r
          · simp [Deed.queue, split, same, once.1]
          · simp [Deed.queue, split, same, Ne.symm same]
  | queued q =>
      simp only [Deed.queue, List.mem_cons]
      by_cases same : p = q
      · simp [same]
      · simp [same, Ne.symm same]
  | _ => simp [Deed.queue]

/-- Nobody waits twice if nobody queues who waits already. -/
theorem nodup_waiters_step (once : s.waiters.Nodup) (admits : s.Admits deed)
    (fresh : ∀ p, deed = .queued p → p ∉ s.waiters)
    (result : Sem.step (some s) deed = some t) : t.waiters.Nodup := by
  rw [waiters_step admits result]
  cases deed with
  | queued q => exact List.nodup_cons.mpr ⟨fresh q rfl, once⟩
  | posted q woken =>
      cases woken with
      | none => exact once
      | some r => exact once.tail
  | _ => exact once

/-- No deed but a close makes a member leave a semaphore that stays. -/
theorem mem_members_step (admits : s.Admits deed) (result : Sem.step (some s) deed = some t)
    (member : p ∈ s.members) (stays : deed ≠ .closed p) : p ∈ t.members := by
  cases deed with
  | created => exact admits.elim
  | destroyed => exact nomatch result
  | opened => rw [← Option.some.inj result]; exact List.mem_cons_of_mem _ member
  | inherited => rw [← Option.some.inj result]; exact List.mem_cons_of_mem _ member
  | unlinked => rw [← Option.some.inj result]; exact member
  | closed q =>
      rw [leave_eq_some result]
      refine (List.mem_erase_of_ne fun same => stays ?_).mpr member
      rw [same]
  | passed => rw [← Option.some.inj result, wait_members]; exact member
  | tried => rw [← Option.some.inj result, wait_members]; exact member
  | queued => rw [← Option.some.inj result, wait_members]; exact member
  | posted => rw [← Option.some.inj result, post_members]; exact member

/-- A semaphore whose waiters are members and stay ends only if it has none. -/
theorem waiters_of_step_none (admits : s.Admits deed) (result : Sem.step (some s) deed = none)
    (members : ∀ p ∈ s.waiters, p ∈ s.members) (stay : ∀ p ∈ s.waiters, deed ≠ .closed p) :
    s.waiters = [] := by
  cases deed with
  | destroyed => exact admits.2
  | closed q =>
      refine List.eq_nil_iff_forall_not_mem.mpr fun p waits => ?_
      have left : s.leave q = none := result
      rw [leave] at left
      split at left
      · rename_i last
        have other : p ≠ q := fun same => stay p waits (same ▸ rfl)
        have remains := (List.mem_erase_of_ne other).mpr (members p waits)
        rw [last.2] at remains
        exact absurd remains List.not_mem_nil
      · contradiction
  | created => exact admits.elim
  | _ => exact absurd result (Option.some_ne_none _)

end Sem

namespace Table

variable [DecidableEq Place] [DecidableEq Proc]
variable {T : Table Place Proc} {a : Action Place Proc Origin} {p : Proc} {x y : Place}

theorem step_self : T.step a a.place = Sem.step (T a.place) a.deed :=
  Function.update_self _ _ _

theorem step_of_ne (other : x ≠ a.place) : T.step a x = T x :=
  Function.update_of_ne other _ _

theorem waits_step_of_ne (other : x ≠ a.place) : (T.step a).Waits p x ↔ T.Waits p x := by
  rw [Waits, Waits, step_of_ne other]

/-- A patient action makes exactly the process wait that it queues, and exactly the
process stop waiting that it wakes. -/
theorem waits_step_iff (settled : T.Settled) (enabled : T.Enabled a) (patient : T.Patient a) :
    (T.step a).Waits p x ↔ T.Waits p x ∧ ¬a.Wakes p ∨ a = ⟨x, .queued p⟩ := by
  by_cases here : x = a.place
  · subst here
    obtain ⟨x, deed⟩ := a
    cases place : T x with
    | none =>
        rw [Table.Enabled, place] at enabled
        obtain ⟨q, value, origin, rfl⟩ := Sem.creates_of_enabled enabled
        have after : T.step ⟨x, .created q value origin⟩ x =
            some (Sem.fresh q value origin.isNone) :=
          step_self
        simp [Waits, after, place, Sem.fresh]
    | some s =>
        have admits : s.Admits deed := by
          rw [Table.Enabled, place] at enabled
          exact enabled
        have after : T.step ⟨x, deed⟩ x = Sem.step (some s) deed := by
          rw [← place]
          exact step_self
        cases result : Sem.step (some s) deed with
        | none =>
            have empty := Sem.waiters_of_step_none admits result (settled.member x s place)
              (patient.stays place)
            have notQueued : deed ≠ .queued p := by
              rintro rfl
              exact Option.some_ne_none _ result
            simp [Waits, after, result, place, empty, notQueued]
        | some t =>
            have atX : T.Waits p x ↔ p ∈ s.waiters := by simp [Waits, place]
            have atX' : (T.step ⟨x, deed⟩).Waits p x ↔ p ∈ t.waiters := by
              simp [Waits, after, result]
            rw [atX, atX', Sem.mem_waiters_step_iff (settled.once x s place) admits result]
            simp [Action.Wakes]
  · rw [waits_step_of_ne here]
    have elsewhere : a ≠ ⟨x, .queued p⟩ := fun same => here (by rw [same])
    simp only [elsewhere, or_false, iff_self_and]
    exact fun waits => settled.not_woken enabled here waits

theorem Settled.step (settled : T.Settled) (enabled : T.Enabled a) (patient : T.Patient a) :
    (T.step a).Settled := by
  have onlyOld : ∀ p x, (T.step a).Waits p x → T.Waits p x ∨ a = ⟨x, .queued p⟩ :=
    fun p x waits => ((waits_step_iff settled enabled patient).mp waits).imp_left And.left
  -- the semaphore that the action changes
  have changed : ∀ {t : Sem Proc}, T.step a a.place = some t → t.waiters = [] ∨
      ∃ s, T a.place = some s ∧ s.Admits a.deed ∧ Sem.step (some s) a.deed = some t := by
    intro t here
    rw [step_self] at here
    cases place : T a.place with
    | some s =>
        rw [place] at here
        rw [Table.Enabled, place] at enabled
        exact Or.inr ⟨s, rfl, enabled, here⟩
    | none =>
        rw [Table.Enabled, place] at enabled
        obtain ⟨q, value, origin, deed⟩ := Sem.creates_of_enabled enabled
        rw [deed] at here
        exact Or.inl (congrArg (fun s => s.waiters) (Option.some.inj here).symm)
  refine ⟨fun x t here p waits => ?_, fun x t here => ?_, fun p x y first second => ?_⟩
  · by_cases same : x = a.place
    · subst same
      rcases changed here with none | ⟨s, place, admits, result⟩
      · simp [none] at waits
      · rcases onlyOld p a.place ⟨t, here, waits⟩ with ⟨s', place', waiter⟩ | new
        · obtain rfl : s = s' := Option.some.inj (place.symm.trans place')
          exact Sem.mem_members_step admits result (settled.member _ s place p waiter)
            (patient.stays place p waiter)
        · have deed : a.deed = .queued p := congrArg Action.deed new
          rw [deed] at admits result
          exact Sem.mem_members_step admits result admits.1 (by simp)
    · rw [step_of_ne same] at here
      exact settled.member x t here p waits
  · by_cases same : x = a.place
    · subst same
      rcases changed here with none | ⟨s, place, admits, result⟩
      · simp [none]
      · apply Sem.nodup_waiters_step (settled.once a.place s place) admits _ result
        exact fun q queues waiter => patient q (Or.inl queues) a.place ⟨s, place, waiter⟩
    · rw [step_of_ne same] at here
      exact settled.once x t here
  · rcases onlyOld p x first with first | new <;> rcases onlyOld p y second with second | new'
    · exact settled.only p x y first second
    · exact absurd first (patient p (Or.inl (by rw [new'])) x)
    · exact absurd second (patient p (Or.inl (by rw [new])) y)
    · rw [new] at new'
      exact congrArg Action.place new'

/-- A semaphore on which somebody waits does not end. -/
theorem Settled.stays (settled : T.Settled) (enabled : T.Enabled a) (patient : T.Patient a)
    (waits : T.Waits p x) : ∃ s, T.step a x = some s := by
  obtain ⟨s, here, waiter⟩ := waits
  by_cases same : x = a.place
  · subst same
    rw [step_self, here]
    cases result : Sem.step (some s) a.deed with
    | some t => exact ⟨t, rfl⟩
    | none =>
        rw [Table.Enabled, here] at enabled
        have empty := Sem.waiters_of_step_none enabled result (settled.member _ s here)
          (patient.stays here)
        simp [empty] at waiter
  · exact ⟨s, (step_of_ne same).trans here⟩

/-- Actions that neither queue nor wake anybody, nor let a waiting process leave,
change nothing about who waits where. -/
theorem Settled.of_run {T' : Table Place Proc} {log : List (Action Place Proc Origin)}
    (settled : T.Settled) (run : Run Table.step Table.Enabled T log T')
    (noQueue : ∀ a ∈ log, ∀ p, a.deed ≠ .queued p) (noWake : ∀ a ∈ log, ∀ p, ¬a.Wakes p)
    (noLeave : ∀ a ∈ log, ∀ p, a.deed = .closed p → ∀ x, ¬T.Waits p x) :
    T'.Settled ∧ ∀ p x, T'.Waits p x ↔ T.Waits p x := by
  induction run with
  | nil => exact ⟨settled, fun _ _ => Iff.rfl⟩
  | @snoc log T' a before enabled ih =>
      have mem : a ∈ log ++ [a] := by simp
      obtain ⟨settled', same⟩ := ih (fun b found => noQueue b (List.mem_append_left _ found))
        (fun b found => noWake b (List.mem_append_left _ found))
        fun b found => noLeave b (List.mem_append_left _ found)
      have patient : T'.Patient a := by
        rintro p (queues | closes) x waits
        · exact noQueue a mem p queues
        · exact noLeave a mem p closes x ((same p x).mp waits)
      refine ⟨settled'.step enabled patient, fun p x => ?_⟩
      have notQueue : a ≠ ⟨x, .queued p⟩ := fun queues => noQueue a mem p (by rw [queues])
      rw [waits_step_iff settled' enabled patient, same]
      simp [noWake a mem p, notQueue]

end Table

end MinixSemaphore.Semaphore
