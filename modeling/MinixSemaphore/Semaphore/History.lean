import MinixSemaphore.Semaphore.Core

/-!
# What a semaphore owes to its history

The deeds done at a place since the last creation are the history of the semaphore
that is there now. Its count and its members are determined by this history: the
tokens that went in and came out give the count, and the joins and leaves of a
process give the number of its uses.
-/

namespace MinixSemaphore.Semaphore

open MinixSemaphore.Transition

universe u v w

variable {Proc : Type u} {Origin : Type v} {Place : Type w}

namespace Deed

/-- The deed puts a new semaphore in its place. -/
def creates : Deed Proc Origin → Bool
  | .created _ _ _ => true
  | _ => false

/-- The origin of a creation, if it has one. -/
def origin : Deed Proc Origin → Option Origin
  | .created _ _ origin => origin
  | _ => none

/-- The initial value a creation gives. -/
def value : Deed Proc Origin → Nat
  | .created _ value _ => value
  | _ => 0

/-- A wait that was granted at once. -/
def isPass : Deed Proc Origin → Bool
  | .passed _ => true
  | _ => false

/-- A wait that was not granted at once. -/
def isQueue : Deed Proc Origin → Bool
  | .queued _ => true
  | _ => false

/-- A successful try. -/
def isTry : Deed Proc Origin → Bool
  | .tried _ => true
  | _ => false

/-- A post. -/
def isPost : Deed Proc Origin → Bool
  | .posted _ _ => true
  | _ => false

/-- A post that woke a waiter. -/
def isWake : Deed Proc Origin → Bool
  | .posted _ (some _) => true
  | _ => false

variable [DecidableEq Proc]

/-- The deed gives one more use of the semaphore to `p`. -/
def joins (p : Proc) : Deed Proc Origin → Bool
  | .created q _ _ => q = p
  | .opened q => q = p
  | .inherited _ q => q = p
  | _ => false

/-- The deed takes one use of the semaphore from `p`. -/
def leaves (p : Proc) : Deed Proc Origin → Bool
  | .closed q => q = p
  | _ => false

end Deed

/-- The deeds since the last creation, which comes first. -/
def current (deeds : List (Deed Proc Origin)) : List (Deed Proc Origin) :=
  deeds.foldl (fun acc deed => if deed.creates then [deed] else acc ++ [deed]) []

theorem current_snoc (deeds : List (Deed Proc Origin)) (deed : Deed Proc Origin) :
    current (deeds ++ [deed]) =
      if deed.creates then [deed] else current deeds ++ [deed] := by
  simp [current]

theorem current_append {deeds more : List (Deed Proc Origin)}
    (noCreation : ∀ deed ∈ more, deed.creates = false) :
    current (deeds ++ more) = current deeds ++ more := by
  induction more generalizing deeds with
  | nil => simp
  | cons deed more ih =>
      have next : current ((deeds ++ [deed]) ++ more) = current (deeds ++ [deed]) ++ more :=
        ih fun d mem => noCreation d (List.mem_cons_of_mem _ mem)
      rw [current_snoc, noCreation deed List.mem_cons_self] at next
      simpa using next

/-- The last creation at a place has this origin, and so has no later creation
anywhere. -/
def LastMade (log : List (Action Place Proc Origin)) (x : Place) (origin : Origin) : Prop :=
  ∃ before p value after, log = before ++ ⟨x, .created p value (some origin)⟩ :: after ∧
    ∀ a ∈ after, (a.deed.creates = true → a.place ≠ x) ∧ a.deed.origin ≠ some origin

namespace LastMade

variable {log : List (Action Place Proc Origin)} {x : Place} {origin : Origin}

theorem self (log : List (Action Place Proc Origin)) (x : Place) (p : Proc) (value : Nat)
    (origin : Origin) : LastMade (log ++ [⟨x, .created p value (some origin)⟩]) x origin :=
  ⟨log, p, value, [], rfl, by simp⟩

/-- Later actions that neither create at the place nor have the origin. -/
theorem snoc (made : LastMade log x origin) {a : Action Place Proc Origin}
    (elsewhere : a.deed.creates = true → a.place ≠ x) (other : a.deed.origin ≠ some origin) :
    LastMade (log ++ [a]) x origin := by
  obtain ⟨before, p, value, after, rfl, later⟩ := made
  refine ⟨before, p, value, after ++ [a], by simp, fun b mem => ?_⟩
  rcases List.mem_append.mp mem with mem | mem
  · exact later b mem
  · obtain rfl := List.mem_singleton.mp mem
    exact ⟨elsewhere, other⟩

/-- The semaphore that is there now was made by that creation. -/
theorem current_eq [DecidableEq Place] (made : LastMade log x origin) :
    ∃ p value rest, current (deedsAt x log) = .created p value (some origin) :: rest := by
  obtain ⟨before, p, value, after, rfl, later⟩ := made
  have split : deedsAt x (before ++ ⟨x, .created p value (some origin)⟩ :: after) =
      (deedsAt x before ++ [.created p value (some origin)]) ++ deedsAt x after := by
    simp [deedsAt]
  have noCreation : ∀ deed ∈ deedsAt x after, deed.creates = false := by
    intro deed mem
    obtain ⟨a, found, rfl⟩ := List.mem_map.mp mem
    obtain ⟨mem, here⟩ := List.mem_filter.mp found
    by_contra creates
    exact (later a mem).1 (by simpa using creates) (by simpa using here)
  refine ⟨p, value, deedsAt x after, ?_⟩
  rw [split, current_append noCreation, current_snoc]
  simp [Deed.creates]

end LastMade

/-- The semaphore whose deeds these are was made without a name. -/
def unnamed : List (Deed Proc Origin) → Bool
  | .created _ _ none :: _ => true
  | _ => false

theorem LastMade.not_unnamed [DecidableEq Place] {log : List (Action Place Proc Origin)}
    {x : Place} {origin : Origin} (made : LastMade log x origin) :
    unnamed (current (deedsAt x log)) = false := by
  obtain ⟨p, value, rest, current⟩ := made.current_eq
  rw [current]
  rfl

/-- A deed that creates nothing leaves the semaphore with the name it was made with. -/
theorem unnamed_snoc {deed : Deed Proc Origin} (notCreation : deed.creates = false)
    (deeds : List (Deed Proc Origin)) : unnamed (deeds ++ [deed]) = unnamed deeds := by
  cases deeds with
  | cons first rest =>
      rcases first with ⟨_, _, _ | _⟩ | _ | _ | _ | _ | _ | _ | _ | _ | _ <;> rfl
  | nil =>
      cases deed with
      | created p value origin => contradiction
      | _ => rfl

/-- The initial value of the semaphore whose deeds these are. -/
def initialValue (deeds : List (Deed Proc Origin)) : Nat :=
  (deeds.map Deed.value).sum

theorem initialValue_snoc (deeds : List (Deed Proc Origin)) (deed : Deed Proc Origin) :
    initialValue (deeds ++ [deed]) = initialValue deeds + deed.value := by
  simp [initialValue]

/-- Tokens that went out: granted waits, successful tries, and wake-ups. -/
def tokensOut (deeds : List (Deed Proc Origin)) : Nat :=
  deeds.countP Deed.isPass + deeds.countP Deed.isTry + deeds.countP Deed.isWake

/-- Tokens that went in: the initial value and the posts. -/
def tokensIn (deeds : List (Deed Proc Origin)) : Nat :=
  initialValue deeds + deeds.countP Deed.isPost

namespace Sem

/-- The tokens that went in are those that went out and those the count shows. -/
def Conserved (s : Sem Proc) (deeds : List (Deed Proc Origin)) : Prop :=
  (tokensOut deeds : Int) = tokensIn deeds - max 0 s.count

theorem fresh_conserved (p : Proc) (value : Nat) (origin : Option Origin) :
    (fresh p value origin.isNone).Conserved [Deed.created p value origin] := by
  simp [Conserved, tokensOut, tokensIn, initialValue, fresh, Deed.value, Deed.isPass,
    Deed.isTry, Deed.isWake, Deed.isPost]

/-- A deed that moves no token. -/
theorem Conserved.idle {s t : Sem Proc} {deeds : List (Deed Proc Origin)}
    {deed : Deed Proc Origin} (conserved : s.Conserved deeds) (count : t.count = s.count)
    (value : deed.value = 0) (pass : deed.isPass = false) (try' : deed.isTry = false)
    (post : deed.isPost = false) (wake : deed.isWake = false) :
    t.Conserved (deeds ++ [deed]) := by
  simpa [Conserved, tokensOut, tokensIn, initialValue_snoc, value, pass, try', post, wake, count]
    using conserved

@[simp]
theorem wait_count (p : Proc) (s : Sem Proc) : (s.wait p).count = s.count - 1 := by
  rw [wait]
  split <;> rfl

@[simp]
theorem post_count (s : Sem Proc) : s.post.count = s.count + 1 := by
  rw [post]
  split <;> rfl

@[simp]
theorem wait_members (p : Proc) (s : Sem Proc) : (s.wait p).members = s.members := by
  rw [wait]
  split <;> rfl

@[simp]
theorem post_members (s : Sem Proc) : s.post.members = s.members := by
  rw [post]
  split <;> rfl

@[simp]
theorem wait_unlinked (p : Proc) (s : Sem Proc) : (s.wait p).unlinked = s.unlinked := by
  rw [wait]
  split <;> rfl

@[simp]
theorem post_unlinked (s : Sem Proc) : s.post.unlinked = s.unlinked := by
  rw [post]
  split <;> rfl

/-- A semaphore with a negative count has a waiter. -/
theorem exists_waiter {s : Sem Proc} (negative : s.count < 0) :
    ∃ p rest, s.waiters = p :: rest := by
  cases waiters : s.waiters with
  | cons p rest => exact ⟨p, rest, rfl⟩
  | nil =>
      have balance := s.balance
      rw [waiters, List.length_nil] at balance
      omega

variable [DecidableEq Proc]

theorem leave_eq_some {p : Proc} {s t : Sem Proc} (left : s.leave p = some t) :
    t = { s with members := s.members.erase p } := by
  rw [leave] at left
  split at left
  · contradiction
  · exact (Option.some.inj left).symm

/-- What an admitted deed that leaves a semaphore in place does to its tokens. -/
theorem Conserved.step {s t : Sem Proc} {deeds : List (Deed Proc Origin)}
    {deed : Deed Proc Origin} (conserved : s.Conserved deeds) (admits : s.Admits deed)
    (result : Sem.step (some s) deed = some t) : t.Conserved (deeds ++ [deed]) := by
  cases deed with
  | created p value origin => exact admits.elim
  | destroyed p => exact nomatch result
  | closed p =>
      rw [leave_eq_some result]
      exact conserved.idle rfl rfl rfl rfl rfl rfl
  | opened p =>
      obtain rfl := Option.some.inj result
      exact conserved.idle rfl rfl rfl rfl rfl rfl
  | inherited parent child =>
      obtain rfl := Option.some.inj result
      exact conserved.idle rfl rfl rfl rfl rfl rfl
  | unlinked p =>
      obtain rfl := Option.some.inj result
      exact conserved.idle rfl rfl rfl rfl rfl rfl
  | passed p =>
      obtain rfl := Option.some.inj result
      have positive := admits.2
      simp only [Conserved, tokensOut, tokensIn, initialValue_snoc] at conserved ⊢
      simp [Deed.value, Deed.isPass, Deed.isTry, Deed.isWake, Deed.isPost]
      omega
  | tried p =>
      obtain rfl := Option.some.inj result
      have positive := admits.2
      simp only [Conserved, tokensOut, tokensIn, initialValue_snoc] at conserved ⊢
      simp [Deed.value, Deed.isPass, Deed.isTry, Deed.isWake, Deed.isPost]
      omega
  | queued p =>
      obtain rfl := Option.some.inj result
      have blocked := admits.2
      simp only [Conserved, tokensOut, tokensIn, initialValue_snoc] at conserved ⊢
      simp [Deed.value, Deed.isPass, Deed.isTry, Deed.isWake, Deed.isPost]
      omega
  | posted p woken =>
      obtain rfl := Option.some.inj result
      obtain ⟨-, woken⟩ := admits
      simp only [Conserved, tokensOut, tokensIn, initialValue_snoc] at conserved ⊢
      by_cases negative : s.count < 0
      · obtain ⟨q, rest, waiters⟩ := exists_waiter negative
        rw [if_pos negative, waiters, List.head?_cons] at woken
        subst woken
        simp [Deed.value, Deed.isPass, Deed.isTry, Deed.isWake, Deed.isPost]
        omega
      · rw [if_neg negative] at woken
        subst woken
        simp [Deed.value, Deed.isPass, Deed.isTry, Deed.isWake, Deed.isPost]
        omega

/-- Tokens are conserved along every run. -/
theorem conserved_of_run {deeds : List (Deed Proc Origin)} {place : Option (Sem Proc)}
    (run : Run Sem.step Enabled none deeds place) {s : Sem Proc} (here : place = some s) :
    s.Conserved (current deeds) := by
  induction run generalizing s with
  | nil => exact nomatch here
  | @snoc deeds place deed before enabled ih =>
      rw [current_snoc]
      cases place with
      | none =>
          cases deed with
          | created p value origin =>
              obtain rfl := Option.some.inj here
              exact fresh_conserved p value origin
          | _ => exact enabled.elim
      | some old =>
          have notCreation : deed.creates = false := by
            cases deed with
            | created p value origin => exact enabled.elim
            | _ => rfl
          rw [notCreation]
          exact (ih rfl).step enabled here

/-- The uses of `p` are its joins without its leaves. -/
theorem count_members_of_run {deeds : List (Deed Proc Origin)} {place : Option (Sem Proc)}
    (run : Run Sem.step Enabled none deeds place) {s : Sem Proc} (here : place = some s)
    (p : Proc) :
    s.members.count p + (current deeds).countP (Deed.leaves p) =
      (current deeds).countP (Deed.joins p) := by
  induction run generalizing s with
  | nil => exact nomatch here
  | @snoc deeds place deed before enabled ih =>
      rw [current_snoc]
      cases place with
      | none =>
          cases deed with
          | created q value origin =>
              obtain rfl := Option.some.inj here
              by_cases same : q = p <;>
                simp [Deed.creates, Deed.joins, Deed.leaves, fresh, same]
          | _ => exact enabled.elim
      | some old =>
          have account := ih rfl
          cases deed with
          | created q value origin => exact enabled.elim
          | destroyed q => exact nomatch here
          | opened q =>
              obtain rfl := Option.some.inj here
              by_cases same : q = p <;>
                simp [Deed.creates, Deed.joins, Deed.leaves, join, same] <;> omega
          | inherited parent q =>
              obtain rfl := Option.some.inj here
              by_cases same : q = p <;>
                simp [Deed.creates, Deed.joins, Deed.leaves, join, same] <;> omega
          | closed q =>
              have member : q ∈ old.members := enabled
              rw [leave_eq_some here]
              by_cases same : q = p
              · subst same
                have positive := List.count_pos_iff.mpr member
                simp [Deed.creates, Deed.joins, Deed.leaves, List.count_erase_self]
                omega
              · simp [Deed.creates, Deed.joins, Deed.leaves, same,
                  List.count_erase_of_ne (Ne.symm same)]
                omega
          | passed q =>
              obtain rfl := Option.some.inj here
              simpa [Deed.creates, Deed.joins, Deed.leaves] using account
          | queued q =>
              obtain rfl := Option.some.inj here
              simpa [Deed.creates, Deed.joins, Deed.leaves] using account
          | tried q =>
              obtain rfl := Option.some.inj here
              simpa [Deed.creates, Deed.joins, Deed.leaves] using account
          | posted q woken =>
              obtain rfl := Option.some.inj here
              simpa [Deed.creates, Deed.joins, Deed.leaves] using account
          | unlinked q =>
              obtain rfl := Option.some.inj here
              simpa [Deed.creates, Deed.joins, Deed.leaves, mark] using account

/-! ## Orphans -/

/-- The semaphore has lost its name, but it has members. -/
def Orphan (s : Sem Proc) : Prop :=
  s.unlinked = true ∧ s.members ≠ []

/-- A semaphore that has lost its name does not lose its last member and stay. -/
theorem Orphan.step {s t : Sem Proc} {deed : Deed Proc Origin} (orphan : s.Orphan)
    (admits : s.Admits deed) (result : Sem.step (some s) deed = some t) : t.Orphan := by
  obtain ⟨unlinked, used⟩ := orphan
  cases deed with
  | created p value origin => exact admits.elim
  | destroyed p => exact nomatch result
  | opened p =>
      rw [show s.unlinked = false from admits] at unlinked
      contradiction
  | unlinked p =>
      rw [admits.2] at unlinked
      contradiction
  | inherited parent child =>
      obtain rfl := Option.some.inj result
      exact ⟨unlinked, List.cons_ne_nil _ _⟩
  | closed p =>
      have stays := leave_eq_some result
      constructor
      · rw [stays]
        exact unlinked
      · intro empty
        rw [stays] at empty
        have left : s.leave p = some t := result
        rw [leave, if_pos ⟨unlinked, empty⟩] at left
        contradiction
  | passed p | queued p | tried p =>
      obtain rfl := Option.some.inj result
      rw [Orphan, wait_unlinked, wait_members]
      exact ⟨unlinked, used⟩
  | posted p woken =>
      obtain rfl := Option.some.inj result
      rw [Orphan, post_unlinked, post_members]
      exact ⟨unlinked, used⟩

/-- A name is taken away by the deed for it only, and does not come back. -/
theorem unlinked_step {s t : Sem Proc} {deed : Deed Proc Origin} (admits : s.Admits deed)
    (result : Sem.step (some s) deed = some t) :
    t.unlinked = true ↔ s.unlinked = true ∨ ∃ p, deed = .unlinked p := by
  cases deed with
  | created p value origin => exact admits.elim
  | destroyed p => exact nomatch result
  | closed p =>
      rw [leave_eq_some result]
      simp
  | unlinked p =>
      obtain rfl := Option.some.inj result
      simp [mark]
  | opened p | inherited parent child =>
      obtain rfl := Option.some.inj result
      simp [join]
  | passed p | queued p | tried p =>
      obtain rfl := Option.some.inj result
      simp
  | posted p woken =>
      obtain rfl := Option.some.inj result
      simp

/-- A semaphore without a name has members. -/
def Used (s : Sem Proc) : Prop :=
  s.unlinked = true → s.members ≠ []

/-- What is used stays used, and what is new is used. -/
theorem used_step {place : Option (Sem Proc)} {t : Sem Proc} {deed : Deed Proc Origin}
    (used : ∀ s, place = some s → s.Used) (enabled : Enabled place deed)
    (result : Sem.step place deed = some t) : t.Used := by
  intro unlinked
  cases place with
  | none =>
      cases deed with
      | created p value origin =>
          obtain rfl := Option.some.inj result
          exact List.cons_ne_nil p []
      | _ => exact enabled.elim
  | some s =>
      rcases (unlinked_step enabled result).mp unlinked with before | ⟨p, rfl⟩
      · have orphan : s.Orphan := ⟨before, used s rfl before⟩
        exact (orphan.step enabled result).2
      · obtain rfl := Option.some.inj result
        exact List.ne_nil_of_mem enabled.1

/-- A semaphore ends by the close of its last use, or by destruction. -/
theorem closed_of_step_none {s : Sem Proc} {deed : Deed Proc Origin} (admits : s.Admits deed)
    (result : Sem.step (some s) deed = none) :
    (∃ p, deed = .closed p ∧ s.members = [p]) ∨ ∃ p, deed = .destroyed p := by
  cases deed with
  | created p value origin => exact admits.elim
  | destroyed p => exact Or.inr ⟨p, rfl⟩
  | closed p =>
      have left : s.leave p = none := result
      rw [leave] at left
      split at left
      · rename_i last
        have member : p ∈ s.members := admits
        rcases List.erase_eq_nil_iff.mp last.2 with empty | alone
        · rw [empty] at member
          contradiction
        · exact Or.inl ⟨p, rfl, alone⟩
      · contradiction
  | _ => exact absurd result (Option.some_ne_none _)

end Sem

end MinixSemaphore.Semaphore
