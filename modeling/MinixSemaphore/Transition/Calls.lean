import Mathlib

/-!
# Calls and their answers

Processes call a server and wait for its answers. A process waits for the answer
to one request at a time, and the next message the server sends it is taken for
this answer. Requests are numbered in the order in which they are made.
-/

namespace MinixSemaphore.Transition

universe u v

/-- The answer to a request, and the round of the server that has sent it. -/
structure Answer (Msg : Type v) where
  request : Nat
  round : Nat
  content : Msg
  deriving DecidableEq

/-- The requests that are not answered yet, the answers, and the messages to
processes that were not waiting for any. -/
structure Calls (Proc : Type u) (Msg : Type v) where
  asked : Nat
  pending : Proc → Option Nat
  answers : List (Answer Msg)
  stray : List (Proc × Msg)

namespace Calls

variable {Proc : Type u} {Msg : Type v}

/-- Before the first call. -/
def start : Calls Proc Msg where
  asked := 0
  pending _ := none
  answers := []
  stray := []

/-- No message has gone astray, and every request is either pending with one process
or has one answer. -/
structure Sound (c : Calls Proc Msg) : Prop where
  stray : c.stray = []
  bound : ∀ p n, c.pending p = some n → n < c.asked
  apart : ∀ p q n, c.pending p = some n → c.pending q = some n → p = q
  unanswered : ∀ p n, c.pending p = some n → ∀ a ∈ c.answers, a.request ≠ n
  asked : ∀ a ∈ c.answers, a.request < c.asked
  once : (c.answers.map Answer.request).Nodup
  complete : ∀ n < c.asked, (∃ p, c.pending p = some n) ∨ ∃ a ∈ c.answers, a.request = n

theorem start_sound : (start : Calls Proc Msg).Sound where
  stray := rfl
  bound _ _ waits := nomatch waits
  apart _ _ _ waits := nomatch waits
  unanswered _ _ waits := nomatch waits
  asked _ mem := absurd mem List.not_mem_nil
  once := List.nodup_nil
  complete _ less := absurd less (Nat.not_lt_zero _)

/-- Requests have the numbers in front of the next one, whoever has made them. -/
structure Numbered (c : Calls Proc Msg) : Prop where
  pending : ∀ p n, c.pending p = some n → n < c.asked
  answers : ∀ a ∈ c.answers, a.request < c.asked

theorem start_numbered : (start : Calls Proc Msg).Numbered where
  pending _ _ waits := nomatch waits
  answers _ mem := absurd mem List.not_mem_nil

variable [DecidableEq Proc]

/-- `p` makes a request and waits for its answer. -/
def ask (c : Calls Proc Msg) (p : Proc) : Calls Proc Msg :=
  { c with asked := c.asked + 1, pending := Function.update c.pending p (some c.asked) }

/-- A message reaches a process. -/
def deliver (round : Nat) (c : Calls Proc Msg) (m : Proc × Msg) : Calls Proc Msg :=
  match c.pending m.1 with
  | none => { c with stray := c.stray ++ [m] }
  | some n =>
      { c with
        pending := Function.update c.pending m.1 none
        answers := c.answers ++ [{ request := n, round := round, content := m.2 }] }

variable {c : Calls Proc Msg} {p : Proc} {m : Proc × Msg} {n round : Nat}

theorem ask_pending (c : Calls Proc Msg) (p : Proc) :
    (c.ask p).pending = Function.update c.pending p (some c.asked) :=
  rfl

theorem deliver_pending (round : Nat) (c : Calls Proc Msg) (m : Proc × Msg) :
    (c.deliver round m).pending = Function.update c.pending m.1 none := by
  rw [deliver]
  cases waits : c.pending m.1 with
  | none => simp [← waits]
  | some n => rfl

theorem deliver_asked (round : Nat) (c : Calls Proc Msg) (m : Proc × Msg) :
    (c.deliver round m).asked = c.asked := by
  rw [deliver]
  split <;> rfl

theorem deliver_answers (waits : c.pending m.1 = some n) :
    (c.deliver round m).answers =
      c.answers ++ [{ request := n, round := round, content := m.2 }] := by
  rw [deliver, waits]

theorem deliver_stray (waits : c.pending m.1 = some n) :
    (c.deliver round m).stray = c.stray := by
  rw [deliver, waits]

/-- A process that waits for nothing makes a request. -/
theorem Sound.ask (sound : c.Sound) (free : c.pending p = none) : (c.ask p).Sound := by
  have old : ∀ q n, (c.ask p).pending q = some n → q = p ∧ n = c.asked ∨
      q ≠ p ∧ c.pending q = some n := by
    intro q n waits
    by_cases same : q = p
    · rw [ask_pending, same, Function.update_self] at waits
      exact Or.inl ⟨same, (Option.some.inj waits).symm⟩
    · rw [ask_pending, Function.update_of_ne same] at waits
      exact Or.inr ⟨same, waits⟩
  refine ⟨sound.stray, fun q n waits => ?_, fun q q' n waits waits' => ?_,
    fun q n waits a mem => ?_, fun a mem => Nat.lt_succ_of_lt (sound.asked a mem),
    sound.once, fun n less => ?_⟩
  · rcases old q n waits with ⟨-, now⟩ | ⟨-, before⟩
    · exact now ▸ Nat.lt_succ_self _
    · exact Nat.lt_succ_of_lt (sound.bound q n before)
  · rcases old q n waits with ⟨here, now⟩ | ⟨-, before⟩ <;>
      rcases old q' n waits' with ⟨here', now'⟩ | ⟨-, before'⟩
    · exact here.trans here'.symm
    · exact absurd (now ▸ sound.bound q' n before') (Nat.lt_irrefl _)
    · exact absurd (now' ▸ sound.bound q n before) (Nat.lt_irrefl _)
    · exact sound.apart q q' n before before'
  · rcases old q n waits with ⟨-, now⟩ | ⟨-, before⟩
    · exact now ▸ Nat.ne_of_lt (sound.asked a mem)
    · exact sound.unanswered q n before a mem
  · rcases Nat.lt_succ_iff_lt_or_eq.mp less with less | now
    · rcases sound.complete n less with ⟨q, waits⟩ | answered
      · have other : q ≠ p := fun same => by
          rw [same, free] at waits
          contradiction
        exact Or.inl ⟨q, (Function.update_of_ne other _ _).trans waits⟩
      · exact Or.inr answered
    · exact Or.inl ⟨p, now ▸ Function.update_self _ _ _⟩

/-- A message reaches a process that waits for one. -/
theorem Sound.deliver (sound : c.Sound) (waits : c.pending m.1 = some n) :
    (c.deliver round m).Sound := by
  have old : ∀ q k, (c.deliver round m).pending q = some k → q ≠ m.1 ∧ c.pending q = some k := by
    intro q k waits'
    rw [deliver_pending] at waits'
    by_cases same : q = m.1
    · rw [same, Function.update_self] at waits'
      contradiction
    · rw [Function.update_of_ne same] at waits'
      exact ⟨same, waits'⟩
  have mem_answers : ∀ a, a ∈ (c.deliver round m).answers ↔ a ∈ c.answers ∨
      a = { request := n, round := round, content := m.2 } := by
    intro a
    rw [deliver_answers waits, List.mem_append, List.mem_singleton]
  refine ⟨(deliver_stray waits).trans sound.stray, fun q k waits' => ?_,
    fun q q' k waits' waits'' => sound.apart q q' k (old q k waits').2 (old q' k waits'').2,
    fun q k waits' a mem => ?_, fun a mem => ?_, ?_, fun k less => ?_⟩
  · rw [deliver_asked]
    exact sound.bound q k (old q k waits').2
  · obtain ⟨other, before⟩ := old q k waits'
    rcases (mem_answers a).mp mem with mem | rfl
    · exact sound.unanswered q k before a mem
    · intro same
      exact other (sound.apart q m.1 k before (same ▸ waits))
  · rw [deliver_asked]
    rcases (mem_answers a).mp mem with mem | rfl
    · exact sound.asked a mem
    · exact sound.bound m.1 n waits
  · rw [deliver_answers waits, List.map_append, List.nodup_append]
    refine ⟨sound.once, List.nodup_singleton _, fun k mem k' mem' => ?_⟩
    obtain ⟨a, answered, rfl⟩ := List.mem_map.mp mem
    rw [List.mem_singleton.mp mem']
    exact sound.unanswered m.1 n waits a answered
  · rw [deliver_asked] at less
    rcases sound.complete k less with ⟨q, waits'⟩ | ⟨a, mem, same⟩
    · by_cases same : q = m.1
      · rw [same, waits] at waits'
        exact Or.inr ⟨_, (mem_answers _).mpr (Or.inr rfl), Option.some.inj waits'⟩
      · refine Or.inl ⟨q, ?_⟩
        rw [deliver_pending, Function.update_of_ne same]
        exact waits'
    · exact Or.inr ⟨a, (mem_answers a).mpr (Or.inl mem), same⟩

/-! ## A request that is answered at once -/

theorem ask_deliver_pending (free : c.pending p = none) (round : Nat) (answer : Msg) :
    ((c.ask p).deliver round (p, answer)).pending = c.pending := by
  rw [deliver_pending, ask_pending, Function.update_idem, ← free, Function.update_eq_self]

theorem ask_deliver_answers (c : Calls Proc Msg) (p : Proc) (round : Nat) (answer : Msg) :
    ((c.ask p).deliver round (p, answer)).answers =
      c.answers ++ [{ request := c.asked, round := round, content := answer }] :=
  deliver_answers (Function.update_self _ _ _)

theorem Sound.ask_deliver (sound : c.Sound) (free : c.pending p = none) (round : Nat)
    (answer : Msg) : ((c.ask p).deliver round (p, answer)).Sound :=
  (sound.ask free).deliver (n := c.asked) (Function.update_self _ _ _)

/-! ## Several messages -/

theorem Numbered.ask (numbered : c.Numbered) (p : Proc) : (c.ask p).Numbered := by
  constructor
  · intro q n waits
    by_cases same : q = p
    · rw [ask_pending, same, Function.update_self] at waits
      rw [← Option.some.inj waits]
      exact Nat.lt_succ_self _
    · rw [ask_pending, Function.update_of_ne same] at waits
      exact Nat.lt_succ_of_lt (numbered.pending q n waits)
  · intro a mem
    exact Nat.lt_succ_of_lt (numbered.answers a mem)

/-- Whoever waits after a message has waited before. -/
theorem pending_of_deliver {q : Proc} (waits : (c.deliver round m).pending q = some n) :
    c.pending q = some n := by
  rw [deliver_pending] at waits
  by_cases same : q = m.1
  · rw [same, Function.update_self] at waits
    contradiction
  · rw [Function.update_of_ne same] at waits
    exact waits

/-- A message gives at most one answer, to what its receiver has asked. -/
theorem mem_answers_deliver {a : Answer Msg} (mem : a ∈ (c.deliver round m).answers) :
    a ∈ c.answers ∨ c.pending m.1 = some a.request ∧ a.content = m.2 := by
  cases waits : c.pending m.1 with
  | none =>
      rw [deliver, waits] at mem
      exact Or.inl mem
  | some n =>
      rw [deliver_answers waits, List.mem_append, List.mem_singleton] at mem
      rcases mem with before | rfl
      · exact Or.inl before
      · exact Or.inr ⟨rfl, rfl⟩

theorem answers_subset_deliver : c.answers ⊆ (c.deliver round m).answers := by
  intro a mem
  rw [deliver]
  split
  · exact mem
  · exact List.mem_append_left _ mem

/-- The answers that several messages give. -/
theorem mem_answers_foldl {sent : List (Proc × Msg)} {a : Answer Msg}
    (mem : a ∈ (sent.foldl (deliver round) c).answers) :
    a ∈ c.answers ∨ ∃ q, (q, a.content) ∈ sent ∧ c.pending q = some a.request := by
  induction sent generalizing c with
  | nil => exact Or.inl mem
  | cons m rest ih =>
      rcases ih mem with before | ⟨q, sent, waits⟩
      · rcases mem_answers_deliver before with before | ⟨waits, content⟩
        · exact Or.inl before
        · refine Or.inr ⟨m.1, ?_, waits⟩
          rw [content]
          exact List.mem_cons_self
      · exact Or.inr ⟨q, List.mem_cons_of_mem _ sent, pending_of_deliver waits⟩

theorem answers_subset_foldl (sent : List (Proc × Msg)) :
    c.answers ⊆ (sent.foldl (deliver round) c).answers := by
  induction sent generalizing c with
  | nil => exact List.Subset.refl _
  | cons m rest ih => exact List.Subset.trans answers_subset_deliver ih

/-- The first message answers what its receiver has asked. -/
theorem mem_answers_first (waits : c.pending m.1 = some n) (rest : List (Proc × Msg)) :
    { request := n, round := round, content := m.2 } ∈
      ((m :: rest).foldl (deliver round) c).answers := by
  apply answers_subset_foldl rest
  rw [deliver_answers waits]
  exact List.mem_append_right _ (List.mem_singleton.mpr rfl)

theorem foldl_asked (sent : List (Proc × Msg)) :
    (sent.foldl (deliver round) c).asked = c.asked := by
  induction sent generalizing c with
  | nil => rfl
  | cons m rest ih => exact ih.trans (deliver_asked round c m)

theorem pending_of_foldl {sent : List (Proc × Msg)} {q : Proc}
    (waits : (sent.foldl (deliver round) c).pending q = some n) : c.pending q = some n := by
  induction sent generalizing c with
  | nil => exact waits
  | cons m rest ih => exact pending_of_deliver (ih waits)

theorem Numbered.foldl (numbered : c.Numbered) (sent : List (Proc × Msg)) :
    (sent.foldl (deliver round) c).Numbered := by
  constructor
  · intro p n waits
    rw [foldl_asked]
    exact numbered.pending p n (pending_of_foldl waits)
  · intro a mem
    rw [foldl_asked]
    rcases mem_answers_foldl mem with before | ⟨q, -, waits⟩
    · exact numbered.answers a before
    · exact numbered.pending q a.request waits

end Calls

end MinixSemaphore.Transition
