import Mathlib

/-!
# Singly linked chains

A store of cells gives each cell a link to another cell or to nothing. A chain
is the list of cells met when the links are followed from a start until they end.
The predicate below is the only fact about links the development uses: a chain is
unique, has no repetition, and depends on the links of its own cells alone.
-/

namespace MinixSemaphore.Store

universe u

variable {ι : Type u} {next next' : ι → Option ι}

/-- Following `next` from `start` visits exactly `cells` and then ends. -/
def Chain (next : ι → Option ι) : Option ι → List ι → Prop
  | start, [] => start = none
  | start, cell :: rest => start = some cell ∧ Chain next (next cell) rest

@[simp]
theorem chain_nil {start : Option ι} : Chain next start [] ↔ start = none :=
  Iff.rfl

@[simp]
theorem chain_cons {start : Option ι} {cell : ι} {rest : List ι} :
    Chain next start (cell :: rest) ↔ start = some cell ∧ Chain next (next cell) rest :=
  Iff.rfl

theorem Chain.head_eq {start : Option ι} {cells : List ι} (chain : Chain next start cells) :
    start = cells.head? := by
  cases cells with
  | nil => exact chain
  | cons cell rest => exact chain.1

/-- Links determine the chain. -/
theorem Chain.unique {start : Option ι} {cells cells' : List ι}
    (chain : Chain next start cells) (chain' : Chain next start cells') : cells = cells' := by
  induction cells generalizing start cells' with
  | nil =>
      cases cells' with
      | nil => rfl
      | cons cell' rest' => simp_all
  | cons cell rest ih =>
      cases cells' with
      | nil => simp_all
      | cons cell' rest' =>
          obtain ⟨startEq, tail⟩ := chain
          obtain ⟨startEq', tail'⟩ := chain'
          have sameCell : cell = cell' := Option.some.inj (startEq.symm.trans startEq')
          subst sameCell
          rw [ih tail tail']

/-- The part of a chain after one of its cells is the chain that cell links to. -/
theorem Chain.after {start : Option ι} {cells before after : List ι} {cell : ι}
    (chain : Chain next start cells) (split : cells = before ++ cell :: after) :
    Chain next (next cell) after := by
  induction before generalizing start cells with
  | nil =>
      subst split
      exact chain.2
  | cons first before ih =>
      subst split
      exact ih chain.2 rfl

/-- A chain that ends visits no cell twice: from both visits it would have to
continue with the same cells. -/
theorem Chain.nodup {start : Option ι} {cells : List ι} (chain : Chain next start cells) :
    cells.Nodup := by
  induction cells generalizing start with
  | nil => exact List.nodup_nil
  | cons cell rest ih =>
      refine List.nodup_cons.mpr ⟨fun again => ?_, ih chain.2⟩
      obtain ⟨before, after, split⟩ := List.append_of_mem again
      have shorter : Chain next (next cell) after := chain.2.after split
      have lengths := congrArg List.length (chain.2.unique shorter)
      simp only [split, List.length_append, List.length_cons] at lengths
      omega

/-- A chain depends on the links of its own cells only. -/
theorem Chain.congr {start : Option ι} {cells : List ι} (chain : Chain next start cells)
    (same : ∀ cell ∈ cells, next' cell = next cell) : Chain next' start cells := by
  induction cells generalizing start with
  | nil => exact chain
  | cons cell rest ih =>
      refine ⟨chain.1, ?_⟩
      rw [same cell List.mem_cons_self]
      exact ih chain.2 fun other mem => same other (List.mem_cons_of_mem _ mem)

/-- Redirecting the last cell before a split replaces the part after the split. -/
theorem Chain.relink {start : Option ι} {before after after' : List ι} {cell : ι}
    (chain : Chain next start (before ++ cell :: after))
    (kept : ∀ other ∈ before, next' other = next other)
    (tail : Chain next' (next' cell) after') :
    Chain next' start (before ++ cell :: after') := by
  induction before generalizing start with
  | nil => exact ⟨chain.1, tail⟩
  | cons first before ih =>
      refine ⟨chain.1, ?_⟩
      rw [kept first List.mem_cons_self]
      exact ih chain.2 fun other mem => kept other (List.mem_cons_of_mem _ mem)

/-- A chain has at most as many cells as the store. -/
theorem Chain.length_le [Fintype ι] {start : Option ι} {cells : List ι}
    (chain : Chain next start cells) : cells.length ≤ Fintype.card ι :=
  chain.nodup.length_le_card

/-- Follow the links for at most `fuel` cells. -/
def walk (next : ι → Option ι) : Nat → Option ι → List ι
  | 0, _ => []
  | _ + 1, none => []
  | fuel + 1, some cell => cell :: walk next fuel (next cell)

/-- Enough fuel walks the whole chain. -/
theorem Chain.walk_eq {start : Option ι} {cells : List ι} {fuel : Nat}
    (chain : Chain next start cells) (enough : cells.length ≤ fuel) :
    walk next fuel start = cells := by
  induction cells generalizing start fuel with
  | nil =>
      cases fuel <;> simp_all [walk]
  | cons cell rest ih =>
      obtain ⟨rfl, tail⟩ := chain
      cases fuel with
      | zero => simp at enough
      | succ fuel =>
          rw [walk, ih tail (by simpa using enough)]

end MinixSemaphore.Store
