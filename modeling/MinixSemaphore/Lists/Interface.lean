import MinixSemaphore.Store.FirstFit

/-!
# The list interface

list.h offers lists behind an opaque pointer. The semaphore server uses nothing
else of list.c, so its model is written against the interface and runs on any
store of lists. Two stores implement it: the static pools of list.c, and the
sequence store below, in which a list is the sequence of its elements. The second
says what the first is for.
-/

namespace MinixSemaphore.Lists

open MinixSemaphore.Store

universe u v

/-- `MAX_LISTS`. -/
abbrev maxLists : Nat := 80

/-- `MAX_NODES`. -/
abbrev maxNodes : Nat := 20

/-- An index into `lists`. -/
abbrev ListIx := Fin maxLists

/-- `listADT`: a pointer to one of the static list cells, or `NULL`. -/
abbrev ListADT := Option ListIx

/-- `listSortT`. -/
inductive ListSort
  | sorted
  | unsorted
  deriving DecidableEq, Repr

/-- The result codes of list.h. -/
inductive ListStatus
  | noMem
  | noErr
  | listEnd
  | noElem
  | elemExists
  deriving DecidableEq, Repr

/-- The operations of list.h. `listGetElement` returns nothing in place of
`LIST_END`, and `listElementBelongs` returns the element its `copy` argument
would receive. -/
class ListLib (P : Type u) (α : outParam (Type v)) where
  newList : P → (α → α → Int) → ListSort → P × ListADT
  listIsEmpty : P → ListADT → Bool
  listToBegin : P → ListADT → P
  listGetElement : P → ListADT → P × Option α
  listInsert : P → ListADT → α → P × ListStatus
  listDelete : P → ListADT → α → P × ListStatus
  listElementBelongs : P → ListADT → α → Option α
  listRemoveFirst : P → ListADT → P × ListStatus
  freeList : P → ListADT → P

/-! ## Sequences in place of chains -/

/-- A store that keeps the sequence of each list, whether its cell is allocated,
and how many nodes are in use. -/
@[ext]
structure SeqStore (α : Type v) where
  content : ListIx → List α
  busy : ListIx → Bool
  used : Nat

namespace SeqStore

variable {α : Type v}

/-- No list is allocated. -/
def empty : SeqStore α where
  content _ := []
  busy _ := false
  used := 0

/-- The sequence behind a list pointer; `NULL` is read as an empty list. -/
def seq (s : SeqStore α) : ListADT → List α
  | none => []
  | some i => s.content i

@[simp]
theorem seq_none (s : SeqStore α) : s.seq none = [] :=
  rfl

@[simp]
theorem seq_some (s : SeqStore α) (i : ListIx) : s.seq (some i) = s.content i :=
  rfl

/-- Replace the sequence behind a list pointer. -/
def put (s : SeqStore α) : ListADT → List α → SeqStore α
  | none, _ => s
  | some i, xs => { s with content := Function.update s.content i xs }

@[simp]
theorem put_busy (s : SeqStore α) (list : ListADT) (xs : List α) :
    (s.put list xs).busy = s.busy := by
  cases list <;> rfl

@[simp]
theorem seq_put_self (s : SeqStore α) (l : ListIx) (xs : List α) :
    (s.put (some l) xs).seq (some l) = xs := by
  simp [put]

theorem seq_put_of_ne (s : SeqStore α) {list list' : ListADT} (other : list' ≠ list)
    (xs : List α) : (s.put list xs).seq list' = s.seq list' := by
  cases list with
  | none => rfl
  | some l =>
      cases list' with
      | none => rfl
      | some l' => simp [put, Function.update_of_ne fun same => other (congrArg some same)]

/-- The first list cell that is not allocated. -/
def freeCell (s : SeqStore α) : ListADT :=
  firstFit fun i => !s.busy i

/-! ## The operations on sequences -/

def newList (s : SeqStore α) (_fn : α → α → Int) (_order : ListSort) : SeqStore α × ListADT :=
  match s.freeCell with
  | none => (s, none)
  | some i => ({ s.put (some i) [] with busy := Function.update s.busy i true }, some i)

def listIsEmpty (s : SeqStore α) (list : ListADT) : Bool :=
  (s.seq list).isEmpty

def listToBegin (s : SeqStore α) (_list : ListADT) : SeqStore α :=
  s

def listGetElement (s : SeqStore α) (list : ListADT) : SeqStore α × Option α :=
  (s, (s.seq list).head?)

def listInsert (s : SeqStore α) (list : ListADT) (element : α) : SeqStore α × ListStatus :=
  if s.used < maxNodes then
    ({ s.put list (element :: s.seq list) with used := s.used + 1 }, .noErr)
  else
    (s, .noMem)

def listRemoveFirst (s : SeqStore α) (list : ListADT) : SeqStore α × ListStatus :=
  match s.seq list with
  | [] => (s, .listEnd)
  | _ :: rest => ({ s.put list rest with used := s.used - 1 }, .noErr)

def freeList (s : SeqStore α) : ListADT → SeqStore α
  | none => s
  | some i =>
      { s.put (some i) [] with
        busy := Function.update s.busy i false
        used := s.used - (s.content i).length }

/-- `s'` is `s` with another sequence behind one list pointer. -/
structure Rewritten (s s' : SeqStore α) (list : ListADT) (xs : List α) : Prop where
  busy : s'.busy = s.busy
  self : s'.seq list = xs
  others : ∀ list', list' ≠ list → s'.seq list' = s.seq list'

theorem rewritten_put (s : SeqStore α) (l : ListIx) (xs : List α) (used : Nat) :
    Rewritten s { s.put (some l) xs with used := used } (some l) xs where
  busy := put_busy s (some l) xs
  self := seq_put_self s l xs
  others _ other := seq_put_of_ne s other xs

theorem Rewritten.refl (s : SeqStore α) (list : ListADT) :
    Rewritten s s list (s.seq list) :=
  ⟨rfl, rfl, fun _ _ => rfl⟩

theorem listInsert_rewritten (s : SeqStore α) (l : ListIx) (x : α) :
    ∃ xs, Rewritten s (s.listInsert (some l) x).1 (some l) xs ∧
      ((s.listInsert (some l) x).2 ≠ .noMem → xs = x :: s.seq (some l)) := by
  by_cases room : s.used < maxNodes
  · rw [listInsert, if_pos room]
    exact ⟨_, rewritten_put s l _ _, fun _ => rfl⟩
  · rw [listInsert, if_neg room]
    exact ⟨_, Rewritten.refl s _, fun stored => absurd rfl stored⟩

theorem listRemoveFirst_rewritten (s : SeqStore α) (l : ListIx) :
    Rewritten s (s.listRemoveFirst (some l)).1 (some l) (s.seq (some l)).tail := by
  rw [listRemoveFirst]
  cases content : s.seq (some l) with
  | nil =>
      have same := Rewritten.refl s (some l)
      rw [content] at same
      exact same
  | cons x rest => exact rewritten_put s l rest _

theorem seq_listInsert_of_ne (s : SeqStore α) {list list' : ListADT} (other : list' ≠ list)
    (x : α) : (s.listInsert list x).1.seq list' = s.seq list' := by
  rw [listInsert]
  split
  · exact seq_put_of_ne s other _
  · rfl

theorem listInsert_busy (s : SeqStore α) (list : ListADT) (x : α) :
    (s.listInsert list x).1.busy = s.busy := by
  rw [listInsert]
  split <;> simp

theorem listRemoveFirst_busy (s : SeqStore α) (list : ListADT) :
    (s.listRemoveFirst list).1.busy = s.busy := by
  rw [listRemoveFirst]
  split <;> simp

variable [DecidableEq α]

def listDelete (s : SeqStore α) (list : ListADT) (element : α) : SeqStore α × ListStatus :=
  if element ∈ s.seq list then
    ({ s.put list ((s.seq list).erase element) with used := s.used - 1 }, .noErr)
  else
    (s, .noElem)

theorem listDelete_rewritten (s : SeqStore α) (l : ListIx) (x : α) :
    Rewritten s (s.listDelete (some l) x).1 (some l) ((s.seq (some l)).erase x) := by
  rw [listDelete]
  by_cases mem : x ∈ s.seq (some l)
  · rw [if_pos mem]
    exact rewritten_put s l _ _
  · rw [if_neg mem, List.erase_of_not_mem mem]
    exact Rewritten.refl s _

theorem seq_listDelete_of_ne (s : SeqStore α) {list list' : ListADT} (other : list' ≠ list)
    (x : α) : (s.listDelete list x).1.seq list' = s.seq list' := by
  rw [listDelete]
  split
  · exact seq_put_of_ne s other _
  · rfl

theorem listDelete_busy (s : SeqStore α) (list : ListADT) (x : α) :
    (s.listDelete list x).1.busy = s.busy := by
  rw [listDelete]
  split <;> simp

def listElementBelongs (s : SeqStore α) (list : ListADT) (element : α) : Option α :=
  if element ∈ s.seq list then some element else none

instance : ListLib (SeqStore α) α where
  newList := newList
  listIsEmpty := listIsEmpty
  listToBegin := listToBegin
  listGetElement := listGetElement
  listInsert := listInsert
  listDelete := listDelete
  listElementBelongs := listElementBelongs
  listRemoveFirst := listRemoveFirst
  freeList := freeList

end SeqStore

end MinixSemaphore.Lists
