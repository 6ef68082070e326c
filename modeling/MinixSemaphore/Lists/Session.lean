import MinixSemaphore.Lists.Refinement
import MinixSemaphore.Transition.Run

/-!
# Sessions of list calls

A client of list.h that only passes on lists it has got from `NewList` and not yet
freed can think of them as sequences. A book holds the sequence of each of its
lists. The pools follow the book call by call, and they hold nothing else: the
nodes in use are those of the chains behind the book.
-/

namespace MinixSemaphore.Lists

open MinixSemaphore.Store
open MinixSemaphore.Transition

universe u v

variable {α : Type v}

/-- A call of list.h. Lists are made unsorted. -/
inductive ListCall (α : Type v)
  | newList (fn : α → α → Int)
  | listInsert (list : ListIx) (element : α)
  | listDelete (list : ListIx) (element : α)
  | listRemoveFirst (list : ListIx)
  | listElementBelongs (list : ListIx) (element : α)
  | freeList (list : ListIx)

/-- What a call returns. -/
inductive Outcome (α : Type v)
  | list (list : ListADT)
  | status (status : ListStatus)
  | element (found : Option α)
  | nothing

/-- Carry out a call on any store of lists. -/
def carryOut {P : Type u} [ListLib P α] (p : P) : ListCall α → P × Outcome α
  | .newList fn => let made := ListLib.newList p fn .unsorted; (made.1, .list made.2)
  | .listInsert l x => let done := ListLib.listInsert p (some l) x; (done.1, .status done.2)
  | .listDelete l x => let done := ListLib.listDelete p (some l) x; (done.1, .status done.2)
  | .listRemoveFirst l => let done := ListLib.listRemoveFirst p (some l); (done.1, .status done.2)
  | .listElementBelongs l x => (p, .element (ListLib.listElementBelongs p (some l) x))
  | .freeList l => (ListLib.freeList p (some l), .nothing)

/-! ## The reference -/

/-- The sequence of every list that the client may use. -/
abbrev Book (α : Type v) := ListIx → Option (List α)

namespace Book

/-- The number of elements in all lists together. -/
def total (b : Book α) : Nat :=
  ∑ l, ((b l).getD []).length

/-- The client uses a list only while it is in the book, and compares elements for
equality. -/
def Admits (b : Book α) : ListCall α → Prop
  | .newList fn => ∀ x y, fn x y = 0 ↔ x = y
  | .listInsert l _ | .listDelete l _ | .listRemoveFirst l | .listElementBelongs l _
  | .freeList l => (b l).isSome = true

variable [DecidableEq α]

/-- What a call has to return. A new list is one that is not in use. -/
def Expects (b : Book α) : ListCall α → Outcome α → Prop
  | .newList _, outcome =>
      (∃ l, outcome = .list (some l) ∧ b l = none) ∨
        outcome = .list none ∧ ∀ l, b l ≠ none
  | .listInsert _ _, outcome =>
      outcome = .status (if b.total = maxNodes then .noMem else .noErr)
  | .listDelete l x, outcome =>
      outcome = .status (if x ∈ (b l).getD [] then .noErr else .noElem)
  | .listRemoveFirst l, outcome =>
      outcome = .status (if (b l).getD [] = [] then .listEnd else .noErr)
  | .listElementBelongs l x, outcome =>
      outcome = .element (if x ∈ (b l).getD [] then some x else none)
  | .freeList _, outcome => outcome = .nothing

/-- The book after a call; `made` is the list that `NewList` returned. An insert puts
its element in front, and a delete takes out the first occurrence. -/
def next (b : Book α) (made : Outcome α) : ListCall α → Book α
  | .newList _ =>
      match made with
      | .list (some l) => Function.update b l (some [])
      | _ => b
  | .listInsert l x =>
      if b.total = maxNodes then b else Function.update b l ((b l).map fun xs => x :: xs)
  | .listDelete l x => Function.update b l ((b l).map fun xs => xs.erase x)
  | .listRemoveFirst l => Function.update b l ((b l).map List.tail)
  | .listElementBelongs _ _ => b
  | .freeList l => Function.update b l none

end Book

/-! ## Sequence stores without loss -/

namespace SeqStore

/-- As many nodes are in use as the lists have elements, no more than there are, and a
list that is not allocated is empty. -/
structure Tight (s : SeqStore α) : Prop where
  used : s.used = ∑ l, (s.content l).length
  bound : s.used ≤ maxNodes
  spare : ∀ l, s.busy l = false → s.content l = []

theorem empty_tight : (empty : SeqStore α).Tight where
  used := by simp [empty]
  bound := Nat.zero_le _
  spare _ _ := rfl

/-- The book of an owner of all lists. -/
def book (s : SeqStore α) : Book α :=
  fun l => if s.busy l then some (s.content l) else none

variable {s : SeqStore α} {l : ListIx}

theorem Tight.total_book (tight : s.Tight) : s.book.total = s.used := by
  rw [Book.total, tight.used]
  apply Finset.sum_congr rfl
  intro l _
  cases busy : s.busy l with
  | true => simp [book, busy]
  | false => simp [book, busy, tight.spare l busy]

theorem put_content (s : SeqStore α) (l : ListIx) (xs : List α) :
    (s.put (some l) xs).content = Function.update s.content l xs :=
  rfl

theorem sum_length_put (s : SeqStore α) (l : ListIx) (xs : List α) :
    ∑ j, ((s.put (some l) xs).content j).length + (s.content l).length =
      ∑ j, (s.content j).length + xs.length := by
  have away : ∀ j ∈ Finset.univ.erase l,
      ((s.put (some l) xs).content j).length = (s.content j).length := by
    intro j mem
    rw [put_content, Function.update_of_ne (Finset.ne_of_mem_erase mem)]
  rw [← Finset.add_sum_erase _ _ (Finset.mem_univ l), Finset.sum_congr rfl away,
    ← Finset.add_sum_erase Finset.univ (fun j => (s.content j).length) (Finset.mem_univ l)]
  rw [put_content, Function.update_self]
  omega

/-- Rewriting an allocated list loses nothing if the nodes are counted along. -/
theorem Tight.put (tight : s.Tight) (busy : s.busy l = true) (xs : List α) {used : Nat}
    (counted : used + (s.content l).length = s.used + xs.length) (bound : used ≤ maxNodes) :
    Tight { s.put (some l) xs with used := used } where
  used := by
    have sum := sum_length_put s l xs
    have before := tight.used
    change used = ∑ j, ((s.put (some l) xs).content j).length
    omega
  bound := bound
  spare j free := by
    have other : j ≠ l := by
      rintro rfl
      rw [put_busy, busy] at free
      contradiction
    change (s.put (some l) xs).content j = []
    rw [put_content, Function.update_of_ne other]
    apply tight.spare
    rwa [put_busy] at free

/-- What an allocated list holds is what the book says. -/
theorem book_of_busy (busy : s.busy l = true) : s.book l = some (s.content l) :=
  if_pos busy

theorem book_put (busy : s.busy l = true) (xs : List α) (used : Nat) :
    book { s.put (some l) xs with used := used } = Function.update s.book l (some xs) := by
  funext j
  by_cases same : j = l
  · subst same
    simp [book, busy, put_content]
  · simp [book, put_content, same]

/-! ## The store follows its book -/

theorem exists_of_isSome_book (some : (s.book l).isSome = true) : s.busy l = true := by
  by_contra free
  simp [book, free] at some

theorem Tight.length_le (tight : s.Tight) (l : ListIx) : (s.content l).length ≤ s.used := by
  rw [tight.used]
  exact Finset.single_le_sum (f := fun j => (s.content j).length) (fun _ _ => Nat.zero_le _)
    (Finset.mem_univ l)

theorem Tight.newList (tight : s.Tight) (fn : α → α → Int) :
    (s.newList fn .unsorted).1.Tight := by
  rw [SeqStore.newList]
  cases cell : s.freeCell with
  | none => exact tight
  | some l =>
      have free : s.busy l = false := by
        simpa using (firstFit_eq_some_iff.mp cell).1
      have empty : s.content l = [] := tight.spare l free
      have same : (s.put (some l) []).content = s.content := by
        rw [put_content, ← empty, Function.update_eq_self]
      refine ⟨?_, tight.bound, ?_⟩
      · change s.used = ∑ j, ((s.put (some l) []).content j).length
        rw [same]
        exact tight.used
      · intro j idle
        change (s.put (some l) []).content j = []
        rw [same]
        apply tight.spare
        by_cases here : j = l
        · rw [here, free]
        · change Function.update s.busy l true j = false at idle
          rwa [Function.update_of_ne here] at idle

theorem Tight.freeList (tight : s.Tight) (l : ListIx) : (s.freeList (some l)).Tight := by
  have sum := sum_length_put s l []
  have before := tight.used
  refine ⟨?_, (Nat.sub_le _ _).trans tight.bound, ?_⟩
  · change s.used - (s.content l).length = ∑ j, ((s.put (some l) []).content j).length
    rw [List.length_nil] at sum
    omega
  · intro j idle
    change Function.update s.content l [] j = []
    change Function.update s.busy l false j = false at idle
    by_cases here : j = l
    · rw [here, Function.update_self]
    · rw [Function.update_of_ne here] at idle ⊢
      exact tight.spare j idle

variable [DecidableEq α]

theorem book_newList (s : SeqStore α) (fn : α → α → Int) :
    s.book.Expects (.newList fn) (.list (s.newList fn .unsorted).2) ∧
      (s.newList fn .unsorted).1.book =
        s.book.next (.list (s.newList fn .unsorted).2) (.newList fn) := by
  rw [SeqStore.newList]
  cases cell : s.freeCell with
  | none =>
      have taken := firstFit_eq_none_iff.mp cell
      refine ⟨Or.inr ⟨rfl, fun l => ?_⟩, rfl⟩
      simp [book, show s.busy l = true by simpa using taken l]
  | some l =>
      have free := (firstFit_eq_some_iff.mp cell).1
      refine ⟨Or.inl ⟨l, rfl, by simp [book, show s.busy l = false by simpa using free]⟩, ?_⟩
      funext j
      by_cases same : j = l
      · subst same
        simp [book, Book.next, put_content]
      · simp [book, Book.next, put_content, same]

theorem Tight.listInsert (tight : s.Tight) (busy : s.busy l = true) (x : α) :
    s.book.Expects (.listInsert l x) (.status (s.listInsert (some l) x).2) ∧
      (s.listInsert (some l) x).1.book =
        s.book.next (.status (s.listInsert (some l) x).2) (.listInsert l x) ∧
      (s.listInsert (some l) x).1.Tight := by
  have total := tight.total_book
  rw [SeqStore.listInsert, Book.Expects, Book.next, total, book_of_busy busy]
  by_cases room : s.used < maxNodes
  · rw [if_pos room, if_neg room.ne, if_neg room.ne]
    exact ⟨rfl, book_put busy _ _, tight.put busy _ (by simp; omega) room⟩
  · have full : s.used = maxNodes := le_antisymm tight.bound (not_lt.mp room)
    rw [if_neg room, if_pos full, if_pos full]
    exact ⟨rfl, rfl, tight⟩

theorem Tight.listDelete (tight : s.Tight) (busy : s.busy l = true) (x : α) :
    s.book.Expects (.listDelete l x) (.status (s.listDelete (some l) x).2) ∧
      (s.listDelete (some l) x).1.book =
        s.book.next (.status (s.listDelete (some l) x).2) (.listDelete l x) ∧
      (s.listDelete (some l) x).1.Tight := by
  rw [SeqStore.listDelete, Book.Expects, Book.next, book_of_busy busy, seq_some]
  by_cases mem : x ∈ s.content l
  · have positive := List.length_pos_of_mem mem
    have within := tight.length_le l
    have erased := List.length_erase_of_mem mem
    rw [if_pos mem, Option.getD_some, if_pos mem]
    exact ⟨rfl, book_put busy _ _, tight.put busy _ (by omega)
      ((Nat.sub_le _ _).trans tight.bound)⟩
  · rw [if_neg mem, Option.getD_some, if_neg mem, Option.map_some,
      List.erase_of_not_mem mem, ← book_of_busy busy, Function.update_eq_self]
    exact ⟨rfl, rfl, tight⟩

theorem Tight.listRemoveFirst (tight : s.Tight) (busy : s.busy l = true) :
    s.book.Expects (.listRemoveFirst l) (.status (s.listRemoveFirst (some l)).2) ∧
      (s.listRemoveFirst (some l)).1.book =
        s.book.next (.status (s.listRemoveFirst (some l)).2) (.listRemoveFirst l) ∧
      (s.listRemoveFirst (some l)).1.Tight := by
  have entry := book_of_busy busy
  have within := tight.length_le l
  rw [SeqStore.listRemoveFirst, Book.Expects, Book.next, entry, seq_some]
  cases content : s.content l with
  | nil =>
      rw [content] at entry
      refine ⟨rfl, ?_, tight⟩
      rw [Option.map_some, List.tail_nil, ← entry, Function.update_eq_self]
  | cons x rest =>
      rw [content, List.length_cons] at within
      refine ⟨rfl, book_put busy _ _, tight.put busy _ ?_ ((Nat.sub_le _ _).trans tight.bound)⟩
      rw [content, List.length_cons]
      omega

/-- A call of the client does what its book says and loses nothing. -/
theorem Tight.carryOut (tight : s.Tight) {call : ListCall α} (admits : s.book.Admits call) :
    s.book.Expects call (carryOut s call).2 ∧
      (carryOut s call).1.book = s.book.next (carryOut s call).2 call ∧
      (carryOut s call).1.Tight := by
  cases call with
  | newList fn =>
      obtain ⟨expects, book⟩ := book_newList s fn
      exact ⟨expects, book, tight.newList fn⟩
  | listInsert l x => exact tight.listInsert (exists_of_isSome_book admits) x
  | listDelete l x => exact tight.listDelete (exists_of_isSome_book admits) x
  | listRemoveFirst l => exact tight.listRemoveFirst (exists_of_isSome_book admits)
  | listElementBelongs l x =>
      have busy := exists_of_isSome_book admits
      refine ⟨?_, rfl, tight⟩
      rw [Book.Expects, book_of_busy busy]
      rfl
  | freeList l =>
      refine ⟨rfl, ?_, tight.freeList l⟩
      funext j
      by_cases same : j = l
      · subst same
        simp [MinixSemaphore.Lists.carryOut, ListLib.freeList, SeqStore.freeList, book, Book.next]
      · simp [MinixSemaphore.Lists.carryOut, ListLib.freeList, SeqStore.freeList, book, Book.next,
          put_content, same]

end SeqStore

/-! ## The pools follow the book -/

namespace Pools

variable [Inhabited α] {p : Pools α} {chains : ListIx → List NodeIx}

/-- The nodes in use are those of the chains, if nothing is lost. -/
theorem Shape.busy_iff (shape : p.Shape chains) (tight : p.abs.Tight) (n : NodeIx) :
    (p.nodes n).busy = true ↔ ∃ l, n ∈ chains l := by
  have lengths : ∀ l, (chains l).toFinset.card = (p.abs.content l).length := by
    intro l
    rw [List.toFinset_card_of_nodup (shape.chained l).nodup,
      show p.abs.content l = p.seq (some l) from rfl, shape.seq_eq l, List.length_map]
  have disjoint : ((Finset.univ : Finset ListIx) : Set ListIx).PairwiseDisjoint
      fun l => (chains l).toFinset := by
    intro l _ l' _ other
    rw [Function.onFun, Finset.disjoint_left]
    intro m mem mem'
    exact other (shape.apart l l' m (List.mem_toFinset.mp mem) (List.mem_toFinset.mp mem'))
  have inside : (Finset.univ.biUnion fun l => (chains l).toFinset) ⊆
      Finset.univ.filter fun m => (p.nodes m).busy = true := by
    apply Finset.biUnion_subset.mpr
    intro l _ m mem
    simpa using shape.busy l m (List.mem_toFinset.mp mem)
  have all := Finset.eq_of_subset_of_card_le inside (by
    rw [Finset.card_biUnion disjoint, Finset.sum_congr rfl fun l _ => lengths l, ← tight.used]
    exact le_rfl)
  have mem := Finset.ext_iff.mp all n
  simpa using mem.symm

omit [Inhabited α] in
/-- As many elements are in use as nodes. -/
theorem Shape.card_elements (shape : p.Shape chains) :
    (Finset.univ.filter fun e => (p.elements e).busy = true).card = p.used := by
  have image : (Finset.univ.filter fun n => (p.nodes n).busy = true).image
      (fun n => (p.nodes n).node.element) =
        (Finset.univ.filter fun e => (p.elements e).busy = true).image some := by
    ext found
    simp only [Finset.mem_image, Finset.mem_filter, Finset.mem_univ, true_and]
    constructor
    · rintro ⟨n, busy, rfl⟩
      obtain ⟨e, owned, taken⟩ := shape.owns n busy
      exact ⟨e, taken, owned.symm⟩
    · rintro ⟨e, taken, rfl⟩
      exact shape.backed e taken
  have injective : Set.InjOn (fun n => (p.nodes n).node.element)
      (Finset.univ.filter fun n => (p.nodes n).busy = true : Finset NodeIx) := by
    intro n busy n' busy' same
    exact shape.sole n n' (by simpa using busy) (by simpa using busy') same
  rw [used, ← Finset.card_image_of_injOn injective, image,
    Finset.card_image_of_injective _ (Option.some_injective _)]

variable [DecidableEq α]

/-- Every list that is allocated is one the operations of list.c work on. -/
def Tidy (p : Pools α) : Prop :=
  ∀ l, (p.lists l).busy = true → p.Unsorted l

/-- A call on allocated lists does over the pools what it does over sequences. -/
theorem carryOut_refines (wf : p.WellFormed) (tidy : p.Tidy) {call : ListCall α}
    (admits : p.abs.book.Admits call) :
    (carryOut p call).1.WellFormed ∧ (carryOut p call).1.Tidy ∧
      (carryOut p call).1.abs = (carryOut p.abs call).1 ∧
      (carryOut p call).2 = (carryOut p.abs call).2 := by
  have kept : ∀ {p' : Pools α} {s : SeqStore α}, Refines p p' s →
      (∀ l, s.busy l = true → (p.lists l).busy = true) → p'.Tidy := by
    intro p' s refines fewer l busy
    have busy' : s.busy l = true := by rwa [← refines.abs]
    have unsorted := tidy l (fewer l busy')
    rwa [Unsorted, refines.kind l]
  cases call with
  | newList fn =>
      obtain ⟨wf', abs, pointer, kind⟩ := newList_refines wf fn .unsorted
      refine ⟨wf', ?_, abs, congrArg Outcome.list pointer⟩
      intro l busy
      change (p.newList fn .unsorted).1.Unsorted l
      rw [Unsorted, kind l]
      by_cases fresh : (p.newList fn .unsorted).2 = some l
      · rw [if_pos fresh]
        exact ⟨rfl, admits⟩
      · rw [if_neg fresh]
        apply tidy
        have busy : (p.newList fn .unsorted).1.abs.busy l = true := busy
        rw [abs, SeqStore.newList] at busy
        rw [pointer, SeqStore.newList] at fresh
        cases cell : p.abs.freeCell with
        | none =>
            rw [cell] at busy
            exact busy
        | some j =>
            rw [cell] at busy fresh
            have other : l ≠ j := fun same => fresh (congrArg some same.symm)
            change Function.update p.abs.busy j true l = true at busy
            rwa [Function.update_of_ne other] at busy
  | listInsert l x =>
      have usable : p.Usable (some l) := tidy l (SeqStore.exists_of_isSome_book admits)
      obtain ⟨refines, status⟩ := listInsert_refines wf usable x
      refine ⟨refines.wellFormed, kept refines ?_, refines.abs, congrArg Outcome.status status⟩
      rw [SeqStore.listInsert_busy]
      exact fun _ => id
  | listDelete l x =>
      have usable : p.Usable (some l) := tidy l (SeqStore.exists_of_isSome_book admits)
      obtain ⟨refines, status⟩ := listDelete_refines wf usable x
      refine ⟨refines.wellFormed, kept refines ?_, refines.abs, congrArg Outcome.status status⟩
      rw [SeqStore.listDelete_busy]
      exact fun _ => id
  | listRemoveFirst l =>
      obtain ⟨refines, status⟩ := listRemoveFirst_refines wf (some l)
      refine ⟨refines.wellFormed, kept refines ?_, refines.abs, congrArg Outcome.status status⟩
      rw [SeqStore.listRemoveFirst_busy]
      exact fun _ => id
  | listElementBelongs l x =>
      have usable : p.Usable (some l) := tidy l (SeqStore.exists_of_isSome_book admits)
      exact ⟨wf, tidy, rfl,
        congrArg Outcome.element (listElementBelongs_eq wf usable x)⟩
  | freeList l =>
      have refines := freeList_refines wf (some l)
      refine ⟨refines.wellFormed, kept refines ?_, refines.abs, rfl⟩
      intro j busy
      change Function.update p.abs.busy l false j = true at busy
      by_cases same : j = l
      · rw [same, Function.update_self] at busy
        contradiction
      · rwa [Function.update_of_ne same] at busy

end Pools

/-- The pools of list.c, and the book of their only client. -/
structure Session (α : Type v) where
  pools : Pools α
  book : Book α

namespace Session

variable [Inhabited α]

/-- No list has been made. -/
def start : Session α where
  pools := Pools.zeroed
  book _ := none

section

variable [DecidableEq α]

/-- Carry out one call, and keep the book. -/
def step (s : Session α) (call : ListCall α) : Session α where
  pools := (carryOut s.pools call).1
  book := s.book.next (carryOut s.pools call).2 call

/-- The client keeps to its own lists. -/
def Admissible (s : Session α) (call : ListCall α) : Prop :=
  s.book.Admits call

end

/-- The pools show the book and nothing else. -/
structure Faithful (s : Session α) : Prop where
  wellFormed : s.pools.WellFormed
  tidy : s.pools.Tidy
  tight : s.pools.abs.Tight
  booked : s.pools.abs.book = s.book

theorem start_faithful : (start : Session α).Faithful where
  wellFormed := ⟨_, Pools.zeroed_shape⟩
  tidy l busy := by simp [start, Pools.zeroed] at busy
  tight := by
    rw [start, Pools.abs_zeroed]
    exact SeqStore.empty_tight
  booked := by
    rw [start, Pools.abs_zeroed]
    rfl

variable {s : Session α} [DecidableEq α]

/-- A call of the client returns what the book expects, and the pools go on showing the
book. -/
theorem Faithful.step (faithful : s.Faithful) {call : ListCall α} (admissible : s.Admissible call) :
    s.book.Expects call (carryOut s.pools call).2 ∧ (s.step call).Faithful := by
  have admits : s.pools.abs.book.Admits call := by
    rw [faithful.booked]
    exact admissible
  obtain ⟨wellFormed, tidy, abs, outcome⟩ :=
    Pools.carryOut_refines faithful.wellFormed faithful.tidy admits
  obtain ⟨expects, booked, tight⟩ := faithful.tight.carryOut admits
  rw [faithful.booked, ← outcome] at expects booked
  refine ⟨expects, wellFormed, tidy, ?_, ?_⟩
  · change (carryOut s.pools call).1.abs.Tight
    rwa [abs]
  · change (carryOut s.pools call).1.abs.book = s.book.next (carryOut s.pools call).2 call
    rwa [abs]

/-- `chains` are the chains of the lists in the book. They end, share no node, and hold
the elements the book says; the nodes in use are those of the chains, and the elements
in use belong to them, one to each. -/
structure Mirrors (s : Session α) (chains : ListIx → List NodeIx) : Prop where
  chained : ∀ l xs, s.book l = some xs →
    Chain s.pools.tail (s.pools.lists l).list.nodes (chains l) ∧ (chains l).Nodup ∧
      (chains l).map s.pools.value = xs
  apart : ∀ l l' n, n ∈ chains l → n ∈ chains l' → l = l'
  nodes : ∀ n, (s.pools.nodes n).busy = true ↔ ∃ l, (s.book l).isSome = true ∧ n ∈ chains l
  owns : ∀ n, (s.pools.nodes n).busy = true →
    ∃ e, (s.pools.nodes n).node.element = some e ∧ (s.pools.elements e).busy = true
  sole : ∀ n n', (s.pools.nodes n).busy = true → (s.pools.nodes n').busy = true →
    (s.pools.nodes n).node.element = (s.pools.nodes n').node.element → n = n'
  backed : ∀ e, (s.pools.elements e).busy = true →
    ∃ n, (s.pools.nodes n).busy = true ∧ (s.pools.nodes n).node.element = some e
  nodeCount : (Finset.univ.filter fun n => (s.pools.nodes n).busy = true).card = s.book.total
  elementCount :
    (Finset.univ.filter fun e => (s.pools.elements e).busy = true).card = s.book.total

omit [DecidableEq α] in
theorem Faithful.total (faithful : s.Faithful) : s.book.total = s.pools.used := by
  rw [← faithful.booked, faithful.tight.total_book]
  rfl

omit [DecidableEq α] in
theorem Faithful.exists_mirrors (faithful : s.Faithful) : ∃ chains, s.Mirrors chains := by
  obtain ⟨chains, shape⟩ := faithful.wellFormed
  have live : ∀ {l xs}, s.book l = some xs → s.pools.seq (some l) = xs := by
    intro l xs here
    rw [← faithful.booked] at here
    have busy := SeqStore.exists_of_isSome_book (Option.isSome_iff_exists.mpr ⟨xs, here⟩)
    rw [SeqStore.book_of_busy busy] at here
    exact Option.some.inj here
  refine ⟨chains, ?_, shape.apart, ?_, shape.owns, shape.sole, shape.backed, ?_, ?_⟩
  · intro l xs here
    refine ⟨shape.chained l, (shape.chained l).nodup, ?_⟩
    rw [← shape.seq_eq l]
    exact live here
  · intro n
    rw [shape.busy_iff faithful.tight n]
    constructor
    · rintro ⟨l, mem⟩
      refine ⟨l, ?_, mem⟩
      rw [← faithful.booked]
      cases busy : s.pools.abs.busy l with
      | true => rw [SeqStore.book_of_busy busy]; rfl
      | false =>
          have empty : s.pools.seq (some l) = [] := faithful.tight.spare l busy
          rw [shape.seq_eq l, List.map_eq_nil_iff] at empty
          rw [empty] at mem
          exact absurd mem List.not_mem_nil
    · rintro ⟨l, -, mem⟩
      exact ⟨l, mem⟩
  · exact faithful.total.symm
  · exact shape.card_elements.trans faithful.total.symm

/-- After any calls of a client that keeps to its own lists, the pools show the book and
nothing else. The next call returns what the book expects: an insert fails exactly
when all nodes are taken, and then changes nothing. The search of a list and the loop
that frees it end. -/
theorem pools_follow_book {calls : List (ListCall α)} (run : Run step Admissible start calls s) :
    (∃ chains, s.Mirrors chains) ∧
    (∀ call, s.Admissible call → s.book.Expects call (carryOut s.pools call).2 ∧
      ∃ chains, (s.step call).Mirrors chains) ∧
    (∀ l x, (s.book l).isSome = true →
      ((s.pools.listInsert (some l) x).2 = .noMem ↔ s.book.total = maxNodes) ∧
        ((s.pools.listInsert (some l) x).2 = .noMem →
          (s.pools.listInsert (some l) x).1 = s.pools)) ∧
    ∀ l, (s.book l).isSome = true →
      (∀ x, (s.pools.listFindNode (some l) x (maxNodes + 1) (s.pools.list (some l)).nodes
        none).isSome = true) ∧ (s.pools.dropAll (some l) (maxNodes + 1)).isSome = true := by
  have faithful : s.Faithful :=
    run.invariant start_faithful fun _ _ inv admissible => (inv.step admissible).2
  have unsorted : ∀ {l}, (s.book l).isSome = true → s.pools.Unsorted l := by
    intro l here
    rw [← faithful.booked] at here
    exact faithful.tidy l (SeqStore.exists_of_isSome_book here)
  refine ⟨faithful.exists_mirrors, ?_, ?_, ?_⟩
  · intro call admissible
    obtain ⟨expects, faithful'⟩ := faithful.step admissible
    exact ⟨expects, faithful'.exists_mirrors⟩
  · intro l x here
    have status : Outcome.status (s.pools.listInsert (some l) x).2 =
        .status (if s.book.total = maxNodes then .noMem else .noErr) :=
      (faithful.step (show s.Admissible (.listInsert l x) from here)).1
    constructor
    · rw [Outcome.status.inj status]
      split <;> simp_all
    · intro noMem
      have start : (if (s.pools.list (some l)).order = .sorted then s.pools.findNode (some l) x
          else (false, none)) = (false, none) := by
        rw [show (s.pools.list (some l)).order = .unsorted from (unsorted here).1]
        rfl
      rcases Pools.listInsert_eq faithful.wellFormed x start with
        ⟨-, unchanged⟩ | ⟨-, n, e, -, -, inserted⟩
      · rw [unchanged]
      · rw [inserted] at noMem
        contradiction
  · intro l here
    obtain ⟨chains, shape⟩ := faithful.wellFormed
    have enough : (chains l).length < maxNodes + 1 := Nat.lt_succ_of_le (shape.length_le l)
    constructor
    · intro x
      obtain ⟨found, run, -⟩ := Pools.listFindNode_search x (shape.chained l) enough
      rw [Pools.list, run]
      rfl
    · have short : (s.pools.seq (some l)).length < maxNodes + 1 :=
        Nat.lt_succ_of_le (Pools.length_seq_le ⟨chains, shape⟩ l)
      obtain ⟨p, dropped, -⟩ := Pools.dropAll_refines ⟨chains, shape⟩ short
      rw [dropped]
      rfl

/-- Two lists share the pools; an element that one of them holds twice is deleted once,
and the other list is freed. -/
theorem pools_follow_book_of_free :
    let calls : List (ListCall Int) := [.newList (fun x y => if x = y then 0 else -1),
      .newList (fun x y => if x = y then 0 else 1), .listInsert 0 7, .listInsert 1 7,
      .listInsert 0 8, .listInsert 0 7, .listDelete 0 7, .freeList 1]
    let s := calls.foldl step (start : Session Int)
    s.book 0 = some [8, 7] ∧ s.book 1 = none ∧ (∃ chains, s.Mirrors chains) ∧
      ((s.pools.listInsert (some 0) 9).2 = .noMem ↔ s.book.total = maxNodes) := by
  intro calls s
  have allowed : Allowed step Admissible (start : Session Int) calls := by
    refine ⟨fun x y => by simp, fun x y => by simp, ?_, ?_, ?_, ?_, ?_, ?_, trivial⟩
    all_goals
      change Option.isSome _ = true
      decide +kernel
  obtain ⟨mirrors, -, inserts, -⟩ := pools_follow_book allowed.run
  exact ⟨by decide +kernel, by decide +kernel, mirrors, (inserts 0 9 (by decide +kernel)).1⟩

end Session

end MinixSemaphore.Lists
