import MinixSemaphore.Lists.Shape

/-!
# What the operations do to chains

Whatever the order of a list and its comparison are, a search divides the chain into
the nodes it has gone past and the rest. An insert links a free node between the two
parts, and a delete takes out the first node of the second one. Cursors of other
lists are left alone.
-/

namespace MinixSemaphore.Lists

open MinixSemaphore.Store

universe v

namespace Pools

variable {α : Type v} {p p' : Pools α} {chains : ListIx → List NodeIx} {l : ListIx}

/-- The cursor of a list. -/
def cursor (p : Pools α) (l : ListIx) : Option NodeIx :=
  (p.lists l).list.current

/-! ## Searching -/

section Search

variable [Inhabited α]

/-- The search for `x` goes past the node `n`. -/
def GoesPast (p : Pools α) (l : ListIx) (x : α) (n : NodeIx) : Prop :=
  (p.kind l).1 (p.value n) x < 0 ∨
    0 < (p.kind l).1 (p.value n) x ∧ (p.kind l).2 = .unsorted

/-- The comparison takes the element of the node `n` for `x`. -/
def Meets (p : Pools α) (l : ListIx) (x : α) (n : NodeIx) : Prop :=
  (p.kind l).1 (p.value n) x = 0

/-- The search for `x` goes past the nodes in front of `rest`, stops there, and finds no
node that meets `x`. -/
structure Misses (p : Pools α) (l : ListIx) (x : α) (front rest : List NodeIx) : Prop where
  past : ∀ m ∈ front, p.GoesPast l x m
  stop : ∀ n ∈ rest.head?, ¬p.GoesPast l x n ∧ ¬p.Meets l x n

/-- What a search for `x` along `cells` returns, if `*result` holds `result`. -/
inductive Search (p : Pools α) (l : ListIx) (x : α) (cells : List NodeIx)
    (result : Option NodeIx) : Bool × Option NodeIx → Prop
  | found {front rest : List NodeIx} {n : NodeIx} :
      cells = front ++ n :: rest → (∀ m ∈ front, p.GoesPast l x m) → p.Meets l x n →
        Search p l x cells result (true, front.getLast?.or result)
  | missed {front rest : List NodeIx} :
      cells = front ++ rest → p.Misses l x front rest →
        Search p l x cells result (false, front.getLast?.or result)

/-- A search that goes past one more node in front. -/
theorem Search.cons {x : α} {cell : NodeIx} {rest : List NodeIx} {result : Option NodeIx}
    {found : Bool × Option NodeIx} (search : p.Search l x rest (some cell) found)
    (past : p.GoesPast l x cell) : p.Search l x (cell :: rest) result found := by
  have last : ∀ front : List NodeIx,
      front.getLast?.or (some cell) = (cell :: front).getLast?.or result := by
    intro front
    cases front with
    | nil => rfl
    | cons m front => simp [List.getLast?_cons]
  have all : ∀ {front : List NodeIx}, (∀ m ∈ front, p.GoesPast l x m) →
      ∀ m ∈ cell :: front, p.GoesPast l x m := by
    intro front before m mem
    rcases List.mem_cons.mp mem with rfl | mem
    · exact past
    · exact before m mem
  cases search with
  | found split before meets =>
      rw [last]
      exact .found (congrArg (cell :: ·) split) (all before) meets
  | missed split misses =>
      rw [last]
      exact .missed (congrArg (cell :: ·) split) ⟨all misses.past, misses.stop⟩

/-- The recursion along a chain that ends. -/
theorem listFindNode_search (x : α) {start result : Option NodeIx} {cells : List NodeIx}
    {fuel : Nat} (chained : Chain p.tail start cells) (enough : cells.length < fuel) :
    ∃ found, p.listFindNode (some l) x fuel start result = some found ∧
      p.Search l x cells result found := by
  induction cells generalizing start result fuel with
  | nil =>
      obtain ⟨fuel, rfl⟩ := Nat.exists_eq_succ_of_ne_zero (Nat.ne_zero_of_lt enough)
      rw [chain_nil.mp chained]
      have none : p.Search l x [] result (false, result) :=
        .missed (List.nil_append []).symm ⟨by simp, by simp⟩
      exact ⟨_, rfl, none⟩
  | cons cell rest ih =>
      obtain ⟨fuel, rfl⟩ := Nat.exists_eq_succ_of_ne_zero (Nat.ne_zero_of_lt enough)
      rcases chained with ⟨rfl, tail⟩
      rw [listFindNode]
      by_cases past : p.GoesPast l x cell
      · obtain ⟨found, run, search⟩ : ∃ found,
            p.listFindNode (some l) x fuel (p.tail cell) (some cell) = some found ∧
              p.Search l x rest (some cell) found := ih tail (Nat.lt_of_succ_lt_succ enough)
        exact ⟨found, (if_pos past).trans run, search.cons past⟩
      · by_cases meets : p.Meets l x cell
        · have here : p.Search l x (cell :: rest) result (true, result) :=
            .found (List.nil_append _).symm (by simp) meets
          exact ⟨_, (if_neg past).trans (if_pos meets), here⟩
        · have none : p.Search l x (cell :: rest) result (false, result) :=
            .missed (List.nil_append _).symm ⟨by simp, by simpa using ⟨past, meets⟩⟩
          exact ⟨_, (if_neg past).trans (if_neg meets), none⟩

theorem Shape.search (shape : p.Shape chains) (l : ListIx) (x : α) :
    p.Search l x (chains l) none (p.findNode (some l) x) := by
  obtain ⟨found, run, search⟩ : ∃ found,
      p.listFindNode (some l) x (maxNodes + 1) (p.lists l).list.nodes none = some found ∧
        p.Search l x (chains l) none found :=
    listFindNode_search x (shape.chained l) (Nat.lt_succ_of_le (shape.length_le l))
  have whole : p.findNode (some l) x = found := by
    rw [findNode, Pools.list, run]
    rfl
  rwa [whole]

end Search

/-! ## Linking a node in -/

@[simp]
theorem setNodeAfter_cursor (p : Pools α) (list : ListADT) (aux node : Option NodeIx)
    (l : ListIx) : (p.setNodeAfter list aux node).cursor l = p.cursor l := by
  cases aux with
  | none =>
      cases list with
      | none => rfl
      | some i => by_cases same : l = i <;> simp [cursor, setNodeAfter, setList, Pools.list, same]
  | some k => rfl

@[simp]
theorem setCurrent_cursor (p : Pools α) (l l' : ListIx) (current : Option NodeIx) :
    (p.setCurrent (some l) current).cursor l' = if l' = l then current else p.cursor l' := by
  by_cases same : l' = l <;> simp [cursor, setCurrent, setList, same]

/-- The pools after both cells of an insert have been found and filled. -/
def filled (p : Pools α) (n : NodeIx) (e : ElemIx) (x : α) (tail : Option NodeIx) : Pools α :=
  { p with
    elements := Function.update p.elements e { element := x, busy := true }
    nodes := Function.update p.nodes n
      { node := { element := some e, tail := tail }, busy := true } }

theorem filled_taken {n : NodeIx} {e : ElemIx} (x : α) (tail : Option NodeIx)
    (nodeFree : (p.nodes n).busy = false) (elementFree : (p.elements e).busy = false) :
    Shape.Taken p (p.filled n e x tail) n e x := by
  refine ⟨nodeFree, elementFree, fun m => ?_, fun m => ?_, fun d => ?_, fun d => ?_⟩
  · by_cases same : m = n <;> simp [filled, same]
  · by_cases same : m = n <;> simp [filled, same]
  · by_cases same : d = e <;> simp [filled, same]
  · by_cases same : d = e <;> simp [filled, same]

theorem filled_tail {n m : NodeIx} {e : ElemIx} (x : α) (tail : Option NodeIx)
    (other : m ≠ n) : (p.filled n e x tail).tail m = p.tail m := by
  simp [filled, Pools.tail, other]

/-- `p'` is `p` with the free node `n`, which holds `x`, linked into the chain of `l`. -/
structure Linked (p p' : Pools α) (l : ListIx) (front : List NodeIx) (n : NodeIx)
    (rest : List NodeIx) (e : ElemIx) (x : α) : Prop where
  taken : Shape.Taken p p' n e x
  outside : Shape.Outside p p' l (front ++ rest)
  chained : Chain p'.tail (p'.lists l).list.nodes (front ++ n :: rest)
  cursors : ∀ l', p'.cursor l' = p.cursor l'

theorem Shape.linked_of_fill (shape : p.Shape chains) {front rest : List NodeIx}
    (split : chains l = front ++ rest) {n : NodeIx} {e : ElemIx} (x : α)
    (nodeFree : (p.nodes n).busy = false) (elementFree : (p.elements e).busy = false) :
    Linked p ((p.filled n e x (p.nodeAfter (some l) front.getLast?)).setNodeAfter (some l)
      front.getLast? (some n)) l front n rest e x := by
  have fills := filled_taken x (p.nodeAfter (some l) front.getLast?) nodeFree elementFree
  have fresh := shape.not_mem_of_free nodeFree l
  have apart : ∀ m, (p.nodes m).busy = true → m ≠ n := by
    intro m busy same
    rw [same, nodeFree] at busy
    contradiction
  have last : ∀ m, front.getLast? = some m → m ∈ chains l := by
    intro m last
    rw [split]
    exact List.mem_append_left _ (List.mem_of_getLast? last)
  constructor
  · refine ⟨nodeFree, elementFree, fun m => ?_, fun m => ?_, fun d => ?_, fun d => ?_⟩
    · rw [setNodeAfter_nodeBusy, fills.nodeBusy]
    · rw [setNodeAfter_element, fills.element]
    · rw [setNodeAfter_elements, fills.elementBusy]
    · rw [setNodeAfter_elements, fills.content]
  · rw [← split]
    refine ⟨fun l' other => ?_, fun m out busy => ?_, fun l' => ?_, fun l' => ?_⟩
    · rw [setNodeAfter_head, if_neg fun both => other both.2]
      rfl
    · rw [setNodeAfter_tail, if_neg fun eq => out (last m eq), filled_tail x _ (apart m busy)]
    · rw [setNodeAfter_busy]
      rfl
    · rw [setNodeAfter_kind]
      rfl
  · apply shape.chained_of_link split fresh
    · rw [setNodeAfter_head]
      simp [filled]
    · rw [setNodeAfter_tail, if_neg fun eq => fresh (last n eq), ← shape.nodeAfter_eq split]
      simp [filled, Pools.tail]
    · intro m mem
      rw [setNodeAfter_tail, filled_tail x _ (apart m (shape.busy l m mem))]
  · intro l'
    rw [setNodeAfter_cursor]
    rfl

/-! ## Taking a node out -/

/-- `p'` is `p` with the node `n` taken out of the chain of `l` and released. -/
structure Unlinked (p p' : Pools α) (l : ListIx) (front : List NodeIx) (n : NodeIx)
    (rest : List NodeIx) : Prop where
  released : Shape.Released p p' n
  outside : Shape.Outside p p' l (front ++ n :: rest)
  chained : Chain p'.tail (p'.lists l).list.nodes (front ++ rest)
  others : ∀ l', l' ≠ l → p'.cursor l' = p.cursor l'

/-- Releasing a node once the links are set. -/
theorem released_of_free {p q : Pools α} (n : NodeIx)
    (busy : ∀ m, (q.nodes m).busy = (p.nodes m).busy)
    (element : ∀ m, (q.nodes m).node.element = (p.nodes m).node.element)
    (elements : q.elements = p.elements) :
    Shape.Released p ((q.freeElement (q.nodes n).node.element).freeNode (some n)) n := by
  refine ⟨fun m => ?_, fun m => ?_, fun e => ?_, fun e => ?_⟩
  · by_cases same : m = n <;> simp [freeElement, freeNode, busy, same]
  · by_cases same : m = n <;> simp [freeElement, freeNode, element, same]
  · by_cases same : some e = (p.nodes n).node.element <;>
      simp [freeElement, freeNode, element, elements, same]
  · by_cases same : some e = (p.nodes n).node.element <;>
      simp [freeElement, freeNode, element, elements, same]

/-- `FreeList` and `ListRemoveFirst` take nodes off the front, and move no cursor. -/
theorem Shape.dropFirst_unlinked (shape : p.Shape chains) {n : NodeIx} {rest : List NodeIx}
    (split : chains l = n :: rest) :
    Unlinked p (p.dropFirst (some l)) l [] n rest ∧
      (p.dropFirst (some l)).cursor l = p.cursor l := by
  have chained := shape.chained l
  rw [split] at chained
  have head : (p.list (some l)).nodes = some n := chained.1
  have tails : (p.dropFirst (some l)).tail = p.tail := by
    funext m
    simp only [dropFirst, head]
    by_cases same : m = n <;> simp [Pools.tail, freeElement, freeNode, setList, same]
  have lists : (p.dropFirst (some l)).lists =
      Function.update p.lists l { p.lists l with
        list := { p.list (some l) with nodes := p.tail n } } := by
    simp only [dropFirst, head]
    rfl
  refine ⟨⟨?_, ⟨fun l' other => ?_, fun m _ _ => by rw [tails], fun l' => ?_, fun l' => ?_⟩, ?_,
    fun l' other => ?_⟩, ?_⟩
  · simp only [dropFirst, head]
    exact released_of_free n (fun _ => rfl) (fun _ => rfl) rfl
  · rw [lists, Function.update_of_ne other]
  · by_cases same : l' = l <;> simp [lists, same]
  · by_cases same : l' = l <;> simp [kind, lists, same, Pools.list]
  · rw [tails, lists, Function.update_self]
    exact chained.2
  · rw [cursor, lists, Function.update_of_ne other]
    rfl
  · rw [cursor, lists, Function.update_self]
    rfl

/-! ## The operations -/

variable [Inhabited α]

/-- An insert takes the first free node, and then a free element exists as well. It fails
only when every node is in use. -/
theorem listInsert_eq (wf : p.WellFormed) {list : ListADT} {aux : Option NodeIx} (x : α)
    (start : (if (p.list list).order = .sorted then p.findNode list x else (false, none)) =
      (false, aux)) :
    (¬p.used < maxNodes ∧ p.listInsert list x = (p, .noMem)) ∨
      p.used < maxNodes ∧ ∃ n e, (p.nodes n).busy = false ∧ (p.elements e).busy = false ∧
        p.listInsert list x = ((p.filled n e x (p.nodeAfter list aux)).setNodeAfter list aux
          (some n), .noErr) := by
  obtain ⟨chains, shape⟩ := wf
  rw [listInsert, start]
  simp only [Bool.false_eq_true, if_false]
  cases node : firstFit fun i => !(p.nodes i).busy with
  | none =>
      left
      rw [used_lt_iff]
      simpa using firstFit_eq_none_iff.mp node
  | some n =>
      right
      have free : (p.nodes n).busy = false := by
        simpa using (firstFit_eq_some_iff.mp node).1
      obtain ⟨d, dFree⟩ := shape.exists_free_element free
      have found : (firstFit fun i => !(p.elements i).busy).isSome :=
        firstFit_isSome_of (i := d) (by simp [dFree])
      obtain ⟨e, element⟩ := Option.isSome_iff_exists.mp found
      have eFree : (p.elements e).busy = false := by
        simpa using (firstFit_eq_some_iff.mp element).1
      have sameElements : ∀ slot, (p.setNode n slot).elements = p.elements := fun _ => rfl
      refine ⟨p.used_lt_iff.mpr ⟨n, free⟩, n, e, free, eFree, ?_⟩
      simp only [sameElements, element]
      simp [setNode, filled]

/-- The place where an insert of `x` puts its node: behind the nodes a search goes past, and
in front of all nodes of an unsorted list. -/
structure Gap (p : Pools α) (l : ListIx) (x : α) (front rest : List NodeIx) : Prop where
  sorted : (p.kind l).2 = .sorted → p.Misses l x front rest
  unsorted : (p.kind l).2 = .unsorted → front = []

/-- The three ways an insert into the chain `cells` of `l` can end. -/
inductive Insertion (p : Pools α) (l : ListIx) (x : α) (cells : List NodeIx) :
    Pools α × ListStatus → Prop
  | exists {front rest : List NodeIx} {n : NodeIx} :
      (p.kind l).2 = .sorted → cells = front ++ n :: rest → p.Meets l x n →
        Insertion p l x cells (p, .elemExists)
  | noMem {front rest : List NodeIx} :
      ¬p.used < maxNodes → cells = front ++ rest → p.Gap l x front rest →
        Insertion p l x cells (p, .noMem)
  | stored {p' : Pools α} {front rest : List NodeIx} {n : NodeIx} {e : ElemIx} :
      p.used < maxNodes → cells = front ++ rest → p.Gap l x front rest →
        Linked p p' l front n rest e x → Insertion p l x cells (p', .noErr)

theorem Shape.insertion (shape : p.Shape chains) (l : ListIx) (x : α) :
    p.Insertion l x (chains l) (p.listInsert (some l) x) := by
  have place : ∀ front rest, chains l = front ++ rest → p.Gap l x front rest →
      (if (p.list (some l)).order = .sorted then p.findNode (some l) x else (false, none)) =
        (false, front.getLast?) → p.Insertion l x (chains l) (p.listInsert (some l) x) := by
    intro front rest split gap start
    rcases listInsert_eq ⟨chains, shape⟩ x start with
      ⟨full, unchanged⟩ | ⟨room, n, e, nFree, eFree, inserted⟩
    · rw [unchanged]
      exact .noMem full split gap
    · rw [inserted]
      exact .stored room split gap (shape.linked_of_fill split x nFree eFree)
  cases order : (p.kind l).2 with
  | unsorted =>
      have other : ¬(p.list (some l)).order = .sorted := by
        rw [show (p.list (some l)).order = .unsorted from order]
        exact ListSort.noConfusion
      apply place [] (chains l) rfl
      · constructor
        · intro sorted
          rw [order] at sorted
          contradiction
        · exact fun _ => rfl
      · exact if_neg other
  | sorted =>
      have same : (p.list (some l)).order = .sorted := order
      rcases found : p.findNode (some l) x with ⟨hit, aux⟩
      have search := shape.search l x
      rw [found] at search
      cases search with
      | found split _ meets =>
          rw [listInsert, if_pos same, found]
          exact .exists order split meets
      | missed split misses =>
          apply place _ _ split
          · constructor
            · exact fun _ => misses
            · intro unsorted
              rw [order] at unsorted
              contradiction
          · rw [if_pos same, found, Option.or_none]

/-- The answer to a membership test is the element of the node a search finds. -/
theorem Shape.listElementBelongs_cases (shape : p.Shape chains) (l : ListIx) (x : α) :
    (∃ front n rest, chains l = front ++ n :: rest ∧ (∀ m ∈ front, p.GoesPast l x m) ∧
      p.Meets l x n ∧ p.listElementBelongs (some l) x = some (p.value n)) ∨
    ∃ front rest, chains l = front ++ rest ∧ p.Misses l x front rest ∧
      p.listElementBelongs (some l) x = none := by
  rcases found : p.findNode (some l) x with ⟨hit, aux⟩
  have search := shape.search l x
  rw [found] at search
  cases search with
  | missed split misses =>
      right
      refine ⟨_, _, split, misses, ?_⟩
      rw [listElementBelongs, found]
  | found split past meets =>
      left
      refine ⟨_, _, _, split, past, meets, ?_⟩
      rw [listElementBelongs, found]
      simp only [Option.or_none]
      rw [shape.nodeAfter_eq split]
      rfl

/-- The two ways a delete from the chain `cells` of `l` can end. A cursor on the node that
goes moves on. -/
inductive Deletion (p : Pools α) (l : ListIx) (x : α) (cells : List NodeIx) :
    Pools α × ListStatus → Prop
  | noElem {front rest : List NodeIx} :
      cells = front ++ rest → p.Misses l x front rest → Deletion p l x cells (p, .noElem)
  | removed {p' : Pools α} {front rest : List NodeIx} {n : NodeIx} :
      cells = front ++ n :: rest → (∀ m ∈ front, p.GoesPast l x m) → p.Meets l x n →
        Unlinked p p' l front n rest →
        (p'.cursor l = if p.cursor l = some n then rest.head? else p.cursor l) →
        Deletion p l x cells (p', .noErr)

theorem Shape.deletion (shape : p.Shape chains) (l : ListIx) (x : α) :
    p.Deletion l x (chains l) (p.listDelete (some l) x) := by
  rcases found : p.findNode (some l) x with ⟨hit, aux⟩
  have search := shape.search l x
  rw [found] at search
  cases search with
  | missed split misses =>
      rw [listDelete, found]
      exact .noElem split misses
  | @found front rest n split past meets =>
      have next : p.tail n = rest.head? := by
        have chained := shape.chained l
        rw [split] at chained
        exact (chained.after rfl).head_eq
      rw [listDelete, found]
      simp only [Option.or_none]
      rw [shape.nodeAfter_eq split, List.head?_cons]
      -- `q` is the state with the links set and the cursor moved off `n`
      obtain ⟨q, qEq⟩ : ∃ q, q =
          (if ((p.setNodeAfter (some l) front.getLast? (p.tail n)).list (some l)).current =
              some n then
            (p.setNodeAfter (some l) front.getLast? (p.tail n)).setCurrent (some l)
              ((p.setNodeAfter (some l) front.getLast? (p.tail n)).tail n)
          else p.setNodeAfter (some l) front.getLast? (p.tail n)) := ⟨_, rfl⟩
      simp only [← qEq]
      have busy : ∀ m, (q.nodes m).busy = (p.nodes m).busy := by
        intro m
        rw [qEq]
        split <;> simp
      have element : ∀ m, (q.nodes m).node.element = (p.nodes m).node.element := by
        intro m
        rw [qEq]
        split <;> simp
      have elements : q.elements = p.elements := by
        rw [qEq]
        split <;> simp
      have tails : ∀ m, q.tail m =
          if front.getLast? = some m then p.tail n else p.tail m := by
        intro m
        rw [← setNodeAfter_tail p (some l), qEq]
        split <;> simp [tail]
      have heads : ∀ l', (q.lists l').list.nodes =
          if front.getLast? = none ∧ l' = l then p.tail n else (p.lists l').list.nodes := by
        intro l'
        rw [← setNodeAfter_head, qEq]
        split <;> simp
      have cells : ∀ l', (q.lists l').busy = (p.lists l').busy ∧ q.kind l' = p.kind l' := by
        intro l'
        rw [qEq]
        split <;> simp
      apply Deletion.removed split past meets
      · constructor
        · exact released_of_free n busy element elements
        · rw [← split]
          refine ⟨fun l' other => ?_, fun m out _ => ?_, fun l' => (cells l').1,
            fun l' => (cells l').2⟩
          · exact (heads l').trans (if_neg fun both => other both.2)
          · rw [release_tail, tails, if_neg]
            intro last
            exact out (split ▸ List.mem_append_left _ (List.mem_of_getLast? last))
        · apply shape.chained_of_unlink split
          · exact (heads l).trans (by simp)
          · intro m
            rw [release_tail, tails]
        · intro l' other
          change q.cursor l' = p.cursor l'
          rw [qEq]
          split
          · rw [setCurrent_cursor, if_neg other, setNodeAfter_cursor]
          · rw [setNodeAfter_cursor]
      · change q.cursor l = _
        rw [qEq]
        change (if (p.setNodeAfter (some l) front.getLast? (p.tail n)).cursor l = some n
          then _ else _ : Pools α).cursor l = _
        rw [setNodeAfter_cursor]
        split
        · rw [setCurrent_cursor, if_pos rfl, ← next, setNodeAfter_tail]
          split <;> rfl
        · rw [setNodeAfter_cursor]

end Pools

end MinixSemaphore.Lists
