import MinixSemaphore.Lists.Core
import MinixSemaphore.Store.Chain

/-!
# The shape of the pools

The pools are well formed when every list is a chain that ends, no node is in two
chains, and the busy nodes and the busy elements are matched one to one. The
shape is stated for an explicit family of chains, so that an operation is a change
of one chain of the family; nodes that are busy and in no chain are allowed, since
`NewList` forgets the chain of the cell it hands out.
-/

namespace MinixSemaphore.Lists

open MinixSemaphore.Store

universe v

namespace Pools

variable {α : Type v}

/-- `chains` are the chains of the lists in `p`, and the cells of `p` fit them. -/
structure Shape (p : Pools α) (chains : ListIx → List NodeIx) : Prop where
  chained : ∀ l, Chain p.tail (p.lists l).list.nodes (chains l)
  apart : ∀ l l' n, n ∈ chains l → n ∈ chains l' → l = l'
  busy : ∀ l n, n ∈ chains l → (p.nodes n).busy = true
  owns : ∀ n, (p.nodes n).busy = true →
    ∃ e, (p.nodes n).node.element = some e ∧ (p.elements e).busy = true
  sole : ∀ n n', (p.nodes n).busy = true → (p.nodes n').busy = true →
    (p.nodes n).node.element = (p.nodes n').node.element → n = n'
  backed : ∀ e, (p.elements e).busy = true →
    ∃ n, (p.nodes n).busy = true ∧ (p.nodes n).node.element = some e

/-- Some family of chains fits the pools. -/
def WellFormed (p : Pools α) : Prop :=
  ∃ chains, p.Shape chains

/-- The sequence of elements of a list; `NULL` is read as an empty list. -/
def seq [Inhabited α] (p : Pools α) : ListADT → List α
  | none => []
  | some l => (walk p.tail maxNodes (p.lists l).list.nodes).map p.value

/-- The number of nodes in use. -/
def used (p : Pools α) : Nat :=
  (Finset.univ.filter fun n => (p.nodes n).busy = true).card

/-- The order and comparison a list was created with. -/
def kind (p : Pools α) (l : ListIx) : (α → α → Int) × ListSort :=
  ((p.lists l).list.compare, (p.lists l).list.order)

/-- An unsorted list whose comparison tells equal elements from different ones. -/
def Unsorted (p : Pools α) (l : ListIx) : Prop :=
  (p.kind l).2 = .unsorted ∧ ∀ a b, (p.kind l).1 a b = 0 ↔ a = b

@[simp]
theorem seq_none [Inhabited α] (p : Pools α) : p.seq none = [] :=
  rfl

theorem zeroed_shape [Inhabited α] : (zeroed : Pools α).Shape fun _ => [] where
  chained _ := rfl
  apart _ _ _ mem := by simp at mem
  busy _ _ mem := by simp at mem
  owns _ busy := by simp [zeroed] at busy
  sole _ _ busy := by simp [zeroed] at busy
  backed _ busy := by simp [zeroed] at busy

/-! ## What the writes leave alone -/

section Writes

variable (p : Pools α)

@[simp]
theorem setCurrent_nodes (list : ListADT) (current : Option NodeIx) :
    (p.setCurrent list current).nodes = p.nodes := by
  cases list <;> rfl

@[simp]
theorem setCurrent_elements (list : ListADT) (current : Option NodeIx) :
    (p.setCurrent list current).elements = p.elements := by
  cases list <;> rfl

@[simp]
theorem setCurrent_head (list : ListADT) (current : Option NodeIx) (l : ListIx) :
    ((p.setCurrent list current).lists l).list.nodes = (p.lists l).list.nodes := by
  cases list with
  | none => rfl
  | some i => by_cases same : l = i <;> simp [setCurrent, setList, Pools.list, same]

@[simp]
theorem setCurrent_busy (list : ListADT) (current : Option NodeIx) (l : ListIx) :
    ((p.setCurrent list current).lists l).busy = (p.lists l).busy := by
  cases list with
  | none => rfl
  | some i => by_cases same : l = i <;> simp [setCurrent, setList, same]

@[simp]
theorem setCurrent_kind (list : ListADT) (current : Option NodeIx) (l : ListIx) :
    (p.setCurrent list current).kind l = p.kind l := by
  cases list with
  | none => rfl
  | some i => by_cases same : l = i <;> simp [kind, setCurrent, setList, Pools.list, same]

@[simp]
theorem setNodeAfter_elements (list : ListADT) (aux node : Option NodeIx) :
    (p.setNodeAfter list aux node).elements = p.elements := by
  cases aux <;> cases list <;> rfl

@[simp]
theorem setNodeAfter_nodeBusy (list : ListADT) (aux node : Option NodeIx) (m : NodeIx) :
    ((p.setNodeAfter list aux node).nodes m).busy = (p.nodes m).busy := by
  cases aux with
  | none => cases list <;> rfl
  | some k => by_cases same : m = k <;> simp [setNodeAfter, setNode, same]

@[simp]
theorem setNodeAfter_element (list : ListADT) (aux node : Option NodeIx) (m : NodeIx) :
    ((p.setNodeAfter list aux node).nodes m).node.element = (p.nodes m).node.element := by
  cases aux with
  | none => cases list <;> rfl
  | some k => by_cases same : m = k <;> simp [setNodeAfter, setNode, same]

@[simp]
theorem setNodeAfter_tail (list : ListADT) (aux node : Option NodeIx) (m : NodeIx) :
    (p.setNodeAfter list aux node).tail m = if aux = some m then node else p.tail m := by
  cases aux with
  | none => cases list <;> rfl
  | some k =>
      by_cases same : m = k
      · simp [setNodeAfter, setNode, tail, same]
      · simp [setNodeAfter, setNode, tail, same, Ne.symm same]

@[simp]
theorem setNodeAfter_head (l : ListIx) (aux node : Option NodeIx) (l' : ListIx) :
    ((p.setNodeAfter (some l) aux node).lists l').list.nodes =
      if aux = none ∧ l' = l then node else (p.lists l').list.nodes := by
  cases aux with
  | none => by_cases same : l' = l <;> simp [setNodeAfter, setList, same]
  | some k => simp [setNodeAfter, setNode]

@[simp]
theorem setNodeAfter_busy (list : ListADT) (aux node : Option NodeIx) (l : ListIx) :
    ((p.setNodeAfter list aux node).lists l).busy = (p.lists l).busy := by
  cases aux with
  | none =>
      cases list with
      | none => rfl
      | some i => by_cases same : l = i <;> simp [setNodeAfter, setList, same]
  | some k => rfl

@[simp]
theorem setNodeAfter_kind (list : ListADT) (aux node : Option NodeIx) (l : ListIx) :
    (p.setNodeAfter list aux node).kind l = p.kind l := by
  cases aux with
  | none =>
      cases list with
      | none => rfl
      | some i => by_cases same : l = i <;> simp [kind, setNodeAfter, setList, Pools.list, same]
  | some k => rfl

@[simp]
theorem release_tail (element : Option ElemIx) (node : Option NodeIx) (m : NodeIx) :
    ((p.freeElement element).freeNode node).tail m = p.tail m := by
  by_cases same : some m = node <;> simp [tail, freeElement, freeNode, same]

end Writes

namespace Shape

variable {p p' : Pools α} {chains : ListIx → List NodeIx} {l : ListIx}

theorem length_le (shape : p.Shape chains) (l : ListIx) : (chains l).length ≤ maxNodes := by
  simpa using (shape.chained l).length_le

theorem seq_eq [Inhabited α] (shape : p.Shape chains) (l : ListIx) :
    p.seq (some l) = (chains l).map p.value := by
  rw [seq, (shape.chained l).walk_eq (shape.length_le l)]

theorem head_eq (shape : p.Shape chains) (l : ListIx) :
    (p.lists l).list.nodes = (chains l).head? :=
  (shape.chained l).head_eq

theorem not_mem_of_free (shape : p.Shape chains) {n : NodeIx}
    (free : (p.nodes n).busy = false) (l : ListIx) : n ∉ chains l := by
  intro mem
  rw [shape.busy l n mem] at free
  contradiction

/-- Every busy node has its own busy element, so a free node leaves a free
element. -/
theorem exists_free_element (shape : p.Shape chains) {n : NodeIx}
    (free : (p.nodes n).busy = false) : ∃ e, (p.elements e).busy = false := by
  by_contra none
  have allBusy : ∀ e, (p.elements e).busy = true := by simpa using none
  choose owner owned using fun e => shape.backed e (allBusy e)
  have injective : Function.Injective owner := by
    intro e e' same
    have elements := (owned e).2.symm.trans (congrArg (fun m => (p.nodes m).node.element) same)
    exact Option.some.inj (elements.trans (owned e').2)
  obtain ⟨e, rfl⟩ := Finite.injective_iff_surjective.mp injective n
  rw [(owned e).1] at free
  contradiction

/-- What an operation on the list `l`, whose chain is `chain`, leaves alone. -/
structure Outside (p p' : Pools α) (l : ListIx) (chain : List NodeIx) : Prop where
  heads : ∀ l', l' ≠ l → (p'.lists l').list.nodes = (p.lists l').list.nodes
  links : ∀ n, n ∉ chain → (p.nodes n).busy = true → p'.tail n = p.tail n
  listBusy : ∀ l', (p'.lists l').busy = (p.lists l').busy
  kind : ∀ l', p'.kind l' = p.kind l'

/-- `p'` is `p` with the node `n` and its element released. -/
structure Released (p p' : Pools α) (n : NodeIx) : Prop where
  nodeBusy : ∀ m, (p'.nodes m).busy = (decide (m ≠ n) && (p.nodes m).busy)
  element : ∀ m, (p'.nodes m).node.element = (p.nodes m).node.element
  elementBusy : ∀ e, (p'.elements e).busy =
    (decide (some e ≠ (p.nodes n).node.element) && (p.elements e).busy)
  content : ∀ e, (p'.elements e).element = (p.elements e).element

/-- `p'` is `p` with the free node `n` taken for the value `x`, in the free
element cell `e`. -/
structure Taken (p p' : Pools α) (n : NodeIx) (e : ElemIx) (x : α) : Prop where
  nodeFree : (p.nodes n).busy = false
  elementFree : (p.elements e).busy = false
  nodeBusy : ∀ m, (p'.nodes m).busy = (decide (m = n) || (p.nodes m).busy)
  element : ∀ m, (p'.nodes m).node.element =
    if m = n then some e else (p.nodes m).node.element
  elementBusy : ∀ d, (p'.elements d).busy = (decide (d = e) || (p.elements d).busy)
  content : ∀ d, (p'.elements d).element = if d = e then x else (p.elements d).element

theorem chained_update (shape : p.Shape chains) {chain : List NodeIx}
    (outside : Outside p p' l (chains l))
    (chained : Chain p'.tail (p'.lists l).list.nodes chain) (l' : ListIx) :
    Chain p'.tail (p'.lists l').list.nodes (Function.update chains l chain l') := by
  by_cases same : l' = l
  · subst same
    simpa using chained
  · rw [Function.update_of_ne same, outside.heads l' same]
    refine (shape.chained l').congr fun n mem => ?_
    exact outside.links n (fun mem' => same (shape.apart l' l n mem mem'))
      (shape.busy l' n mem)

/-- Taking the node `n` out of the chain of `l` and releasing it together with its
element. -/
theorem detach (shape : p.Shape chains) {before after : List NodeIx} {n : NodeIx}
    (split : chains l = before ++ n :: after)
    (outside : Outside p p' l (chains l)) (released : Released p p' n)
    (chained : Chain p'.tail (p'.lists l).list.nodes (before ++ after)) :
    p'.Shape (Function.update chains l (before ++ after)) := by
  have nodup : (before ++ n :: after).Nodup := split ▸ (shape.chained l).nodup
  have gone : n ∉ before ++ after := (List.nodup_middle.mp nodup).notMem
  have sub : ∀ l' m, m ∈ Function.update chains l (before ++ after) l' →
      m ∈ chains l' ∧ m ≠ n := by
    intro l' m mem
    by_cases same : l' = l
    · subst same
      rw [Function.update_self] at mem
      refine ⟨?_, fun eq => gone (eq ▸ mem)⟩
      rw [split]
      simp only [List.mem_append, List.mem_cons] at mem ⊢
      tauto
    · rw [Function.update_of_ne same] at mem
      refine ⟨mem, fun eq => same (shape.apart l' l n (eq ▸ mem) ?_)⟩
      simp [split]
  have nBusy : (p.nodes n).busy = true := shape.busy l n (by simp [split])
  refine
    { chained := shape.chained_update outside chained
      apart := fun l' l'' m mem mem' => shape.apart l' l'' m (sub l' m mem).1 (sub l'' m mem').1
      busy := ?_, owns := ?_, sole := ?_, backed := ?_ }
  · intro l' m mem
    obtain ⟨mem, ne⟩ := sub l' m mem
    simp [released.nodeBusy, ne, shape.busy l' m mem]
  · intro m busy
    simp only [released.nodeBusy, Bool.and_eq_true, decide_eq_true_eq] at busy
    obtain ⟨e, owned, eBusy⟩ := shape.owns m busy.2
    refine ⟨e, (released.element m).trans owned, ?_⟩
    have other : some e ≠ (p.nodes n).node.element := fun eq =>
      busy.1 (shape.sole m n busy.2 nBusy (owned.trans eq))
    simp [released.elementBusy, other, eBusy]
  · intro m m' busy busy' same
    simp only [released.nodeBusy, Bool.and_eq_true] at busy busy'
    rw [released.element, released.element] at same
    exact shape.sole m m' busy.2 busy'.2 same
  · intro e busy
    simp only [released.elementBusy, Bool.and_eq_true, decide_eq_true_eq] at busy
    obtain ⟨m, mBusy, owned⟩ := shape.backed e busy.2
    refine ⟨m, ?_, (released.element m).trans owned⟩
    have other : m ≠ n := fun eq => busy.1 (eq ▸ owned.symm)
    simp [released.nodeBusy, other, mBusy]

/-- Taking a free node and a free element keeps busy nodes and busy elements
matched. -/
theorem matched_of_taken (shape : p.Shape chains) {n : NodeIx} {e : ElemIx} {x : α}
    (taken : Taken p p' n e x) :
    (∀ m, (p'.nodes m).busy = true →
      ∃ e, (p'.nodes m).node.element = some e ∧ (p'.elements e).busy = true) ∧
    (∀ m m', (p'.nodes m).busy = true → (p'.nodes m').busy = true →
      (p'.nodes m).node.element = (p'.nodes m').node.element → m = m') ∧
    ∀ e, (p'.elements e).busy = true →
      ∃ m, (p'.nodes m).busy = true ∧ (p'.nodes m).node.element = some e := by
  have oldElement : ∀ m, (p.nodes m).busy = true → (p.nodes m).node.element ≠ some e := by
    intro m busy eq
    obtain ⟨d, owned, dBusy⟩ := shape.owns m busy
    have same : d = e := Option.some.inj (owned.symm.trans eq)
    rw [same, taken.elementFree] at dBusy
    contradiction
  have oldNode : ∀ m, (p.nodes m).busy = true → m ≠ n := by
    intro m busy eq
    rw [eq, taken.nodeFree] at busy
    contradiction
  refine ⟨fun m busy => ?_, fun m m' busy busy' same => ?_, fun d busy => ?_⟩
  · by_cases new : m = n
    · exact ⟨e, by simp [taken.element, new], by simp [taken.elementBusy]⟩
    · simp only [taken.nodeBusy, new, decide_false, Bool.false_or] at busy
      obtain ⟨d, owned, dBusy⟩ := shape.owns m busy
      exact ⟨d, by simp [taken.element, new, owned], by simp [taken.elementBusy, dBusy]⟩
  · simp only [taken.nodeBusy, Bool.or_eq_true, decide_eq_true_eq] at busy busy'
    rw [taken.element, taken.element] at same
    rcases busy with rfl | busy <;> rcases busy' with rfl | busy'
    · rfl
    · rw [if_pos rfl, if_neg (oldNode m' busy')] at same
      exact absurd same.symm (oldElement m' busy')
    · rw [if_neg (oldNode m busy), if_pos rfl] at same
      exact absurd same (oldElement m busy)
    · rw [if_neg (oldNode m busy), if_neg (oldNode m' busy')] at same
      exact shape.sole m m' busy busy' same
  · by_cases new : d = e
    · exact ⟨n, by simp [taken.nodeBusy], by simp [taken.element, new]⟩
    · simp only [taken.elementBusy, new, decide_false, Bool.false_or] at busy
      obtain ⟨m, mBusy, owned⟩ := shape.backed d busy
      exact ⟨m, by simp [taken.nodeBusy, mBusy], by simp [taken.element, oldNode m mBusy, owned]⟩

/-- Putting a free node with a free element into the chain of `l`. -/
theorem attach (shape : p.Shape chains) {before after : List NodeIx} {n : NodeIx} {e : ElemIx}
    (split : chains l = before ++ after)
    (outside : Outside p p' l (chains l)) {x : α} (taken : Taken p p' n e x)
    (chained : Chain p'.tail (p'.lists l).list.nodes (before ++ n :: after)) :
    p'.Shape (Function.update chains l (before ++ n :: after)) := by
  have sub : ∀ l' m, m ∈ Function.update chains l (before ++ n :: after) l' →
      m ∈ chains l' ∨ l' = l ∧ m = n := by
    intro l' m mem
    by_cases same : l' = l
    · subst same
      rw [Function.update_self] at mem
      rw [split]
      simp only [List.mem_append, List.mem_cons, true_and] at mem ⊢
      tauto
    · rw [Function.update_of_ne same] at mem
      exact Or.inl mem
  obtain ⟨owns, sole, backed⟩ := shape.matched_of_taken taken
  refine
    { chained := shape.chained_update outside chained
      apart := ?_, busy := ?_, owns := owns, sole := sole, backed := backed }
  · intro l' l'' m mem mem'
    rcases sub l' m mem with old | ⟨rfl, rfl⟩ <;> rcases sub l'' m mem' with old' | ⟨rfl, eq⟩
    · exact shape.apart l' l'' m old old'
    · subst eq
      exact absurd old (shape.not_mem_of_free taken.nodeFree l')
    · exact absurd old' (shape.not_mem_of_free taken.nodeFree l'')
    · rfl
  · intro l' m mem
    rcases sub l' m mem with mem | ⟨-, rfl⟩
    · simp [taken.nodeBusy, shape.busy l' m mem]
    · simp [taken.nodeBusy]

/-- Taking a free node that is then linked to no list, as an insert at `NULL`
does. -/
theorem spill (shape : p.Shape chains) {n : NodeIx} {e : ElemIx} {x : α}
    (taken : Taken p p' n e x) (lists : p'.lists = p.lists)
    (links : ∀ m, (p.nodes m).busy = true → p'.tail m = p.tail m) : p'.Shape chains := by
  obtain ⟨owns, sole, backed⟩ := shape.matched_of_taken taken
  refine ⟨fun l => ?_, shape.apart, fun l m mem => ?_, owns, sole, backed⟩
  · rw [lists]
    exact (shape.chained l).congr fun m mem => links m (shape.busy l m mem)
  · simp [taken.nodeBusy, shape.busy l m mem]

/-- Pools that differ in cursors only have the same shape. -/
theorem of_same_cells (shape : p.Shape chains) (elements : p'.elements = p.elements)
    (nodes : p'.nodes = p.nodes)
    (heads : ∀ l, (p'.lists l).list.nodes = (p.lists l).list.nodes) : p'.Shape chains := by
  have tails : p'.tail = p.tail := by
    funext n
    simp [Pools.tail, nodes]
  refine ⟨fun l => ?_, shape.apart, ?_, ?_, ?_, ?_⟩
  · rw [tails, heads]
    exact shape.chained l
  all_goals rw [nodes]
  · exact shape.busy
  · rw [elements]
    exact shape.owns
  · exact shape.sole
  · rw [elements]
    exact shape.backed

/-- The node behind the first part of a chain. -/
theorem nodeAfter_eq (shape : p.Shape chains) {before after : List NodeIx}
    (split : chains l = before ++ after) :
    p.nodeAfter (some l) before.getLast? = after.head? := by
  rcases List.eq_nil_or_concat before with rfl | ⟨front, m, rfl⟩
  · have head := shape.head_eq l
    rw [split] at head
    simpa [nodeAfter, list] using head
  · have chained := (shape.chained l).after
      (show chains l = front ++ m :: after by simp [split])
    simpa [nodeAfter] using chained.head_eq

/-- Linking the node before `n` to the node after it takes `n` out of the chain. -/
theorem chained_of_unlink (shape : p.Shape chains) {before after : List NodeIx} {n : NodeIx}
    (split : chains l = before ++ n :: after)
    (head : (p'.lists l).list.nodes =
      if before.getLast? = none then p.tail n else (p.lists l).list.nodes)
    (tails : ∀ m, p'.tail m = if before.getLast? = some m then p.tail n else p.tail m) :
    Chain p'.tail (p'.lists l).list.nodes (before ++ after) := by
  have chained := shape.chained l
  rw [split] at chained
  have rest := chained.after rfl
  rcases List.eq_nil_or_concat before with rfl | ⟨front, m, rfl⟩
  · rw [head]
    exact rest.congr fun k _ => by simp [tails]
  · simp only [List.concat_eq_append, List.getLast?_append, List.getLast?_singleton,
      Option.some_or, reduceCtorEq, if_false, Option.some.injEq] at head tails
    simp only [List.concat_eq_append, List.append_assoc, List.singleton_append] at chained ⊢
    have nodup := List.nodup_middle.mp chained.nodup
    have apart := (List.nodup_cons.mp nodup).1
    rw [head]
    refine chained.relink (fun k mem => ?_) ?_
    · have other : m ≠ k := fun eq => apart (by simp [eq, mem])
      simp [tails, other]
    · rw [tails, if_pos rfl]
      refine rest.congr fun k mem => ?_
      have other : m ≠ k := fun eq => apart (by simp [eq, mem])
      simp [tails, other]

/-- Linking the free node `n` between two parts of the chain. -/
theorem chained_of_link (shape : p.Shape chains) {before after : List NodeIx} {n : NodeIx}
    (split : chains l = before ++ after) (fresh : n ∉ chains l)
    (head : (p'.lists l).list.nodes =
      if before.getLast? = none then some n else (p.lists l).list.nodes)
    (self : p'.tail n = after.head?)
    (tails : ∀ m ∈ chains l, p'.tail m = if before.getLast? = some m then some n else p.tail m) :
    Chain p'.tail (p'.lists l).list.nodes (before ++ n :: after) := by
  have chained := shape.chained l
  have nodup := chained.nodup
  rw [split] at chained nodup fresh tails
  have rest : Chain p'.tail (p'.tail n) after := by
    have old : Chain p.tail after.head? after := by
      rw [← shape.nodeAfter_eq split]
      rcases List.eq_nil_or_concat before with rfl | ⟨front, m, rfl⟩
      · exact chained
      · have behind := chained.after (show _ = front ++ m :: after by simp)
        simpa [nodeAfter] using behind
    rw [self]
    apply old.congr
    intro k mem
    have other : before.getLast? ≠ some k := fun last =>
      (List.nodup_append.mp nodup).2.2 k (List.mem_of_getLast? last) k mem rfl
    rw [tails k (List.mem_append_right _ mem), if_neg other]
  rcases List.eq_nil_or_concat before with rfl | ⟨front, m, rfl⟩
  · rw [head]
    exact ⟨rfl, rest⟩
  · simp only [List.concat_eq_append, List.getLast?_append, List.getLast?_singleton,
      Option.some_or, reduceCtorEq, if_false, Option.some.injEq] at head tails
    simp only [List.concat_eq_append, List.append_assoc, List.singleton_append] at *
    rw [head]
    apply chained.relink
    · intro k mem
      have apart := (List.nodup_cons.mp (List.nodup_middle.mp nodup)).1
      have other : m ≠ k := fun eq => apart (by simp [eq, mem])
      rw [tails k (by simp [mem]), if_neg other]
    · rw [tails m (by simp), if_pos rfl]
      exact ⟨rfl, rest⟩

end Shape

/-! ## Counting nodes -/

theorem used_of_released {p p' : Pools α} {n : NodeIx} (busy : (p.nodes n).busy = true)
    (released : Shape.Released p p' n) : p'.used = p.used - 1 := by
  have erased : (Finset.univ.filter fun m => (p'.nodes m).busy = true) =
      (Finset.univ.filter fun m => (p.nodes m).busy = true).erase n := by
    ext m
    simp [released.nodeBusy]
  rw [used, erased, Finset.card_erase_of_mem (by simp [busy])]
  rfl

theorem used_of_taken {p p' : Pools α} {n : NodeIx} {e : ElemIx} {x : α}
    (taken : Shape.Taken p p' n e x) : p'.used = p.used + 1 := by
  have inserted : (Finset.univ.filter fun m => (p'.nodes m).busy = true) =
      insert n (Finset.univ.filter fun m => (p.nodes m).busy = true) := by
    ext m
    simp [taken.nodeBusy]
  rw [used, inserted, Finset.card_insert_of_notMem (by simp [taken.nodeFree])]
  rfl

/-- A node is free exactly when fewer than `MAX_NODES` are in use. -/
theorem used_lt_iff (p : Pools α) : p.used < maxNodes ↔ ∃ n, (p.nodes n).busy = false := by
  constructor
  · intro less
    by_contra none
    have allBusy : ∀ n, (p.nodes n).busy = true := by simpa using none
    simp [used, allBusy] at less
  · rintro ⟨n, free⟩
    have proper : (Finset.univ.filter fun m => (p.nodes m).busy = true) ⊂ Finset.univ := by
      rw [Finset.ssubset_univ_iff]
      intro all
      have mem := Finset.mem_univ n
      rw [← all] at mem
      simp [free] at mem
    simpa [used] using Finset.card_lt_card proper

end Pools

end MinixSemaphore.Lists
