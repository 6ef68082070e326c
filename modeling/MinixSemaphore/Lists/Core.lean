import MinixSemaphore.Lists.Interface

/-!
# The static list pools

This is list.c: three static arrays of list, node and element cells, each cell
with a busy mark, and lists as chains of nodes. Pointers into an array are
indices, and `NULL` is `none`. An element cell holds one value of the element
type; the byte count `size` of a list, which only says how much of the cell
`memcpy` moves, is left out.
-/

namespace MinixSemaphore.Lists

open MinixSemaphore.Store

universe v

/-- An index into `nodes`. -/
abbrev NodeIx := Fin maxNodes

/-- An index into `elements`; `MAX_ELEMS` is `MAX_NODES`. -/
abbrev ElemIx := Fin maxNodes

/-- `struct nodeCDT`. -/
structure NodeCDT where
  element : Option ElemIx
  tail : Option NodeIx

/-- `struct listCDT`. -/
structure ListCDT (α : Type v) where
  nodes : Option NodeIx
  compare : α → α → Int
  current : Option NodeIx
  order : ListSort

structure ElementSlot (α : Type v) where
  element : α
  busy : Bool

structure NodeSlot where
  node : NodeCDT
  busy : Bool

structure ListSlot (α : Type v) where
  list : ListCDT α
  busy : Bool

/-- The arrays `elements`, `nodes` and `lists`. -/
structure Pools (α : Type v) where
  elements : ElemIx → ElementSlot α
  nodes : NodeIx → NodeSlot
  lists : ListIx → ListSlot α

namespace Pools

variable {α : Type v} [Inhabited α]

/-- What a `NULL` list pointer reads: zeroes. -/
def nullList : ListCDT α :=
  { nodes := none, compare := fun _ _ => 0, current := none, order := .sorted }

/-- The arrays as the loader leaves them. -/
def zeroed : Pools α where
  elements _ := { element := default, busy := false }
  nodes _ := { node := { element := none, tail := none }, busy := false }
  lists _ := { list := nullList, busy := false }

/-- Read the list cell behind a pointer. -/
def list (p : Pools α) : ListADT → ListCDT α
  | none => nullList
  | some i => (p.lists i).list

/-- Write the list cell behind a pointer; nothing is kept at `NULL`. -/
def setList (p : Pools α) : ListADT → ListCDT α → Pools α
  | none, _ => p
  | some i, cell =>
      { p with lists := Function.update p.lists i { p.lists i with list := cell } }

/-- Write a node cell. -/
def setNode (p : Pools α) (i : NodeIx) (slot : NodeSlot) : Pools α :=
  { p with nodes := Function.update p.nodes i slot }

/-- The element of a node. -/
def value (p : Pools α) (i : NodeIx) : α :=
  match (p.nodes i).node.element with
  | none => default
  | some e => (p.elements e).element

/-- The link of a node. -/
def tail (p : Pools α) (i : NodeIx) : Option NodeIx :=
  (p.nodes i).node.tail

/-- `(aux == NULL) ? list->nodes : aux->tail`, the node after `aux`. -/
def nodeAfter (p : Pools α) (list : ListADT) : Option NodeIx → Option NodeIx
  | none => (p.list list).nodes
  | some aux => p.tail aux

/-- Link `node` behind `aux`, or at the front of the list if `aux` is `NULL`. -/
def setNodeAfter (p : Pools α) (list : ListADT) (aux node : Option NodeIx) : Pools α :=
  match aux with
  | none => p.setList list { p.list list with nodes := node }
  | some aux =>
      p.setNode aux { p.nodes aux with node := { (p.nodes aux).node with tail := node } }

/-- Write the cursor of a list. -/
def setCurrent (p : Pools α) (list : ListADT) (current : Option NodeIx) : Pools α :=
  p.setList list { p.list list with current := current }

/-! ## Releasing cells -/

/-- `free_element` -/
def freeElement (p : Pools α) (element : Option ElemIx) : Pools α :=
  { p with elements := fun i =>
      if some i = element then { p.elements i with busy := false } else p.elements i }

/-- `free_node` -/
def freeNode (p : Pools α) (node : Option NodeIx) : Pools α :=
  { p with nodes := fun i =>
      if some i = node then { p.nodes i with busy := false } else p.nodes i }

/-- `free_list` -/
def freeListCell (p : Pools α) (list : ListADT) : Pools α :=
  { p with lists := fun i =>
      if some i = list then { p.lists i with busy := false } else p.lists i }

/-! ## Operations -/

/-- `NewList` -/
def newList (p : Pools α) (fn : α → α → Int) (order : ListSort) : Pools α × ListADT :=
  match firstFit fun i => !(p.lists i).busy with
  | none => (p, none)
  | some i =>
      ({ p with
          lists := Function.update p.lists i
            { list := { nodes := none, compare := fn, current := none, order := order }
              busy := true } }, some i)

/-- `ListIsEmpty` -/
def listIsEmpty (p : Pools α) (list : ListADT) : Bool :=
  (p.list list).nodes.isNone

/-- `ListToBegin` -/
def listToBegin (p : Pools α) (list : ListADT) : Pools α :=
  p.setCurrent list (p.list list).nodes

/-- `ListGetElement`: the element under the cursor, which moves on. -/
def listGetElement (p : Pools α) (list : ListADT) : Pools α × Option α :=
  match (p.list list).current with
  | none => (p, none)
  | some node =>
      (p.setCurrent list (p.tail node), some (p.value node))

/-- `ListFindNode`, with the recursion depth bounded by `fuel`: whether the
element was found, and the content of `*result`. -/
def listFindNode (p : Pools α) (list : ListADT) (element : α) :
    Nat → Option NodeIx → Option NodeIx → Option (Bool × Option NodeIx)
  | 0, _, _ => none
  | _ + 1, none, result => some (false, result)
  | fuel + 1, some chain, result =>
      let aux := (p.list list).compare (p.value chain) element
      if aux < 0 ∨ 0 < aux ∧ (p.list list).order = .unsorted then
        listFindNode p list element fuel (p.tail chain) (some chain)
      else if aux = 0 then
        some (true, result)
      else
        some (false, result)

/-- The call of `ListFindNode` on a whole list, with `*result` set to `NULL`. The
depth covers every chain that ends. -/
def findNode (p : Pools α) (list : ListADT) (element : α) : Bool × Option NodeIx :=
  (p.listFindNode list element (maxNodes + 1) (p.list list).nodes none).getD (false, none)

/-- `ListInsert` -/
def listInsert (p : Pools α) (list : ListADT) (element : α) : Pools α × ListStatus :=
  let (found, aux) :=
    if (p.list list).order = .sorted then p.findNode list element else (false, none)
  if found then
    (p, .elemExists)
  else
    match firstFit fun i => !(p.nodes i).busy with
    | none => (p, .noMem)
    | some new =>
        let tail := p.nodeAfter list aux
        let p := p.setNode new { node := { element := none, tail := tail }, busy := true }
        match firstFit fun i => !(p.elements i).busy with
        | none => (p.freeNode (some new), .noMem)
        | some e =>
            let p := p.setNode new { node := { element := some e, tail := tail }, busy := true }
            let p := { p with
              elements := Function.update p.elements e { element := element, busy := true } }
            (p.setNodeAfter list aux (some new), .noErr)

/-- `ListDelete` -/
def listDelete (p : Pools α) (list : ListADT) (element : α) : Pools α × ListStatus :=
  match p.findNode list element with
  | (false, _) => (p, .noElem)
  | (true, aux) =>
      match p.nodeAfter list aux with
      | none => (p, .noElem)
      | some borrar =>
          let p := p.setNodeAfter list aux (p.tail borrar)
          let p :=
            if (p.list list).current = some borrar then
              p.setCurrent list (p.tail borrar)
            else p
          ((p.freeElement (p.nodes borrar).node.element).freeNode (some borrar), .noErr)

/-- `ListElementBelongs`: the element that matches, if there is one. -/
def listElementBelongs (p : Pools α) (list : ListADT) (element : α) : Option α :=
  match p.findNode list element with
  | (false, _) => none
  | (true, aux) => (p.nodeAfter list aux).map p.value

/-- Take the first node out of a list and release it, as `FreeList` and
`ListRemoveFirst` both do. -/
def dropFirst (p : Pools α) (list : ListADT) : Pools α :=
  match (p.list list).nodes with
  | none => p
  | some node =>
      let p := p.setList list { p.list list with nodes := p.tail node }
      (p.freeElement (p.nodes node).node.element).freeNode (some node)

/-- The loop of `FreeList`, for at most `fuel` rounds. -/
def dropAll (p : Pools α) (list : ListADT) : Nat → Option (Pools α)
  | 0 => none
  | fuel + 1 => if p.listIsEmpty list then some p else (p.dropFirst list).dropAll list fuel

/-- `FreeList` -/
def freeList (p : Pools α) (list : ListADT) : Pools α :=
  ((p.dropAll list (maxNodes + 1)).getD p).freeListCell list

/-- `ListRemoveFirst` -/
def listRemoveFirst (p : Pools α) (list : ListADT) : Pools α × ListStatus :=
  if p.listIsEmpty list then (p, .listEnd)
  else ((p.listToBegin list).dropFirst list, .noErr)

instance : ListLib (Pools α) α where
  newList := newList
  listIsEmpty := listIsEmpty
  listToBegin := listToBegin
  listGetElement := listGetElement
  listInsert := listInsert
  listDelete := listDelete
  listElementBelongs := listElementBelongs
  listRemoveFirst := listRemoveFirst
  freeList := freeList

end Pools

end MinixSemaphore.Lists
