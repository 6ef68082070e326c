import MinixSemaphore.Lists.Calls

/-!
# Traversals

list.h prescribes a loop that goes on while the result of `ListGetElement` is not 0. The
function does not return 0 at the end of a list, but `LIST_END`, which is 2. A loop that
goes on while the result is `LIST_NO_ERR` visits the list once.
-/

namespace MinixSemaphore.Lists

open MinixSemaphore.Store

universe v

/-- The numbers that list.h gives the result codes. -/
def ListStatus.code : ListStatus → Int
  | .noMem => 0
  | .noErr => 1
  | .listEnd => 2
  | .noElem => 3
  | .elemExists => 4

namespace Pools

variable {α : Type v} [Inhabited α]

/-- The result of `ListGetElement`, from what it copies out. -/
def getStatus : Option α → ListStatus
  | none => .listEnd
  | some _ => .noErr

/-- The loop `while (test) visit(x)` around `ListGetElement(list, &x)`, for at most `fuel`
rounds: the pools at its end, and what `x` held in each round. -/
def traverse (test : ListStatus → Bool) (list : ListADT) :
    Nat → Pools α → α → Option (Pools α × List α)
  | 0, _, _ => none
  | fuel + 1, p, x =>
      let got := p.listGetElement list
      let x := got.2.getD x
      if test (getStatus got.2) then
        (traverse test list fuel got.1 x).map fun rest => (rest.1, x :: rest.2)
      else
        some (got.1, [])

/-- A result is read as a condition. -/
def isTrue (status : ListStatus) : Bool :=
  status.code ≠ 0

/-- The loop of list.h ends, has visited each element of the list once, in order, and leaves
the list as it was. -/
def EndsAsTold (p : Pools α) (l : ListIx) (x : α) : Prop :=
  ∃ fuel p', traverse isTrue (some l) fuel (p.listToBegin (some l)) x =
    some (p', p.seq (some l)) ∧ p'.cells l = p.cells l ∧ p'.seq (some l) = p.seq (some l)

variable {p : Pools α} {l : ListIx} {x : α}

omit [Inhabited α] in
/-- No result of `ListGetElement` is 0. -/
theorem isTrue_getStatus (found : Option α) : isTrue (getStatus found) = true := by
  cases found <;> rfl

/-- However many rounds it is given, the loop of list.h goes on. -/
theorem traverse_isTrue (list : ListADT) (fuel : Nat) (p : Pools α) (x : α) :
    traverse isTrue list fuel p x = none := by
  induction fuel generalizing p x with
  | zero => rfl
  | succ fuel ih =>
      rw [traverse]
      simp only [isTrue_getStatus, if_true, ih, Option.map_none]

/-- The loop that list.h prescribes ends for no list. -/
theorem not_endsAsTold (p : Pools α) (l : ListIx) (x : α) : ¬p.EndsAsTold l x := by
  rintro ⟨fuel, p', ends, -⟩
  rw [traverse_isTrue] at ends
  contradiction

/-- A list of two elements. -/
theorem not_endsAsTold_of_two :
    let calls : List (PoolCall Int) := [.newList (fun x y => if x = y then 0 else 1) .unsorted,
      .listInsert 0 7, .listInsert 0 8]
    let p := calls.foldl perform zeroed
    p.seq (some 0) = [8, 7] ∧ ¬p.EndsAsTold 0 0 := by
  intro calls p
  refine ⟨by decide +kernel, ?_⟩
  rintro ⟨fuel, p', ends, -⟩
  rw [traverse_isTrue] at ends
  contradiction

/-! ## The loop that ends -/

/-- From a cursor on a part of the chain, the loop visits that part and ends. -/
theorem traverse_noErr_of_chain (wf : p.WellFormed) {cells : List NodeIx}
    (chained : Chain p.tail (p.cursor l) cells) {fuel : Nat} (enough : cells.length < fuel)
    (x : α) : ∃ p', traverse (· = .noErr) (some l) fuel p x = some (p', cells.map p.value) ∧
      p'.WellFormed ∧ p'.cells l = p.cells l ∧ p'.seq (some l) = p.seq (some l) := by
  induction cells generalizing p x fuel with
  | nil =>
      obtain ⟨fuel, rfl⟩ := Nat.exists_eq_succ_of_ne_zero (Nat.ne_zero_of_lt enough)
      have ended : (p.list (some l)).current = none := chained
      refine ⟨p, ?_, wf, rfl, rfl⟩
      rw [traverse, listGetElement, ended]
      rfl
  | cons n rest ih =>
      obtain ⟨fuel, rfl⟩ := Nat.exists_eq_succ_of_ne_zero (Nat.ne_zero_of_lt enough)
      have here : (p.list (some l)).current = some n := chained.1
      have got : p.listGetElement (some l) =
          (p.setCurrent (some l) (p.tail n), some (p.value n)) := by
        rw [listGetElement, here]
      have moved := setCurrent_rewrites wf l (p.tail n)
      have tails : (p.setCurrent (some l) (p.tail n)).tail = p.tail := by
        funext m
        simp [tail]
      have values : (p.setCurrent (some l) (p.tail n)).value = p.value := by
        funext m
        simp [value]
      have onwards : Chain (p.setCurrent (some l) (p.tail n)).tail
          ((p.setCurrent (some l) (p.tail n)).cursor l) rest := by
        rw [tails, setCurrent_cursor, if_pos rfl]
        exact chained.2
      obtain ⟨p', run, wf', cells, seq⟩ := ih moved.1.wellFormed onwards
        (Nat.lt_of_succ_lt_succ enough) (p.value n)
      refine ⟨p', ?_, wf', cells.trans moved.2, seq.trans ?_⟩
      · rw [traverse, got]
        simp only [Option.getD_some, run, values]
        rfl
      · rw [seq_eq_map, seq_eq_map, moved.2, values]

/-- A traversal that stops at the first result other than `LIST_NO_ERR` ends after one visit
to each element, in order, and leaves the list as it was. -/
theorem traverse_noErr (wf : p.WellFormed) (l : ListIx) (x : α) :
    ∃ p', traverse (· = .noErr) (some l) (maxNodes + 1) (p.listToBegin (some l)) x =
      some (p', p.seq (some l)) ∧ p'.cells l = p.cells l ∧ p'.seq (some l) = p.seq (some l) := by
  have begun := setCurrent_rewrites wf l (p.list (some l)).nodes
  have wf' := begun.1.wellFormed
  have values : (p.setCurrent (some l) (p.list (some l)).nodes).value = p.value := by
    funext m
    simp [value]
  have chained : Chain (p.listToBegin (some l)).tail ((p.listToBegin (some l)).cursor l)
      (p.cells l) := by
    have all := wf'.shape.chained l
    rw [setCurrent_head, begun.2] at all
    rw [listToBegin, setCurrent_cursor, if_pos rfl]
    exact all
  obtain ⟨p', run, -, cells, seq⟩ := traverse_noErr_of_chain wf' chained
    (Nat.lt_succ_of_le (wf.shape.length_le l)) x
  have same : (p.setCurrent (some l) (p.list (some l)).nodes).seq (some l) = p.seq (some l) := by
    rw [seq_eq_map, seq_eq_map, values, begun.2]
  refine ⟨p', run.trans ?_, cells.trans begun.2, seq.trans same⟩
  rw [values]
  rfl

end Pools

end MinixSemaphore.Lists
