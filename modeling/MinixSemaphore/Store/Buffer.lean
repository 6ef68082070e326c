import Mathlib

/-!
# Messages in a buffer

A message is put together field by field at a position in a buffer, and taken apart in
the same order at the other end. A message that arrives is written over the start of a
buffer, and what is behind it stays. Words travel in network order, the first byte being
the most significant one.
-/

namespace MinixSemaphore.Store

universe u

/-- Bytes, and a position among them. -/
structure Buffer (β : Type u) where
  bytes : Nat → β
  pos : Nat

namespace Buffer

variable {β : Type u} (b : Buffer β)

/-- Go back to the start. -/
def clear : Buffer β :=
  { b with pos := 0 }

/-- Write bytes at the position, and go behind them. -/
def put (xs : List β) : Buffer β where
  bytes k := if k < b.pos then b.bytes k else xs[k - b.pos]?.getD (b.bytes k)
  pos := b.pos + xs.length

/-- The next bytes. -/
def next (n : Nat) : List β :=
  (List.range n).map fun k => b.bytes (b.pos + k)

/-- Go on by some bytes. -/
def skip (n : Nat) : Buffer β :=
  { b with pos := b.pos + n }

/-- The bytes in front of the position. -/
def content : List β :=
  (List.range b.pos).map b.bytes

/-- A message arrives at the start. -/
def receive (xs : List β) : Buffer β :=
  { b.clear.put xs with pos := b.pos }

@[simp]
theorem content_clear : b.clear.content = [] :=
  rfl

@[simp]
theorem put_pos (xs : List β) : (b.put xs).pos = b.pos + xs.length :=
  rfl

theorem put_bytes_of_lt (xs : List β) {k : Nat} (before : k < b.pos) :
    (b.put xs).bytes k = b.bytes k :=
  if_pos before

theorem put_bytes_add (xs : List β) {k : Nat} (inside : k < xs.length) :
    (b.put xs).bytes (b.pos + k) = xs[k] := by
  simp [put, inside]

/-- Behind what has been put, the bytes are the old ones. -/
theorem put_bytes_of_le (xs : List β) {k : Nat} (behind : b.pos + xs.length ≤ k) :
    (b.put xs).bytes k = b.bytes k := by
  have outside : xs.length ≤ k - b.pos := by omega
  simp [put, show ¬k < b.pos by omega, outside]

/-- What is put comes behind what is there. -/
theorem content_put (xs : List β) : (b.put xs).content = b.content ++ xs := by
  rw [content, put_pos, List.range_add, List.map_append, List.map_map]
  congr 1
  · apply List.map_congr_left
    intro k mem
    exact b.put_bytes_of_lt xs (List.mem_range.mp mem)
  · apply List.ext_getElem
    · simp
    · intro k _ inside
      simpa using b.put_bytes_add xs inside

/-! ## Reading -/

variable {b}

/-- These bytes come next. -/
def Holds (b : Buffer β) (xs : List β) : Prop :=
  ∀ k (inside : k < xs.length), b.bytes (b.pos + k) = xs[k]

/-- What has arrived is read from the start. -/
theorem holds_receive (b : Buffer β) (xs : List β) : (b.clear.receive xs).Holds xs :=
  fun _ inside => b.clear.put_bytes_add xs inside

/-- What has been put is there. -/
theorem holds_content (b : Buffer β) : b.clear.Holds b.content := by
  intro k inside
  simp [content, clear]

/-- A message that arrives leaves what is behind it. -/
theorem Holds.receive {xs ys zs : List β} (holds : b.clear.Holds (ys ++ zs))
    (same : xs.length = ys.length) : (b.clear.receive xs).Holds (xs ++ zs) := by
  intro k inside
  by_cases within : k < xs.length
  · rw [List.getElem_append_left within]
    exact b.holds_receive xs k within
  · have old := holds k (by simpa [same] using inside)
    rw [List.getElem_append_right (by omega)] at old ⊢
    simp only [← same] at old
    rw [← old]
    exact b.clear.put_bytes_of_le xs (by simp [Buffer.clear, Buffer.receive]; omega)

theorem Holds.next {xs : List β} (holds : b.Holds xs) : b.next xs.length = xs := by
  apply List.ext_getElem
  · simp [Buffer.next]
  · intro k _ inside
    simpa [Buffer.next] using holds k inside

theorem Holds.left {xs ys : List β} (holds : b.Holds (xs ++ ys)) : b.Holds xs := by
  intro k inside
  have whole := holds k (by simp; omega)
  rwa [List.getElem_append_left inside] at whole

theorem Holds.skip {xs ys : List β} (holds : b.Holds (xs ++ ys)) :
    (b.skip xs.length).Holds ys := by
  intro k inside
  have whole := holds (xs.length + k) (by simp; omega)
  rw [List.getElem_append_right (by omega)] at whole
  simpa [Buffer.skip, Nat.add_assoc] using whole

/-- The last field has nothing behind it. -/
theorem Holds.last {xs : List β} (holds : b.Holds xs) : b.Holds (xs ++ []) := by
  rwa [List.append_nil]

/-- Fields are read in the order in which they were written. -/
theorem Holds.next_append {xs ys : List β} (holds : b.Holds (xs ++ ys)) :
    b.next xs.length = xs :=
  holds.left.next

end Buffer

/-! ## Words in network order -/

/-- The bytes of a word, the most significant one first. -/
def netBytes (n : BitVec 32) : List UInt8 :=
  [⟨n.extractLsb' 24 8⟩, ⟨n.extractLsb' 16 8⟩, ⟨n.extractLsb' 8 8⟩, ⟨n.extractLsb' 0 8⟩]

/-- The word that four bytes stand for. -/
def ofNetBytes : List UInt8 → BitVec 32
  | [a, b, c, d] => a.toBitVec ++ b.toBitVec ++ c.toBitVec ++ d.toBitVec
  | _ => 0

@[simp]
theorem length_netBytes (n : BitVec 32) : (netBytes n).length = 4 :=
  rfl

@[simp]
theorem ofNetBytes_netBytes (n : BitVec 32) : ofNetBytes (netBytes n) = n := by
  rw [netBytes, ofNetBytes]
  apply BitVec.eq_of_getLsbD_eq
  intro k inside
  simp only [BitVec.getLsbD_append, BitVec.getLsbD_extractLsb']
  by_cases first : k < 8
  · simp [first]
  by_cases second : k - 8 < 8
  · simp [first, second, show 8 + (k - 8) = k by omega]
  by_cases third : k - 8 - 8 < 8
  · simp [first, second, third, show 16 + (k - 8 - 8) = k by omega]
  · simp [first, second, third, show 24 + (k - 8 - 8 - 8) = k by omega,
      show k - 8 - 8 - 8 < 8 by omega]

end MinixSemaphore.Store
