import MinixSemaphore.Store.Buffer
import MinixSemaphore.Store.CString

/-!
# The fields of a message

protocolo_sem.c puts messages together and takes them apart in a buffer of `MAX_MSG`
bytes. A copy of a negative size, and one that leaves the buffer, mean nothing in C and
have no result here. Only names are long enough for that, and a `long` has four bytes. In
memory the result of `htonl` has the most significant byte first on every machine.
-/

namespace MinixSemaphore.Linux

open MinixSemaphore.Store

/-- `MAX_MSG` -/
abbrev maxMsg : Nat := 255

/-- The byte that a number leaves in a `char`. -/
def toChar (c : Int) : UInt8 :=
  ⟨BitVec.ofInt 8 c⟩

/-- The number in a `char`, which is signed. -/
def ofChar (c : UInt8) : Int :=
  c.toBitVec.toInt

/-- `put_long` -/
def putLong (n : BitVec 32) (b : Buffer UInt8) : Buffer UInt8 :=
  b.put (netBytes n)

/-- `get_long` -/
def getLong (b : Buffer UInt8) : BitVec 32 × Buffer UInt8 :=
  (ofNetBytes (b.next 4), b.skip 4)

/-- `put_char` -/
def putChar (c : Int) (b : Buffer UInt8) : Buffer UInt8 :=
  b.put [toChar c]

/-- `get_char` -/
def getChar (b : Buffer UInt8) : Int × Buffer UInt8 :=
  (ofChar (b.bytes b.pos), b.skip 1)

/-- `put_string` -/
def putString (str : CString) (size : Int) (b : Buffer UInt8) : Option (Buffer UInt8) :=
  let b := putChar size b
  if size < 0 ∨ maxMsg < b.pos + size.toNat then none
  else some (b.put ((List.range size.toNat).map str.byte))

/-- The string that the next bytes make up when a terminator is put behind them. -/
def nextString (b : Buffer UInt8) (n : Nat) : CString :=
  ⟨readString (fun k => b.bytes (b.pos + k)) n, (readString_spec _ _).2⟩

/-- `get_string`: the string that is in `str` afterwards. -/
def getString (size : Nat) (b : Buffer UInt8) : Option (CString × Buffer UInt8) :=
  let (len, b) := getChar b
  if len < 0 then none else some (nextString b (min size len.toNat), b.skip len.toNat)

/-! ## What was put is got -/

variable {b : Buffer UInt8} {rest : List UInt8}

theorem ofChar_toChar {c : Int} (inRange : -128 ≤ c ∧ c < 128) : ofChar (toChar c) = c := by
  rw [ofChar, toChar, BitVec.toInt_ofInt_eq_self (by decide)]
  · exact inRange.1
  · exact inRange.2

/-- A length that does not fit into a `char` is read as a negative number, or as a smaller
one. -/
theorem ofChar_toChar_of_length {n : Nat} (long : 128 ≤ n) (inRange : n < 256) :
    ofChar (toChar n) = n - 256 := by
  rw [ofChar, toChar, BitVec.toInt_ofInt, Int.bmod_def]
  omega

theorem getLong_of_holds {n : BitVec 32} (holds : b.Holds (netBytes n ++ rest)) :
    getLong b = (n, b.skip 4) := by
  rw [getLong, show b.next 4 = netBytes n from holds.next_append, ofNetBytes_netBytes]

theorem getChar_of_holds {c : UInt8} (holds : b.Holds (c :: rest)) :
    getChar b = (ofChar c, b.skip 1) := by
  have first := holds 0 (by simp)
  rw [Nat.add_zero] at first
  rw [getChar, first]
  rfl

theorem map_byte_range (str : CString) : (List.range str.length).map str.byte = str.chars := by
  apply List.ext_getElem
  · simp [CString.length]
  · intro k _ inside
    simp [CString.byte, inside]

/-- A string is read back if its length fits into a `char`. -/
theorem getString_of_holds {str : CString} {size : Nat} (short : str.length < 128)
    (room : str.length ≤ size) (holds : b.Holds (toChar str.length :: (str.chars ++ rest))) :
    getString size b = some (str, b.skip (1 + str.length)) := by
  have len : ofChar (toChar str.length) = str.length := ofChar_toChar ⟨by omega, by omega⟩
  have behind : (b.skip 1).Holds (str.chars ++ rest) := @Buffer.Holds.skip _ _ [_] _ holds
  have read : nextString (b.skip 1) str.length = str := by
    have bytes := readString_append str.chars behind.left str.nonzero (le_refl str.chars.length)
    rw [Nat.sub_self, readString, List.append_nil] at bytes
    exact CString.ext bytes
  rw [getString, getChar_of_holds holds]
  simp only [len, Int.toNat_natCast, Nat.min_eq_right room, read]
  rw [if_neg (by omega)]
  simp [Buffer.skip, Nat.add_assoc]

/-- A length that is read as a negative number leaves nothing to read. -/
theorem getString_of_long {n : Nat} (size : Nat) (long : 128 ≤ n) (inRange : n < 256)
    (holds : b.Holds (toChar n :: rest)) : getString size b = none := by
  have len := ofChar_toChar_of_length long inRange
  rw [getString, getChar_of_holds holds]
  simp only [len]
  rw [if_pos (by omega)]

end MinixSemaphore.Linux
