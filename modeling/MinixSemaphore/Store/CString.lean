import Mathlib

/-!
# Strings in byte memory

Memory is a function from addresses to bytes. A string is a list of bytes without
a zero; in memory a zero follows it. `strncpy` and `strncmp` are the library
functions of C, and `readString` is what a bounded reader sees at an address.
-/

namespace MinixSemaphore.Store

/-- A string without its terminator. -/
structure CString where
  chars : List UInt8
  nonzero : ∀ c ∈ chars, c ≠ 0
  deriving DecidableEq

namespace CString

instance : Inhabited CString :=
  ⟨⟨[], by simp⟩⟩

/-- The bytes of the string, with zeroes after its end. -/
def byte (s : CString) (k : Nat) : UInt8 :=
  s.chars.getD k 0

/-- `strlen` -/
def length (s : CString) : Nat :=
  s.chars.length

/-- The string cut to its first `n` bytes. -/
def take (s : CString) (n : Nat) : CString :=
  ⟨s.chars.take n, fun c mem => s.nonzero c (List.mem_of_mem_take mem)⟩

theorem ext {s t : CString} (chars : s.chars = t.chars) : s = t := by
  cases s
  cases t
  simpa using chars

theorem length_take_le (s : CString) (n : Nat) : (s.take n).length ≤ n := by
  rw [length, take, List.length_take]
  exact Nat.min_le_left _ _

end CString

/-- `strncpy(dst, src, n)`: the bytes of the source, padded with zeroes to `n`. -/
def strncpy (mem : Nat → UInt8) (dst : Nat) (src : CString) (n : Nat) : Nat → UInt8 :=
  fun a => if dst ≤ a ∧ a < dst + n then src.byte (a - dst) else mem a

/-- `strncmp(s, t, n)` -/
def strncmp (s t : Nat → UInt8) : Nat → Int
  | 0 => 0
  | n + 1 =>
      if s 0 ≠ t 0 then (s 0).toNat - (t 0).toNat
      else if s 0 = 0 then 0
      else strncmp (fun k => s (k + 1)) (fun k => t (k + 1)) n

/-- The bytes up to the first zero, at most `n` of them. -/
def readString (s : Nat → UInt8) : Nat → List UInt8
  | 0 => []
  | n + 1 => if s 0 = 0 then [] else s 0 :: readString (fun k => s (k + 1)) n

theorem length_readString_le (s : Nat → UInt8) (n : Nat) : (readString s n).length ≤ n := by
  induction n generalizing s with
  | zero => simp [readString]
  | succ n ih =>
      by_cases last : s 0 = 0
      · simp [readString, last]
      · simpa [readString, last] using ih _

/-- `strncmp` finds two strings equal exactly when a reader bounded by `n` does. -/
theorem strncmp_eq_zero_iff (s t : Nat → UInt8) (n : Nat) :
    strncmp s t n = 0 ↔ readString s n = readString t n := by
  induction n generalizing s t with
  | zero => simp [strncmp, readString]
  | succ n ih =>
      by_cases same : s 0 = t 0
      · by_cases last : s 0 = 0
        · simp [strncmp, readString, last, ← same]
        · have last' : t 0 ≠ 0 := fun zero => last (same.trans zero)
          simp [strncmp, readString, same, last', ih]
      · have bytes : ((s 0).toNat : Int) - (t 0).toNat ≠ 0 := by
          intro zero
          exact same (UInt8.toNat.inj (by omega))
        simp only [strncmp, if_pos same, bytes, false_iff]
        intro equal
        by_cases last : s 0 = 0 <;> by_cases last' : t 0 = 0 <;>
          simp_all [readString]

/-- A bounded reader depends on the bytes up to the first zero. -/
theorem readString_congr {s t : Nat → UInt8} {n : Nat}
    (same : ∀ k < n, k ≤ (readString t n).length → s k = t k) :
    readString s n = readString t n := by
  induction n generalizing s t with
  | zero => rfl
  | succ n ih =>
      have first : s 0 = t 0 := same 0 (Nat.succ_pos n) (Nat.zero_le _)
      by_cases last : t 0 = 0
      · simp [readString, first, last]
      · have unfolded : readString t (n + 1) = t 0 :: readString (fun k => t (k + 1)) n := by
          rw [readString, if_neg last]
        have rest : readString (fun k => s (k + 1)) n = readString (fun k => t (k + 1)) n :=
          ih fun k less within => same (k + 1) (Nat.succ_lt_succ less) (by
            rw [unfolded]
            exact Nat.succ_le_succ within)
        rw [unfolded, readString, first, if_neg last, rest]

/-- Reading a string that lies at the start of the bytes. -/
theorem readString_append {s : Nat → UInt8} (front : List UInt8) {n : Nat}
    (bytes : ∀ k (less : k < front.length), s k = front[k])
    (nonzero : ∀ c ∈ front, c ≠ 0) (room : front.length ≤ n) :
    readString s n = front ++ readString (fun k => s (front.length + k)) (n - front.length) := by
  induction front generalizing s n with
  | nil => simp
  | cons c rest ih =>
      obtain ⟨n, rfl⟩ : ∃ m, n = m + 1 := ⟨n - 1, by simp at room; omega⟩
      have first : s 0 = c := bytes 0 (by simp)
      have tail := ih (s := fun k => s (k + 1)) (n := n)
        (fun k less => (bytes (k + 1) (by simpa using less)).trans
          (List.getElem_cons_succ ..))
        (fun d mem => nonzero d (List.mem_cons_of_mem _ mem)) (by simpa using room)
      have shift : (fun k => s ((c :: rest).length + k)) =
          fun k => s (rest.length + k + 1) := by
        funext k
        congr 1
        simp only [List.length_cons]
        omega
      rw [readString, first, if_neg (nonzero c List.mem_cons_self), tail, shift]
      simp

/-- A reader that starts inside a string sees the rest of it. -/
theorem readString_byte_drop (s : CString) (d n : Nat) :
    readString (fun k => s.byte (d + k)) n = (s.chars.drop d).take n := by
  induction n generalizing d with
  | zero => simp [readString]
  | succ n ih =>
      have rest := ih (d + 1)
      by_cases inside : d < s.chars.length
      · have byte : s.byte d = s.chars[d] := by simp [CString.byte, inside]
        have alive : s.byte d ≠ 0 := byte ▸ s.nonzero _ (List.getElem_mem inside)
        rw [readString, Nat.add_zero, if_neg alive, List.drop_eq_getElem_cons inside,
          List.take_succ_cons, byte, ← rest]
        simp only [Nat.add_assoc, Nat.add_comm 1]
      · have ended : s.byte d = 0 := by simp [CString.byte, Nat.le_of_not_lt inside]
        rw [readString, Nat.add_zero, if_pos ended,
          List.drop_eq_nil_of_le (Nat.le_of_not_lt inside), List.take_nil]

theorem readString_byte (s : CString) (n : Nat) : readString s.byte n = s.chars.take n := by
  simpa using readString_byte_drop s 0 n

/-- What a reader sees is in memory: its bytes are there, and none of them is zero. -/
theorem readString_spec (s : Nat → UInt8) (n : Nat) :
    (∀ k (less : k < (readString s n).length), s k = (readString s n)[k]) ∧
      ∀ c ∈ readString s n, c ≠ 0 := by
  induction n generalizing s with
  | zero => simp [readString]
  | succ n ih =>
      by_cases last : s 0 = 0
      · simp [readString, last]
      · obtain ⟨bytes, nonzero⟩ := ih fun k => s (k + 1)
        have unfolded : readString s (n + 1) = s 0 :: readString (fun k => s (k + 1)) n := by
          rw [readString, if_neg last]
        rw [unfolded]
        refine ⟨fun k less => ?_, fun c mem => ?_⟩
        · cases k with
          | zero => rfl
          | succ k => exact bytes k (by simpa using less)
        · rcases List.mem_cons.mp mem with rfl | mem
          · exact last
          · exact nonzero c mem

end MinixSemaphore.Store
