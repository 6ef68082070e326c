import MinixSemaphore.Names.Core
import MinixSemaphore.Transition.Run

/-!
# The name table as a finite map

A session feeds inserts and removes to the table and keeps a book of what every
key was last given. The table answers as the book does as long as no copied key
runs over the key of another entry; the copies are too long for their rows, so
this is a condition on the keys and the entries they go to.
-/

namespace MinixSemaphore.Names

open MinixSemaphore.Store
open MinixSemaphore.Transition

universe u

/-- A string short enough to be a key: shorter than `MAX_STR`. -/
abbrev Key := { s : CString // s.length < maxStr }

/-- A call that changes the table. -/
inductive Op (V : Type u)
  | insert (key : Key) (value : V)
  | remove (key : Key)

/-- The key a call is about. -/
def Op.key {V : Type u} : Op V → Key
  | .insert key _ => key
  | .remove key => key

namespace HashTable

variable {V : Type u} {t : HashTable V} {key : CString} {i j : EntryIx} {v : V}

/-- The key of an entry, as a reader bounded by `MAX_STR` sees it. -/
def name (t : HashTable V) (i : EntryIx) : Option (List UInt8) :=
  (t.entryArray i).key.map fun a => readString (fun k => t.strHash (a + k)) maxStr

theorem occupied_iff_name : t.occupied i = true ↔ ∃ n, t.name i = some n := by
  rw [occupied, name, Option.isSome_iff_exists]
  simp

theorem holds_iff (short : key.length < maxStr) :
    t.holds key i = true ↔ t.name i = some key.chars := by
  have whole : readString key.byte maxStr = key.chars := by
    rw [readString_byte]
    exact List.take_of_length_le (Nat.le_of_lt short)
  rw [HashTable.holds, name]
  cases (t.entryArray i).key with
  | none => simp
  | some a => simp only [decide_eq_true_eq, strncmp_eq_zero_iff, whole, Option.map_some,
      Option.some.injEq]

/-- Copying `key` to the row of entry `i` leaves the keys of the other entries as
they are: where the copy covers the row of a later entry, that entry holds the
matching tail of `key`, and an earlier entry whose key reaches the row of `i` goes
on with `key` there. -/
def Fits (t : HashTable V) (key : CString) (i : EntryIx) : Prop :=
  ∀ j, ∀ n ∈ t.name j,
    (i < j → row j - row i < maxStr → n = key.chars.drop (row j - row i)) ∧
      (j < i → row i - row j ≤ n.length → n.drop (row i - row j) = key.chars)

instance (t : HashTable V) (key : CString) (i : EntryIx) : Decidable (t.Fits key i) :=
  inferInstanceAs (Decidable (∀ j, ∀ n ∈ t.name j, _))

/-- What a successful insert reads from the row of another entry. -/
theorem name_storeAt (placed : ∀ a, (t.entryArray j).key = some a → a = row j)
    (other : j ≠ i) {n : List UInt8} (named : t.name j = some n) :
    (t.storeAt key v i).name j =
      some (readString (fun k => strncpy t.strHash (row i) key maxStr (row j + k)) maxStr) := by
  rw [name] at named ⊢
  rw [storeAt_entry_of_ne other]
  obtain ⟨a, keyEq, -⟩ := Option.map_eq_some_iff.mp named
  rw [keyEq, placed a keyEq]
  rfl

theorem readString_name (placed : ∀ a, (t.entryArray j).key = some a → a = row j)
    {n : List UInt8} (named : t.name j = some n) :
    readString (fun k => t.strHash (row j + k)) maxStr = n := by
  obtain ⟨a, keyEq, read⟩ := Option.map_eq_some_iff.mp named
  rwa [placed a keyEq] at read

theorem row_lt_row (less : i < j) : row i < row j :=
  Nat.mul_lt_mul_of_pos_left less (by decide)

/-- A copy to a row in front of an entry. -/
theorem readString_strncpy_front {mem : Nat → UInt8} {src dst : Nat} {n : List UInt8}
    (short : key.length < maxStr) (front : dst < src)
    (read : readString (fun k => mem (src + k)) maxStr = n) :
    readString (fun k => strncpy mem dst key maxStr (src + k)) maxStr =
      if src - dst < maxStr then key.chars.drop (src - dst) else n := by
  by_cases near : src - dst < maxStr
  · have tail : readString (fun k => key.byte (src - dst + k)) maxStr =
        key.chars.drop (src - dst) := by
      rw [readString_byte_drop]
      refine List.take_of_length_le ?_
      rw [List.length_drop]
      exact (Nat.sub_le _ _).trans (Nat.le_of_lt short)
    rw [if_pos near, ← tail]
    refine readString_congr fun k _ within => ?_
    rw [tail, List.length_drop] at within
    have covered : dst ≤ src + k ∧ src + k < dst + maxStr := by
      have := short
      rw [CString.length] at this
      omega
    rw [strncpy, if_pos covered]
    congr 1
    omega
  · rw [if_neg near, ← read]
    refine readString_congr fun k _ _ => ?_
    rw [strncpy, if_neg (by omega)]

/-- A copy to a row behind the start of an entry. -/
theorem readString_strncpy_back {mem : Nat → UInt8} {src dst : Nat} {n : List UInt8}
    (behind : src < dst) (read : readString (fun k => mem (src + k)) maxStr = n) :
    readString (fun k => strncpy mem dst key maxStr (src + k)) maxStr =
      if dst - src ≤ n.length then n.take (dst - src) ++ key.chars.take (maxStr - (dst - src))
      else n := by
  by_cases reaches : dst - src ≤ n.length
  · have spec := readString_spec (fun k => mem (src + k)) maxStr
    have bound := length_readString_le (fun k => mem (src + k)) maxStr
    rw [read] at spec bound
    have cut : (n.take (dst - src)).length = dst - src := by
      rw [List.length_take]
      omega
    rw [if_pos reaches, readString_append (n.take (dst - src)), cut,
      ← readString_byte]
    · congr 1
      refine readString_congr fun k less _ => ?_
      rw [strncpy, if_pos (by omega)]
      congr 1
      omega
    · intro k less
      rw [cut] at less
      rw [strncpy, if_neg (by omega), List.getElem_take]
      exact spec.1 k (by omega)
    · exact fun c mem => spec.2 c (List.mem_of_mem_take mem)
    · rw [cut]
      omega
  · rw [if_neg reaches, ← read]
    refine readString_congr fun k _ within => ?_
    rw [read] at within
    rw [strncpy, if_neg (by omega)]

/-- A key that is shorter than the bound is continued by `key` exactly if its tail
is `key`. -/
theorem take_append_eq_iff {n chars : List UInt8} {d : Nat} (short : n.length < maxStr)
    (reaches : d ≤ n.length) :
    n.take d ++ chars.take (maxStr - d) = n ↔ n.drop d = chars := by
  have cut : (n.drop d).length < maxStr - d := by
    rw [List.length_drop]
    omega
  have join : n.take d ++ chars.take (maxStr - d) = n ↔ chars.take (maxStr - d) = n.drop d := by
    conv_lhs => rhs; rw [← List.take_append_drop d n]
    exact List.append_right_inj _
  rw [join]
  constructor
  · intro same
    have whole : chars.length ≤ maxStr - d := by
      by_contra longer
      rw [← same, List.length_take] at cut
      omega
    rw [← same, List.take_of_length_le whole]
  · intro same
    rw [← same, List.take_of_length_le (Nat.le_of_lt cut)]

/-- The keys of two different entries, one of which receives `key`. -/
theorem name_storeAt_eq_iff (short : key.length < maxStr)
    (placed : ∀ a, (t.entryArray j).key = some a → a = row j) (other : j ≠ i)
    {n : List UInt8} (named : t.name j = some n) (shortName : n.length < maxStr) :
    (t.storeAt key v i).name j = some n ↔
      (i < j → row j - row i < maxStr → n = key.chars.drop (row j - row i)) ∧
        (j < i → row i - row j ≤ n.length → n.drop (row i - row j) = key.chars) := by
  have read := readString_name placed named
  rw [name_storeAt placed other named, Option.some.injEq]
  rcases lt_or_gt_of_ne other with less | greater
  · rw [readString_strncpy_back (row_lt_row less) read]
    have notGreater : ¬i < j := not_lt_of_gt less
    by_cases reaches : row i - row j ≤ n.length
    · simp [less, notGreater, reaches, take_append_eq_iff shortName reaches]
    · simp [notGreater, reaches]
  · rw [readString_strncpy_front short (row_lt_row greater) read]
    have notLess : ¬j < i := not_lt_of_gt greater
    by_cases near : row j - row i < maxStr
    · simp [greater, notLess, near, eq_comm]
    · simp [notLess, near]

theorem name_storeAt_self (short : key.length < maxStr) :
    (t.storeAt key v i).name i = some key.chars := by
  have read := readString_byte_drop key 0 maxStr
  rw [List.drop_zero, List.take_of_length_le (Nat.le_of_lt short)] at read
  rw [name, storeAt_entry_self, Option.map_some, ← read]
  refine congrArg some (readString_congr fun k less _ => ?_)
  change strncpy t.strHash (row i) key maxStr (row i + k) = _
  rw [strncpy, if_pos (by omega), Nat.add_sub_cancel_left, Nat.zero_add]

/-- The copy of a key may run into the key of an entry in front of it, but does not make
that one the same: it only gets longer than the copy. -/
theorem name_storeAt_ne (short : key.length < maxStr)
    (placed : ∀ a, (t.entryArray j).key = some a → a = row j) (front : j < i)
    (absent : t.name j ≠ some key.chars) : (t.storeAt key v i).name j ≠ some key.chars := by
  intro same
  have other : j ≠ i := ne_of_lt front
  cases named : t.name j with
  | none =>
      have free : (t.entryArray j).key = none := by simpa [name] using named
      rw [name, storeAt_entry_of_ne other, free] at same
      contradiction
  | some n =>
      have behind := row_lt_row front
      rw [name_storeAt placed other named,
        readString_strncpy_back behind (readString_name placed named)] at same
      by_cases reaches : row i - row j ≤ n.length
      · rw [if_pos reaches] at same
        have lengths := congrArg List.length (Option.some.inj same)
        rw [List.length_append, List.length_take, List.length_take] at lengths
        have short : key.chars.length < maxStr := short
        omega
      · rw [if_neg reaches] at same
        exact absent (named.trans same)

/-- A key that has been stored is found. -/
theorem hashTableFind_storeAt (short : key.length < maxStr)
    (placed : ∀ j a, (t.entryArray j).key = some a → a = row j) (stores : t.Stores key i) :
    (t.storeAt key v i).hashTableFind key = some v := by
  have first : firstFit ((t.storeAt key v i).holds key) = some i := by
    refine firstFit_eq_some_iff.mpr ⟨(holds_iff short).mpr (name_storeAt_self short), ?_⟩
    intro j front
    have absent : t.name j ≠ some key.chars := fun same => by
      have holds := (holds_iff short).mpr same
      rw [stores.absent j] at holds
      contradiction
    by_contra holds
    have holds : (t.storeAt key v i).holds key j = true := by simpa using holds
    exact name_storeAt_ne short (placed j) front absent ((holds_iff short).mp holds)
  rw [hashTableFind, first, Option.map_some, storeAt_entry_self]

end HashTable

/-! ## Sessions -/

/-- The table and the book: the value each key was stored with by its last insert
that reported success, unless it has been removed since. -/
structure Session (V : Type u) where
  table : HashTable V
  book : Key → Option V

namespace Session

variable {V : Type u}

/-- The table `NewHashTable` makes of `h1`, and an empty book. -/
def start (h1 : HashTable V) : Session V :=
  { table := HashTable.newHashTable h1, book := fun _ => none }

/-- Carry out one call. -/
def step (s : Session V) : Op V → Session V
  | .insert key value =>
      let result := s.table.hashTableInsert key.1 value
      { table := result.1
        book :=
          if result.2 = some .noErr then Function.update s.book key (some value) else s.book }
  | .remove key =>
      { table := (s.table.hashTableRemove key.1).1
        book := Function.update s.book key none }

/-- The call is a remove, an insert that stores nothing, or an insert whose key
fits the entry it goes to. -/
def Fits (s : Session V) : Op V → Prop
  | .insert key _ => ∀ i, s.table.Stores key.1 i → s.table.Fits key.1 i
  | .remove _ => True

instance (s : Session V) : ∀ op, Decidable (s.Fits op)
  | .insert key _ =>
      inferInstanceAs (Decidable (∀ i, s.table.Stores key.1 i → s.table.Fits key.1 i))
  | .remove _ => inferInstanceAs (Decidable True)

/-- The call leaves every entry with another key as it is. -/
def KeepsOthers (s : Session V) (op : Op V) : Prop :=
  ∀ i n, s.table.name i = some n → n ≠ op.key.1.chars →
    (s.step op).table.name i = some n ∧
      ((s.step op).table.entryArray i).value = (s.table.entryArray i).value

/-- The entries are the book: keys lie in their rows and are short enough, no two
entries have the same key, and what is in the book is in an entry. -/
structure Faithful (s : Session V) : Prop where
  placed : ∀ i a, (s.table.entryArray i).key = some a → a = HashTable.row i
  short : ∀ i n, s.table.name i = some n → n.length < maxStr
  apart : ∀ i j n, s.table.name i = some n → s.table.name j = some n → i = j
  booked : ∀ key v, s.book key = some v ↔
    ∃ i, s.table.name i = some key.1.chars ∧ (s.table.entryArray i).value = v

theorem start_faithful (h1 : HashTable V) : (start h1).Faithful where
  placed i a key := by simp [start, HashTable.newHashTable] at key
  short i n named := by simp [start, HashTable.newHashTable, HashTable.name] at named
  apart i j n named := by simp [start, HashTable.newHashTable, HashTable.name] at named
  booked key v := by simp [start, HashTable.newHashTable, HashTable.name]

variable {s : Session V}

/-- A faithful table answers a search with what the book says. -/
theorem Faithful.find (faithful : s.Faithful) (key : Key) :
    s.table.hashTableFind key.1 = s.book key := by
  cases found : s.table.hashTableFind key.1 with
  | none =>
      have absent := HashTable.hashTableFind_eq_none_iff.mp found
      cases booked : s.book key with
      | none => rfl
      | some v =>
          obtain ⟨i, named, -⟩ := (faithful.booked key v).mp booked
          rw [← HashTable.holds_iff key.2, absent i] at named
          contradiction
  | some v =>
      obtain ⟨i, holds, value⟩ := HashTable.exists_of_hashTableFind found
      rw [HashTable.holds_iff key.2] at holds
      exact ((faithful.booked key v).mpr ⟨i, holds, value⟩).symm

theorem step_insert_of_stores {key : Key} {v : V} {i : EntryIx}
    (stores : s.table.Stores key.1 i) :
    s.step (.insert key v) =
      ⟨s.table.storeAt key.1 v i, Function.update s.book key (some v)⟩ := by
  simp [step, stores.insert]

theorem name_hashTableRemove (key : Key) (i : EntryIx) :
    (s.table.hashTableRemove key.1).1.name i =
      if s.table.name i = some key.1.chars then none else s.table.name i := by
  have holds := HashTable.holds_iff (t := s.table) (i := i) key.2
  by_cases hit : s.table.holds key.1 i = true
  · rw [if_pos (holds.mp hit)]
    simp [HashTable.name, HashTable.hashTableRemove_entry, hit]
  · rw [if_neg fun named => hit (holds.mpr named)]
    simp [HashTable.name, HashTable.hashTableRemove_entry, hit,
      HashTable.hashTableRemove_strHash]

theorem value_hashTableRemove (key : Key) (i : EntryIx) :
    ((s.table.hashTableRemove key.1).1.entryArray i).value = (s.table.entryArray i).value := by
  rw [HashTable.hashTableRemove_entry]
  split <;> rfl

/-- The condition on the keys is exact: it says when a call leaves the entries of
all other keys alone. -/
theorem Faithful.keepsOthers_iff (faithful : s.Faithful) (op : Op V) :
    s.KeepsOthers op ↔ s.Fits op := by
  cases op with
  | remove key =>
      refine iff_of_true (fun i n named other => ?_) trivial
      have differs : s.table.name i ≠ some key.1.chars := fun same =>
        other (Option.some.inj (named.symm.trans same))
      refine ⟨?_, value_hashTableRemove key i⟩
      change (s.table.hashTableRemove key.1).1.name i = some n
      rw [name_hashTableRemove, if_neg differs, named]
  | insert key v =>
      rcases HashTable.hashTableInsert_cases s.table key.1 with ⟨i, stores⟩ | fails
      · have only : ∀ j, s.table.Stores key.1 j → j = i := fun j other =>
          Option.some.inj (other.first.symm.trans stores.first)
        have others : ∀ j n, s.table.name j = some n → j ≠ i ∧ n ≠ key.1.chars := by
          intro j n named
          refine ⟨fun same => ?_, fun same => ?_⟩
          · have busy := HashTable.occupied_iff_name.mpr ⟨n, named⟩
            rw [same, stores.free] at busy
            contradiction
          · rw [same, ← HashTable.holds_iff key.2, stores.absent j] at named
            contradiction
        constructor
        · intro keeps i' stores' j n named
          obtain rfl := only i' stores'
          obtain ⟨apart, differs⟩ := others j n named
          have kept := (keeps j n named differs).1
          rw [step_insert_of_stores stores] at kept
          exact (HashTable.name_storeAt_eq_iff key.2 (faithful.placed j) apart named
            (faithful.short j n named)).mp kept
        · intro fits j n named _
          obtain ⟨apart, -⟩ := others j n named
          rw [step_insert_of_stores stores]
          exact ⟨(HashTable.name_storeAt_eq_iff key.2 (faithful.placed j) apart named
            (faithful.short j n named)).mpr (fits i stores j n named),
            by rw [HashTable.storeAt_entry_of_ne apart]⟩
      · refine iff_of_true (fun j n named _ => ?_) fun i stores => ?_
        · simp [step, (fails v).1, named]
        · exact absurd (congrArg Prod.snd (stores.insert v)) (fails v).2

theorem Faithful.remove (faithful : s.Faithful) (key : Key) :
    (s.step (.remove key)).Faithful := by
  have named : ∀ {i n}, (s.step (.remove key)).table.name i = some n →
      s.table.name i = some n ∧ n ≠ key.1.chars := by
    intro i n named
    rw [step, name_hashTableRemove] at named
    split at named
    · contradiction
    · rename_i differs
      exact ⟨named, fun same => differs (same ▸ named)⟩
  have survives := (faithful.keepsOthers_iff (.remove key)).mpr trivial
  refine ⟨fun i a keyEq => ?_, fun i n name => faithful.short i n (named name).1,
    fun i j n first second => faithful.apart i j n (named first).1 (named second).1,
    fun other v => ?_⟩
  · rw [step, HashTable.hashTableRemove_entry] at keyEq
    split at keyEq
    · contradiction
    · exact faithful.placed i a keyEq
  · by_cases same : other = key
    · subst same
      refine iff_of_false (by simp [step]) ?_
      rintro ⟨i, name, -⟩
      exact (named name).2 rfl
    · have chars : other.1.chars ≠ key.1.chars := fun equal =>
        same (Subtype.ext (CString.ext equal))
      change Function.update s.book key none other = some v ↔ _
      rw [Function.update_of_ne same, faithful.booked]
      constructor
      · rintro ⟨i, name, value⟩
        obtain ⟨kept, valueKept⟩ := survives i _ name chars
        exact ⟨i, kept, valueKept.trans value⟩
      · rintro ⟨i, name, value⟩
        exact ⟨i, (named name).1, (value_hashTableRemove key i).symm.trans value⟩

theorem Faithful.store (faithful : s.Faithful) {key : Key} {v : V} {i : EntryIx}
    (stores : s.table.Stores key.1 i) (fits : s.Fits (.insert key v)) :
    (s.step (.insert key v)).Faithful := by
  have keeps := (faithful.keepsOthers_iff (.insert key v)).mpr fits
  rw [KeepsOthers, step_insert_of_stores stores] at keeps
  rw [step_insert_of_stores stores]
  have self : (s.table.storeAt key.1 v i).name i = some key.1.chars :=
    HashTable.name_storeAt_self key.2
  have absent : ∀ j n, s.table.name j = some n → n ≠ key.1.chars := by
    intro j n named same
    rw [same, ← HashTable.holds_iff key.2, stores.absent j] at named
    contradiction
  have back : ∀ j n, j ≠ i → (s.table.storeAt key.1 v i).name j = some n →
      s.table.name j = some n := by
    intro j n other named
    have occupied := HashTable.occupied_iff_name.mpr ⟨n, named⟩
    rw [HashTable.occupied, HashTable.storeAt_entry_of_ne other] at occupied
    obtain ⟨m, old⟩ := HashTable.occupied_iff_name.mp occupied
    have kept := (keeps j m old (absent j m old)).1
    rw [old, ← kept, named]
  refine ⟨fun j a keyEq => ?_, fun j n named => ?_, fun j k n first second => ?_,
    fun other w => ?_⟩
  · by_cases same : j = i
    · subst same
      simpa [eq_comm] using keyEq
    · exact faithful.placed j a (HashTable.storeAt_entry_of_ne same ▸ keyEq)
  · by_cases same : j = i
    · subst same
      obtain rfl := Option.some.inj (self.symm.trans named)
      exact key.2
    · exact faithful.short j n (back j n same named)
  · by_cases firstSame : j = i <;> by_cases secondSame : k = i
    · rw [firstSame, secondSame]
    · rw [firstSame] at first
      obtain rfl := Option.some.inj (self.symm.trans first)
      exact absurd rfl (absent k _ (back k _ secondSame second))
    · rw [secondSame] at second
      obtain rfl := Option.some.inj (self.symm.trans second)
      exact absurd rfl (absent j _ (back j _ firstSame first))
    · exact faithful.apart j k n (back j n firstSame first) (back k n secondSame second)
  · change Function.update s.book key (some v) other = some w ↔ _
    by_cases same : other = key
    · subst same
      rw [Function.update_self, Option.some.injEq]
      constructor
      · rintro rfl
        exact ⟨i, self, by simp⟩
      · rintro ⟨j, named, value⟩
        by_cases here : j = i
        · subst here
          simpa using value
        · exact absurd rfl (absent j _ (back j _ here named))
    · have chars : other.1.chars ≠ key.1.chars := fun equal =>
        same (Subtype.ext (CString.ext equal))
      rw [Function.update_of_ne same, faithful.booked]
      constructor
      · rintro ⟨j, named, value⟩
        obtain ⟨kept, valueKept⟩ := keeps j _ named chars
        exact ⟨j, kept, valueKept.trans value⟩
      · rintro ⟨j, named, value⟩
        by_cases here : j = i
        · subst here
          exact absurd (Option.some.inj (named.symm.trans self)) chars
        · rw [HashTable.storeAt_entry_of_ne here] at value
          exact ⟨j, back j _ here named, value⟩

/-- A call that fits keeps the table faithful. -/
theorem Faithful.step (faithful : s.Faithful) {op : Op V} (fits : s.Fits op) :
    (s.step op).Faithful := by
  cases op with
  | remove key => exact faithful.remove key
  | insert key v =>
      rcases HashTable.hashTableInsert_cases s.table key.1 with ⟨i, stores⟩ | fails
      · exact faithful.store stores fits
      · have unchanged : s.step (.insert key v) = s := by
          rw [Session.step, (fails v).1, if_neg (fails v).2]
        rwa [unchanged]

/-- After any calls whose stored keys fit, every search answers as the book does.
The next call then leaves the entries of all other keys alone exactly if it fits
too. -/
theorem hashTableFind_eq_book {h1 : HashTable V} {ops : List (Op V)}
    (run : Run step Fits (start h1) ops s) :
    (∀ key : Key, s.table.hashTableFind key.1 = s.book key) ∧
      ∀ op, s.KeepsOthers op ↔ s.Fits op := by
  have faithful : s.Faithful :=
    run.invariant (start_faithful h1) fun _ _ inv fits => inv.step fits
  exact ⟨faithful.find, faithful.keepsOthers_iff⟩

theorem hashTableFind_eq_book_of_reuse :
    let ops : List (Op Nat) :=
      [.insert ⟨⟨[97], by simp⟩, by decide⟩ 1, .insert ⟨⟨[98], by simp⟩, by decide⟩ 2,
        .remove ⟨⟨[98], by simp⟩, by decide⟩, .insert ⟨⟨[99], by simp⟩, by decide⟩ 3]
    let s := ops.foldl step (start HashTable.zeroed)
    (∀ key : Key, s.table.hashTableFind key.1 = s.book key) ∧
      ∀ op, s.KeepsOthers op ↔ s.Fits op :=
  hashTableFind_eq_book (Allowed.run (by decide +kernel))

/-- The keys `a` and `b` go to the first two entries. When `a` is removed and `c`
takes its entry, the copy of `c` fills the row of `b` with zeroes. -/
theorem hashTableFind_ne_book :
    let ops : List (Op Nat) :=
      [.insert ⟨⟨[97], by simp⟩, by decide⟩ 1, .insert ⟨⟨[98], by simp⟩, by decide⟩ 2,
        .remove ⟨⟨[97], by simp⟩, by decide⟩, .insert ⟨⟨[99], by simp⟩, by decide⟩ 3]
    let s := ops.foldl step (start HashTable.zeroed)
    s.book ⟨⟨[98], by simp⟩, by decide⟩ = some 2 ∧
      s.table.hashTableFind ⟨[98], by simp⟩ = none ∧
      ¬∀ key : Key, s.table.hashTableFind key.1 = s.book key := by
  refine ⟨by decide +kernel, by decide +kernel, fun all => ?_⟩
  have found := all ⟨⟨[98], by simp⟩, by decide⟩
  revert found
  decide +kernel

end Session

end MinixSemaphore.Names
