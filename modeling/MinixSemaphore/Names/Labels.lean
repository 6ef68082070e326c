import MinixSemaphore.Names.FiniteMap

/-!
# Names that fit into a row

A row of `str_hash` has `MAX_HASH_ELEM` bytes, but the copy of a key fills `MAX_STR` bytes,
all but the first of them with zeroes. If the keys fit into their rows, the copy of one key
may wipe out the keys behind it, and cannot do anything else to them. The table then
forgets keys, but it never mistakes one for another.
-/

namespace MinixSemaphore.Names

open MinixSemaphore.Store
open MinixSemaphore.Transition

universe u

namespace HashTable

variable {V : Type u} {t : HashTable V} {key : CString} {i j : EntryIx} {v : V}
  {R R' : List UInt8 → V → Prop}

/-- Keys lie in their rows and fit there. A value is related to the key it has, unless that
key has been wiped out. -/
structure Labelled (t : HashTable V) (R : List UInt8 → V → Prop) : Prop where
  placed : ∀ i a, (t.entryArray i).key = some a → a = row i
  short : ∀ i n, t.name i = some n → n.length < maxHashElem
  labels : ∀ i n, t.name i = some n → n ≠ [] → R n (t.entryArray i).value

theorem row_add_le (less : i < j) : row i + maxHashElem ≤ row j :=
  calc
    row i + maxHashElem = maxHashElem * (i + 1) := rfl
    _ ≤ maxHashElem * j := Nat.mul_le_mul_left _ less

/-- A copy leaves the key of another entry alone, or wipes it out. -/
theorem name_storeAt_of_short (short : key.length < maxHashElem)
    (placed : ∀ a, (t.entryArray j).key = some a → a = row j) (other : j ≠ i)
    {n : List UInt8} (named : t.name j = some n) (shortName : n.length < maxHashElem) :
    (t.storeAt key v i).name j = some n ∨ (t.storeAt key v i).name j = some [] := by
  have read := readString_name placed named
  rw [name_storeAt placed other named]
  rcases lt_or_gt_of_ne other with less | greater
  · have apart := row_add_le less
    left
    rw [readString_strncpy_back (row_lt_row less) read, if_neg (by omega)]
  · have apart := row_add_le greater
    have shorter : key.length < maxStr := short.trans (by decide)
    rw [readString_strncpy_front shorter (row_lt_row greater) read]
    by_cases near : row j - row i < maxStr
    · right
      have nothing : key.chars.drop (row j - row i) = [] := by
        rw [List.drop_eq_nil_iff]
        change key.length ≤ _
        omega
      rw [if_pos near, nothing]
    · left
      rw [if_neg near]

theorem newHashTable_labelled (h1 : HashTable V) : h1.newHashTable.Labelled R where
  placed i a located := by simp [newHashTable] at located
  short i n named := by simp [newHashTable, name] at named
  labels i n named := by simp [newHashTable, name] at named

theorem Labelled.find (labelled : t.Labelled R) (short : key.length < maxStr)
    (named : key.chars ≠ []) (found : t.hashTableFind key = some v) : R key.chars v := by
  obtain ⟨i, holds, rfl⟩ := exists_of_hashTableFind found
  exact labelled.labels i key.chars ((holds_iff short).mp holds) named

/-- What the values of the table are related to may be restated. -/
theorem Labelled.mono (labelled : t.Labelled R)
    (weaker : ∀ i n, t.name i = some n → R n (t.entryArray i).value →
      R' n (t.entryArray i).value) : t.Labelled R' :=
  ⟨labelled.placed, labelled.short, fun i n named filled =>
    weaker i n named (labelled.labels i n named filled)⟩

theorem Labelled.storeAt (labelled : t.Labelled R) (short : key.length < maxHashElem)
    (new : R key.chars v) (i : EntryIx) : (t.storeAt key v i).Labelled R := by
  have shorter : key.length < maxStr := short.trans (by decide)
  have self : (t.storeAt key v i).name i = some key.chars := name_storeAt_self shorter
  -- what another entry has for a key, it had before, unless it has been wiped out
  have back : ∀ j n, j ≠ i → (t.storeAt key v i).name j = some n →
      t.name j = some n ∨ n = [] := by
    intro j n other named
    have occupied := occupied_iff_name.mpr ⟨n, named⟩
    rw [HashTable.occupied, storeAt_entry_of_ne other] at occupied
    obtain ⟨m, old⟩ := occupied_iff_name.mp occupied
    rcases name_storeAt_of_short short (labelled.placed j) other old (labelled.short j m old)
      with kept | wiped
    · exact Or.inl (old.trans (kept.symm.trans named))
    · exact Or.inr (Option.some.inj (named.symm.trans wiped))
  refine ⟨fun j a located => ?_, fun j n named => ?_, fun j n named filled => ?_⟩
  · by_cases same : j = i
    · subst same
      rw [storeAt_entry_self] at located
      exact (Option.some.inj located).symm
    · rw [storeAt_entry_of_ne same] at located
      exact labelled.placed j a located
  · by_cases same : j = i
    · subst same
      obtain rfl := Option.some.inj (self.symm.trans named)
      exact short
    · rcases back j n same named with old | rfl
      · exact labelled.short j n old
      · decide
  · by_cases same : j = i
    · subst same
      obtain rfl := Option.some.inj (self.symm.trans named)
      rw [storeAt_entry_self]
      exact new
    · rcases back j n same named with old | wiped
      · rw [storeAt_entry_of_ne same]
        exact labelled.labels j n old filled
      · exact absurd wiped filled

/-- An insert stores a key that no entry has, or changes nothing. -/
theorem Labelled.insert (labelled : t.Labelled R) (short : key.length < maxHashElem)
    (new : R key.chars v) : (t.hashTableInsert key v).1.Labelled R := by
  rcases hashTableInsert_cases t key with ⟨i, stores⟩ | fails
  · rw [stores.insert]
    exact labelled.storeAt short new i
  · rw [(fails v).1]
    exact labelled

theorem Labelled.remove (labelled : t.Labelled R) (key : Key) :
    (t.hashTableRemove key.1).1.Labelled R := by
  have named : ∀ {i n}, (t.hashTableRemove key.1).1.name i = some n → t.name i = some n := by
    intro i n named
    rw [Session.name_hashTableRemove (s := ⟨t, fun _ => none⟩)] at named
    split at named
    · contradiction
    · exact named
  refine ⟨fun i a located => ?_, fun i n name => labelled.short i n (named name),
    fun i n name filled => ?_⟩
  · rw [hashTableRemove_entry] at located
    split at located
    · contradiction
    · exact labelled.placed i a located
  · rw [Session.value_hashTableRemove (s := ⟨t, fun _ => none⟩)]
    exact labelled.labels i n (named name) filled

/-- No entry has a key that has been removed. -/
theorem name_ne_of_hashTableRemove (key : Key) {n : List UInt8}
    (named : (t.hashTableRemove key.1).1.name i = some n) : n ≠ key.1.chars := by
  rintro rfl
  rw [Session.name_hashTableRemove (s := ⟨t, fun _ => none⟩)] at named
  split at named
  · contradiction
  · rename_i differs
    exact differs named

end HashTable

namespace Session

variable {V : Type u} {s : Session V}

/-- The key is not empty, and fits into a row. -/
def RowFits (key : Key) : Prop :=
  key.1.chars ≠ [] ∧ key.1.length < maxHashElem

instance (key : Key) : Decidable (RowFits key) :=
  inferInstanceAs (Decidable (_ ∧ _))

/-- The book has the value for the name. -/
def Booked (s : Session V) (n : List UInt8) (v : V) : Prop :=
  ∀ key : Key, key.1.chars = n → s.book key = some v

theorem labelled_step (labelled : s.table.Labelled s.Booked) {op : Op V}
    (fits : RowFits op.key) : (s.step op).table.Labelled (s.step op).Booked := by
  cases op with
  | insert key v =>
      rcases HashTable.hashTableInsert_cases s.table key.1 with ⟨i, stores⟩ | fails
      · rw [step_insert_of_stores stores]
        refine (labelled.mono fun j n named booked other same => ?_).storeAt fits.2
          (fun other same => ?_) i
        · have differs : other ≠ key := by
            rintro rfl
            rw [← same, ← HashTable.holds_iff other.2, stores.absent j] at named
            contradiction
          exact (Function.update_of_ne differs _ _).trans (booked other same)
        · obtain rfl : other = key := Subtype.ext (CString.ext same)
          exact Function.update_self _ _ _
      · have unchanged : s.step (.insert key v) = s := by
          rw [step, (fails v).1, if_neg (fails v).2]
        rwa [unchanged]
  | remove key =>
      refine (labelled.remove key).mono fun i n named booked other same => ?_
      have differs : other ≠ key := by
        rintro rfl
        exact HashTable.name_ne_of_hashTableRemove other named same.symm
      exact (Function.update_of_ne differs _ _).trans (booked other same)

/-- After any calls with keys of 1 to 39 bytes, a search for such a key that finds
something finds what the last insert has stored, and the key has not been removed since. -/
theorem hashTableFind_of_rowFits {h1 : HashTable V} {ops : List (Op V)}
    (run : Run step (fun _ op => RowFits op.key) (start h1) ops s) {key : Key}
    (fits : RowFits key) :
    s.table.hashTableFind key.1 = none ∨ s.table.hashTableFind key.1 = s.book key := by
  have labelled : s.table.Labelled s.Booked := by
    exact run.invariant (I := fun s => s.table.Labelled s.Booked)
      (HashTable.newHashTable_labelled h1) fun _ _ labelled fits => labelled_step labelled fits
  cases found : s.table.hashTableFind key.1 with
  | none => exact Or.inl rfl
  | some v => exact Or.inr (labelled.find key.2 fits.1 found key rfl).symm

/-- The key `c` takes the entry of `a`, and its copy wipes out `b`. -/
theorem hashTableFind_of_rowFits_of_wiped :
    let ops : List (Op Nat) :=
      [.insert ⟨⟨[97], by simp⟩, by decide⟩ 1, .insert ⟨⟨[98], by simp⟩, by decide⟩ 2,
        .remove ⟨⟨[97], by simp⟩, by decide⟩, .insert ⟨⟨[99], by simp⟩, by decide⟩ 3]
    let s := ops.foldl step (start HashTable.zeroed)
    let key : Key := ⟨⟨[99], by simp⟩, by decide⟩
    s.book key = some 3 ∧
      (s.table.hashTableFind key.1 = none ∨ s.table.hashTableFind key.1 = s.book key) :=
  ⟨by decide +kernel, hashTableFind_of_rowFits (Allowed.run (by decide +kernel)) (by decide)⟩

end Session

end MinixSemaphore.Names
