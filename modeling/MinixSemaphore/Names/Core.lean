import MinixSemaphore.Store.CString
import MinixSemaphore.Store.FirstFit

/-!
# The name table

This is hash.c: an array of entries searched from its first cell, each entry a
pointer to its key and a value. The keys are copied into the rows of one array of
characters, declared `char str_hash[MAX_STR][MAX_HASH_ELEM]`. Its rows are thus
`MAX_HASH_ELEM` bytes long, while each copy is `MAX_STR` bytes long; the model
keeps the array as flat memory, in which a copy runs over the rows that follow.
-/

namespace MinixSemaphore.Names

open MinixSemaphore.Store

universe u

/-- `MAX_HASH_ELEM` -/
abbrev maxHashElem : Nat := 40

/-- `MAX_STR` -/
abbrev maxStr : Nat := 255

/-- An index into `entry_array`. -/
abbrev EntryIx := Fin maxHashElem

/-- The result codes of hash.h. -/
inductive HashStatus
  | noElem
  | noErr
  | elemRepeated
  | noMem
  deriving DecidableEq, Repr

/-- `hashEntryT`: a key that is `NULL` or an address in `str_hash`, and a value. -/
structure HashEntry (V : Type u) where
  key : Option Nat
  value : V

/-- `struct hashTableCDT` -/
structure HashTable (V : Type u) where
  entryArray : EntryIx → HashEntry V
  strHash : Nat → UInt8
  usedSlot : Int

namespace HashTable

variable {V : Type u}

/-- The address of `str_hash[i]`. -/
def row (i : EntryIx) : Nat :=
  maxHashElem * i

/-- The entry holds a key. -/
def occupied (t : HashTable V) (i : EntryIx) : Bool :=
  (t.entryArray i).key.isSome

/-- The entry holds a key that `strncmp` takes for `key`. -/
def holds (t : HashTable V) (key : CString) (i : EntryIx) : Bool :=
  match (t.entryArray i).key with
  | none => false
  | some a => strncmp (fun k => t.strHash (a + k)) key.byte maxStr = 0

/-- `h1` as the loader leaves it. -/
def zeroed [Inhabited V] : HashTable V where
  entryArray _ := { key := none, value := default }
  strHash _ := 0
  usedSlot := 0

/-- `NewHashTable` -/
def newHashTable (h1 : HashTable V) : HashTable V :=
  { h1 with
    entryArray := fun i => { h1.entryArray i with key := none }
    usedSlot := 0 }

/-- Fill entry `i`, which the second loop of `HashTableInsert` has found free. -/
def storeAt (handle : HashTable V) (key : CString) (value : V) (i : EntryIx) : HashTable V where
  entryArray := Function.update handle.entryArray i { key := some (row i), value := value }
  strHash := strncpy handle.strHash (row i) key maxStr
  usedSlot := handle.usedSlot + 1

/-- `HashTableInsert`. There is no status when the second loop runs off its end. -/
def hashTableInsert (handle : HashTable V) (key : CString) (value : V) :
    HashTable V × Option HashStatus :=
  if handle.usedSlot = maxHashElem then
    (handle, some .noMem)
  else if (firstFit (handle.holds key)).isSome then
    (handle, some .elemRepeated)
  else
    match firstFit fun i => !handle.occupied i with
    | none => (handle, none)
    | some i => (handle.storeAt key value i, some .noErr)

/-- Free entry `i`. -/
def clearAt (handle : HashTable V) (i : EntryIx) : HashTable V :=
  { handle with
    entryArray := Function.update handle.entryArray i { handle.entryArray i with key := none }
    usedSlot := handle.usedSlot - 1 }

/-- One round of the loop of `HashTableRemove`. -/
def removeAt (key : CString) (acc : HashTable V × Option V) (i : EntryIx) :
    HashTable V × Option V :=
  if acc.1.holds key i then (acc.1.clearAt i, some (acc.1.entryArray i).value) else acc

/-- `HashTableRemove`: the table, the content of `*target`, and the status, which
is the same in all cases. -/
def hashTableRemove (handle : HashTable V) (key : CString) :
    HashTable V × Option V × HashStatus :=
  let result := sweep (removeAt key) (handle, none)
  (result.1, result.2, .noElem)

/-- `HashTableFind`: the content of `*target` if the search succeeds. -/
def hashTableFind (handle : HashTable V) (key : CString) : Option V :=
  (firstFit (handle.holds key)).map fun i => (handle.entryArray i).value

/-! ## What the operations do to single entries -/

variable {t : HashTable V} {key : CString} {i : EntryIx} {v : V}

theorem occupied_of_holds (holds : t.holds key i = true) : t.occupied i = true := by
  rw [HashTable.holds] at holds
  rw [occupied]
  cases keyEq : (t.entryArray i).key with
  | none => simp [keyEq] at holds
  | some a => rfl

theorem hashTableFind_eq_none_iff :
    t.hashTableFind key = none ↔ ∀ i, t.holds key i = false := by
  rw [hashTableFind, Option.map_eq_none_iff, firstFit_eq_none_iff]

theorem exists_of_hashTableFind (found : t.hashTableFind key = some v) :
    ∃ i, t.holds key i = true ∧ (t.entryArray i).value = v := by
  obtain ⟨i, first, value⟩ := Option.map_eq_some_iff.mp found
  exact ⟨i, (firstFit_eq_some_iff.mp first).1, value⟩

/-- `HashTableInsert` would fill entry `i`. -/
structure Stores (t : HashTable V) (key : CString) (i : EntryIx) : Prop where
  room : t.usedSlot ≠ maxHashElem
  absent : ∀ j, t.holds key j = false
  first : firstFit (fun j => !t.occupied j) = some i

instance (t : HashTable V) (key : CString) (i : EntryIx) : Decidable (t.Stores key i) :=
  decidable_of_iff (t.usedSlot ≠ maxHashElem ∧ (∀ j, t.holds key j = false) ∧
      firstFit (fun j => !t.occupied j) = some i)
    ⟨fun ⟨room, absent, first⟩ => ⟨room, absent, first⟩,
      fun stores => ⟨stores.room, stores.absent, stores.first⟩⟩

theorem Stores.free (stores : t.Stores key i) : t.occupied i = false := by
  simpa using (firstFit_eq_some_iff.mp stores.first).1

theorem Stores.insert (stores : t.Stores key i) (v : V) :
    t.hashTableInsert key v = (t.storeAt key v i, some .noErr) := by
  have search : firstFit (t.holds key) = none := firstFit_eq_none_iff.mpr stores.absent
  rw [hashTableInsert, if_neg stores.room, search, stores.first]
  simp

/-- An insert fills the first free entry, or changes nothing and does not report
success. -/
theorem hashTableInsert_cases (t : HashTable V) (key : CString) :
    (∃ i, t.Stores key i) ∨ ∀ v, (t.hashTableInsert key v).1 = t ∧
      (t.hashTableInsert key v).2 ≠ some .noErr := by
  simp only [hashTableInsert]
  by_cases full : t.usedSlot = maxHashElem
  · simp [full]
  · simp only [if_neg full]
    cases search : firstFit (t.holds key) with
    | some j => simp
    | none =>
        cases first : firstFit fun j => !t.occupied j with
        | none => simp
        | some i => exact Or.inl ⟨i, full, firstFit_eq_none_iff.mp search, first⟩

@[simp]
theorem storeAt_entry_self : (t.storeAt key v i).entryArray i = ⟨some (row i), v⟩ := by
  simp [storeAt]

theorem storeAt_entry_of_ne {j : EntryIx} (other : j ≠ i) :
    (t.storeAt key v i).entryArray j = t.entryArray j := by
  simp [storeAt, other]

theorem holds_congr {u : HashTable V} {j : EntryIx} (bytes : u.strHash = t.strHash)
    (entry : (u.entryArray j).key = (t.entryArray j).key) : u.holds key j = t.holds key j := by
  rw [HashTable.holds, HashTable.holds, bytes, entry]

/-- The rounds of the loop of `HashTableRemove` do not disturb one another. -/
theorem sweep_removeAt (t : HashTable V) (key : CString) :
    (sweep (removeAt key) (t, none)).1.strHash = t.strHash ∧
      ∀ j, (sweep (removeAt key) (t, none)).1.entryArray j =
        if t.holds key j = true then { t.entryArray j with key := none } else t.entryArray j := by
  have progress := sweep_progress (removeAt key) (t, none)
    (I := fun (done : List EntryIx) (acc : HashTable V × Option V) =>
      acc.1.strHash = t.strHash ∧ ∀ j, acc.1.entryArray j =
        if j ∈ done ∧ t.holds key j = true then { t.entryArray j with key := none }
        else t.entryArray j)
    (by simp) ?_
  · simpa using progress
  · intro done acc i fresh inv
    obtain ⟨bytes, entries⟩ := inv
    have entry : acc.1.entryArray i = t.entryArray i := by simp [entries, fresh]
    have holds : acc.1.holds key i = t.holds key i := holds_congr bytes (by rw [entry])
    rw [removeAt, holds]
    by_cases hit : t.holds key i = true
    · rw [if_pos hit]
      refine ⟨bytes, fun j => ?_⟩
      by_cases head : j = i
      · subst head
        simp [clearAt, hit, entry]
      · simp [clearAt, head, entries]
    · rw [if_neg hit]
      refine ⟨bytes, fun j => (entries j).trans ?_⟩
      by_cases head : j = i
      · subst head
        simp [hit]
      · simp [head]

theorem hashTableRemove_strHash : (t.hashTableRemove key).1.strHash = t.strHash :=
  (sweep_removeAt t key).1

/-- Exactly the entries that hold the key are freed. -/
theorem hashTableRemove_entry (j : EntryIx) :
    (t.hashTableRemove key).1.entryArray j =
      if t.holds key j = true then { t.entryArray j with key := none } else t.entryArray j :=
  (sweep_removeAt t key).2 j

end HashTable

end MinixSemaphore.Names
