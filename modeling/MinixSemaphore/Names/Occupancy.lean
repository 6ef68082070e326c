import MinixSemaphore.Names.Core

/-!
# The entries in use

The table counts its entries in `used_slot`, apart from the entries themselves. A
remove goes through all of them and may clear several, for keys that were different
when they were stored may have become equal. The counter agrees with the entries
all the same, so that an insert that is not refused finds a free entry.
-/

namespace MinixSemaphore.Names

open MinixSemaphore.Store

universe u

/-- A call that changes the table, with a key of any length. -/
inductive TableCall (V : Type u)
  | insert (key : CString) (value : V)
  | remove (key : CString)

namespace HashTable

variable {V : Type u} {t : HashTable V} {key : CString} {i : EntryIx} {v : V}

/-- Carry out one call. -/
def perform (t : HashTable V) : TableCall V → HashTable V
  | .insert key value => (t.hashTableInsert key value).1
  | .remove key => (t.hashTableRemove key).1

/-- The number of entries that hold a key. -/
def occupancy (t : HashTable V) : Nat :=
  (Finset.univ.filter fun i => t.occupied i = true).card

/-- `used_slot` counts the entries that hold a key. -/
def Counted (t : HashTable V) : Prop :=
  t.usedSlot = t.occupancy

theorem occupancy_le (t : HashTable V) : t.occupancy ≤ maxHashElem := by
  have bound := Finset.card_filter_le Finset.univ fun i => t.occupied i = true
  rwa [Finset.card_univ, Fintype.card_fin] at bound

theorem occupancy_eq_iff : t.occupancy = maxHashElem ↔ ∀ i, t.occupied i = true := by
  have all := Finset.card_filter_eq_iff (s := Finset.univ) (p := fun i => t.occupied i = true)
  rw [Finset.card_univ, Fintype.card_fin] at all
  rw [occupancy, all]
  simp

theorem occupied_storeAt (t : HashTable V) (key : CString) (v : V) (i j : EntryIx) :
    (t.storeAt key v i).occupied j = (decide (j = i) || t.occupied j) := by
  by_cases same : j = i <;> simp [occupied, storeAt, same]

theorem occupied_clearAt (t : HashTable V) (i j : EntryIx) :
    (t.clearAt i).occupied j = (!decide (j = i) && t.occupied j) := by
  by_cases same : j = i <;> simp [occupied, clearAt, same]

theorem occupancy_storeAt (free : t.occupied i = false) :
    (t.storeAt key v i).occupancy = t.occupancy + 1 := by
  have entries : (Finset.univ.filter fun j => (t.storeAt key v i).occupied j = true) =
      insert i (Finset.univ.filter fun j => t.occupied j = true) := by
    ext j
    simp [occupied_storeAt]
  rw [occupancy, entries, Finset.card_insert_of_notMem (by simp [free])]
  rfl

theorem occupancy_clearAt (busy : t.occupied i = true) :
    (t.clearAt i).occupancy + 1 = t.occupancy := by
  have entries : (Finset.univ.filter fun j => (t.clearAt i).occupied j = true) =
      (Finset.univ.filter fun j => t.occupied j = true).erase i := by
    ext j
    simp [occupied_clearAt]
  rw [occupancy, entries, Finset.card_erase_add_one (by simp [busy])]
  rfl

/-! ## Every call keeps the count -/

theorem newHashTable_counted (h1 : HashTable V) : (newHashTable h1).Counted := by
  simp [Counted, newHashTable, occupancy, occupied]

theorem Counted.storeAt (counted : t.Counted) (free : t.occupied i = false) :
    (t.storeAt key v i).Counted := by
  rw [Counted, occupancy_storeAt free]
  change t.usedSlot + 1 = _
  rw [counted]
  rfl

theorem Counted.clearAt (counted : t.Counted) (busy : t.occupied i = true) :
    (t.clearAt i).Counted := by
  have fewer := occupancy_clearAt busy
  rw [Counted] at counted ⊢
  change t.usedSlot - 1 = _
  rw [counted, ← fewer]
  simp

/-- A round of the loop clears an entry only if it is in use, so several rounds that
clear one count right. -/
theorem Counted.removeAt {acc : HashTable V × Option V} (counted : acc.1.Counted)
    (key : CString) (i : EntryIx) : (removeAt key acc i).1.Counted := by
  rw [HashTable.removeAt]
  by_cases hit : acc.1.holds key i = true
  · rw [if_pos hit]
    exact counted.clearAt (occupied_of_holds hit)
  · rw [if_neg hit]
    exact counted

theorem Counted.hashTableRemove (counted : t.Counted) (key : CString) :
    (t.hashTableRemove key).1.Counted := by
  rw [HashTable.hashTableRemove]
  apply sweep_invariant (I := fun acc : HashTable V × Option V => acc.1.Counted) counted
  intro acc i counted
  exact counted.removeAt key i

theorem Counted.hashTableInsert (counted : t.Counted) (key : CString) (v : V) :
    (t.hashTableInsert key v).1.Counted := by
  rcases hashTableInsert_cases t key with ⟨i, stores⟩ | fails
  · rw [stores.insert]
    exact counted.storeAt stores.free
  · rwa [(fails v).1]

theorem Counted.perform (counted : t.Counted) (call : TableCall V) :
    (t.perform call).Counted := by
  cases call with
  | insert key v => exact counted.hashTableInsert key v
  | remove key => exact counted.hashTableRemove key

theorem counted_of_calls (h1 : HashTable V) (calls : List (TableCall V)) :
    (calls.foldl perform (newHashTable h1)).Counted := by
  induction calls using List.reverseRecOn with
  | nil => exact newHashTable_counted h1
  | append_singleton calls call ih =>
      rw [List.foldl_append]
      exact ih.perform call

/-! ## What an insert finds -/

theorem Counted.full_iff (counted : t.Counted) :
    t.usedSlot = maxHashElem ↔ ∀ i, t.occupied i = true := by
  rw [counted, ← occupancy_eq_iff]
  exact Int.ofNat_inj

/-- The second loop of an insert that is not refused finds a free entry. -/
theorem Counted.exists_free (counted : t.Counted) (room : t.usedSlot ≠ maxHashElem) :
    ∃ i, firstFit (fun i => !t.occupied i) = some i := by
  rw [Ne, counted.full_iff, not_forall] at room
  rcases room with ⟨i, free⟩
  apply Option.isSome_iff_exists.mp
  apply firstFit_isSome_of (i := i)
  simpa using free

theorem Counted.noMem_iff (counted : t.Counted) (key : CString) (v : V) :
    (t.hashTableInsert key v).2 = some .noMem ↔ ∀ i, t.occupied i = true := by
  rw [← counted.full_iff, HashTable.hashTableInsert]
  by_cases full : t.usedSlot = maxHashElem
  · simp [full]
  · rcases counted.exists_free full with ⟨i, first⟩
    rw [if_neg full, first]
    refine iff_of_false ?_ full
    split <;> simp

theorem Counted.status_ne_none (counted : t.Counted) (key : CString) (v : V) :
    (t.hashTableInsert key v).2 ≠ none := by
  rw [HashTable.hashTableInsert]
  by_cases full : t.usedSlot = maxHashElem
  · simp [full]
  · rcases counted.exists_free full with ⟨i, first⟩
    rw [if_neg full, first]
    split <;> simp

/-- After any calls the counter is the number of entries whose key is not `NULL`. An
insert is refused with `HASH_NO_MEM` exactly when there is no other entry, its second
loop finds one whenever it is reached, and so it always has a result. -/
theorem usedSlot_eq_occupancy (h1 : HashTable V) (calls : List (TableCall V)) :
    let t := calls.foldl perform (newHashTable h1)
    t.usedSlot = (Finset.univ.filter fun i => (t.entryArray i).key ≠ none).card ∧
      0 ≤ t.usedSlot ∧ t.usedSlot ≤ maxHashElem ∧
      ∀ key v,
        ((t.hashTableInsert key v).2 = some .noMem ↔ ¬∃ i, (t.entryArray i).key = none) ∧
          (t.usedSlot ≠ maxHashElem → ∃ i, firstFit (fun i => !t.occupied i) = some i) ∧
          (t.hashTableInsert key v).2 ≠ none := by
  intro t
  have counted : t.Counted := counted_of_calls h1 calls
  have keys : ∀ i, t.occupied i = true ↔ (t.entryArray i).key ≠ none := by
    intro i
    rw [occupied, Option.isSome_iff_ne_none]
  have bound := t.occupancy_le
  refine ⟨?_, ?_, ?_, fun key v => ⟨?_, counted.exists_free, counted.status_ne_none key v⟩⟩
  · rw [counted, occupancy]
    simp only [keys]
  · rw [counted]
    exact Int.natCast_nonneg _
  · rw [counted]
    exact Int.ofNat_le.mpr bound
  · rw [counted.noMem_iff, not_exists]
    simp only [keys]

end HashTable

end MinixSemaphore.Names
