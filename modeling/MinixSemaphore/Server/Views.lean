import MinixSemaphore.Server.Ownership

/-!
# What the slots show

The view of a live slot is its count, its members and waiters as sequences, and
whether it is unlinked. As long as the lists are owned, the steps that operations
are made of change the view of one slot only.
-/

namespace MinixSemaphore.Server

open MinixSemaphore.Lists
open MinixSemaphore.Names
open MinixSemaphore.Store
open MinixSemaphore.Semaphore

/-- Change what one slot shows. -/
def modifyView (V : SlotIx → Option (View Int)) (i : SlotIx) (g : View Int → View Int) :
    SlotIx → Option (View Int) :=
  Function.update V i ((V i).map g)

theorem modifyView_modifyView (V : SlotIx → Option (View Int)) (i : SlotIx)
    (g h : View Int → View Int) :
    modifyView (modifyView V i g) i h = modifyView V i fun v => h (g v) := by
  simp [modifyView, Function.comp_def]

namespace Fs

open SemTable

variable {σ : SeqFs} {i : SlotIx}

/-- What a slot shows while it is live. -/
def shown (σ : SeqFs) (i : SlotIx) : View Int where
  count := (σ.semArray i).semCount
  members := σ.members i
  waiters := σ.waiters i
  unlinked := (σ.semArray i).unlinked

/-- What the live slots show. -/
def view (σ : SeqFs) (i : SlotIx) : Option (View Int) :=
  if 0 < (σ.semArray i).refCount then some (σ.shown i) else none

theorem view_of_live (live : 0 < (σ.semArray i).refCount) : σ.view i = some (σ.shown i) :=
  if_pos live

/-- A modification only matters at what is shown. -/
theorem modifyView_congr {g h : View Int → View Int} (live : 0 < (σ.semArray i).refCount)
    (same : g (σ.shown i) = h (σ.shown i)) :
    modifyView σ.view i g = modifyView σ.view i h := by
  rw [modifyView, modifyView, view_of_live live, Option.map_some, Option.map_some, same]

/-- Two states that differ at one slot only. -/
theorem view_eq_update {σ' : SeqFs} {seen : Option (View Int)} (here : σ'.view i = seen)
    (slots : ∀ j, j ≠ i → (σ'.semArray j).refCount = (σ.semArray j).refCount ∧
      (σ'.semArray j).semCount = (σ.semArray j).semCount ∧
      (σ'.semArray j).unlinked = (σ.semArray j).unlinked)
    (lists : ∀ j, j ≠ i → σ'.members j = σ.members j ∧ σ'.waiters j = σ.waiters j) :
    σ'.view = Function.update σ.view i seen := by
  funext j
  by_cases same : j = i
  · rw [same, Function.update_self, here]
  · obtain ⟨refs, count, unlinked⟩ := slots j same
    obtain ⟨members, waiters⟩ := lists j same
    rw [Function.update_of_ne same, view, view, shown, shown, refs, count, unlinked, members,
      waiters]

/-- Writing fields other than the lists does not change the lists. -/
theorem lists_modSem (i : SlotIx) (f : SemCdt → SemCdt)
    (proc : ∀ s, (f s).procList = s.procList) (blocked : ∀ s, (f s).blockedList = s.blockedList)
    (j : SlotIx) : (σ.modSem i f).members j = σ.members j ∧
      (σ.modSem i f).waiters j = σ.waiters j := by
  by_cases same : j = i <;>
    simp [SemTable.members, SemTable.waiters, modSem, same, proc, blocked]

theorem view_modSem (i : SlotIx) (f : SemCdt → SemCdt) (g : View Int → View Int)
    (proc : ∀ s, (f s).procList = s.procList) (blocked : ∀ s, (f s).blockedList = s.blockedList)
    (refs : 0 < (f (σ.semArray i)).refCount ↔ 0 < (σ.semArray i).refCount)
    (shows : ∀ members waiters, g ⟨(σ.semArray i).semCount, members, waiters,
      (σ.semArray i).unlinked⟩ = ⟨(f (σ.semArray i)).semCount, members, waiters,
        (f (σ.semArray i)).unlinked⟩) :
    (σ.modSem i f).view = modifyView σ.view i g := by
  refine view_eq_update ?_ (fun j other => by simp [modSem, other])
    fun j _ => lists_modSem i f proc blocked j
  obtain ⟨members, waiters⟩ := lists_modSem (σ := σ) i f proc blocked i
  rw [view, view, shown, shown, members, waiters]
  by_cases live : 0 < (σ.semArray i).refCount
  · have live' := refs.mpr live
    simp [modSem, live, live', shows]
  · have dead : (f (σ.semArray i)).refCount ≤ 0 := not_lt.mp fun live' => live (refs.mp live')
    simp [modSem, live, dead]

theorem view_addCount (i : SlotIx) (amount : Int) : (σ.addCount i amount).view =
    modifyView σ.view i fun v => { v with count := v.count + amount } :=
  view_modSem i (fun s => { s with semCount := s.semCount + amount }) _ (fun _ => rfl)
    (fun _ => rfl) Iff.rfl fun _ _ => rfl

theorem view_mark (i : SlotIx) : (σ.modSem i fun s => { s with unlinked := true }).view =
    modifyView σ.view i fun v => { v with unlinked := true } :=
  view_modSem i (fun s => { s with unlinked := true }) _ (fun _ => rfl)
    (fun _ => rfl) Iff.rfl fun _ _ => rfl

/-- One reference more of a live slot does not show. -/
theorem view_grow (live : 0 < (σ.semArray i).refCount) :
    (σ.modSem i fun s => { s with refCount := s.refCount + 1 }).view = σ.view := by
  have same : (σ.modSem i fun s => { s with refCount := s.refCount + 1 }).view =
      modifyView σ.view i id :=
    view_modSem i (fun s => { s with refCount := s.refCount + 1 }) id (fun _ => rfl)
      (fun _ => rfl) (iff_of_true (live.trans (Int.lt_succ _)) live) fun _ _ => rfl
  rw [same, modifyView, Option.map_id, id, Function.update_eq_self]

/-- Rewriting the list of processes of a live slot. -/
theorem view_proc_rewritten (σ' : SeqFs) {xs : List Int} (owned : σ.Owned)
    (live : 0 < (σ.semArray i).refCount) (slots : σ'.semArray = σ.semArray)
    (rewritten : SeqStore.Rewritten σ.pools σ'.pools (σ.semArray i).procList xs) :
    σ'.view = modifyView σ.view i fun v => { v with members := xs } := by
  refine view_eq_update ?_ (fun j _ => by simp [slots]) fun j other => ?_
  · rw [view, view, shown, SemTable.members, SemTable.waiters, slots, if_pos live, if_pos live,
      rewritten.self, rewritten.others _ (owned.blockedList_ne_procList live i)]
    rfl
  · rw [SemTable.members, SemTable.waiters, slots,
      rewritten.others _ (owned.procList_ne live other),
      rewritten.others _ (owned.blockedList_ne_procList live j)]
    exact ⟨rfl, rfl⟩

/-- Rewriting the list of blocked processes of a live slot. -/
theorem view_blocked_rewritten (σ' : SeqFs) {xs : List Int} (owned : σ.Owned)
    (live : 0 < (σ.semArray i).refCount) (slots : σ'.semArray = σ.semArray)
    (rewritten : SeqStore.Rewritten σ.pools σ'.pools (σ.semArray i).blockedList xs) :
    σ'.view = modifyView σ.view i fun v => { v with waiters := xs } := by
  refine view_eq_update ?_ (fun j _ => by simp [slots]) fun j other => ?_
  · rw [view, view, shown, SemTable.members, SemTable.waiters, slots, if_pos live, if_pos live,
      rewritten.self, rewritten.others _ (owned.procList_ne_blockedList live i)]
    rfl
  · rw [SemTable.members, SemTable.waiters, slots,
      rewritten.others _ (owned.procList_ne_blockedList live j),
      rewritten.others _ (owned.blockedList_ne live other)]
    exact ⟨rfl, rfl⟩

theorem view_insert_proc (owned : σ.Owned) (live : 0 < (σ.semArray i).refCount) (p : Int)
    (notFull : (σ.insert (σ.semArray i).procList p).full = false) :
    (σ.insert (σ.semArray i).procList p).view =
      modifyView σ.view i fun v => { v with members := p :: v.members } := by
  obtain ⟨xs, rewritten, stored⟩ := exists_insert_rewritten owned live (Or.inl rfl) p
  obtain rfl := stored notFull
  rw [view_proc_rewritten (σ.insert (σ.semArray i).procList p) owned live rfl rewritten]
  exact modifyView_congr live rfl

theorem view_insert_blocked (owned : σ.Owned) (live : 0 < (σ.semArray i).refCount) (p : Int)
    (notFull : (σ.insert (σ.semArray i).blockedList p).full = false) :
    (σ.insert (σ.semArray i).blockedList p).view =
      modifyView σ.view i fun v => { v with waiters := p :: v.waiters } := by
  obtain ⟨xs, rewritten, stored⟩ := exists_insert_rewritten owned live (Or.inr rfl) p
  obtain rfl := stored notFull
  rw [view_blocked_rewritten (σ.insert (σ.semArray i).blockedList p) owned live rfl
    rewritten]
  exact modifyView_congr live rfl

theorem view_delete (owned : σ.Owned) (live : 0 < (σ.semArray i).refCount) (p : Int) :
    (σ.delete (σ.semArray i).procList p).view =
      modifyView σ.view i fun v => { v with members := v.members.erase p } := by
  rw [view_proc_rewritten (σ.delete (σ.semArray i).procList p) owned live rfl
    (delete_rewritten owned live p)]
  exact modifyView_congr live rfl

theorem view_takeFirst (owned : σ.Owned) (live : 0 < (σ.semArray i).refCount) (proc : Int) :
    (σ.takeFirst (σ.semArray i).blockedList proc).1.view =
      modifyView σ.view i fun v => { v with waiters := v.waiters.tail } := by
  rw [view_blocked_rewritten (σ.takeFirst (σ.semArray i).blockedList proc).1 owned live
    rfl (takeFirst_rewritten owned live proc)]
  exact modifyView_congr live rfl

/-- A released slot shows nothing. -/
theorem view_release (owned : σ.Owned) (live : 0 < (σ.semArray i).refCount) :
    (σ.release i).view = Function.update σ.view i none := by
  obtain ⟨-, content⟩ := release_pools (owned.procList_eq live) (owned.blockedList_eq live)
  have kept : ∀ list, list ≠ (σ.semArray i).procList → list ≠ (σ.semArray i).blockedList →
      (σ.release i).pools.seq list = σ.pools.seq list := by
    rintro (_ | l) proc blocked
    · rfl
    · rw [owned.procList_eq live, ne_eq, Option.some.injEq] at proc
      rw [owned.blockedList_eq live, ne_eq, Option.some.injEq] at blocked
      rw [SeqStore.seq_some, content]
      simp [proc, blocked]
  refine view_eq_update ?_ (fun j other => ?_) fun j other => ?_
  · rw [view, release_semArray]
    simp
  · rw [release_semArray]
    simp [other]
  · have slot : (σ.release i).semArray j = σ.semArray j := by
      rw [release_semArray, Function.update_of_ne other]
    rw [SemTable.members, SemTable.waiters, slot,
      kept _ (owned.procList_ne live other) (owned.procList_ne_blockedList live j),
      kept _ (owned.blockedList_ne_procList live j) (owned.blockedList_ne live other)]
    exact ⟨rfl, rfl⟩

/-- A new slot shows a new semaphore. -/
theorem view_made {f : SemCdt → SemCdt} (owned : σ.Owned) (refs : ∀ s, (f s).refCount = 1)
    (made : Made (σ.modSem i f) ((σ.modSem i f).makeLists i) i (pairOf i))
    (notFull : ((σ.modSem i f).makeLists i).full = false) :
    ((σ.modSem i f).makeLists i).view = Function.update σ.view i
      (some ⟨(f (σ.semArray i)).semCount, [σ.who], [], (f (σ.semArray i)).unlinked⟩) := by
  have slots : ∀ j, j ≠ i → ((σ.modSem i f).makeLists i).semArray j = σ.semArray j := by
    intro j other
    rw [made.semArray, Function.update_of_ne other]
    simp [modSem, other]
  refine view_eq_update ?_ (fun j other => by simp [slots j other]) fun j other => ?_
  · rw [view, shown, SemTable.members, SemTable.waiters, made.semArray, Function.update_self]
    simp only [SeqStore.seq_some]
    rw [made.members notFull, made.waiters]
    simp [modSem, refs]
  · rw [SemTable.members, SemTable.waiters, slots j other, SemTable.members, SemTable.waiters]
    constructor
    · rcases owned.procList_cases j with list | list <;> rw [list]
      · rfl
      · rw [SeqStore.seq_some, made.others _ (by simp [procCell_inj, pairOf_inj, other])
          (by simp)]
        rfl
    · rcases owned.blockedList_cases j with list | list <;> rw [list]
      · rfl
      · rw [SeqStore.seq_some, made.others _ (by simp)
          (by simp [blockedCell_inj, pairOf_inj, other])]
        rfl

end Fs

end MinixSemaphore.Server
