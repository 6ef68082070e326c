import MinixSemaphore.Server.Views

/-!
# The server refines the table of semaphores

What a request does to the semaphores is recorded as a list of actions. The server
carries out these actions: each is enabled where it is done, and after all of them
the abstract table shows what the slots of the server show. A request whose list
insertions fail keeps the ownership of lists and names, but nothing else.
-/

namespace MinixSemaphore.Server

open MinixSemaphore.Lists
open MinixSemaphore.Names
open MinixSemaphore.Store
open MinixSemaphore.Semaphore
open MinixSemaphore.Transition

/-- A table of abstract semaphores. -/
abbrev SlotTable := Table SlotIx Int

namespace Fs

open SemTable

variable {σ σ' : SeqFs} {log : List Act} {i : SlotIx}

/-- The abstract table shows what the server shows. -/
def Shows (σ : SeqFs) (T : SlotTable) : Prop :=
  ∀ i, (T i).map Sem.toView = σ.view i

/-- The lists are owned, and the names are rooted in the history, to which the
current request has added its part. -/
structure Sound (log : List Act) (σ : SeqFs) : Prop where
  owned : σ.Owned
  rooted : σ.Rooted (log ++ σ.acts)

/-- From `σ` to `σ'` the server has carried out the actions it has recorded, unless
a list insertion has failed. -/
structure Serves (log : List Act) (σ σ' : SeqFs) : Prop where
  sound : Sound log σ'
  full : σ.full = true → σ'.full = true
  did : ∃ acts, σ'.acts = σ.acts ++ acts ∧
    (σ'.full = false → ∀ T, σ.Shows T →
      ∃ T', Run Table.step Table.Enabled T acts T' ∧ σ'.Shows T')

namespace Serves

theorem refl (sound : Sound log σ) : Serves log σ σ :=
  ⟨sound, id, [], by simp, fun _ T shows => ⟨T, Run.nil, shows⟩⟩

theorem trans {σ'' : SeqFs} (first : Serves log σ σ') (second : Serves log σ' σ'') :
    Serves log σ σ'' := by
  obtain ⟨acts, recorded, run⟩ := first.did
  obtain ⟨acts', recorded', run'⟩ := second.did
  refine ⟨second.sound, fun full => second.full (first.full full), acts ++ acts', ?_,
    fun notFull T shows => ?_⟩
  · rw [recorded', recorded, List.append_assoc]
  · have notFull' : σ'.full = false := by
      by_contra full
      rw [second.full (by simpa using full)] at notFull
      contradiction
    obtain ⟨T', steps, shows'⟩ := run notFull' T shows
    obtain ⟨T'', steps', shows''⟩ := run' notFull T' shows'
    exact ⟨T'', steps.trans steps', shows''⟩

end Serves

/-- The other variables of the file system are no part of what `Serves` is about. -/
theorem Serves.globals {σ'' : SeqFs} (serves : Serves log σ σ')
    (table : σ''.toSemTable = σ'.toSemTable) (full : σ''.full = σ'.full)
    (acts : σ''.acts = σ'.acts) : Serves log σ σ'' := by
  cases σ'
  cases σ''
  simp only at table full acts
  subst table full acts
  exact ⟨⟨serves.sound.owned, serves.sound.rooted⟩, serves.full, serves.did⟩

/-- The error number is no part of what `Serves` is about. -/
theorem Serves.of_setErrno {errno : Int} (serves : Serves log (σ.setErrno errno) σ') :
    Serves log σ σ' :=
  ⟨serves.sound, serves.full, serves.did⟩

/-- Nothing has happened to the semaphores. -/
structure Idle (σ σ' : SeqFs) : Prop where
  owned : σ'.Owned
  view : σ'.view = σ.view
  map : σ'.semNameMap = σ.semNameMap
  procList : ∀ j, (σ'.semArray j).procList = (σ.semArray j).procList
  acts : σ'.acts = σ.acts
  full : σ'.full = σ.full

theorem Idle.serves (idle : Idle σ σ') (sound : Sound log σ) : Serves log σ σ' := by
  refine ⟨⟨idle.owned, ⟨fun e => ?_, fun a => ?_⟩⟩, fun full => idle.full.trans full, [], ?_,
    fun _ T shows => ⟨T, Run.nil, fun i => (shows i).trans (congrFun idle.view i).symm⟩⟩
  · rw [idle.map, idle.acts]
    exact sound.rooted.origin e
  · rw [idle.acts, idle.procList]
    exact sound.rooted.pointed a
  · rw [idle.acts, List.append_nil]

theorem idle_setErrno (owned : σ.Owned) (errno : Int) : Idle σ (σ.setErrno errno) :=
  ⟨owned, rfl, rfl, fun _ => rfl, rfl, rfl⟩

theorem origin_eq_none {deed : Deed Int (Option EntryIx)} (notCreation : deed.creates = false) :
    deed.origin = none := by
  cases deed with
  | created p value origin => contradiction
  | _ => rfl

/-- A single deed that creates nothing. -/
theorem serves_of_deed (deed : Deed Int (Option EntryIx)) (seen : Option (View Int))
    (sound : Sound log σ) (owned : σ'.Owned) (notCreation : deed.creates = false)
    (map : ∀ e, σ'.semNameMap.occupied e = true → σ.semNameMap.occupied e = true ∧
      (σ'.semNameMap.entryArray e).value = (σ.semNameMap.entryArray e).value)
    (procList : ∀ j, (σ'.semArray j).procList = (σ.semArray j).procList)
    (acts : σ'.acts = σ.acts ++ [⟨i, deed⟩]) (full : σ.full = true → σ'.full = true)
    (view : σ'.full = false → σ'.view = Function.update σ.view i seen)
    (steps : ∀ place : Option (Sem Int), place.map Sem.toView = σ.view i →
      Sem.Enabled place deed ∧ (Sem.step place deed).map Sem.toView = seen) :
    Serves log σ σ' := by
  refine ⟨⟨owned, ⟨fun e occupied => ?_, fun a mem creates => ?_⟩⟩, full, _, acts,
    fun notFull T shows => ?_⟩
  · obtain ⟨before, value⟩ := map e occupied
    rw [value, acts, ← List.append_assoc]
    refine (sound.rooted.origin e before).snoc (fun creates => ?_) ?_
    · rw [notCreation] at creates
      contradiction
    · rw [origin_eq_none notCreation]
      simp
  · rw [acts, ← List.append_assoc] at mem
    rw [procList]
    rcases List.mem_append.mp mem with mem | mem
    · exact sound.rooted.pointed a mem creates
    · rw [List.mem_singleton.mp mem, notCreation] at creates
      contradiction
  · obtain ⟨enabled, result⟩ := steps (T i) (shows i)
    have run : Run Table.step Table.Enabled T [⟨i, deed⟩] (Table.step T ⟨i, deed⟩) :=
      Run.snoc Run.nil enabled
    refine ⟨_, run, fun j => ?_⟩
    rw [view notFull, Table.step]
    by_cases same : j = i
    · rw [same, Function.update_self, Function.update_self, result]
    · rw [Function.update_of_ne same, Function.update_of_ne same]
      exact shows j

/-- A single deed done to a live slot that stays live. -/
theorem serves_of_use (deed : Deed Int (Option EntryIx)) (g : View Int → View Int)
    (sound : Sound log σ) (owned : σ'.Owned) (notCreation : deed.creates = false)
    (live : 0 < (σ.semArray i).refCount)
    (map : ∀ e, σ'.semNameMap.occupied e = true → σ.semNameMap.occupied e = true ∧
      (σ'.semNameMap.entryArray e).value = (σ.semNameMap.entryArray e).value)
    (procList : ∀ j, (σ'.semArray j).procList = (σ.semArray j).procList)
    (acts : σ'.acts = σ.acts ++ [⟨i, deed⟩]) (full : σ.full = true → σ'.full = true)
    (view : σ'.full = false → σ'.view = modifyView σ.view i g)
    (steps : ∀ s : Sem Int, s.toView = σ.shown i →
      s.Admits deed ∧ (Sem.step (some s) deed).map Sem.toView = some (g s.toView)) :
    Serves log σ σ' := by
  refine serves_of_deed deed _ sound owned notCreation map procList acts full view
    fun place shows => ?_
  rw [view_of_live live] at shows
  obtain ⟨s, rfl, shown⟩ := Option.map_eq_some_iff.mp shows
  obtain ⟨admits, result⟩ := steps s shown
  refine ⟨admits, result.trans ?_⟩
  rw [view_of_live live, shown]
  rfl

/-! ## Waiting and posting -/

theorem belongs_iff {p : Int} :
    σ.belongs (σ.semArray i).procList p = true ↔ p ∈ σ.members i := by
  change (SeqStore.listElementBelongs _ _ _).isSome = true ↔ _
  rw [SeqStore.listElementBelongs, SemTable.members]
  by_cases mem : p ∈ σ.pools.seq (σ.semArray i).procList <;> simp [mem]

theorem granted_iff {handle : Int} :
    σ.granted handle = some i ↔ slotAt handle = some i ∧ σ.who ∈ σ.members i := by
  rw [granted, Option.filter_eq_some_iff, belongs_iff]

theorem listIsEmpty_iff {list : ListADT} :
    ListLib.listIsEmpty σ.pools list = true ↔ σ.pools.seq list = [] :=
  List.isEmpty_iff

theorem owned_addCount (owned : σ.Owned) (i : SlotIx) (amount : Int) :
    (σ.addCount i amount).Owned :=
  owned_modSem owned i (fun s => { s with semCount := s.semCount + amount }) rfl rfl Iff.rfl
    (owned.counted i) (Or.inl rfl)

@[simp]
theorem addCount_procList (i : SlotIx) (amount : Int) (j : SlotIx) :
    ((σ.addCount i amount).semArray j).procList = (σ.semArray j).procList := by
  by_cases same : j = i <;> simp [addCount, modSem, same]

/-- A semaphore that shows what a slot shows. -/
theorem shown_fields {s : Sem Int} (shown : s.toView = σ.shown i) :
    s.count = (σ.semArray i).semCount ∧ s.members = σ.members i ∧ s.waiters = σ.waiters i ∧
      s.unlinked = (σ.semArray i).unlinked :=
  ⟨congrArg View.count shown, congrArg View.members shown, congrArg View.waiters shown,
    congrArg View.unlinked shown⟩

theorem wait_toView_of_blocked {s : Sem Int} (blocked : s.count ≤ 0) (p : Int) :
    (s.wait p).toView = { s.toView with count := s.count - 1, waiters := p :: s.waiters } := by
  rw [Sem.wait, dif_pos blocked]

theorem wait_toView_of_free {s : Sem Int} (free : 0 < s.count) (p : Int) :
    (s.wait p).toView = { s.toView with count := s.count - 1 } := by
  rw [Sem.wait, dif_neg (not_le.mpr free)]

theorem serves_semWait (sound : Sound log σ) (handle : Int) :
    Serves log σ (σ.semWait handle).1 := by
  have ends := σ.semWait_ends handle
  generalize σ.semWait handle = result at ends ⊢
  cases ends with
  | refused => exact (idle_setErrno sound.owned einval).serves sound
  | @queued i granted blocked =>
      have member : σ.who ∈ σ.members i := (granted_iff.mp granted).2
      have live := sound.owned.live_of_mem member
      have inserted := owned_insert (σ := (σ.setErrno 0).setDontReply true) sound.owned live
        (Or.inr rfl) σ.who
      refine serves_of_use (i := i) (.queued σ.who)
        (fun v => { v with count := v.count + -1, waiters := σ.who :: v.waiters })
        sound (owned_addCount inserted i (-1)) rfl live (fun e occupied => ⟨occupied, rfl⟩)
        (fun j => addCount_procList i (-1) j) rfl (fun full => ?_) (fun notFull => ?_)
        fun s shown => ?_
      · change (σ.full || _) = true
        rw [full, Bool.true_or]
      · exact (view_addCount i (-1)).trans ((congrArg (fun V => modifyView V i _)
          (view_insert_blocked (σ := (σ.setErrno 0).setDontReply true) sound.owned live σ.who
            notFull)).trans (modifyView_modifyView _ i _ _))
      · obtain ⟨count, members, -, -⟩ := shown_fields shown
        have blocked' : s.count ≤ 0 := count ▸ blocked
        refine ⟨⟨members ▸ member, blocked'⟩, ?_⟩
        rw [Sem.step, Option.map_some, Option.map_some, wait_toView_of_blocked blocked']
        rfl
  | @passed i granted free =>
      have member : σ.who ∈ σ.members i := (granted_iff.mp granted).2
      refine serves_of_use (i := i) (.passed σ.who)
        (fun v => { v with count := v.count + -1 })
        sound (owned_addCount sound.owned i (-1)) rfl (sound.owned.live_of_mem member)
        (fun e occupied => ⟨occupied, rfl⟩) (fun j => addCount_procList i (-1) j) rfl id
        (fun _ => view_addCount i (-1)) fun s shown => ?_
      obtain ⟨count, members, -, -⟩ := shown_fields shown
      have free' : 0 < s.count := count ▸ free
      refine ⟨⟨members ▸ member, free'⟩, ?_⟩
      rw [Sem.step, Option.map_some, Option.map_some, wait_toView_of_free free']
      rfl

theorem serves_semTrywait (sound : Sound log σ) (handle : Int) :
    Serves log σ (σ.semTrywait handle).1 := by
  have ends := σ.semTrywait_ends handle
  generalize σ.semTrywait handle = result at ends ⊢
  cases ends with
  | refused => exact (idle_setErrno sound.owned einval).serves sound
  | again => exact (idle_setErrno sound.owned eagain).serves sound
  | @tried i granted free =>
      have member : σ.who ∈ σ.members i := (granted_iff.mp granted).2
      refine serves_of_use (i := i) (.tried σ.who)
        (fun v => { v with count := v.count + -1 })
        sound (owned_addCount sound.owned i (-1)) rfl (sound.owned.live_of_mem member)
        (fun e occupied => ⟨occupied, rfl⟩) (fun j => addCount_procList i (-1) j) rfl id
        (fun _ => view_addCount i (-1)) fun s shown => ?_
      obtain ⟨count, members, -, -⟩ := shown_fields shown
      have free' : 0 < s.count := count ▸ free
      refine ⟨⟨members ▸ member, free'⟩, ?_⟩
      rw [Sem.step, Option.map_some, Option.map_some, wait_toView_of_free free']
      rfl

theorem post_toView_of_negative {s : Sem Int} (negative : s.count < 0) :
    s.post.toView = { s.toView with count := s.count + 1, waiters := s.waiters.tail } := by
  rw [Sem.post, dif_pos negative]

theorem post_toView_of_nonneg {s : Sem Int} (nonneg : ¬s.count < 0) :
    s.post.toView = { s.toView with count := s.count + 1 } := by
  rw [Sem.post, dif_neg nonneg]

/-- A post on a negative count reads a waiter, never the unset variable. -/
theorem takeFirst_eq_head {s : Sem Int} (shown : s.toView = σ.shown i) (negative : s.count < 0)
    (proc : Int) :
    some (σ.takeFirst (σ.semArray i).blockedList proc).2 = s.waiters.head? := by
  obtain ⟨-, -, waiters, -⟩ := shown_fields shown
  obtain ⟨p, rest, first⟩ := Sem.exists_waiter negative
  have head : (σ.pools.seq (σ.semArray i).blockedList).head? = some p := by
    rw [← SemTable.waiters, ← waiters, first]
    rfl
  rw [first]
  exact congrArg (fun x => some (Option.getD x proc)) head

theorem serves_semPost (sound : Sound log σ) (handle proc : Int) :
    Serves log σ (σ.semPost handle proc) := by
  have ends := σ.semPost_ends handle proc
  generalize σ.semPost handle proc = result at ends ⊢
  cases ends with
  | refused => exact (idle_setErrno sound.owned einval).serves sound
  | @woken i first granted negative took =>
      have member : σ.who ∈ σ.members i := (granted_iff.mp granted).2
      have live := sound.owned.live_of_mem member
      have taken := owned_rewritten sound.owned live (Or.inr rfl)
        (takeFirst_rewritten sound.owned live proc)
      obtain rfl := took
      refine serves_of_use (i := i)
        (.posted σ.who (some (σ.takeFirst (σ.semArray i).blockedList proc).2))
        (fun v => { v with count := v.count + 1, waiters := v.waiters.tail })
        sound (owned_addCount taken i 1) rfl live (fun e occupied => ⟨occupied, rfl⟩)
        (fun j => addCount_procList i 1 j) rfl id (fun _ => ?_) fun s shown => ?_
      · exact (view_addCount i 1).trans ((congrArg (fun V => modifyView V i _)
          (view_takeFirst sound.owned live proc)).trans (modifyView_modifyView _ i _ _))
      · obtain ⟨count, members, -, -⟩ := shown_fields shown
        have negative' : s.count < 0 := count ▸ negative
        refine ⟨⟨members ▸ member, ?_⟩, ?_⟩
        · rw [if_pos negative']
          exact takeFirst_eq_head shown negative' proc
        · rw [Sem.step, Option.map_some, Option.map_some, post_toView_of_negative negative']
  | @counted i granted nonneg =>
      have member : σ.who ∈ σ.members i := (granted_iff.mp granted).2
      refine serves_of_use (i := i) (.posted σ.who none)
        (fun v => { v with count := v.count + 1 })
        sound (owned_addCount sound.owned i 1) rfl (sound.owned.live_of_mem member)
        (fun e occupied => ⟨occupied, rfl⟩) (fun j => addCount_procList i 1 j) rfl id
        (fun _ => view_addCount i 1) fun s shown => ?_
      obtain ⟨count, members, -, -⟩ := shown_fields shown
      have nonneg' : ¬s.count < 0 := count ▸ not_lt.mpr nonneg
      refine ⟨⟨members ▸ member, (if_neg nonneg').symm⟩, ?_⟩
      rw [Sem.step, Option.map_some, Option.map_some, post_toView_of_nonneg nonneg']

theorem serves_semGetvalue (sound : Sound log σ) (handle : Int) :
    Serves log σ (σ.semGetvalue handle).1 := by
  have ends := σ.semGetvalue_ends handle
  generalize σ.semGetvalue handle = result at ends ⊢
  cases ends with
  | refused => exact (idle_setErrno sound.owned einval).serves sound
  | read => exact Serves.refl sound

/-! ## Leaving -/

theorem release_procList (i j : SlotIx) :
    ((σ.release i).semArray j).procList = (σ.semArray j).procList := by
  rw [release_semArray]
  by_cases same : j = i <;> simp [same]

/-- An unlinked slot has no name. -/
theorem nameless_of_unlinked (owned : σ.Owned) (unlinked : (σ.semArray i).unlinked = true) :
    σ.Nameless i := by
  intro e occupied same
  have linked := (owned.named e occupied).2
  rw [same, unlinked] at linked
  contradiction

theorem serves_semClose (sound : Sound log σ) (handle : Int) :
    Serves log σ (σ.semClose handle).1 := by
  have ends := σ.semClose_ends handle
  generalize σ.semClose handle = result at ends ⊢
  -- what is left of the list of a slot that the caller has open
  have rest : ∀ {i}, σ.who ∈ σ.members i →
      (ListLib.listIsEmpty (σ.delete (σ.semArray i).procList σ.who).pools
        (σ.semArray i).procList = true ↔ (σ.members i).erase σ.who = []) := by
    intro i member
    have members : (σ.delete (σ.semArray i).procList σ.who).members i =
        (σ.members i).erase σ.who :=
      (delete_rewritten sound.owned (sound.owned.live_of_mem member) σ.who).self
    rw [listIsEmpty_iff (σ := σ.delete (σ.semArray i).procList σ.who), ← members]
    rfl
  cases ends with
  | refused => exact (idle_setErrno sound.owned einval).serves sound
  | @last i granted unlinked empty =>
      have member : σ.who ∈ σ.members i := (granted_iff.mp granted).2
      have live := sound.owned.live_of_mem member
      have deleted := owned_rewritten sound.owned live (Or.inl rfl)
        (delete_rewritten sound.owned live σ.who)
      have released := owned_release (σ := σ.delete (σ.semArray i).procList σ.who) deleted live
        (nameless_of_unlinked deleted unlinked)
      refine serves_of_deed (i := i) (.closed σ.who) none sound released rfl
        (fun e occupied => ⟨occupied, rfl⟩) (fun j => release_procList i j) rfl id
        (fun _ => ?_) fun place shows => ?_
      · refine (view_release (σ := σ.delete (σ.semArray i).procList σ.who) deleted live).trans ?_
        rw [view_delete sound.owned live, modifyView, Function.update_idem]
      · rw [view_of_live live] at shows
        obtain ⟨s, rfl, shown⟩ := Option.map_eq_some_iff.mp shows
        obtain ⟨-, members', -, unlinked'⟩ := shown_fields shown
        have member' : σ.who ∈ s.members := members' ▸ member
        refine ⟨member', ?_⟩
        rw [Sem.step, Option.bind_some, Sem.leave, if_pos]
        · rfl
        · rw [unlinked', members']
          exact ⟨unlinked, (rest member).mp empty⟩
  | @left i granted notLast =>
      have member : σ.who ∈ σ.members i := (granted_iff.mp granted).2
      have live := sound.owned.live_of_mem member
      have deleted := owned_rewritten sound.owned live (Or.inl rfl)
        (delete_rewritten sound.owned live σ.who)
      refine serves_of_use (i := i) (.closed σ.who)
        (fun v => { v with members := v.members.erase σ.who }) sound deleted rfl live
        (fun e occupied => ⟨occupied, rfl⟩) (fun _ => rfl) rfl id
        (fun _ => view_delete sound.owned live σ.who) fun s shown => ?_
      obtain ⟨-, members', -, unlinked'⟩ := shown_fields shown
      have member' : σ.who ∈ s.members := members' ▸ member
      refine ⟨member', ?_⟩
      rw [Sem.step, Option.bind_some, Sem.leave, if_neg]
      · rfl
      · rw [unlinked', members']
        rintro ⟨unlinked, empty⟩
        exact Bool.eq_false_iff.mp (notLast unlinked) ((rest member).mpr empty)

/-- Destroying a slot is safe for the names as long as the slot has none. -/
theorem serves_semDestroy (sound : Sound log σ) (handle : Int)
    (nameless : ∀ i, σ.granted handle = some i → σ.waiters i = [] → σ.Nameless i) :
    Serves log σ (σ.semDestroy handle).1 := by
  have ends := σ.semDestroy_ends handle
  generalize σ.semDestroy handle = result at ends ⊢
  cases ends with
  | refused => exact (idle_setErrno sound.owned einval).serves sound
  | busy => exact (idle_setErrno sound.owned ebusy).serves sound
  | @destroyed i granted empty =>
      have member : σ.who ∈ σ.members i := (granted_iff.mp granted).2
      have live := sound.owned.live_of_mem member
      have waiters : σ.waiters i = [] := listIsEmpty_iff.mp empty
      refine serves_of_deed (i := i) (.destroyed σ.who) none sound
        (owned_release sound.owned live (nameless i granted waiters)) rfl
        (fun e occupied => ⟨occupied, rfl⟩) (fun j => release_procList i j) rfl id
        (fun _ => view_release sound.owned live) fun place shows => ?_
      rw [view_of_live live] at shows
      obtain ⟨s, rfl, shown⟩ := Option.map_eq_some_iff.mp shows
      obtain ⟨-, members', waiters', -⟩ := shown_fields shown
      exact ⟨⟨members' ▸ member, waiters'.trans waiters⟩, rfl⟩

/-- The entries that are left are as they were. -/
theorem kept_of_hashTableRemove (map : HashTable SlotIx) (name : CString) (e : EntryIx)
    (occupied : (map.hashTableRemove name).1.occupied e = true) :
    map.occupied e = true ∧
      (map.hashTableRemove name).1.entryArray e = map.entryArray e := by
  rw [HashTable.occupied, HashTable.hashTableRemove_entry] at occupied
  rw [HashTable.hashTableRemove_entry]
  by_cases holds : map.holds name e = true
  · rw [if_pos holds] at occupied
    contradiction
  · rw [if_neg holds] at occupied ⊢
    exact ⟨occupied, rfl⟩

theorem fewer_of_hashTableRemove (map : HashTable SlotIx) (name : CString) (e : EntryIx)
    (occupied : (map.hashTableRemove name).1.occupied e = true) :
    map.occupied e = true ∧
      ((map.hashTableRemove name).1.entryArray e).value = (map.entryArray e).value := by
  obtain ⟨before, entry⟩ := kept_of_hashTableRemove map name e occupied
  exact ⟨before, congrArg HashEntry.value entry⟩

/-- A name that is found denotes a live slot with a name. -/
theorem exists_entry_of_find (map : HashTable SlotIx) {name : CString}
    (found : map.hashTableFind name = some i) :
    ∃ e, map.occupied e = true ∧ map.holds name e = true ∧ (map.entryArray e).value = i := by
  obtain ⟨e, holds, value⟩ := HashTable.exists_of_hashTableFind found
  exact ⟨e, HashTable.occupied_of_holds holds, holds, value⟩

theorem serves_semUnlink (sound : Sound log σ) (name : CString) :
    Serves log σ (σ.semUnlink name).1 := by
  have ends := σ.semUnlink_ends name
  generalize σ.semUnlink name = result at ends ⊢
  cases ends with
  | tooLong => exact (idle_setErrno sound.owned enametoolong).serves sound
  | absent => exact (idle_setErrno sound.owned enoent).serves sound
  | stranger => exact (idle_setErrno sound.owned eacces).serves sound
  | unused => exact Serves.refl sound
  | @unlinked i _ found belongs =>
      obtain ⟨e₀, occupied₀, holds₀, value₀⟩ := exists_entry_of_find _ found
      have member : σ.who ∈ σ.members i := belongs_iff.mp belongs
      -- the entry that was found is gone, and no other denotes the slot
      have fewer := fewer_of_hashTableRemove σ.semNameMap name
      have nameless : (σ.setMap (σ.semNameMap.hashTableRemove name).1).Nameless i := by
        intro e occupied value
        obtain ⟨before, same⟩ := fewer e occupied
        obtain rfl := sound.owned.apart e e₀ before occupied₀
          ((same.symm.trans value).trans value₀.symm)
        have occupied' : (σ.semNameMap.hashTableRemove name).1.occupied e = true := occupied
        rw [HashTable.occupied, HashTable.hashTableRemove_entry, if_pos holds₀] at occupied'
        contradiction
      have linked : (σ.semArray i).unlinked = false := by
        rw [← value₀]
        exact (sound.owned.named e₀ occupied₀).2
      have owned := owned_modSem (owned_setMap sound.owned fewer) i
        (fun s => { s with unlinked := true }) rfl rfl Iff.rfl (sound.owned.counted i)
        (Or.inr nameless)
      refine serves_of_use (i := i) (.unlinked σ.who)
        (fun v => { v with unlinked := true }) sound owned rfl (sound.owned.live_of_mem member)
        fewer (fun j => ?_) rfl id (fun _ => view_mark i) fun s shown => ?_
      · by_cases same : j = i <;> simp [note, setMap, modSem, same]
      · obtain ⟨-, members', -, unlinked'⟩ := shown_fields shown
        exact ⟨⟨members' ▸ member, unlinked'.trans linked⟩, rfl⟩

/-! ## Joining -/

/-- One reference and one member more, for `sem_open` and for `sem_open_all`. -/
theorem serves_join (sound : Sound log σ) (live : 0 < (σ.semArray i).refCount) (p : Int)
    (deed : Int → Deed Int (Option EntryIx)) (notCreation : (deed σ.who).creates = false)
    (steps : ∀ s : Sem Int, s.toView = σ.shown i →
      s.Admits (deed σ.who) ∧ Sem.step (some s) (deed σ.who) = some (s.join p)) :
    Serves log σ (((σ.modSem i fun s => { s with refCount := s.refCount + 1 }).insert
      (σ.semArray i).procList p).note i deed) := by
  have grown := owned_modSem sound.owned i (fun s => { s with refCount := s.refCount + 1 })
    rfl rfl (iff_of_true (live.trans (Int.lt_succ _)) live) (live.trans (Int.lt_succ _)).le
    (Or.inl rfl)
  have live' : 0 < ((σ.modSem i fun s =>
      { s with refCount := s.refCount + 1 }).semArray i).refCount := by
    simpa [modSem] using live.trans (Int.lt_succ _)
  have list : ((σ.modSem i fun s => { s with refCount := s.refCount + 1 }).semArray i).procList =
      (σ.semArray i).procList := grow_procList i i
  have inserted := owned_insert grown live' (Or.inl rfl) p
  have shows := view_insert_proc grown live' p
  rw [list] at inserted shows
  refine serves_of_use (i := i) (deed σ.who)
    (fun v => { v with members := p :: v.members }) sound inserted notCreation live
    (fun e occupied => ⟨occupied, rfl⟩) (fun j => grow_procList i j) rfl (fun full => ?_)
    (fun notFull => ?_) fun s shown => ?_
  · change (σ.full || _) = true
    rw [full, Bool.true_or]
  · refine (shows notFull).trans ?_
    rw [view_grow live]
  · obtain ⟨admits, result⟩ := steps s shown
    exact ⟨admits, by rw [result]; rfl⟩

theorem serves_openAllAt (sound : Sound log σ) (pPslot cPslot : Int) (i : SlotIx) :
    Serves log σ (openAllAt pPslot cPslot σ i) := by
  have ends := σ.openAllAt_ends pPslot cPslot i
  generalize openAllAt pPslot cPslot σ i = result at ends ⊢
  cases ends with
  | stranger => exact Serves.refl sound
  | inherited belongs =>
      have member : pPslot ∈ σ.members i := belongs_iff.mp belongs
      apply serves_join sound (sound.owned.live_of_mem member) cPslot
        (fun _ => .inherited pPslot cPslot) rfl
      intro s shown
      have admits : pPslot ∈ s.members := (shown_fields shown).2.1 ▸ member
      exact ⟨admits, rfl⟩

theorem serves_semOpenAll (sound : Sound log σ) (pPslot cPslot : Int) :
    Serves log σ (σ.semOpenAll pPslot cPslot) :=
  sweep_invariant (I := fun τ => Serves log σ τ) (Serves.refl sound) fun _ i served =>
    served.trans (serves_openAllAt served.sound pPslot cPslot i)

theorem serves_semCloseAll (sound : Sound log σ) (pslot : Int) :
    Serves log σ (σ.semCloseAll pslot) := by
  have closed : Serves log σ (sweep (fun σ (i : SlotIx) => (semClose σ (i : Nat)).1)
      (σ.setWho pslot)) :=
    sweep_invariant (I := fun τ => Serves log σ τ) ((Serves.refl sound).globals rfl rfl rfl)
      fun _ i served => served.trans (serves_semClose served.sound (i : Nat))
  exact closed.globals rfl rfl rfl

/-! ## Creating -/

/-- Slot `i`, which was free, holds a new semaphore of the caller, still without a
name. -/
structure Created (σ σ' : SeqFs) (i : SlotIx) (value : BitVec 32) : Prop where
  inRange : value.toNat ≤ semValueMax
  dead : (σ.semArray i).refCount = 0
  owned : σ'.Owned
  nameless : σ'.Nameless i
  live : 0 < (σ'.semArray i).refCount
  linked : (σ'.semArray i).unlinked = false
  procList : ∀ j, (σ.semArray j).procList ≠ none → (σ'.semArray j).procList ≠ none
  map : σ'.semNameMap = σ.semNameMap
  acts : σ'.acts = σ.acts
  who : σ'.who = σ.who
  full : σ.full = true → σ'.full = true
  view : σ'.full = false → σ'.view = Function.update σ.view i
    (some ⟨value.toNat, [σ.who], [], false⟩)

/-- A dead slot shows nothing, whatever `sem_create` writes into it first. -/
theorem idle_valued (owned : σ.Owned) (dead : (σ.semArray i).refCount = 0) (mode : Int)
    (value : BitVec 32) : Idle σ (σ.modSem i fun s =>
      { s with permision := mode, semCount := value.toInt }) := by
  constructor
  · exact owned_modSem owned i _ rfl rfl Iff.rfl (owned.counted i) (Or.inl rfl)
  · have hidden : σ.view i = none := by simp [view, dead]
    rw [view_modSem i (fun s => { s with permision := mode, semCount := value.toInt })
      (fun v => { v with count := value.toInt }) (fun _ => rfl) (fun _ => rfl) Iff.rfl
      fun _ _ => rfl, modifyView, hidden, Option.map_none, ← hidden, Function.update_eq_self]
  · rfl
  · intro j
    by_cases same : j = i <;> simp [modSem, same]
  · rfl
  · rfl

/-- A `sem_create` that fails does nothing that shows. -/
theorem idle_of_semCreate (owned : σ.Owned) {mode : Int} {value : BitVec 32}
    (result : σ.semCreate mode value = (σ', none)) : Idle σ σ' := by
  have ends := σ.semCreate_ends mode value
  rw [result] at ends
  cases ends with
  | noSlot => exact idle_setErrno owned enospc
  | stale => exact ⟨owned, rfl, rfl, fun _ => rfl, rfl, rfl⟩
  | tooLarge first =>
      have valued := idle_valued owned (idle_of_first first) mode value
      exact ⟨valued.owned, valued.view, rfl, valued.procList, rfl, rfl⟩

/-- `sem_create` gives the first free slot to a new semaphore. -/
theorem created_of_semCreate (owned : σ.Owned) {mode : Int} {value : BitVec 32}
    (result : σ.semCreate mode value = (σ', some i)) : Created σ σ' i value := by
  have ends := σ.semCreate_ends mode value
  rw [result] at ends
  cases ends with
  | made first _ small =>
      have dead := idle_of_first first
      have idle := idle_valued owned dead mode value
      obtain ⟨valued, valuedEq⟩ : ∃ τ, τ = σ.modSem i fun s =>
        { s with permision := mode, semCount := value.toInt } := ⟨_, rfl⟩
      rw [← valuedEq] at idle ⊢
      have refs : ∀ j, (valued.semArray j).refCount = (σ.semArray j).refCount := by
        intro j
        by_cases same : j = i <;> simp [valuedEq, modSem, same]
      have count : (valued.semArray i).semCount = value.toNat := by
        simp [valuedEq, modSem, toInt_of_inRange small]
      have first' : firstFit (fun j => decide ((valued.semArray j).refCount = 0)) = some i := by
        simpa only [refs] using first
      obtain ⟨made, owned', nameless⟩ := owned_makeLists idle.owned first'
        (fun s => { s with refCount := 1, unlinked := false }) (fun _ => rfl) (fun _ => rfl)
        fun _ => rfl
      constructor
      · exact small
      · exact dead
      · exact owned'
      · exact nameless
      · rw [made.semArray]
        simp [modSem]
      · rw [made.semArray]
        simp [modSem]
      · intro j some
        rw [made.semArray]
        by_cases same : j = i
        · simp [same]
        · simpa [same, modSem, idle.procList] using some
      · exact made.semNameMap.trans idle.map
      · exact made.acts.trans idle.acts
      · rw [valuedEq]
        rfl
      · exact fun full => made.full (idle.full.trans full)
      · intro notFull
        rw [view_made idle.owned (fun _ => rfl) made notFull, idle.view]
        simp only [count]
        rw [valuedEq]
        rfl

/-- The creation is recorded, and the new slot has got the entry of its origin, if
any. -/
theorem serves_of_created {value : BitVec 32} {made : SeqFs} (origin : Option (Option EntryIx))
    (sound : Sound log σ) (created : Created σ made i value) (owned : σ'.Owned)
    (map : ∀ e, σ'.semNameMap.occupied e = true →
      origin = some (some e) ∧ (σ'.semNameMap.entryArray e).value = i ∨
        origin ≠ some (some e) ∧ σ.semNameMap.occupied e = true ∧
          (σ'.semNameMap.entryArray e).value = (σ.semNameMap.entryArray e).value)
    (procList : ∀ j, (σ'.semArray j).procList = (made.semArray j).procList)
    (acts : σ'.acts = σ.acts ++ [⟨i, .created σ.who value.toNat origin⟩])
    (full : σ.full = true → σ'.full = true)
    (view : σ'.full = false → σ'.view = Function.update σ.view i
      (some ⟨value.toNat, [σ.who], [], origin.isNone⟩)) : Serves log σ σ' := by
  refine ⟨⟨owned, ⟨fun e occupied => ?_, fun a mem creates => ?_⟩⟩, full, _, acts,
    fun notFull T shows => ?_⟩
  · rw [acts, ← List.append_assoc]
    rcases map e occupied with ⟨named, here⟩ | ⟨other, before, value⟩
    · rw [here, named]
      exact LastMade.self _ i σ.who value.toNat (some e)
    · rw [value]
      refine (sound.rooted.origin e before).snoc (fun _ same => ?_) other
      have live := (sound.owned.named e before).1
      rw [← same] at live
      exact absurd (created.dead ▸ live) (lt_irrefl _)
  · rw [acts, ← List.append_assoc] at mem
    rw [procList]
    rcases List.mem_append.mp mem with mem | mem
    · exact created.procList _ (sound.rooted.pointed a mem creates)
    · rw [List.mem_singleton.mp mem]
      exact created.owned.created i created.live
  · have free : T i = none := by
      have hidden : σ.view i = none := by simp [Fs.view, created.dead]
      exact Option.map_eq_none_iff.mp ((shows i).trans hidden)
    have enabled : Table.Enabled T ⟨i, .created σ.who value.toNat origin⟩ := by
      rw [Table.Enabled, free]
      trivial
    refine ⟨_, Run.snoc Run.nil enabled, fun j => ?_⟩
    rw [view notFull, Table.step]
    by_cases same : j = i
    · rw [same, Function.update_self, Function.update_self]
      rfl
    · rw [Function.update_of_ne same, Function.update_of_ne same]
      exact shows j

theorem serves_semInit (sound : Sound log σ) (pshared : Int) (value : BitVec 32) :
    Serves log σ (σ.semInit pshared value).1 := by
  have ends := σ.semInit_ends pshared value
  generalize σ.semInit pshared value = result at ends ⊢
  cases ends with
  | notMade result => exact (idle_of_semCreate sound.owned result).serves sound
  | @made τ i result =>
      have created := created_of_semCreate sound.owned result
      have owned := owned_modSem created.owned i (fun s => { s with unlinked := true }) rfl rfl
        Iff.rfl (created.owned.counted i) (Or.inr created.nameless)
      refine serves_of_created none sound created owned (fun e occupied => ?_)
        (fun j => ?_) ?_ created.full fun notFull => ?_
      · have occupied : τ.semNameMap.occupied e = true := occupied
        rw [created.map] at occupied
        refine Or.inr ⟨by simp, occupied, ?_⟩
        change (τ.semNameMap.entryArray e).value = _
        rw [created.map]
      · by_cases same : j = i <;> simp [note, modSem, same]
      · change τ.acts ++ [⟨i, .created τ.who value.toNat none⟩] = _
        rw [created.acts, created.who]
      · refine (view_mark (σ := τ) i).trans ?_
        rw [modifyView, created.view notFull, Function.update_self, Function.update_idem]
        rfl

/-- The entry a name goes into is the one `HashTableInsert` fills. -/
theorem insert_entryFor (σ : SeqFs) (name : CString) (i : SlotIx) (e : EntryIx)
    (occupied : (σ.semNameMap.hashTableInsert name i).1.occupied e = true) :
    some (σ.entryFor name) = some (some e) ∧
        ((σ.semNameMap.hashTableInsert name i).1.entryArray e).value = i ∨
      some (σ.entryFor name) ≠ some (some e) ∧ σ.semNameMap.occupied e = true ∧
        ((σ.semNameMap.hashTableInsert name i).1.entryArray e).value =
          (σ.semNameMap.entryArray e).value := by
  rcases HashTable.hashTableInsert_cases σ.semNameMap name with ⟨e₀, stores⟩ | fails
  · have entry : σ.entryFor name = some e₀ := by
      rw [entryFor, stores.insert, if_pos rfl, stores.first]
    rw [entry]
    rw [stores.insert] at occupied ⊢
    by_cases new : e = e₀
    · exact Or.inl ⟨by rw [new], by simp [new]⟩
    · rw [HashTable.occupied, HashTable.storeAt_entry_of_ne new] at occupied
      refine Or.inr ⟨by simp [Ne.symm new], occupied, ?_⟩
      rw [HashTable.storeAt_entry_of_ne new]
  · rw [(fails i).1] at occupied ⊢
    refine Or.inr ⟨?_, occupied, rfl⟩
    rw [entryFor, if_neg (fails default).2]
    simp

theorem serves_semOpen (sound : Sound log σ) (name : CString) (oflag : BitVec 32) (mod : Int)
    (val : BitVec 32) : Serves log σ (σ.semOpen name oflag mod val).1 := by
  have sound₀ : Sound log (σ.setErrno 0) := ⟨sound.owned, sound.rooted⟩
  have ends := σ.semOpen_ends name oflag mod val
  generalize σ.semOpen name oflag mod val = result at ends ⊢
  cases ends with
  | absent => exact (idle_setErrno sound.owned enoent).serves sound
  | tooLong => exact (idle_setErrno sound.owned enametoolong).serves sound
  | taken => exact (idle_setErrno sound.owned eexist).serves sound
  | uncovered => exact (idle_setErrno sound.owned 0).serves sound
  | joined _ found =>
      obtain ⟨e, occupied, -, value⟩ := exists_entry_of_find _ found
      obtain ⟨live, linked⟩ := sound.owned.named e occupied
      have value : (σ.semNameMap.entryArray e).value = _ := value
      rw [value] at live linked
      apply Serves.of_setErrno
      apply serves_join sound₀ live σ.who .opened rfl
      exact fun s shown => ⟨(shown_fields shown).2.2.2.trans linked, rfl⟩
  | notMade _ _ _ _ result =>
      exact ((idle_of_semCreate sound₀.owned result).serves sound₀).of_setErrno
  | @made τ i _ _ _ _ result =>
      have created := created_of_semCreate sound₀.owned result
      apply Serves.of_setErrno
      refine serves_of_created (some (τ.entryFor name)) sound₀ created
        (owned_bind created.owned created.live created.linked created.nameless name)
        (fun e occupied => ?_) (fun j => rfl) ?_ created.full fun notFull => ?_
      · have cases := insert_entryFor τ name i e occupied
        rw [created.map] at cases
        simpa only [note, setMap, created.map] using cases
      · change τ.acts ++ [⟨i, .created τ.who val.toNat (some (τ.entryFor name))⟩] = _
        rw [created.acts, created.who]
      · exact created.view notFull

/-! ## Rounds -/

/-- A request does to the semaphores what it records. Only a destruction needs the
slot to be without a name. -/
theorem serves_dispatch (sound : Sound log σ) (m : Message) (g : Garbage)
    (nameless : Funcion.ofInt m.funcion = some .semDestroy →
      ∀ i, σ.granted m.semaforo = some i → σ.waiters i = [] → σ.Nameless i) :
    Serves log σ (σ.dispatch m g).1 := by
  rw [dispatch]
  cases funcion : Funcion.ofInt m.funcion with
  | none => exact Serves.refl sound
  | some funcion' =>
      cases funcion' with
      | semOpen => exact (serves_semOpen sound _ _ _ _).globals rfl rfl rfl
      | semClose => exact (serves_semClose sound _).globals rfl rfl rfl
      | semInit => exact (serves_semInit sound _ _).globals rfl rfl rfl
      | semWait => exact (serves_semWait sound _).globals rfl rfl rfl
      | semPost => exact (serves_semPost sound _ _).globals rfl rfl rfl
      | semUlink => exact (serves_semUnlink sound _).globals rfl rfl rfl
      | semGetval => exact (serves_semGetvalue sound _).globals rfl rfl rfl
      | semTrywait => exact (serves_semTrywait sound _).globals rfl rfl rfl
      | semDestroy => exact (serves_semDestroy sound _ (nameless funcion)).globals rfl rfl rfl
      | semTimedwait => exact (Serves.refl sound).globals rfl rfl rfl

theorem serves_callVector (sound : Sound log σ) (e : Event) (start : σ.who = e.source)
    (nameless : ∀ i, σ.Destroys e i → σ.Nameless i) :
    Serves log σ (σ.callVector e).1 := by
  cases e with
  | semaph who m g =>
      refine (serves_dispatch sound m g fun funcion i granted waiters => nameless i ?_).globals
        rfl rfl rfl
      refine ⟨funcion, ?_, listIsEmpty_iff.mpr waiters⟩
      obtain rfl : σ.who = who := start
      exact granted
  | fork parent child => exact serves_semOpenAll sound parent child
  | exec slot => exact serves_semCloseAll sound slot
  | exit slot => exact serves_semCloseAll sound slot

/-- A round of the main loop starts with an empty record. -/
theorem sound_getWork (owned : σ.Owned) (rooted : σ.Rooted log) (who : Int) :
    Sound log (σ.getWork who) := by
  refine ⟨owned, ?_⟩
  rw [show (σ.getWork who).acts = [] from rfl, List.append_nil]
  exact rooted

theorem serves_step (owned : σ.Owned) (rooted : σ.Rooted log) (e : Event)
    (nameless : ∀ i, σ.Destroys e i → σ.Nameless i) :
    Serves log (σ.getWork e.source) (σ.step e) := by
  have served := serves_callVector (sound_getWork owned rooted e.source) e rfl fun i destroys =>
    nameless i destroys
  rw [Fs.step]
  split
  · exact served
  · exact served.globals rfl rfl rfl

/-- At the start there is nothing to own. -/
theorem start_owned : (Fs.start SeqStore.empty).Owned where
  lists _ := Or.inl ⟨rfl, rfl⟩
  counted _ := le_rfl
  procBusy _ := by simp [Fs.start, initSemServer, SemTable.zeroed, SeqStore.empty]
  blockedBusy _ := by simp [Fs.start, initSemServer, SemTable.zeroed, SeqStore.empty]
  spare _ _ := rfl
  created _ live := absurd live (lt_irrefl _)
  idle _ _ := ⟨rfl, rfl⟩
  named e occupied := by
    simp [Fs.start, initSemServer, HashTable.newHashTable, HashTable.occupied] at occupied
  apart e _ occupied := by
    simp [Fs.start, initSemServer, HashTable.newHashTable, HashTable.occupied] at occupied

theorem start_rooted : (Fs.start SeqStore.empty).Rooted [] where
  origin e occupied := by
    simp [Fs.start, initSemServer, HashTable.newHashTable, HashTable.occupied] at occupied
  pointed _ mem := absurd mem List.not_mem_nil

/-- The empty table shows what the server shows at the start. -/
theorem start_shows : (Fs.start SeqStore.empty).Shows fun _ => none :=
  fun _ => rfl

end Fs

end MinixSemaphore.Server
