import MinixSemaphore.Server.Unlink

/-!
# What keeps a slot in use

`ref_count` counts up and is set back to zero at once, so that it tells no more than
whether its slot is in use. A slot is in use as long as a process has it open or a name
denotes it: a semaphore with a name lives on without processes, and a semaphore without
one lives on as long as its last process.
-/

namespace MinixSemaphore.Server

open MinixSemaphore.Lists
open MinixSemaphore.Names
open MinixSemaphore.Store
open MinixSemaphore.Semaphore
open MinixSemaphore.Transition

universe u

namespace Fs

open SemTable

/-- The name denotes the slot. -/
def Bound {P : Type u} (σ : Fs P) (key : Key) (i : SlotIx) : Prop :=
  σ.semNameMap.hashTableFind key.1 = some i

/-- Without an earlier error a creation gives the first free slot, unless the value is too
large. -/
theorem semCreate_slot {P : Type u} [ListLib P Int] {σ : Fs P} (ready : σ.errno = 0) (mode : Int)
    (value : BitVec 32) : (σ.semCreate mode value).2 =
      if semValueMax < value.toNat then none
      else firstFit fun i => decide ((σ.semArray i).refCount = 0) := by
  have ends := σ.semCreate_ends mode value
  generalize σ.semCreate mode value = result at ends ⊢
  cases ends with
  | noSlot busy =>
      have none := firstFit_eq_none_iff.mpr fun i => decide_eq_false (busy i)
      rw [none]
      exact (ite_self _).symm
  | stale _ stale => exact absurd ready stale
  | tooLarge _ _ large => exact (if_pos large).symm
  | made first _ small => exact ((if_neg (not_lt.mpr small)).trans first).symm

/-- Whatever went wrong earlier, a creation gives a slot that is free. -/
theorem free_of_semCreate {P : Type u} [ListLib P Int] {σ : Fs P} {mode : Int}
    {value : BitVec 32} {i : SlotIx} (given : (σ.semCreate mode value).2 = some i) :
    (σ.semArray i).refCount = 0 := by
  have ends := σ.semCreate_ends mode value
  generalize σ.semCreate mode value = result at ends given
  cases ends with
  | made first _ _ =>
      obtain rfl := Option.some.inj given
      exact idle_of_first first
  | _ => contradiction

theorem free_of_semInit {P : Type u} [ListLib P Int] {σ : Fs P} {pshared : Int}
    {value : BitVec 32} {i : SlotIx} (given : (σ.semInit pshared value).2 = some i) :
    (σ.semArray i).refCount = 0 := by
  have ends := σ.semInit_ends pshared value
  generalize σ.semInit pshared value = result at ends given
  cases ends with
  | notMade _ => contradiction
  | made result =>
      obtain rfl := Option.some.inj given
      exact free_of_semCreate (congrArg Prod.snd result)

/-- What `sem_open` gives for a name that denotes nothing has been free. -/
theorem free_of_semOpen {P : Type u} [ListLib P Int] {σ : Fs P} {name : CString}
    {oflag : BitVec 32} {mod : Int} {val : BitVec 32} {i : SlotIx}
    (unbound : σ.semNameMap.hashTableFind name = none)
    (given : (σ.semOpen name oflag mod val).2 = some i) : (σ.semArray i).refCount = 0 := by
  have ends := σ.semOpen_ends name oflag mod val
  generalize σ.semOpen name oflag mod val = result at ends given
  cases ends with
  | joined _ bound _ =>
      rw [unbound] at bound
      contradiction
  | made _ _ _ _ result =>
      obtain rfl := Option.some.inj given
      exact free_of_semCreate (σ := σ.setErrno 0) (congrArg Prod.snd result)
  | _ => contradiction

/-- Where `sem_open` is to create a semaphore and fails, no slot is free. -/
theorem full_of_semOpen {P : Type u} [ListLib P Int] {σ : Fs P} {name : CString}
    {oflag : BitVec 32} {mod : Int} {val : BitVec 32} (creates : Creates oflag)
    (shared : ¬Excludes oflag) (short : name.length ≤ pathMax) (small : val.toNat ≤ semValueMax)
    (failed : (σ.semOpen name oflag mod val).2 = none) (i : SlotIx) :
    (σ.semArray i).refCount ≠ 0 := by
  have ends := σ.semOpen_ends name oflag mod val
  generalize σ.semOpen name oflag mod val = result at ends failed
  cases ends with
  | absent _ passive => exact absurd creates passive
  | tooLong long => exact absurd short (not_le.mpr long)
  | taken _ _ excludes => exact absurd excludes shared
  | uncovered excludes _ => exact absurd excludes shared
  | notMade _ _ _ _ result =>
      have slot := semCreate_slot (σ := σ.setErrno 0) rfl mod val
      rw [result, if_neg (not_lt.mpr small)] at slot
      exact of_decide_eq_false (firstFit_eq_none_iff.mp slot.symm i)
  | joined _ _ _ => contradiction
  | made _ _ _ _ _ => contradiction

variable {σ : SeqFs} {key : Key} {i : SlotIx} {e : Event}

/-- What a name denotes is live and linked. -/
theorem live_of_bound (owned : σ.Owned) (bound : σ.Bound key i) :
    0 < (σ.semArray i).refCount ∧ (σ.semArray i).unlinked = false := by
  obtain ⟨entry, occupied, -, rfl⟩ := exists_entry_of_find σ.semNameMap bound
  exact owned.named entry occupied

/-- No two names denote the same slot. -/
theorem eq_of_bound (owned : σ.Owned) {key' : Key} (bound : σ.Bound key i)
    (bound' : σ.Bound key' i) : key = key' := by
  obtain ⟨entry, occupied, holds, value⟩ := exists_entry_of_find σ.semNameMap bound
  obtain ⟨entry', occupied', holds', value'⟩ := exists_entry_of_find σ.semNameMap bound'
  obtain rfl := owned.apart entry entry' occupied occupied' (value.trans value'.symm)
  have name := (HashTable.holds_iff key.2).mp holds
  have name' := (HashTable.holds_iff key'.2).mp holds'
  exact Subtype.ext (CString.ext (Option.some.inj (name.symm.trans name')))

/-- A name stays where it is unless it is taken away. -/
theorem bound_step (rebinds : σ.Rebinds e) (bound : σ.Bound key i)
    (stays : ∀ p, (⟨i, .unlinked p⟩ : Act) ∉ (σ.step e).acts) : (σ.step e).Bound key i := by
  have bound : σ.names.book key = some i := bound
  apply (rebinds key).trans
  rw [rebound]
  cases naming : σ.naming e with
  | none => exact bound
  | some op =>
      cases op with
      | insert new j =>
          have unbound := unbound_of_insert naming
          have other : key ≠ new := by
            rintro rfl
            rw [bound] at unbound
            contradiction
          exact (Function.update_of_ne other _ _).trans bound
      | remove old =>
          obtain ⟨j, p, found, acts⟩ := acts_of_remove naming
          have other : key ≠ old := by
            rintro rfl
            obtain rfl := Option.some.inj (bound.symm.trans found)
            apply stays p
            rw [acts]
            exact List.mem_singleton.mpr rfl
          exact (Function.update_of_ne other _ _).trans bound

end Fs

namespace World

section

variable {w : World (SeqStore Int)} {T : SlotTable} {e : Event} {i : SlotIx}

/-- A semaphore of the table that has no name has members. -/
theorem Tracks.used (tracks : w.Tracks T) {s : Sem Int} (here : T i = some s) : s.Used := by
  have run := run_deedsAt tracks.run i
  have used : ∀ s, T i = some s → s.Used := by
    apply run.invariant (I := fun place => ∀ s, place = some s → s.Used)
    · intro s nothing
      contradiction
    · intro place deed used enabled s result
      exact Sem.used_step used enabled result
  exact used s here

/-- Every live slot that is not marked as unlinked has a name. -/
def Called (w : World (SeqStore Int)) : Prop :=
  ∀ i, 0 < (w.fs.semArray i).refCount → (w.fs.semArray i).unlinked = false →
    ∃ key, w.fs.Bound key i

theorem start_called : (start SeqStore.empty).Called :=
  fun _ live => absurd live (lt_irrefl 0)

/-- A linked slot after an event was linked before, or has been created with a name. -/
theorem linked_cases (tracks : w.Tracks T) (lawful : w.Lawful e)
    (live : 0 < ((w.fs.step e).semArray i).refCount)
    (linked : ((w.fs.step e).semArray i).unlinked = false) :
    (∃ key, w.fs.naming e = some (.insert key i)) ∨
      0 < (w.fs.semArray i).refCount ∧ (w.fs.semArray i).unlinked = false ∧
        ∀ p, (⟨i, .unlinked p⟩ : Act) ∉ (w.fs.step e).acts := by
  obtain ⟨T', steps, tracks'⟩ := tracks.step lawful
  obtain ⟨t, there, shown⟩ := tracks'.exists_sem live
  obtain ⟨-, -, -, mark⟩ := Fs.shown_fields shown
  have linked : t.unlinked = false := mark.trans linked
  -- what was there before, if it was a semaphore that kept its name
  have before : ∀ s, T i = some s → s.unlinked = false →
      0 < (w.fs.semArray i).refCount ∧ (w.fs.semArray i).unlinked = false := by
    intro s here kept
    have live := tracks.live_of_sem here
    obtain ⟨s', here', shown⟩ := tracks.exists_sem live
    obtain rfl := Option.some.inj (here.symm.trans here')
    obtain ⟨-, -, -, mark⟩ := Fs.shown_fields shown
    exact ⟨live, mark.symm.trans kept⟩
  have visited : ∀ deed, (⟨i, deed⟩ : Act) ∈ (w.fs.step e).acts →
      deed ∈ deedsAt i (w.fs.step e).acts := by
    intro deed mem
    exact List.mem_map.mpr ⟨_, List.mem_filter.mpr ⟨mem, decide_eq_true rfl⟩, rfl⟩
  have run := run_deedsAt steps i
  rcases deedsAt_of_nodup (Fs.asks_nodup (Fs.step_recorded w.fs e).1) i with
    nothing | ⟨deed, only, mem⟩
  · right
    rw [nothing] at run visited
    have same : T' i = T i := run.eq_foldl
    obtain ⟨live, kept⟩ := before t (same.symm.trans there) linked
    refine ⟨live, kept, fun p mem => ?_⟩
    exact absurd (visited _ mem) List.not_mem_nil
  · rw [only] at run visited
    obtain ⟨enabled, result⟩ := run.singleton
    rw [there] at result
    cases here : T i with
    | none =>
        left
        rw [here] at enabled result
        cases deed with
        | created p value origin =>
            obtain rfl := Option.some.inj result
            cases origin with
            | none => contradiction
            | some entry => exact Fs.exists_insert_of_acts mem
        | _ => exact enabled.elim
    | some s =>
        right
        rw [here] at enabled result
        have marked := Sem.unlinked_step enabled result.symm
        rw [linked] at marked
        have kept : s.unlinked = false := by
          by_contra unlinked
          exact Bool.false_ne_true (marked.mpr (Or.inl (Bool.not_eq_false _ ▸ unlinked)))
        obtain ⟨live, kept⟩ := before s here kept
        refine ⟨live, kept, fun p mem => ?_⟩
        obtain rfl := List.mem_singleton.mp (visited _ mem)
        exact Bool.false_ne_true (marked.mpr (Or.inr ⟨p, rfl⟩))

theorem Called.step (called : w.Called) (tracks : w.Tracks T) (lawful : w.Lawful e)
    (rebinds : w.fs.Rebinds e) : (w.step e).Called := by
  intro i live linked
  rcases linked_cases tracks lawful live linked with ⟨key, naming⟩ | ⟨live, linked, stays⟩
  · use key
    apply (rebinds key).trans
    rw [Fs.rebound, naming]
    exact Function.update_self ..
  · obtain ⟨key, bound⟩ := called i live linked
    exact ⟨key, Fs.bound_step rebinds bound stays⟩

end

/-! ## Runs of the program -/

/-- Lawful, and the name map behaves like a finite map. -/
def Tidy {P : Type u} [ListLib P Int] (w : World P) (e : Event) : Prop :=
  w.Lawful e ∧ w.fs.Rebinds e

/-- Lawful, and every name that is inserted finds an entry and runs over no other key. -/
def Spacious {P : Type u} [ListLib P Int] (w : World P) (e : Event) : Prop :=
  w.Lawful e ∧ w.fs.Copies e ∧ w.fs.Stocks e

instance {P : Type u} [ListLib P Int] (w : World P) (e : Event) : Decidable (w.Spacious e) :=
  inferInstanceAs (Decidable (_ ∧ _ ∧ _))

variable {w : World (Pools Int)} {es : List Event}

/-- Names that run over no other key make a finite map. -/
theorem tidy_of_spacious (run : Run World.step Spacious boot es w) :
    Run World.step Tidy boot es w := by
  apply run.weaken (I := fun w => w.fs.names.Faithful)
  · exact Fs.start_names_faithful _
  · rintro w e faithful ⟨-, copies, -⟩
    exact Fs.faithful_names_step faithful copies
  · rintro w e faithful ⟨lawful, copies, stocks⟩
    exact ⟨lawful, Fs.rebinds_of_copies faithful copies stocks⟩

/-- Along the run the abstract table and the names go together. -/
theorem exists_called (run : Run World.step Tidy boot es w) :
    w.Simulated ∧ (∃ T, w.abs.Tracks T) ∧ w.abs.Called := by
  apply run.invariant (I := fun w => w.Simulated ∧ (∃ T, w.abs.Tracks T) ∧ w.abs.Called)
  · refine ⟨boot_simulated, ?_⟩
    rw [boot_abs]
    exact ⟨⟨_, start_tracks⟩, start_called⟩
  · rintro w e ⟨simulated, ⟨T, tracks⟩, called⟩ ⟨lawful, rebinds⟩
    have lawful := lawful_abs simulated lawful
    have sim : Fs.Sim w.fs w.abs.fs := simulated
    obtain ⟨T', -, tracks'⟩ := tracks.step lawful
    refine ⟨step_simulated simulated e, ?_⟩
    rw [step_abs simulated]
    exact ⟨⟨T', tracks'⟩, called.step tracks lawful ((sim.rebinds e).mpr rebinds)⟩

/-- In every state of a run in which the memory suffices, only semaphores made by
`sem_init` are destroyed and the name map behaves like a finite map: a slot is in use
exactly if a process has it open or a name denotes it. If it is marked as unlinked, then
a process has it open and no name denotes it; otherwise exactly one name denotes it. A
creation gives a slot that nothing refers to, and finds one if there is any: `sem_init`
and `sem_open` hand out nothing else, and a `sem_open` that is to create a semaphore does
so as soon as a slot is referred to by nothing. -/
theorem live_iff_referenced (run : Run World.step Tidy boot es w) :
    (∀ i, 0 < (w.fs.semArray i).refCount ↔ w.fs.procs i ≠ [] ∨ ∃ key, w.fs.Bound key i) ∧
      (∀ i, 0 < (w.fs.semArray i).refCount → (w.fs.semArray i).unlinked = true →
        w.fs.procs i ≠ [] ∧ ∀ key, ¬w.fs.Bound key i) ∧
      (∀ i, 0 < (w.fs.semArray i).refCount → (w.fs.semArray i).unlinked = false →
        ∃! key, w.fs.Bound key i) ∧
      (∀ p mode value,
        (∀ i, (((w.fs.getWork p).setErrno 0).semCreate mode value).2 = some i →
          w.fs.procs i = [] ∧ ∀ key, ¬w.fs.Bound key i) ∧
        (value.toNat ≤ semValueMax →
          (((w.fs.getWork p).setErrno 0).semCreate mode value).2 = none →
            ∀ i, w.fs.procs i ≠ [] ∨ ∃ key, w.fs.Bound key i)) ∧
      (∀ p pshared value i, ((w.fs.getWork p).semInit pshared value).2 = some i →
        w.fs.procs i = [] ∧ ∀ key, ¬w.fs.Bound key i) ∧
      ∀ p name oflag mod val, (w.fs.getWork p).semNameMap.hashTableFind name = none →
        (∀ i, ((w.fs.getWork p).semOpen name oflag mod val).2 = some i →
          w.fs.procs i = [] ∧ ∀ key, ¬w.fs.Bound key i) ∧
        (Creates oflag → ¬Excludes oflag → name.length ≤ pathMax →
          val.toNat ≤ semValueMax → ((w.fs.getWork p).semOpen name oflag mod val).2 = none →
            ∀ i, w.fs.procs i ≠ [] ∨ ∃ key, w.fs.Bound key i) := by
  obtain ⟨simulated, ⟨T, tracks⟩, called⟩ := exists_called run
  have sim : Fs.Sim w.fs w.abs.fs := simulated
  have array : w.abs.fs.semArray = w.fs.semArray := sim.semArray
  have bound_iff : ∀ key i, w.abs.fs.Bound key i ↔ w.fs.Bound key i := by
    intro key i
    rw [Fs.Bound, Fs.Bound, sim.semNameMap]
  have live_of_bound : ∀ key i, w.fs.Bound key i →
      0 < (w.fs.semArray i).refCount ∧ (w.fs.semArray i).unlinked = false := by
    intro key i bound
    rw [← array]
    exact Fs.live_of_bound tracks.owned ((bound_iff key i).mpr bound)
  have exists_name : ∀ i, 0 < (w.fs.semArray i).refCount → (w.fs.semArray i).unlinked = false →
      ∃! key, w.fs.Bound key i := by
    intro i live linked
    rw [← array] at live linked
    obtain ⟨key, bound⟩ := called i live linked
    refine ⟨key, (bound_iff key i).mp bound, fun key' bound' => ?_⟩
    exact Fs.eq_of_bound tracks.owned ((bound_iff key' i).mpr bound') bound
  have used : ∀ i, 0 < (w.fs.semArray i).refCount → (w.fs.semArray i).unlinked = true →
      w.fs.procs i ≠ [] ∧ ∀ key, ¬w.fs.Bound key i := by
    intro i live unlinked
    obtain ⟨s, here, -, members, -, mark⟩ := exists_sem_abs tracks live
    constructor
    · rw [← members]
      exact tracks.used here (mark.trans unlinked)
    · intro key bound
      have linked := (live_of_bound key i bound).2
      rw [unlinked] at linked
      contradiction
  have live_iff : ∀ i, 0 < (w.fs.semArray i).refCount ↔
      w.fs.procs i ≠ [] ∨ ∃ key, w.fs.Bound key i := by
    intro i
    constructor
    · intro live
      cases mark : (w.fs.semArray i).unlinked with
      | true => exact Or.inl (used i live mark).1
      | false =>
          obtain ⟨key, bound, -⟩ := exists_name i live mark
          exact Or.inr ⟨key, bound⟩
    · rintro (referred | ⟨key, bound⟩)
      · obtain ⟨p, member⟩ := List.exists_mem_of_ne_nil _ referred
        rw [← members_abs] at member
        exact array ▸ tracks.owned.live_of_mem member
      · exact (live_of_bound key i bound).1
  have unused : ∀ i, (w.fs.semArray i).refCount = 0 →
      w.fs.procs i = [] ∧ ∀ key, ¬w.fs.Bound key i := by
    intro i free
    have idle : ¬(w.fs.procs i ≠ [] ∨ ∃ key, w.fs.Bound key i) := by
      rw [← live_iff i, free]
      exact lt_irrefl 0
    rw [not_or, not_not, not_exists] at idle
    exact idle
  have referred : ∀ i, (w.fs.semArray i).refCount ≠ 0 →
      w.fs.procs i ≠ [] ∨ ∃ key, w.fs.Bound key i := by
    intro i busy
    apply (live_iff i).mp
    rw [← array] at busy ⊢
    exact lt_of_le_of_ne (tracks.owned.counted i) busy.symm
  refine ⟨live_iff, used, exists_name, fun p mode value => ⟨?_, ?_⟩,
    fun p pshared value i given => unused i (Fs.free_of_semInit (σ := w.fs.getWork p) given),
    fun p name oflag mod val unbound => ⟨?_, ?_⟩⟩
  · exact fun i given => unused i (Fs.free_of_semCreate (σ := (w.fs.getWork p).setErrno 0) given)
  · intro small none i
    have slot := Fs.semCreate_slot (σ := (w.fs.getWork p).setErrno 0) rfl mode value
    rw [none, if_neg (not_lt.mpr small)] at slot
    exact referred i (of_decide_eq_false (firstFit_eq_none_iff.mp slot.symm i))
  · exact fun i given => unused i (Fs.free_of_semOpen (σ := w.fs.getWork p) unbound given)
  · intro creates shared short small failed i
    exact referred i (Fs.full_of_semOpen creates shared short small failed i)

/-- A name is created, inherited and taken away. Its slot stays in use without a name. -/
theorem live_iff_referenced_of_unlink :
    let es := [Client.call 5 (Client.semOpenRequest default ⟨[97], by simp⟩ 0o100 0 1),
      Event.fork 5 6, Client.call 6 (Client.semUnlinkRequest default ⟨[97], by simp⟩),
      Event.exit 5]
    let w := es.foldl World.step boot
    w.fs.procs 0 ≠ [] ∧ ∀ key, ¬w.fs.Bound key 0 := by
  intro es w
  have allowed : Allowed World.step Spacious boot es := by decide +kernel
  exact (live_iff_referenced (tidy_of_spacious allowed.run)).2.1 0
    (by decide +kernel) (by decide +kernel)

end World

end MinixSemaphore.Server
