import MinixSemaphore.Server.Refinement
import MinixSemaphore.Server.Replies
import MinixSemaphore.Server.Simulation
import MinixSemaphore.Transition.Calls

/-!
# The server among its clients

A world is the file system together with what has happened so far: the events it
has served, the deeds that were done to semaphores, and the requests that have been
answered and that have not. The conditions on runs are guards on its steps.
-/

namespace MinixSemaphore.Server

open MinixSemaphore.Lists
open MinixSemaphore.Names
open MinixSemaphore.Semaphore
open MinixSemaphore.Transition

universe u

structure World (P : Type u) where
  fs : Fs P
  events : List Event
  log : List Act
  calls : Calls Int Reply

namespace World

variable {P : Type u} [ListLib P Int]

/-- Before the first event. -/
def start (pools : P) : World P where
  fs := Fs.start pools
  events := []
  log := []
  calls := Calls.start

/-- The world of the program, over the pools of list.c. -/
def boot : World (Pools Int) :=
  start Pools.zeroed

/-- The source of an event makes a request, and the server serves it. Rounds have the
numbers of the requests they begin with. -/
def step (w : World P) (e : Event) : World P where
  fs := w.fs.step e
  events := w.events ++ [e]
  log := w.log ++ (w.fs.step e).acts
  calls := (w.fs.step e).sent.foldl (Calls.deliver w.events.length) (w.calls.ask e.source)

/-- No `ListInsert` returns `LIST_NO_MEM`. -/
def Roomy (w : World P) (e : Event) : Prop :=
  (w.fs.step e).full = false

/-- Only semaphores made by `sem_init` are destroyed. -/
def DestroysOwn (w : World P) (e : Event) : Prop :=
  ∀ i, w.fs.Destroys e i → unnamed (current (deedsAt i w.log)) = true

/-- No slot is destroyed that an entry of the name map denotes. -/
def SparesNames (w : World P) (e : Event) : Prop :=
  ∀ i, w.fs.Destroys e i → w.fs.Nameless i

/-- A process that waits for an answer makes no request and does not end. -/
def Patient (w : World P) (e : Event) : Prop :=
  w.calls.pending e.source = none ∧ ∀ slot, e.leaver = some slot → w.calls.pending slot = none

/-- The memory of the lists suffices, and semaphores are destroyed as the manual
demands. -/
def Lawful (w : World P) (e : Event) : Prop :=
  w.Roomy e ∧ w.DestroysOwn e

instance (w : World P) (e : Event) : Decidable (w.Roomy e) :=
  inferInstanceAs (Decidable (_ = false))

instance (w : World P) (e : Event) : Decidable (w.DestroysOwn e) :=
  inferInstanceAs (Decidable (∀ i, w.fs.Destroys e i → _ = true))

instance (w : World P) (e : Event) : Decidable (w.SparesNames e) :=
  inferInstanceAs (Decidable (∀ i, w.fs.Destroys e i → w.fs.Nameless i))

instance (w : World P) (e : Event) : Decidable (w.Patient e) :=
  decidable_of_iff (w.calls.pending e.source = none ∧
      e.leaver.all (fun slot => w.calls.pending slot = none) = true) (by
    rw [Patient]
    cases e.leaver <;> simp)

instance (w : World P) (e : Event) : Decidable (w.Lawful e) :=
  inferInstanceAs (Decidable (_ ∧ _))

/-! ## Worlds over sequences -/

/-- The world over sequences that shows the same. -/
def abs (w : World (Pools Int)) : World (SeqStore Int) where
  fs := w.fs.mapPools Pools.abs
  events := w.events
  log := w.log
  calls := w.calls

/-- The pools are well formed, and the lists of slots are usable. -/
def Simulated (w : World (Pools Int)) : Prop :=
  Fs.Sim w.fs w.abs.fs

theorem boot_abs : boot.abs = start SeqStore.empty := by
  simp only [boot, start, abs, Fs.start_sim.eq]

theorem boot_simulated : boot.Simulated := by
  rw [Simulated, boot_abs]
  exact Fs.start_sim

variable {w : World (Pools Int)} {e : Event}

theorem step_fs_abs (simulated : w.Simulated) (e : Event) :
    w.abs.fs.step e = (w.fs.step e).mapPools Pools.abs :=
  (simulated.step e).eq

theorem step_abs (simulated : w.Simulated) (e : Event) : (w.step e).abs = w.abs.step e := by
  simp only [step, step_fs_abs simulated e]
  rfl

theorem step_simulated (simulated : w.Simulated) (e : Event) : (w.step e).Simulated := by
  rw [Simulated, step_abs simulated]
  exact Fs.Sim.step simulated e

/-- A run over the pools shows a run over sequences. -/
theorem run_abs {guard : World (Pools Int) → Event → Prop}
    {guard' : World (SeqStore Int) → Event → Prop} {es : List Event}
    (run : Run step guard boot es w)
    (allowed : ∀ w e, w.Simulated → guard w e → guard' w.abs e) :
    w.Simulated ∧ Run step guard' (start SeqStore.empty) es w.abs := by
  have kept : ∀ (w : World (Pools Int)) e, w.Simulated → guard w e → (w.step e).Simulated :=
    fun _ e simulated _ => step_simulated simulated e
  refine ⟨run.invariant boot_simulated kept, ?_⟩
  rw [← boot_abs]
  exact run.map abs boot_simulated kept (fun _ e simulated _ => step_abs simulated e) allowed

theorem destroys_abs (simulated : w.Simulated) (i : SlotIx) :
    w.abs.fs.Destroys e i ↔ w.fs.Destroys e i := by
  cases e with
  | semaph who m g =>
      have granted := (simulated.getWork who).granted m.semaforo
      have empty := simulated.listIsEmpty (w.fs.semArray i).blockedList
      refine and_congr Iff.rfl (and_congr ?_ ?_)
      · rw [granted]
      · exact Bool.eq_iff_iff.mp empty
  | _ => exact Iff.rfl

theorem roomy_abs (simulated : w.Simulated) (roomy : w.Roomy e) : w.abs.Roomy e := by
  rw [Roomy, step_fs_abs simulated]
  exact roomy

theorem destroysOwn_abs (simulated : w.Simulated) (own : w.DestroysOwn e) :
    w.abs.DestroysOwn e :=
  fun i destroys => own i ((destroys_abs simulated i).mp destroys)

theorem sparesNames_abs (simulated : w.Simulated) (spares : w.SparesNames e) :
    w.abs.SparesNames e :=
  fun i destroys => spares i ((destroys_abs simulated i).mp destroys)

theorem lawful_abs (simulated : w.Simulated) (lawful : w.Lawful e) : w.abs.Lawful e :=
  ⟨roomy_abs simulated lawful.1, destroysOwn_abs simulated lawful.2⟩

end World

/-! ## What every run keeps -/

namespace World

variable {w : World (SeqStore Int)} {e : Event} {T : SlotTable}

/-- The lists are owned, and the names are rooted in the log. -/
structure Kept (w : World (SeqStore Int)) : Prop where
  owned : w.fs.Owned
  rooted : w.fs.Rooted w.log

theorem start_kept : (start SeqStore.empty).Kept :=
  ⟨Fs.start_owned, Fs.start_rooted⟩

theorem Kept.serves (kept : w.Kept) (spares : w.SparesNames e) :
    Fs.Serves w.log (w.fs.getWork e.source) (w.fs.step e) :=
  Fs.serves_step kept.owned kept.rooted e spares

theorem Kept.step (kept : w.Kept) (spares : w.SparesNames e) : (w.step e).Kept :=
  let sound := (kept.serves spares).sound
  ⟨sound.owned, sound.rooted⟩

/-- A semaphore made by `sem_init` has no name. -/
theorem Kept.sparesNames (kept : w.Kept) (own : w.DestroysOwn e) : w.SparesNames e := by
  intro i destroys entry occupied same
  have made := kept.rooted.origin entry occupied
  rw [same] at made
  have unnamed := own i destroys
  rw [made.not_unnamed] at unnamed
  contradiction

/-- The log leads to an abstract table that shows what the server shows. -/
structure Tracks (w : World (SeqStore Int)) (T : SlotTable) : Prop extends w.Kept where
  run : Run Table.step Table.Enabled (fun _ => none) w.log T
  shows : w.fs.Shows T

theorem start_tracks : (start SeqStore.empty).Tracks fun _ => none :=
  ⟨start_kept, Run.nil, Fs.start_shows⟩

/-- A lawful step does to the table what it has recorded. -/
theorem Tracks.step (tracks : w.Tracks T) (lawful : w.Lawful e) :
    ∃ T', Run Table.step Table.Enabled T (w.fs.step e).acts T' ∧ (w.step e).Tracks T' := by
  have kept := tracks.toKept
  have spares := kept.sparesNames lawful.2
  obtain ⟨acts, recorded, run⟩ := (kept.serves spares).did
  obtain ⟨T', steps, shows⟩ := run lawful.1 T tracks.shows
  obtain rfl : (w.fs.step e).acts = acts := recorded
  exact ⟨T', steps, ⟨kept.step spares, tracks.run.trans steps, shows⟩⟩

/-- Every lawful run is tracked by a table. -/
theorem exists_tracks {es : List Event}
    (run : Run World.step Lawful (start SeqStore.empty) es w) : ∃ T, w.Tracks T :=
  run.invariant (I := fun w => ∃ T, w.Tracks T) ⟨_, start_tracks⟩
    fun _ _ ⟨_, tracks⟩ lawful => let ⟨T', _, tracks'⟩ := tracks.step lawful; ⟨T', tracks'⟩

/-- Every run that destroys as the manual demands keeps the lists owned. -/
theorem kept_of_run {es : List Event}
    (run : Run World.step DestroysOwn (start SeqStore.empty) es w) : w.Kept :=
  run.invariant start_kept fun _ _ kept own => kept.step (kept.sparesNames own)

/-- What a live slot shows is a semaphore of the table. -/
theorem Tracks.exists_sem (tracks : w.Tracks T) {i : SlotIx}
    (live : 0 < (w.fs.semArray i).refCount) :
    ∃ s, T i = some s ∧ s.toView = w.fs.shown i := by
  have shows := tracks.shows i
  rw [Fs.view_of_live live] at shows
  exact Option.map_eq_some_iff.mp shows

/-- A slot that holds a semaphore of the table is live. -/
theorem Tracks.live_of_sem (tracks : w.Tracks T) {i : SlotIx} {s : Sem Int}
    (here : T i = some s) : 0 < (w.fs.semArray i).refCount := by
  have shows := tracks.shows i
  rw [here, Fs.view] at shows
  by_contra dead
  rw [if_neg dead] at shows
  contradiction

end World

/-! ## Runs of the program -/

namespace World

variable {w : World (Pools Int)} {es : List Event}

theorem members_abs (w : World (Pools Int)) (i : SlotIx) : w.abs.fs.members i = w.fs.procs i :=
  Pools.abs_seq w.fs.pools _

theorem waiters_abs (w : World (Pools Int)) (i : SlotIx) : w.abs.fs.waiters i = w.fs.blocked i :=
  Pools.abs_seq w.fs.pools _

/-- A lawful run of the program is tracked by a table. -/
theorem exists_tracks_abs (run : Run World.step Lawful boot es w) :
    w.Simulated ∧ ∃ T, w.abs.Tracks T := by
  obtain ⟨simulated, run'⟩ := run_abs run fun _ _ => lawful_abs
  exact ⟨simulated, exists_tracks run'⟩

/-- The semaphore in a live slot of the program. -/
theorem exists_sem_abs {T : SlotTable} (tracks : w.abs.Tracks T) {i : SlotIx}
    (live : 0 < (w.fs.semArray i).refCount) :
    ∃ s, T i = some s ∧ s.count = (w.fs.semArray i).semCount ∧ s.members = w.fs.procs i ∧
      s.waiters = w.fs.blocked i ∧ s.unlinked = (w.fs.semArray i).unlinked := by
  obtain ⟨s, here, shown⟩ := tracks.exists_sem (i := i) live
  obtain ⟨count, members, waiters, unlinked⟩ := Fs.shown_fields shown
  exact ⟨s, here, count, members.trans (members_abs w i), waiters.trans (waiters_abs w i),
    unlinked⟩

/-- A slot whose use is granted is live, and the caller is one of its processes. -/
theorem granted_abs (simulated : w.Simulated) (owned : w.abs.fs.Owned) {p handle : Int}
    {i : SlotIx} (granted : (w.fs.getWork p).granted handle = some i) :
    p ∈ w.fs.procs i ∧ 0 < (w.fs.semArray i).refCount := by
  rw [← (simulated.getWork p).granted] at granted
  have member : p ∈ w.abs.fs.members i := (Fs.granted_iff.mp granted).2
  exact ⟨members_abs w i ▸ member, owned.live_of_mem member⟩

end World

end MinixSemaphore.Server
