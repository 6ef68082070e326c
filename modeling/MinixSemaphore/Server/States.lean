import MinixSemaphore.Server.Room
import MinixSemaphore.Server.World

/-!
# The states of all runs

Some facts hold in every state, whatever has been asked for and however it has ended:
the pools are well formed, lists are used in pairs, whatever a name denotes has a list
of processes, even a slot that has been destroyed, keys lie in their rows, and error
numbers are not positive.
-/

namespace MinixSemaphore.Server

open MinixSemaphore.Lists
open MinixSemaphore.Names
open MinixSemaphore.Store
open MinixSemaphore.Semaphore
open MinixSemaphore.Transition

namespace Fs

/-- What a name denotes has a list of processes, keys lie in their rows, and there is no
positive error number. -/
structure Anchored (σ : SeqFs) : Prop where
  denotes : ∀ e, σ.semNameMap.occupied e = true →
    (σ.semArray (σ.semNameMap.entryArray e).value).procList ≠ none
  placed : ∀ e a, (σ.semNameMap.entryArray e).key = some a → a = HashTable.row e
  errno : σ.errno ≤ 0

variable {σ σ' σ'' : SeqFs}

/-- No slot loses its lists, and no name is given. -/
structure Anchors (σ σ' : SeqFs) : Prop where
  created : ∀ i, (σ.semArray i).procList ≠ none → (σ'.semArray i).procList ≠ none
  denotes : ∀ e, σ'.semNameMap.occupied e = true → σ.semNameMap.occupied e = true ∧
    σ'.semNameMap.entryArray e = σ.semNameMap.entryArray e
  errno : σ.errno ≤ 0 → σ'.errno ≤ 0

namespace Anchors

theorem refl (σ : SeqFs) : Anchors σ σ :=
  ⟨fun _ => id, fun _ occupied => ⟨occupied, rfl⟩, id⟩

theorem trans (first : Anchors σ σ') (second : Anchors σ' σ'') : Anchors σ σ'' := by
  refine ⟨fun i created => second.created i (first.created i created), fun e occupied => ?_,
    fun errno => second.errno (first.errno errno)⟩
  obtain ⟨before, entry⟩ := second.denotes e occupied
  obtain ⟨before', entry'⟩ := first.denotes e before
  exact ⟨before', entry.trans entry'⟩

/-- The lists of slots and the names are as they were. -/
theorem of_same (procList : ∀ i, (σ'.semArray i).procList = (σ.semArray i).procList)
    (names : σ'.semNameMap = σ.semNameMap) (errno : σ.errno ≤ 0 → σ'.errno ≤ 0) :
    Anchors σ σ' := by
  refine ⟨fun i created => ?_, fun e occupied => ?_, errno⟩
  · rw [procList]
    exact created
  · rw [names] at occupied ⊢
    exact ⟨occupied, rfl⟩

/-- A change of the other variables. -/
theorem globals (anchors : Anchors σ σ') (array : σ''.semArray = σ'.semArray)
    (names : σ''.semNameMap = σ'.semNameMap) (errno : σ''.errno = σ'.errno) :
    Anchors σ σ'' := by
  refine anchors.trans (of_same (fun i => by rw [array]) names fun notPositive => ?_)
  rw [errno]
  exact notPositive

theorem setErrno (σ : SeqFs) {errno : Int} (notPositive : errno ≤ 0) :
    Anchors σ (σ.setErrno errno) :=
  of_same (fun _ => rfl) rfl fun _ => notPositive

theorem modSem (σ : SeqFs) (i : SlotIx) (f : SemCdt → SemCdt)
    (kept : ∀ s, (f s).procList = s.procList) : Anchors σ (σ.modSem i f) := by
  refine of_same (fun j => ?_) rfl id
  by_cases same : j = i <;> simp [Fs.modSem, same, kept]

theorem addCount (σ : SeqFs) (i : SlotIx) (amount : Int) : Anchors σ (σ.addCount i amount) :=
  modSem σ i (fun s => { s with semCount := s.semCount + amount }) fun _ => rfl

theorem release (σ : SeqFs) (i : SlotIx) : Anchors σ (σ.release i) := by
  refine of_same (fun j => ?_) rfl id
  rw [release_semArray]
  by_cases same : j = i <;> simp [same]

end Anchors

theorem Anchored.anchors (anchored : σ.Anchored) (anchors : Anchors σ σ') : σ'.Anchored := by
  refine ⟨fun e occupied => ?_, fun e a key => ?_, anchors.errno anchored.errno⟩
  · obtain ⟨before, entry⟩ := anchors.denotes e occupied
    rw [entry]
    exact anchors.created _ (anchored.denotes e before)
  · obtain ⟨-, entry⟩ := anchors.denotes e (by rw [HashTable.occupied, key]; rfl)
    exact anchored.placed e a (entry ▸ key)

/-- The slot that a name is found to denote has a list. -/
theorem Anchored.exists_list (anchored : σ.Anchored) {name : CString} {i : SlotIx}
    (bound : σ.semNameMap.hashTableFind name = some i) :
    ∃ l, (σ.semArray i).procList = some l := by
  obtain ⟨e, holds, value⟩ := HashTable.exists_of_hashTableFind bound
  have created := anchored.denotes e (HashTable.occupied_of_holds holds)
  rw [value] at created
  exact Option.ne_none_iff_exists'.mp created

/-! ## Operations -/

theorem anchors_semClose (σ : SeqFs) (handle : Int) : Anchors σ (σ.semClose handle).1 := by
  have deleted : ∀ i, Anchors σ (σ.delete (σ.semArray i).procList σ.who) := fun _ =>
    Anchors.of_same (fun _ => rfl) rfl id
  have ends := σ.semClose_ends handle
  generalize σ.semClose handle = result at ends ⊢
  cases ends with
  | refused => exact Anchors.setErrno σ (by decide)
  | last => exact ((deleted _).trans (Anchors.release _ _)).globals rfl rfl rfl
  | left => exact (deleted _).globals rfl rfl rfl

theorem anchors_semDestroy (σ : SeqFs) (handle : Int) : Anchors σ (σ.semDestroy handle).1 := by
  have ends := σ.semDestroy_ends handle
  generalize σ.semDestroy handle = result at ends ⊢
  cases ends with
  | refused => exact Anchors.setErrno σ (by decide)
  | busy => exact Anchors.setErrno σ (by decide)
  | destroyed => exact (Anchors.release σ _).globals rfl rfl rfl

theorem anchors_semUnlink (σ : SeqFs) (name : CString) : Anchors σ (σ.semUnlink name).1 := by
  have ends := σ.semUnlink_ends name
  generalize σ.semUnlink name = result at ends ⊢
  cases ends with
  | tooLong => exact Anchors.setErrno σ (by decide)
  | absent => exact Anchors.setErrno σ (by decide)
  | stranger => exact Anchors.setErrno σ (by decide)
  | unused => exact Anchors.refl σ
  | @unlinked i =>
      apply (Anchors.modSem σ i (fun s => { s with unlinked := true }) fun _ => rfl).trans
      exact ⟨fun _ => id, fun e => kept_of_hashTableRemove σ.semNameMap name e, id⟩

theorem anchors_semWait (σ : SeqFs) (handle : Int) : Anchors σ (σ.semWait handle).1 := by
  have cleared := Anchors.setErrno σ (le_refl 0)
  have ends := σ.semWait_ends handle
  generalize σ.semWait handle = result at ends ⊢
  cases ends with
  | refused => exact Anchors.setErrno σ (by decide)
  | @queued i =>
      have queued : Anchors σ (((σ.setErrno 0).setDontReply true).insert
          (σ.semArray i).blockedList σ.who) :=
        cleared.trans (Anchors.of_same (fun _ => rfl) rfl id)
      exact (queued.trans (Anchors.addCount _ i (-1))).globals rfl rfl rfl
  | passed => exact (cleared.trans (Anchors.addCount _ _ (-1))).globals rfl rfl rfl

theorem anchors_semTrywait (σ : SeqFs) (handle : Int) : Anchors σ (σ.semTrywait handle).1 := by
  have cleared := Anchors.setErrno σ (le_refl 0)
  have ends := σ.semTrywait_ends handle
  generalize σ.semTrywait handle = result at ends ⊢
  cases ends with
  | refused => exact Anchors.setErrno σ (by decide)
  | again => exact Anchors.setErrno σ (by decide)
  | tried => exact (cleared.trans (Anchors.addCount _ _ (-1))).globals rfl rfl rfl

theorem anchors_semPost (σ : SeqFs) (handle proc : Int) : Anchors σ (σ.semPost handle proc) := by
  have cleared := Anchors.setErrno σ (le_refl 0)
  have ends := σ.semPost_ends handle proc
  generalize σ.semPost handle proc = result at ends ⊢
  cases ends with
  | refused => exact Anchors.setErrno σ (by decide)
  | @woken i first _ _ took =>
      obtain rfl := took
      have taken : Anchors σ (((σ.setErrno 0).takeFirst (σ.semArray i).blockedList proc).1.semWake
          ((σ.setErrno 0).takeFirst (σ.semArray i).blockedList proc).2 0) :=
        cleared.trans (Anchors.of_same (fun _ => rfl) rfl id)
      exact (taken.trans (Anchors.addCount _ i 1)).globals rfl rfl rfl
  | counted => exact (cleared.trans (Anchors.addCount _ _ 1)).globals rfl rfl rfl

theorem anchors_semGetvalue (σ : SeqFs) (handle : Int) :
    Anchors σ (σ.semGetvalue handle).1 := by
  have ends := σ.semGetvalue_ends handle
  generalize σ.semGetvalue handle = result at ends ⊢
  cases ends with
  | refused => exact Anchors.setErrno σ (by decide)
  | read => exact Anchors.refl σ

theorem anchors_semOpenAll (σ : SeqFs) (pPslot cPslot : Int) :
    Anchors σ (σ.semOpenAll pPslot cPslot) := by
  apply sweep_invariant (I := fun τ => Anchors σ τ) (Anchors.refl σ)
  intro τ i anchors
  have ends := τ.openAllAt_ends pPslot cPslot i
  generalize openAllAt pPslot cPslot τ i = result at ends ⊢
  cases ends with
  | stranger => exact anchors
  | inherited =>
      exact (anchors.trans (Anchors.modSem τ i (fun s => { s with refCount := s.refCount + 1 })
        fun _ => rfl)).globals rfl rfl rfl

theorem anchors_semCloseAll (σ : SeqFs) (pslot : Int) : Anchors σ (σ.semCloseAll pslot) := by
  have closed : Anchors σ (sweep (fun σ (i : SlotIx) => (semClose σ (i : Nat)).1)
      (σ.setWho pslot)) :=
    sweep_invariant (I := fun τ => Anchors σ τ) ((Anchors.refl σ).globals rfl rfl rfl)
      fun τ i anchors => anchors.trans (anchors_semClose τ (i : Nat))
  exact closed.globals rfl rfl rfl

theorem anchors_of_semCreate {value : BitVec 32} {made : SeqFs} {mode : Int}
    (result : σ.semCreate mode value = (made, none)) : Anchors σ made := by
  have ends := σ.semCreate_ends mode value
  rw [result] at ends
  cases ends with
  | noSlot => exact Anchors.setErrno σ (by decide)
  | stale => exact Anchors.refl σ
  | @tooLarge i =>
      apply Anchors.trans (Anchors.modSem σ i _ fun _ => _)
        (Anchors.setErrno _ (show einval ≤ 0 by decide))
      exact fun _ => rfl

theorem Fills.anchors {i : SlotIx} {value : BitVec 32} (fills : Fills σ σ' i value) :
    Anchors σ σ' := by
  refine ⟨fun j created => ?_, fun e occupied => ?_, fun _ => le_of_eq fills.errno⟩
  · by_cases same : j = i
    · rw [same]
      exact fills.created
    · rw [fills.others j same]
      exact created
  · rw [fills.names] at occupied ⊢
    exact ⟨occupied, rfl⟩

theorem anchors_semInit (paired : σ.Paired) (pshared : Int) (value : BitVec 32) :
    Anchors σ (σ.semInit pshared value).1 := by
  have ends := σ.semInit_ends pshared value
  generalize σ.semInit pshared value = result at ends ⊢
  cases ends with
  | notMade result => exact anchors_of_semCreate result
  | @made τ i result =>
      have fills := fills_of_semCreate paired result
      exact (fills.anchors.trans (Anchors.modSem τ i (fun s => { s with unlinked := true })
        fun _ => rfl)).globals rfl rfl rfl

theorem anchored_semOpen (paired : σ.Paired) (anchored : σ.Anchored) (name : CString)
    (oflag : BitVec 32) (mod : Int) (val : BitVec 32) :
    (σ.semOpen name oflag mod val).1.Anchored := by
  have cleared : (σ.setErrno 0).Anchored := anchored.anchors (Anchors.setErrno σ (le_refl 0))
  have ends := σ.semOpen_ends name oflag mod val
  generalize σ.semOpen name oflag mod val = result at ends ⊢
  cases ends with
  | absent => exact anchored.anchors (Anchors.setErrno σ (by decide))
  | tooLong => exact anchored.anchors (Anchors.setErrno σ (by decide))
  | taken => exact anchored.anchors (Anchors.setErrno σ (by decide))
  | uncovered => exact cleared
  | @joined i =>
      exact cleared.anchors ((Anchors.modSem _ i
        (fun s => { s with refCount := s.refCount + 1 }) fun _ => rfl).globals rfl rfl rfl)
  | notMade _ _ _ _ result => exact cleared.anchors (anchors_of_semCreate result)
  | @made τ i _ _ _ _ result =>
      have fills := fills_of_semCreate (σ := σ.setErrno 0) paired result
      have made := cleared.anchors fills.anchors
      rcases HashTable.hashTableInsert_cases τ.semNameMap name with ⟨e₀, stores⟩ | fails
      · refine ⟨fun e occupied => ?_, fun e a key => ?_, made.errno⟩ <;>
          by_cases new : e = e₀
        · simp only [note, setMap, stores.insert, new, HashTable.storeAt_entry_self]
          exact fills.created
        · simp only [note, setMap, stores.insert, HashTable.occupied,
            HashTable.storeAt_entry_of_ne new] at occupied ⊢
          exact made.denotes e occupied
        · simp only [note, setMap, stores.insert, new, HashTable.storeAt_entry_self] at key
          rw [new]
          exact (Option.some.inj key).symm
        · simp only [note, setMap, stores.insert, HashTable.storeAt_entry_of_ne new] at key
          exact made.placed e a key
      · simp only [(fails i).1]
        exact ⟨made.denotes, made.placed, made.errno⟩

theorem anchored_dispatch (paired : σ.Paired) (anchored : σ.Anchored) (m : Message)
    (g : Garbage) : (σ.dispatch m g).1.Anchored := by
  rw [dispatch]
  cases Funcion.ofInt m.funcion with
  | none => exact anchored
  | some funcion =>
      cases funcion with
      | semOpen =>
          have opened := anchored_semOpen paired anchored (requestName m)
            (BitVec.ofInt 32 m.oflag) (if m.cantArg = 4 then m.permisos else g.mod)
            (if m.cantArg = 4 then BitVec.ofInt 32 m.valInicial else g.val)
          exact ⟨opened.denotes, opened.placed, opened.errno⟩
      | semClose => exact anchored.anchors ((anchors_semClose σ m.semaforo).globals rfl rfl rfl)
      | semInit => exact anchored.anchors ((anchors_semInit paired m.pshared _).globals rfl rfl rfl)
      | semWait => exact anchored.anchors ((anchors_semWait σ m.semaforo).globals rfl rfl rfl)
      | semPost =>
          exact anchored.anchors ((anchors_semPost σ m.semaforo g.proc).globals rfl rfl rfl)
      | semUlink =>
          exact anchored.anchors ((anchors_semUnlink σ (requestName m)).globals rfl rfl rfl)
      | semGetval => exact anchored.anchors ((anchors_semGetvalue σ m.semaforo).globals rfl rfl rfl)
      | semTrywait => exact anchored.anchors ((anchors_semTrywait σ m.semaforo).globals rfl rfl rfl)
      | semDestroy => exact anchored.anchors ((anchors_semDestroy σ m.semaforo).globals rfl rfl rfl)
      | semTimedwait => exact ⟨anchored.denotes, anchored.placed, anchored.errno⟩

theorem anchored_step (paired : σ.Paired) (anchored : σ.Anchored) (e : Event) :
    (σ.step e).Anchored := by
  have begun : (σ.getWork e.source).Anchored := ⟨anchored.denotes, anchored.placed, anchored.errno⟩
  have served : ((σ.getWork e.source).callVector e).1.Anchored := by
    cases e with
    | semaph who m g => exact anchored_dispatch (σ := σ.getWork who) paired begun m g
    | fork parent child => exact begun.anchors (anchors_semOpenAll _ parent child)
    | exec slot => exact begun.anchors (anchors_semCloseAll _ slot)
    | exit slot => exact begun.anchors (anchors_semCloseAll _ slot)
  rw [Fs.step]
  split
  · exact served
  · exact ⟨served.denotes, served.placed, served.errno⟩

theorem start_anchored : (Fs.start SeqStore.empty).Anchored where
  denotes e occupied := by
    simp [Fs.start, initSemServer, HashTable.newHashTable, HashTable.occupied] at occupied
  placed e a key := by simp [Fs.start, initSemServer, HashTable.newHashTable] at key
  errno := le_refl 0

end Fs

namespace World

variable {w : World (Pools Int)} {es : List Event} {guard : World (Pools Int) → Event → Prop}

/-- What holds in the states of all runs. -/
structure Sturdy (w : World (Pools Int)) : Prop where
  simulated : w.Simulated
  paired : w.abs.fs.Paired
  anchored : w.abs.fs.Anchored

theorem boot_sturdy : boot.Sturdy := by
  refine ⟨boot_simulated, ?_, ?_⟩ <;> rw [boot_abs]
  · exact Fs.start_paired
  · exact Fs.start_anchored

theorem Sturdy.step (sturdy : w.Sturdy) (e : Event) : (w.step e).Sturdy := by
  refine ⟨step_simulated sturdy.simulated e, ?_, ?_⟩ <;> rw [step_abs sturdy.simulated]
  · exact Fs.paired_step sturdy.paired e
  · exact Fs.anchored_step sturdy.paired sturdy.anchored e

theorem sturdy_of_run (run : Run World.step guard boot es w) : w.Sturdy :=
  run.invariant boot_sturdy fun _ e sturdy _ => sturdy.step e

/-- The world after some events. -/
def after (es : List Event) : World (Pools Int) :=
  es.foldl World.step boot

theorem after_snoc (es : List Event) (e : Event) : after (es ++ [e]) = (after es).step e := by
  simp [after]

theorem after_run (es : List Event) : Run World.step (fun _ _ => True) boot es (after es) := by
  induction es using List.reverseRecOn with
  | nil => exact Run.nil
  | append_singleton es e ih =>
      rw [after_snoc]
      exact ih.snoc trivial

theorem after_sturdy (es : List Event) : (after es).Sturdy := by
  induction es using List.reverseRecOn with
  | nil => exact boot_sturdy
  | append_singleton es e ih =>
      rw [after_snoc]
      exact ih.step e

end World

end MinixSemaphore.Server
