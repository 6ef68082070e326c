import MinixSemaphore.Client.Library
import MinixSemaphore.Names.FiniteMap
import MinixSemaphore.Server.States

/-!
# Opening and creating semaphores

`sem_create` looks at `errno` to see whether there was a slot, and goes by whatever an
earlier request has left there. `sem_open` clears it first, and `sem_init` does not. The
tests of `sem_open` leave two cases out, in which it fails without an error number.
-/

namespace MinixSemaphore.Server

open MinixSemaphore.Lists
open MinixSemaphore.Names
open MinixSemaphore.Store
open MinixSemaphore.Semaphore
open MinixSemaphore.Transition

universe u

/-! ## `sem_init` -/

namespace Fs

open SemTable

/-- Some slot holds no semaphore. -/
def HasFree {P : Type u} (σ : Fs P) : Prop :=
  ∃ i, (σ.semArray i).refCount = 0

instance {P : Type u} (σ : Fs P) : Decidable σ.HasFree :=
  inferInstanceAs (Decidable (∃ i, (σ.semArray i).refCount = 0))

/-- What `sem_init` is said to do: it depends on the table and the value only. -/
structure InitAsTold (σ : Fs (Pools Int)) (pshared : Int) (value : BitVec 32) : Prop where
  succeeds : (σ.semInit pshared value).2 ≠ none ↔ σ.HasFree ∧ value.toNat ≤ semValueMax
  gives : ∀ i, (σ.semInit pshared value).2 = some i →
    firstFit (fun j => decide ((σ.semArray j).refCount = 0)) = some i ∧
      ((σ.semInit pshared value).1.semArray i).semCount = value.toNat ∧
      (σ.semInit pshared value).1.procs i = [σ.who] ∧
      (σ.semInit pshared value).1.blocked i = []
  fails : (σ.semInit pshared value).2 = none →
    (σ.semInit pshared value).1.errno = if σ.HasFree then einval else enospc

/-- If there is a slot, no earlier request has left an error number that `sem_init` would
not leave itself, and there is a node for the caller. -/
def InitReady (σ : Fs (Pools Int)) (value : BitVec 32) : Prop :=
  σ.HasFree → (value.toNat ≤ semValueMax → σ.errno = 0 ∧ σ.pools.used < maxNodes) ∧
    (semValueMax < value.toNat → σ.errno = 0 ∨ σ.errno = einval)

variable {σ : Fs (Pools Int)} {τ : SeqFs}

theorem Sim.hasFree (sim : Sim σ τ) : τ.HasFree ↔ σ.HasFree := by
  rw [HasFree, HasFree, sim.semArray]

/-- Without an earlier error, the error number says why `sem_create` has failed. -/
theorem NotMade.told {τ' : SeqFs} {value : BitVec 32} (notMade : NotMade τ value τ')
    (ready : τ.errno = 0) : ¬(τ.HasFree ∧ value.toNat ≤ semValueMax) ∧
      τ'.errno = if τ.HasFree then einval else enospc := by
  cases notMade with
  | noSlot busy =>
      have noFree : ¬τ.HasFree := by
        rintro ⟨i, free⟩
        exact busy i free
      rw [if_neg noFree]
      exact ⟨fun both => noFree both.1, rfl⟩
  | stale _ stale => exact absurd ready stale
  | @tooLarge i _ free _ large =>
      rw [if_pos ⟨i, free⟩]
      exact ⟨fun both => absurd large (not_lt.mpr both.2), rfl⟩

theorem semInit_made (paired : τ.Paired) (pshared : Int) (value : BitVec 32) :
    (∃ τ', τ.semInit pshared value = (τ', none) ∧ NotMade τ value τ') ∨
      ∃ τ' i, τ.semInit pshared value = (τ', some i) ∧ τ.errno = 0 ∧
        value.toNat ≤ semValueMax ∧
        firstFit (fun j => decide ((τ.semArray j).refCount = 0)) = some i ∧
        (τ'.semArray i).semCount = value.toNat ∧
        τ'.members i = (if τ.pools.used < maxNodes then [τ.who] else []) ∧
        τ'.waiters i = [] := by
  have ends := τ.semInit_ends pshared value
  generalize τ.semInit pshared value = result at ends ⊢
  rcases semCreate_made paired 0 value with ⟨τ', created, notMade⟩ | ⟨τ', i, created, fills⟩
  · cases ends with
    | notMade result =>
        cases result.symm.trans created
        exact Or.inl ⟨τ', rfl, notMade⟩
    | made result =>
        rw [created] at result
        cases result
  · cases ends with
    | notMade result =>
        rw [created] at result
        cases result
    | made result =>
        cases result.symm.trans created
        obtain ⟨members, waiters⟩ := lists_modSem (σ := τ') i
          (fun s => { s with unlinked := true }) (fun _ => rfl) (fun _ => rfl) i
        refine Or.inr ⟨_, i, rfl, fills.ready, fills.inRange, fills.first, ?_, ?_, ?_⟩
        · simpa [note, modSem] using fills.count
        · exact members.trans fills.members
        · exact waiters.trans fills.waiters

theorem initAsTold_iff (sim : Sim σ τ) (paired : τ.Paired) (pshared : Int)
    (value : BitVec 32) : σ.InitAsTold pshared value ↔ σ.InitReady value := by
  obtain ⟨after, result⟩ := sim.semInit pshared value
  rcases semInit_made paired pshared value with
    ⟨τ', initEq, notMade⟩ | ⟨τ', i, initEq, ready, small, first, count, members, waiters⟩
  · rw [initEq] at after result
    have after : Sim (σ.semInit pshared value).1 τ' := after
    have errno := after.errno
    have result : (σ.semInit pshared value).2 = none := result
    cases notMade with
    | noSlot busy =>
        have noFree : ¬σ.HasFree := by
          rw [← sim.hasFree]
          rintro ⟨j, free⟩
          exact busy j free
        refine iff_of_true ⟨by simp [result, noFree], by simp [result], fun _ => ?_⟩
          fun free => absurd free noFree
        rw [if_neg noFree, ← errno]
        rfl
    | @stale j free stale =>
        have hasFree : σ.HasFree := sim.hasFree.mp ⟨j, free⟩
        rw [sim.errno] at stale errno
        constructor
        · intro told _
          constructor
          · intro small
            exact absurd result (told.succeeds.mpr ⟨hasFree, small⟩)
          · intro _
            have einval := told.fails result
            rw [if_pos hasFree] at einval
            exact Or.inr (errno.trans einval)
        · intro ready
          obtain ⟨valid, invalid⟩ := ready hasFree
          have large : semValueMax < value.toNat := by
            by_contra small
            exact stale (valid (not_lt.mp small)).1
          refine ⟨by simp [result, large], by simp [result], fun _ => ?_⟩
          rw [if_pos hasFree, ← errno]
          exact (invalid large).resolve_left stale
    | @tooLarge j _ free ready large =>
        have hasFree : σ.HasFree := sim.hasFree.mp ⟨j, free⟩
        rw [sim.errno] at ready
        refine iff_of_true ⟨by simp [result, large], by simp [result], fun _ => ?_⟩
          fun _ => ⟨fun small => absurd large (not_lt.mpr small), fun _ => Or.inl ready⟩
        rw [if_pos hasFree, ← errno]
        rfl
  · rw [initEq] at after result
    have after : Sim (σ.semInit pshared value).1 τ' := after
    have result : (σ.semInit pshared value).2 = some i := result
    rw [sim.semArray] at first
    rw [after.semArray] at count
    rw [after.members, sim.used, sim.who] at members
    rw [after.waiters] at waiters
    have hasFree : σ.HasFree := ⟨i, by simpa using (firstFit_eq_some_iff.mp first).1⟩
    have ready : σ.errno = 0 := sim.errno.symm.trans ready
    constructor
    · intro told _
      refine ⟨fun _ => ⟨ready, ?_⟩, fun _ => Or.inl ready⟩
      by_contra full
      obtain ⟨-, -, procs, -⟩ := told.gives i result
      rw [members, if_neg full] at procs
      simp at procs
    · intro initReady
      have room := ((initReady hasFree).1 small).2
      refine ⟨by simp [result, hasFree, small], fun j made => ?_, by simp [result]⟩
      obtain rfl : i = j := Option.some.inj (result.symm.trans made)
      rw [members, if_pos room]
      exact ⟨first, count, rfl, waiters⟩

end Fs

/-! ## `sem_open` -/

namespace Fs

/-- What the manual says about `sem_open`. -/
structure OpenAsTold (σ : Fs (Pools Int)) (name : CString) (oflag : BitVec 32) (mod : Int)
    (val : BitVec 32) : Prop where
  refuses : ∀ i, σ.semNameMap.hashTableFind name = some i → Creates oflag → Excludes oflag →
    (σ.semOpen name oflag mod val).2 = none ∧ (σ.semOpen name oflag mod val).1.errno = eexist
  opens : ∀ i, σ.semNameMap.hashTableFind name = some i → ¬(Creates oflag ∧ Excludes oflag) →
    (σ.semOpen name oflag mod val).2 = some i ∧
      (σ.semOpen name oflag mod val).1.procs i = σ.who :: σ.procs i ∧
      ((σ.semOpen name oflag mod val).1.semArray i).semCount = (σ.semArray i).semCount ∧
      ∀ mod' val', σ.semOpen name oflag mod' val' = σ.semOpen name oflag mod val
  creates : σ.semNameMap.hashTableFind name = none → Creates oflag →
    ((σ.semOpen name oflag mod val).2 ≠ none ↔ σ.HasFree ∧ val.toNat ≤ semValueMax) ∧
      (∀ i, (σ.semOpen name oflag mod val).2 = some i → (σ.semArray i).refCount = 0 ∧
        ((σ.semOpen name oflag mod val).1.semArray i).semCount = val.toNat ∧
        (σ.semOpen name oflag mod val).1.semNameMap.hashTableFind name = some i) ∧
      ((σ.semOpen name oflag mod val).2 = none →
        (σ.semOpen name oflag mod val).1.errno = if σ.HasFree then einval else enospc)
  absent : σ.semNameMap.hashTableFind name = none → ¬Creates oflag →
    (σ.semOpen name oflag mod val).2 = none ∧ (σ.semOpen name oflag mod val).1.errno = enoent
  errno : (σ.semOpen name oflag mod val).2 = none → (σ.semOpen name oflag mod val).1.errno ≠ 0

/-- Whoever opens a name that is bound sets `O_EXCL` with `O_CREAT` only, and there is a
node for the caller if it is not set. Whoever creates a semaphore does not set `O_EXCL`,
and if one can be created there is an entry for its name. -/
def OpenReady (σ : Fs (Pools Int)) (name : CString) (oflag val : BitVec 32) : Prop :=
  if σ.semNameMap.hashTableFind name = none then
    Creates oflag → ¬Excludes oflag ∧ (σ.HasFree → val.toNat ≤ semValueMax →
      ∃ e, σ.semNameMap.Stores name e)
  else
    Creates oflag ∧ Excludes oflag ∨ ¬Excludes oflag ∧ σ.pools.used < maxNodes

variable {σ : Fs (Pools Int)} {τ : SeqFs} {name : CString} {oflag : BitVec 32} {mod : Int}
  {val : BitVec 32}

/-- A name that is not bound yet, and a request to create it. -/
theorem openAsTold_iff_of_creates (sim : Sim σ τ) (paired : τ.Paired) (anchored : τ.Anchored)
    (short : name.length < maxName) (unbound : σ.semNameMap.hashTableFind name = none)
    (creates : Creates oflag) (shared : ¬Excludes oflag) :
    σ.OpenAsTold name oflag mod val ↔
      (σ.HasFree → val.toNat ≤ semValueMax → ∃ e, σ.semNameMap.Stores name e) := by
  obtain ⟨after, result⟩ := sim.semOpen name oflag mod val
  have names := sim.semNameMap
  have unbound' : τ.semNameMap.hashTableFind name = none :=
    (congrArg (fun map => map.hashTableFind name) names).trans unbound
  have bound : ∀ i, ¬σ.semNameMap.hashTableFind name = some i := by simp [unbound]
  have array : (τ.setErrno 0).semArray = σ.semArray := sim.semArray
  rcases semCreate_made (σ := τ.setErrno 0) paired mod val with
    ⟨τ', createEq, notMade⟩ | ⟨τ', i, createEq, fills⟩
  · rw [semOpen_unbound unbound' short creates shared createEq] at after result
    have after : Sim (σ.semOpen name oflag mod val).1 τ' := after
    have result : (σ.semOpen name oflag mod val).2 = none := result
    obtain ⟨notPossible, errnoEq⟩ := notMade.told rfl
    have free : (τ.setErrno 0).HasFree ↔ σ.HasFree := sim.hasFree
    simp only [free] at notPossible errnoEq
    rw [after.errno] at errnoEq
    apply iff_of_true
    · constructor
      · exact fun j named => absurd named (bound j)
      · exact fun j named => absurd named (bound j)
      · exact fun _ _ => ⟨by simp [result, notPossible], by simp [result], fun _ => errnoEq⟩
      · exact fun _ plain => absurd creates plain
      · intro _
        rw [errnoEq]
        split
        · exact show einval ≠ 0 by decide
        · exact show enospc ≠ 0 by decide
    · exact fun hasFree small => absurd ⟨hasFree, small⟩ notPossible
  · rw [semOpen_unbound unbound' short creates shared createEq] at after result
    have after : Sim (σ.semOpen name oflag mod val).1
      ((τ'.setMap (τ'.semNameMap.hashTableInsert name i).1).note i
        fun p => .created p val.toNat (some (τ'.entryFor name))) := after
    have result : (σ.semOpen name oflag mod val).2 = some i := result
    have idle : (σ.semArray i).refCount = 0 := by
      have first := (firstFit_eq_some_iff.mp fills.first).1
      rw [array] at first
      simpa using first
    have hasFree : σ.HasFree := ⟨i, idle⟩
    have mapEq : τ'.semNameMap = σ.semNameMap := fills.names.trans names
    have map : (σ.semOpen name oflag mod val).1.semNameMap =
        (σ.semNameMap.hashTableInsert name i).1 := by
      rw [← after.semNameMap, ← mapEq]
      rfl
    have count : ((σ.semOpen name oflag mod val).1.semArray i).semCount = val.toNat := by
      rw [← after.semArray]
      exact fills.count
    constructor
    · intro told _ _
      rcases HashTable.hashTableInsert_cases σ.semNameMap name with stores | fails
      · exact stores
      · have found := ((told.creates unbound creates).2.1 i result).2.2
        rw [map, (fails i).1, unbound] at found
        contradiction
    · intro stored
      obtain ⟨e, stores⟩ := stored hasFree fills.inRange
      have placed : ∀ j a, (σ.semNameMap.entryArray j).key = some a → a = HashTable.row j := by
        rw [← names]
        exact anchored.placed
      refine ⟨fun j named => absurd named (bound j), fun j named => absurd named (bound j),
        fun _ _ => ⟨by simp [result, hasFree, fills.inRange], fun j made => ?_, by simp [result]⟩,
        fun _ plain => absurd creates plain, by simp [result]⟩
      obtain rfl : i = j := Option.some.inj (result.symm.trans made)
      refine ⟨idle, count, ?_⟩
      rw [map, stores.insert]
      exact HashTable.hashTableFind_storeAt short placed stores

theorem openAsTold_iff_of_unbound (sim : Sim σ τ) (paired : τ.Paired) (anchored : τ.Anchored)
    (short : name.length < maxName) (unbound : σ.semNameMap.hashTableFind name = none) :
    σ.OpenAsTold name oflag mod val ↔ σ.OpenReady name oflag val := by
  rw [OpenReady, if_pos unbound]
  by_cases creates : Creates oflag
  · by_cases excludes : Excludes oflag
    · have result := semOpen_uncovered mod val short excludes
        (iff_of_true unbound creates)
      refine iff_of_false (fun told => ?_) fun ready => (ready creates).1 excludes
      have errno := told.errno
      rw [result] at errno
      exact errno rfl rfl
    · rw [openAsTold_iff_of_creates sim paired anchored short unbound creates excludes]
      exact ⟨fun stored _ => ⟨excludes, stored⟩, fun ready => (ready creates).2⟩
  · have result := semOpen_absent mod val unbound creates
    refine iff_of_true ⟨fun i bound => ?_, fun i bound => ?_, fun _ wanted => absurd wanted creates,
      fun _ _ => ?_, fun _ => ?_⟩ fun wanted => absurd wanted creates
    · simp [unbound] at bound
    · simp [unbound] at bound
    · rw [result]
      exact ⟨rfl, rfl⟩
    · rw [result]
      exact (show enoent ≠ 0 by decide)

/-- Whoever joins becomes a member if there is a node. -/
theorem members_semOpen (mod : Int) (val : BitVec 32) (anchored : τ.Anchored) {i : SlotIx}
    (bound : τ.semNameMap.hashTableFind name = some i) (short : name.length < maxName)
    (shared : ¬Excludes oflag) : (τ.semOpen name oflag mod val).1.members i =
      if τ.pools.used < maxNodes then τ.who :: τ.members i else τ.members i := by
  obtain ⟨l, list⟩ := anchored.exists_list bound
  obtain ⟨grown, grownEq⟩ : ∃ τ', τ' = (τ.setErrno 0).modSem i fun s =>
      { s with refCount := s.refCount + 1 } := ⟨_, rfl⟩
  have pools : grown.pools = τ.pools := by
    rw [grownEq]
    rfl
  have here : (((grown.insert (τ.semArray i).procList τ.who).note i .opened).semArray
      i).procList = some l := by
    rw [grownEq]
    simpa [note, Fs.insert, modSem, setErrno] using list
  rw [semOpen_bound mod val bound short shared, ← grownEq, SemTable.members, here, SemTable.members,
    list]
  by_cases room : τ.pools.used < maxNodes
  · rw [if_pos room, ← pools]
    exact insert_seq_self (pools ▸ room) l τ.who
  · rw [if_neg room, ← pools]
    exact congrArg (fun s => s.seq (some l))
      (insert_pools_of_full (pools ▸ not_lt.mp room) (some l) τ.who)

/-- A name that is bound. -/
theorem openAsTold_iff_of_bound (sim : Sim σ τ) (anchored : τ.Anchored)
    (short : name.length < maxName) {i : SlotIx}
    (bound : σ.semNameMap.hashTableFind name = some i) :
    σ.OpenAsTold name oflag mod val ↔ σ.OpenReady name oflag val := by
  have unbound : ¬σ.semNameMap.hashTableFind name = none := by simp [bound]
  rw [OpenReady, if_neg unbound]
  by_cases excludes : Excludes oflag
  · by_cases creates : Creates oflag
    · have result := semOpen_exists mod val bound short creates excludes
      refine iff_of_true ⟨fun _ _ _ _ => ?_, fun _ _ plain => absurd ⟨creates, excludes⟩ plain,
        fun none => absurd none unbound, fun none => absurd none unbound, fun _ => ?_⟩
        (Or.inl ⟨creates, excludes⟩)
      · rw [result]
        exact ⟨rfl, rfl⟩
      · rw [result]
        exact (show eexist ≠ 0 by decide)
    · have result := semOpen_uncovered mod val short excludes
        (iff_of_false unbound creates)
      refine iff_of_false (fun told => ?_) ?_
      · have errno := told.errno
        rw [result] at errno
        exact errno rfl rfl
      · rintro (both | ⟨shared, -⟩)
        · exact creates both.1
        · exact shared excludes
  · have result := fun mod' val' => semOpen_bound mod' val' bound short excludes
    obtain ⟨after, -⟩ := sim.semOpen name oflag mod val
    have names := sim.semNameMap
    have bound' : τ.semNameMap.hashTableFind name = some i :=
      (congrArg (fun map => map.hashTableFind name) names).trans bound
    have procs : (σ.semOpen name oflag mod val).1.procs i =
        if σ.pools.used < maxNodes then σ.who :: σ.procs i else σ.procs i := by
      rw [← after.members, members_semOpen mod val anchored bound' short excludes, sim.used,
        sim.who, sim.members]
    have count : ((σ.semOpen name oflag mod val).1.semArray i).semCount =
        (σ.semArray i).semCount := by
      rw [result]
      simp [note, Fs.insert, modSem, setErrno]
    constructor
    · intro told
      obtain ⟨-, joined, -⟩ := told.opens i bound fun both => excludes both.2
      refine Or.inr ⟨excludes, ?_⟩
      by_contra full
      rw [procs, if_neg full] at joined
      have lengths := congrArg List.length joined
      simp at lengths
    · intro ready
      have room : σ.pools.used < maxNodes := by
        rcases ready with both | ⟨-, room⟩
        · exact absurd both.2 excludes
        · exact room
      refine ⟨fun _ _ _ wanted => absurd wanted excludes, fun j named _ => ?_,
        fun none => absurd none unbound, fun none => absurd none unbound, fun failed => ?_⟩
      · obtain rfl : i = j := Option.some.inj (bound.symm.trans named)
        refine ⟨by rw [result], procs.trans (if_pos room), count, fun mod' val' => ?_⟩
        rw [result, result]
      · rw [result] at failed
        contradiction

end Fs

namespace World

variable {w : World (Pools Int)} {es : List Event} {p pshared : Int} {value : BitVec 32}

/-- In every state that a run reaches, `sem_init` does what it is said to do exactly if no
error number of an earlier request stands in its way and there is a node left. Two
states with the same slots in which this is so have the same outcome. -/
theorem initAsTold_iff_ready (run : Run World.step (fun _ _ => True) boot es w) :
    ((w.fs.getWork p).InitAsTold pshared value ↔ (w.fs.getWork p).InitReady value) ∧
      ∀ es' w', Run World.step (fun _ _ => True) boot es' w' →
        w'.fs.semArray = w.fs.semArray →
        (w.fs.getWork p).InitReady value → (w'.fs.getWork p).InitReady value →
          ((w'.fs.getWork p).semInit pshared value).2 =
              ((w.fs.getWork p).semInit pshared value).2 ∧
            (((w'.fs.getWork p).semInit pshared value).2 = none →
              ((w'.fs.getWork p).semInit pshared value).1.errno =
                ((w.fs.getWork p).semInit pshared value).1.errno) := by
  have told : ∀ {es w}, Run World.step (fun _ _ => True) boot es w →
      ((w.fs.getWork p).InitAsTold pshared value ↔ (w.fs.getWork p).InitReady value) := by
    intro es w run
    have sturdy := sturdy_of_run run
    exact Fs.initAsTold_iff (sturdy.simulated.getWork p) (τ := w.abs.fs.getWork p)
      sturdy.paired pshared value
  refine ⟨told run, fun es' w' run' same ready ready' => ?_⟩
  have init := (told run).mpr ready
  have init' := (told run').mpr ready'
  have slots : (w'.fs.getWork p).semArray = (w.fs.getWork p).semArray := same
  have free : (w'.fs.getWork p).HasFree ↔ (w.fs.getWork p).HasFree := by
    rw [Fs.HasFree, Fs.HasFree, slots]
  have succeeds : ((w'.fs.getWork p).semInit pshared value).2 ≠ none ↔
      ((w.fs.getWork p).semInit pshared value).2 ≠ none := by
    rw [init'.succeeds, init.succeeds, free]
  have result : ((w'.fs.getWork p).semInit pshared value).2 =
      ((w.fs.getWork p).semInit pshared value).2 := by
    cases made : ((w.fs.getWork p).semInit pshared value).2 with
    | none => exact not_ne_iff.mp fun made' => succeeds.mp made' made
    | some i =>
        obtain ⟨j, made'⟩ := Option.ne_none_iff_exists'.mp (succeeds.mpr (by rw [made]; simp))
        have first := (init.gives i made).1
        have first' := (init'.gives j made').1
        rw [slots, first] at first'
        rw [made', first']
  refine ⟨result, fun none => ?_⟩
  rw [init'.fails none, init.fails (result.symm.trans none)]
  by_cases hasFree : (w.fs.getWork p).HasFree
  · rw [if_pos hasFree, if_pos (free.mpr hasFree)]
  · rw [if_neg hasFree, if_neg fun hasFree' => hasFree (free.mp hasFree')]

/-- In every state that a run reaches, `sem_open` does what the manual says exactly in the
cases that it tests for, as long as there is a node for a caller that joins and an entry
for a new name. -/
theorem openAsTold_iff_ready {name : CString} {oflag val : BitVec 32} {mod : Int}
    (run : Run World.step (fun _ _ => True) boot es w) (short : name.length < maxName) :
    (w.fs.getWork p).OpenAsTold name oflag mod val ↔
      (w.fs.getWork p).OpenReady name oflag val := by
  have sturdy := sturdy_of_run run
  have sim := sturdy.simulated.getWork p
  have anchored : (w.abs.fs.getWork p).Anchored :=
    ⟨sturdy.anchored.denotes, sturdy.anchored.placed, sturdy.anchored.errno⟩
  cases bound : (w.fs.getWork p).semNameMap.hashTableFind name with
  | none => exact Fs.openAsTold_iff_of_unbound sim sturdy.paired anchored short bound
  | some i => exact Fs.openAsTold_iff_of_bound sim anchored short bound

/-- A semaphore is created, and opened by another process. -/
theorem openAsTold_iff_ready_of_second :
    let w := [Client.call 5 (Client.semOpenRequest default ⟨[97], by simp⟩ 0o100 0 1)].foldl
      World.step boot
    (w.fs.getWork 6).OpenReady ⟨[97], by simp⟩ 0 9 ∧
      (w.fs.getWork 6).OpenAsTold ⟨[97], by simp⟩ 0 0 9 := by
  have ready : (([Client.call 5 (Client.semOpenRequest default ⟨[97], by simp⟩ 0o100 0
      1)].foldl World.step boot).fs.getWork 6).OpenReady ⟨[97], by simp⟩ 0 9 := by
    rw [Fs.OpenReady, if_neg (by decide +kernel)]
    exact Or.inr ⟨by decide, by decide +kernel⟩
  exact ⟨ready, (openAsTold_iff_ready (Allowed.run (by decide +kernel)) (by decide)).mpr ready⟩

/-- A semaphore is to be created exclusively, and nobody else has the name. -/
theorem not_openAsTold_of_exclusive :
    Run World.step (fun _ _ => True) boot [] boot ∧
      ((boot.fs.getWork 5).semOpen ⟨[97], by simp⟩ 0o300 0 1).2 = none ∧
      ((boot.fs.getWork 5).semOpen ⟨[97], by simp⟩ 0o300 0 1).1.errno = 0 ∧
      ¬(boot.fs.getWork 5).OpenAsTold ⟨[97], by simp⟩ 0o300 0 1 := by
  refine ⟨Run.nil, by decide +kernel, by decide +kernel, fun told => ?_⟩
  exact told.errno (by decide +kernel) (by decide +kernel)

/-- A semaphore is opened, and another one initialized. -/
theorem initAsTold_iff_ready_of_open :
    let w := [Client.call 5 (Client.semOpenRequest default ⟨[97], by simp⟩ 0o100 0 1)].foldl
      World.step boot
    (w.fs.getWork 6).InitReady 2 ∧ (w.fs.getWork 6).InitAsTold 0 2 := by
  have ready : (([Client.call 5 (Client.semOpenRequest default ⟨[97], by simp⟩ 0o100 0
      1)].foldl World.step boot).fs.getWork 6).InitReady 2 := fun _ =>
    ⟨fun _ => by decide +kernel, fun large => absurd large (by decide)⟩
  exact ⟨ready, (initAsTold_iff_ready (Allowed.run (by decide +kernel))).1.mpr ready⟩

/-- At the start all slots are free and `sem_init` gives the first one. A process that
has no semaphore leaves all of them when it executes a program, and from then on
`sem_init` gives none. -/
theorem not_initAsTold_of_exec :
    let w := [Event.exec 5].foldl World.step boot
    Run World.step (fun _ _ => True) boot [Event.exec 5] w ∧
      ((boot.fs.getWork 6).semInit 0 1).2 = some 0 ∧
      ((w.fs.getWork 6).semInit 0 1).2 = none ∧ ¬(w.fs.getWork 6).InitAsTold 0 1 := by
  refine ⟨Allowed.run (by decide +kernel), by decide +kernel, by decide +kernel, fun told => ?_⟩
  have refused : ((([Event.exec 5].foldl World.step boot).fs.getWork 6).semInit 0 1).2 = none := by
    decide +kernel
  exact told.succeeds.mpr ⟨by decide +kernel, by decide⟩ refused

end World

end MinixSemaphore.Server
