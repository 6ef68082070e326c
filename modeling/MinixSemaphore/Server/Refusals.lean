import MinixSemaphore.Client.Library
import MinixSemaphore.Lists.Core
import MinixSemaphore.Server.Replies

/-!
# Requests that fail

Every operation tests before it writes, but for two that give a new semaphore its mode
and its count before they look at its value. They do so in a free slot, so that a
request that fails leaves behind nothing that a later one could read, apart from the
error number.
-/

namespace MinixSemaphore.Server

open MinixSemaphore.Lists
open MinixSemaphore.Names
open MinixSemaphore.Store
open MinixSemaphore.Semaphore

universe u

namespace Fs

variable {P : Type u} {σ σ' σ'' : Fs P}

/-- Only `errno` has changed, and what free slots hold besides their reference count. -/
structure Unchanged (σ σ' : Fs P) : Prop where
  refCount : ∀ i, (σ'.semArray i).refCount = (σ.semArray i).refCount
  slot : ∀ i, (σ.semArray i).refCount ≠ 0 → σ'.semArray i = σ.semArray i
  names : σ'.semNameMap = σ.semNameMap
  pools : σ'.pools = σ.pools
  who : σ'.who = σ.who
  dontReply : σ'.dontReply = σ.dontReply
  sent : σ'.sent = σ.sent
  full : σ'.full = σ.full
  acts : σ'.acts = σ.acts

namespace Unchanged

theorem refl (σ : Fs P) : Unchanged σ σ :=
  ⟨fun _ => rfl, fun _ _ => rfl, rfl, rfl, rfl, rfl, rfl, rfl, rfl⟩

theorem trans (first : Unchanged σ σ') (second : Unchanged σ' σ'') : Unchanged σ σ'' where
  refCount i := (second.refCount i).trans (first.refCount i)
  slot i live := by
    have live' : (σ'.semArray i).refCount ≠ 0 := by rwa [first.refCount i]
    exact (second.slot i live').trans (first.slot i live)
  names := second.names.trans first.names
  pools := second.pools.trans first.pools
  who := second.who.trans first.who
  dontReply := second.dontReply.trans first.dontReply
  sent := second.sent.trans first.sent
  full := second.full.trans first.full
  acts := second.acts.trans first.acts

theorem setErrno (σ : Fs P) (errno : Int) : Unchanged σ (σ.setErrno errno) :=
  ⟨fun _ => rfl, fun _ _ => rfl, rfl, rfl, rfl, rfl, rfl, rfl, rfl⟩

/-- An answer writes the buffer only. -/
theorem answer (unchanged : Unchanged σ σ') (rta param1 param2 : Int) (params : Nat) :
    Unchanged σ (σ'.answer rta param1 param2 params) := by
  refine unchanged.trans ?_
  rcases params with _ | _ | _ | _ | params <;>
    exact ⟨fun _ => rfl, fun _ _ => rfl, rfl, rfl, rfl, rfl, rfl, rfl, rfl⟩

/-- Writing a free slot, which stays free. -/
theorem modSem {i : SlotIx} (free : (σ.semArray i).refCount = 0) (f : SemCdt → SemCdt)
    (kept : ∀ s, (f s).refCount = s.refCount) : Unchanged σ (σ.modSem i f) := by
  refine ⟨fun j => ?_, fun j live => ?_, rfl, rfl, rfl, rfl, rfl, rfl, rfl⟩
  · by_cases same : j = i <;> simp [Fs.modSem, same, kept]
  · have other : j ≠ i := fun same => live (same ▸ free)
    simp [Fs.modSem, other]

end Unchanged

variable [ListLib P Int]

/-! ## Operations -/

theorem semCreate_failed (mode : Int) (value : BitVec 32)
    (failed : (σ.semCreate mode value).2 = none) : Unchanged σ (σ.semCreate mode value).1 := by
  have ends := σ.semCreate_ends mode value
  generalize σ.semCreate mode value = result at ends failed ⊢
  cases ends with
  | noSlot => exact Unchanged.setErrno σ enospc
  | stale => exact Unchanged.refl σ
  | tooLarge first =>
      refine Unchanged.trans ?_ (Unchanged.setErrno _ einval)
      exact Unchanged.modSem (idle_of_first first) _ fun _ => rfl
  | made => contradiction

theorem semOpen_failed {name : CString} {oflag : BitVec 32} {mod : Int} {val : BitVec 32}
    (failed : (σ.semOpen name oflag mod val).2 = none) :
    Unchanged σ (σ.semOpen name oflag mod val).1 := by
  have created := semCreate_failed (σ := σ.setErrno 0) mod val
  have ends := σ.semOpen_ends name oflag mod val
  generalize σ.semOpen name oflag mod val = result at ends failed ⊢
  cases ends with
  | absent => exact Unchanged.setErrno σ enoent
  | tooLong => exact Unchanged.setErrno σ enametoolong
  | taken => exact Unchanged.setErrno σ eexist
  | uncovered => exact Unchanged.setErrno σ 0
  | joined => contradiction
  | notMade _ _ _ _ result =>
      rw [result] at created
      exact (Unchanged.setErrno σ 0).trans (created rfl)
  | made => contradiction

theorem semInit_failed {pshared : Int} {value : BitVec 32}
    (failed : (σ.semInit pshared value).2 = none) : Unchanged σ (σ.semInit pshared value).1 := by
  have created := semCreate_failed (σ := σ) 0 value
  have ends := σ.semInit_ends pshared value
  generalize σ.semInit pshared value = result at ends failed ⊢
  cases ends with
  | notMade result =>
      rw [result] at created
      exact created rfl
  | made => contradiction

theorem semDestroy_failed {handle : Int} (failed : (σ.semDestroy handle).2 = -1) :
    Unchanged σ (σ.semDestroy handle).1 := by
  have ends := σ.semDestroy_ends handle
  generalize σ.semDestroy handle = result at ends failed ⊢
  cases ends with
  | refused => exact Unchanged.setErrno σ einval
  | busy => exact Unchanged.setErrno σ ebusy
  | destroyed => contradiction

theorem semUnlink_failed {name : CString} (failed : (σ.semUnlink name).2 = -1) :
    Unchanged σ (σ.semUnlink name).1 := by
  have ends := σ.semUnlink_ends name
  generalize σ.semUnlink name = result at ends failed ⊢
  cases ends with
  | tooLong => exact Unchanged.setErrno σ enametoolong
  | absent => exact Unchanged.setErrno σ enoent
  | stranger => exact Unchanged.setErrno σ eacces
  | unused => exact Unchanged.refl σ
  | unlinked => contradiction

theorem semClose_failed {handle : Int} (failed : (σ.semClose handle).2 = -1) :
    Unchanged σ (σ.semClose handle).1 := by
  have ends := σ.semClose_ends handle
  generalize σ.semClose handle = result at ends failed ⊢
  cases ends with
  | refused => exact Unchanged.setErrno σ einval
  | last | left => contradiction

theorem semWait_failed {handle : Int} (failed : (σ.semWait handle).2 = -1) :
    Unchanged σ (σ.semWait handle).1 := by
  have ends := σ.semWait_ends handle
  generalize σ.semWait handle = result at ends failed ⊢
  cases ends with
  | refused => exact Unchanged.setErrno σ einval
  | queued | passed => contradiction

theorem semTrywait_failed {handle : Int} (failed : (σ.semTrywait handle).2 = -1) :
    Unchanged σ (σ.semTrywait handle).1 := by
  have ends := σ.semTrywait_ends handle
  generalize σ.semTrywait handle = result at ends failed ⊢
  cases ends with
  | refused => exact Unchanged.setErrno σ einval
  | again => exact Unchanged.setErrno σ eagain
  | tried => contradiction

/-- `sem_post` has no result; it has failed if it leaves an error number. -/
theorem semPost_failed {handle proc : Int} (failed : (σ.semPost handle proc).errno ≠ 0) :
    Unchanged σ (σ.semPost handle proc) := by
  have ends := σ.semPost_ends handle proc
  generalize σ.semPost handle proc = result at ends failed ⊢
  cases ends with
  | refused => exact Unchanged.setErrno σ einval
  | woken _ _ took =>
      subst took
      exact absurd rfl failed
  | counted => exact absurd rfl failed

theorem semGetvalue_failed {handle : Int} (failed : (σ.semGetvalue handle).2.1 = -1) :
    Unchanged σ (σ.semGetvalue handle).1 := by
  have ends := σ.semGetvalue_ends handle
  generalize σ.semGetvalue handle = result at ends failed ⊢
  cases ends with
  | refused => exact Unchanged.setErrno σ einval
  | read => contradiction

/-! ## Requests -/

/-- The operation that a request asks for fails. -/
def Fails (σ : Fs P) (m : Message) (g : Garbage) : Prop :=
  match Funcion.ofInt m.funcion with
  | some .semOpen =>
      (σ.semOpen (requestName m) (BitVec.ofInt 32 m.oflag)
        (if m.cantArg = 4 then m.permisos else g.mod)
        (if m.cantArg = 4 then BitVec.ofInt 32 m.valInicial else g.val)).2 = none
  | some .semClose => (σ.semClose m.semaforo).2 = -1
  | some .semInit => (σ.semInit m.pshared (BitVec.ofInt 32 m.valInicial)).2 = none
  | some .semWait => (σ.semWait m.semaforo).2 = -1
  | some .semPost => (σ.semPost m.semaforo g.proc).errno ≠ 0
  | some .semUlink => (σ.semUnlink (requestName m)).2 = -1
  | some .semGetval => (σ.semGetvalue m.semaforo).2.1 = -1
  | some .semTrywait => (σ.semTrywait m.semaforo).2 = -1
  | some .semDestroy => (σ.semDestroy m.semaforo).2 = -1
  | some .semTimedwait => False
  | none => False

theorem dispatch_failed {m : Message} {g : Garbage} (failed : σ.Fails m g) :
    Unchanged σ (σ.dispatch m g).1 := by
  rw [Fails] at failed
  rw [dispatch]
  cases code : Funcion.ofInt m.funcion with
  | none =>
      rw [code] at failed
      exact failed.elim
  | some funcion =>
      rw [code] at failed
      cases funcion with
      | semOpen => exact (semOpen_failed failed).answer _ 0 0 1
      | semClose => exact (semClose_failed failed).answer _ _ 0 2
      | semInit => exact (semInit_failed failed).answer _ _ 0 2
      | semWait => exact (semWait_failed failed).answer _ _ 0 2
      | semPost => exact (semPost_failed failed).answer _ _ 0 2
      | semUlink => exact (semUnlink_failed failed).answer _ 0 0 1
      | semGetval => exact (semGetvalue_failed failed).answer _ _ _ 3
      | semTrywait => exact (semTrywait_failed failed).answer _ _ 0 2
      | semDestroy => exact (semDestroy_failed failed).answer _ _ 0 2
      | semTimedwait => exact failed.elim

/-- In every state, the nine operations change nothing if they fail. The only message
that is sent for a request that fails is its own reply. -/
theorem unchanged_of_failed (σ : Fs (Pools Int)) :
    (∀ name oflag mod val, (σ.semOpen name oflag mod val).2 = none →
      Unchanged σ (σ.semOpen name oflag mod val).1) ∧
    (∀ pshared value, (σ.semInit pshared value).2 = none →
      Unchanged σ (σ.semInit pshared value).1) ∧
    (∀ handle, (σ.semWait handle).2 = -1 → Unchanged σ (σ.semWait handle).1) ∧
    (∀ handle, (σ.semTrywait handle).2 = -1 → Unchanged σ (σ.semTrywait handle).1) ∧
    (∀ handle, (σ.semGetvalue handle).2.1 = -1 → Unchanged σ (σ.semGetvalue handle).1) ∧
    (∀ handle, (σ.semClose handle).2 = -1 → Unchanged σ (σ.semClose handle).1) ∧
    (∀ name, (σ.semUnlink name).2 = -1 → Unchanged σ (σ.semUnlink name).1) ∧
    (∀ handle, (σ.semDestroy handle).2 = -1 → Unchanged σ (σ.semDestroy handle).1) ∧
    (∀ handle proc, (σ.semPost handle proc).errno ≠ 0 →
      Unchanged σ (σ.semPost handle proc)) ∧
    ∀ p m g, (σ.getWork p).Fails m g →
      Unchanged (σ.getWork p) ((σ.getWork p).dispatch m g).1 ∧
        (σ.step (.semaph p m g)).sent = [(p, (σ.step (.semaph p m g)).m1)] := by
  refine ⟨fun _ _ _ _ => semOpen_failed, fun _ _ => semInit_failed, fun _ => semWait_failed,
    fun _ => semTrywait_failed, fun _ => semGetvalue_failed, fun _ => semClose_failed,
    fun _ => semUnlink_failed, fun _ => semDestroy_failed, fun _ _ => semPost_failed,
    fun p m g failed => ?_⟩
  have unchanged := dispatch_failed failed
  have did : (σ.step (.semaph p m g)).acts = [] := by
    have recorded : ((σ.getWork p).dispatch m g).1.acts = [] := unchanged.acts
    rw [step_semaph]
    simp only
    split <;> exact recorded
  exact ⟨unchanged, step_sent_of_acts did⟩

/-- A semaphore that is created with too large a count: its slot has already been
written when the value is refused. -/
theorem unchanged_of_failed_of_value :
    let σ : Fs (Pools Int) := Fs.start Pools.zeroed
    let failed := (σ.setWho 5).semOpen ⟨[97], by simp⟩ 0o100 0 40000
    failed.1.errno = einval ∧ (failed.1.semArray 0).semCount = 40000 ∧
      Unchanged (σ.setWho 5) failed.1 := by
  refine ⟨by decide +kernel, by decide +kernel, ?_⟩
  exact (unchanged_of_failed ((Fs.start Pools.zeroed).setWho 5)).1 _ _ _ _ (by decide +kernel)

end Fs

end MinixSemaphore.Server
