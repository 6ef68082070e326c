import MinixSemaphore.Client.Library
import MinixSemaphore.Server.World

/-!
# Slots, lists and names

Which lists a slot has, and which slots have names. Both are kept by every run in
which only semaphores made by `sem_init` are destroyed; for the names it is enough that
no slot is destroyed while it has one.
-/

namespace MinixSemaphore.Server

open MinixSemaphore.Lists
open MinixSemaphore.Names
open MinixSemaphore.Semaphore
open MinixSemaphore.Store
open MinixSemaphore.Transition

namespace World

variable {w : World (Pools Int)} {es : List Event}

/-- `sem_create` gives slot `i` the lists `2 * i` and `2 * i + 1`. -/
theorem semCreate_lists {σ : Fs (Pools Int)} {τ : Fs.SeqFs} (sim : Fs.Sim σ τ) (owned : τ.Owned)
    (mode : Int) (value : BitVec 32) (i : SlotIx) (made : (σ.semCreate mode value).2 = some i) :
    ((σ.semCreate mode value).1.semArray i).procList = some (procCell (pairOf i)) ∧
      ((σ.semCreate mode value).1.semArray i).blockedList = some (blockedCell (pairOf i)) := by
  obtain ⟨after, result⟩ := sim.semCreate mode value
  rw [result] at made
  rw [← after.semArray]
  have created := Fs.created_of_semCreate owned (Prod.ext rfl made)
  exact ⟨created.owned.procList_eq created.live, created.owned.blockedList_eq created.live⟩

/-- In every state that a run reaches in which only semaphores made by `sem_init` are
destroyed, every slot that was ever created has its own two lists, a slot is live
exactly if these are allocated, the other lists are free, and a slot that is not live
has no processes. No list belongs to two slots, and both calls of `NewList` in
`sem_create` succeed. -/
theorem slots_own_lists (run : Run World.step DestroysOwn boot es w) :
    (∀ a ∈ w.log, a.deed.creates = true →
      (w.fs.semArray a.place).procList = some (procCell (pairOf a.place)) ∧
        (w.fs.semArray a.place).blockedList = some (blockedCell (pairOf a.place))) ∧
    (∀ i, ((w.fs.pools.lists (procCell (pairOf i))).busy = true ↔
        0 < (w.fs.semArray i).refCount) ∧
      ((w.fs.pools.lists (blockedCell (pairOf i))).busy = true ↔
        0 < (w.fs.semArray i).refCount)) ∧
    (∀ l : ListIx, 2 * initialSem ≤ (l : Nat) → (w.fs.pools.lists l).busy = false) ∧
    (∀ i, ¬0 < (w.fs.semArray i).refCount → w.fs.procs i = [] ∧ w.fs.blocked i = []) ∧
    (∀ i j, ((w.fs.semArray i).procList = (w.fs.semArray j).procList →
        (w.fs.semArray i).procList = none ∨ i = j) ∧
      ((w.fs.semArray i).blockedList = (w.fs.semArray j).blockedList →
        (w.fs.semArray i).blockedList = none ∨ i = j) ∧
      ((w.fs.semArray i).procList = (w.fs.semArray j).blockedList →
        (w.fs.semArray i).procList = none)) ∧
    ∀ p errno mode value i,
      (((w.fs.getWork p).setErrno errno).semCreate mode value).2 = some i →
        ((((w.fs.getWork p).setErrno errno).semCreate mode value).1.semArray i).procList =
            some (procCell (pairOf i)) ∧
          ((((w.fs.getWork p).setErrno errno).semCreate mode value).1.semArray i).blockedList =
            some (blockedCell (pairOf i)) := by
  obtain ⟨simulated, run'⟩ := run_abs run fun _ _ => destroysOwn_abs
  obtain ⟨owned, rooted⟩ := kept_of_run run'
  refine ⟨fun a mem creates => ?_, fun i => ⟨owned.procBusy i, owned.blockedBusy i⟩,
    owned.spare, fun i dead => ?_, fun i j => ⟨fun same => ?_, fun same => ?_, fun same => ?_⟩,
    fun p errno mode value i => ?_⟩
  · have pointed := rooted.pointed a mem creates
    rcases owned.lists a.place with ⟨none, -⟩ | cells
    · exact absurd none pointed
    · exact cells
  · have idle : (w.fs.semArray i).refCount = 0 :=
      le_antisymm (not_lt.mp dead) (owned.counted i)
    rw [← members_abs, ← waiters_abs]
    exact owned.idle i idle
  · refine (owned.procList_cases i).imp_right fun first => ?_
    rcases owned.procList_cases j with second | second
    · exact absurd (first.symm.trans (same.trans second)) (Option.some_ne_none _)
    · exact pairOf_inj.mp (procCell_inj.mp (Option.some.inj
        (first.symm.trans (same.trans second))))
  · refine (owned.blockedList_cases i).imp_right fun first => ?_
    rcases owned.blockedList_cases j with second | second
    · exact absurd (first.symm.trans (same.trans second)) (Option.some_ne_none _)
    · exact pairOf_inj.mp (blockedCell_inj.mp (Option.some.inj
        (first.symm.trans (same.trans second))))
  · rcases owned.procList_cases i with first | first
    · exact first
    · rcases owned.blockedList_cases j with second | second
      · exact same.trans second
      · exact absurd (Option.some.inj (first.symm.trans (same.trans second)))
          (procCell_ne_blockedCell _ _)
  · exact semCreate_lists ((simulated.getWork p).setErrno errno)
      (τ := (w.abs.fs.getWork p).setErrno errno) owned mode value i

/-- A slot is released and taken again. -/
theorem slots_own_lists_of_reuse :
    let es := [Client.call 5 (Client.semInitRequest default 0 0 1),
      Client.call 5 (Client.semDestroyRequest default 0),
      Client.call 5 (Client.semInitRequest default 0 0 2)]
    let w := es.foldl World.step boot
    ((w.fs.pools.lists (procCell (pairOf 0))).busy = true ↔ 0 < (w.fs.semArray 0).refCount) ∧
      (w.fs.procs 1 = [] ∧ w.fs.blocked 1 = []) ∧
      (((((w.fs.getWork 5).setErrno 0).semCreate 0 3).1.semArray 1).procList =
        some (procCell (pairOf 1))) := by
  intro es w
  have allowed : Allowed World.step DestroysOwn boot es := by decide +kernel
  obtain ⟨-, busy, -, dead, -, made⟩ := slots_own_lists allowed.run
  exact ⟨(busy 0).1, dead 1 (by decide +kernel), (made 5 0 0 3 1 (by decide +kernel)).1⟩

/-! ## Names -/

/-- Every entry of the name map denotes a live slot of its own, with both lists
allocated and not marked as unlinked, and the semaphore in it was created by the
`sem_open` that made the entry. -/
structure NamesDenote (w : World (Pools Int)) : Prop where
  live : ∀ e, w.fs.semNameMap.occupied e = true →
    0 < (w.fs.semArray (w.fs.semNameMap.entryArray e).value).refCount
  busy : ∀ e, w.fs.semNameMap.occupied e = true → ∃ procs blocked,
    (w.fs.semArray (w.fs.semNameMap.entryArray e).value).procList = some procs ∧
      (w.fs.semArray (w.fs.semNameMap.entryArray e).value).blockedList = some blocked ∧
      (w.fs.pools.lists procs).busy = true ∧ (w.fs.pools.lists blocked).busy = true
  linked : ∀ e, w.fs.semNameMap.occupied e = true →
    (w.fs.semArray (w.fs.semNameMap.entryArray e).value).unlinked = false
  made : ∀ e, w.fs.semNameMap.occupied e = true →
    LastMade w.log (w.fs.semNameMap.entryArray e).value (some e)
  apart : ∀ e e', w.fs.semNameMap.occupied e = true → w.fs.semNameMap.occupied e' = true →
    (w.fs.semNameMap.entryArray e).value = (w.fs.semNameMap.entryArray e').value → e = e'

theorem namesDenote_of_kept (kept : w.abs.Kept) : w.NamesDenote := by
  obtain ⟨owned, rooted⟩ := kept
  refine ⟨fun e occupied => (owned.named e occupied).1, fun e occupied => ?_,
    fun e occupied => (owned.named e occupied).2, rooted.origin, owned.apart⟩
  have live := (owned.named e occupied).1
  exact ⟨_, _, owned.procList_eq live, owned.blockedList_eq live, (owned.procBusy _).mpr live,
    (owned.blockedBusy _).mpr live⟩

/-- What a successful destruction leaves. -/
theorem step_of_destroys {e : Event} {i : SlotIx} (destroys : w.fs.Destroys e i) :
    ((w.fs.step e).semArray i).refCount = 0 ∧ (w.fs.step e).semNameMap = w.fs.semNameMap := by
  cases e with
  | semaph p m g =>
      obtain ⟨funcion, granted, empty⟩ := destroys
      have destroyed := Fs.semDestroy_granted (σ := w.fs.getWork p) granted empty
      have served : w.fs.step (.semaph p m g) = Fs.reply
          ((((w.fs.getWork p).release i).note i .destroyed).answer 0 m.semaforo 0 2) p ok := by
        rw [Fs.step_semaph, Fs.dispatch, funcion]
        simp only [Fs.answerHandle, destroyed]
        rfl
      rw [served]
      constructor
      · change (((w.fs.getWork p).release i).semArray i).refCount = 0
        rw [show ((w.fs.getWork p).release i).semArray = Function.update w.fs.semArray i
          { w.fs.semArray i with refCount := 0 } from rfl, Function.update_self]
      · rfl
  | _ => exact destroys.elim

/-- As long as no slot is destroyed that has a name, names denote their own live
semaphores. The next event keeps this up exactly if it destroys no such slot either. -/
theorem namesDenote_of_run (run : Run World.step SparesNames boot es w) :
    w.NamesDenote ∧ ∀ e, (w.step e).NamesDenote ↔ w.SparesNames e := by
  obtain ⟨simulated, run'⟩ := run_abs run fun _ _ => sparesNames_abs
  have kept : w.abs.Kept := run'.invariant start_kept fun _ _ kept spares => kept.step spares
  refine ⟨namesDenote_of_kept kept, fun e => ⟨fun denote i destroys entry occupied same => ?_,
    fun spares => ?_⟩⟩
  · obtain ⟨dead, map⟩ := step_of_destroys destroys
    have live := denote.live entry
    simp only [World.step, map] at live
    have live := live occupied
    rw [same, dead] at live
    exact absurd live (lt_irrefl _)
  · refine namesDenote_of_kept ?_
    rw [step_abs simulated]
    exact kept.step (sparesNames_abs simulated spares)

/-- A name is created, taken away and created again. -/
theorem namesDenote_of_run_of_unlink :
    let es := [Client.call 5 (Client.semOpenRequest default ⟨[97], by simp⟩ 0o100 0 0),
      Client.call 5 (Client.semUnlinkRequest default ⟨[97], by simp⟩),
      Client.call 5 (Client.semOpenRequest default ⟨[97], by simp⟩ 0o100 0 0)]
    let w := es.foldl World.step boot
    w.NamesDenote ∧ ∀ e, (w.step e).NamesDenote ↔ w.SparesNames e :=
  namesDenote_of_run (Allowed.run (by decide +kernel))

/-- A semaphore made by `sem_open` is destroyed. Its name still denotes the slot, which
is not live any more, and whoever opens the name gets the slot all the same. -/
theorem not_namesDenote_of_destroy :
    let es := [Client.call 5 (Client.semOpenRequest default ⟨[97], by simp⟩ 0o100 0 0),
      Client.call 5 (Client.semDestroyRequest default 0)]
    let w := es.foldl World.step boot
    Run World.step (fun _ _ => True) boot es w ∧ ¬w.NamesDenote ∧
      ((w.fs.getWork 6).semOpen ⟨[97], by simp⟩ 0 0 0).2 = some 0 := by
  refine ⟨Allowed.run (by decide +kernel), fun denote => ?_, by decide +kernel⟩
  have live := denote.live 0 (by decide +kernel)
  revert live
  decide +kernel

end World

end MinixSemaphore.Server
