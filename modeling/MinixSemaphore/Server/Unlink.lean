import MinixSemaphore.Server.Exit
import MinixSemaphore.Server.Naming

/-!
# Semaphores without a name

`sem_unlink` takes a semaphore out of the name map and marks it. The operations that work
on its count notice neither. The close of its last use releases the slot, and no open
returns the slot before.
-/

namespace MinixSemaphore.Server

open MinixSemaphore.Lists
open MinixSemaphore.Names
open MinixSemaphore.Store
open MinixSemaphore.Semaphore
open MinixSemaphore.Transition

universe u

/-- The functions that work on the count of a semaphore. -/
def Funcion.onCount : Funcion → Bool
  | .semWait | .semTrywait | .semPost | .semGetval => true
  | _ => false

namespace Fs

/-! ## What does not depend on names -/

section

variable {P : Type u} {σ σ' : Fs P}

/-- The counts and lists and the rest of the buffer are the same, whatever the names and
marks are. -/
structure Kin (σ σ' : Fs P) : Prop where
  count : ∀ i, (σ'.semArray i).semCount = (σ.semArray i).semCount
  procList : ∀ i, (σ'.semArray i).procList = (σ.semArray i).procList
  blockedList : ∀ i, (σ'.semArray i).blockedList = (σ.semArray i).blockedList
  pools : σ'.pools = σ.pools
  param1 : σ'.m1.param1 = σ.m1.param1
  param2 : σ'.m1.param2 = σ.m1.param2

/-- Kin that have come equally far in a round. -/
structure Twin (σ σ' : Fs P) : Prop extends Kin σ σ' where
  who : σ'.who = σ.who
  dontReply : σ'.dontReply = σ.dontReply
  sent : σ'.sent = σ.sent

theorem Kin.getWork (kin : Kin σ σ') (p : Int) : Twin (σ.getWork p) (σ'.getWork p) :=
  ⟨⟨kin.count, kin.procList, kin.blockedList, kin.pools, kin.param1, kin.param2⟩, rfl, rfl, rfl⟩

/-- Two calls have ended alike. The error number matters only if they have failed. -/
structure Twins (r r' : Fs P × Int) : Prop where
  twin : Twin r.1 r'.1
  result : r'.2 = r.2
  errno : r.2 ≠ 0 → r'.1.errno = r.1.errno

namespace Twin

variable (twin : Twin σ σ')
include twin

theorem setErrno (errno errno' : Int) : Twin (σ.setErrno errno) (σ'.setErrno errno') :=
  ⟨⟨twin.count, twin.procList, twin.blockedList, twin.pools, twin.param1, twin.param2⟩, twin.who,
    twin.dontReply, twin.sent⟩

theorem setDontReply (dontReply : Bool) :
    Twin (σ.setDontReply dontReply) (σ'.setDontReply dontReply) :=
  ⟨⟨twin.count, twin.procList, twin.blockedList, twin.pools, twin.param1, twin.param2⟩, twin.who,
    rfl, twin.sent⟩

theorem note (i : SlotIx) (deed : Int → Deed Int (Option EntryIx)) :
    Twin (σ.note i deed) (σ'.note i deed) :=
  ⟨⟨twin.count, twin.procList, twin.blockedList, twin.pools, twin.param1, twin.param2⟩, twin.who,
    twin.dontReply, twin.sent⟩

theorem addCount (i : SlotIx) (amount : Int) :
    Twin (σ.addCount i amount) (σ'.addCount i amount) := by
  refine ⟨⟨fun j => ?_, fun j => ?_, fun j => ?_, twin.pools, twin.param1, twin.param2⟩, twin.who,
    twin.dontReply, twin.sent⟩ <;> by_cases same : j = i <;>
    simp [Fs.addCount, modSem, same, twin.count, twin.procList, twin.blockedList]

/-- A message to a process tells the same. -/
theorem semWake (errno : σ'.errno = σ.errno) (proc rta : Int) :
    Twin (σ.semWake proc rta) (σ'.semWake proc rta) := by
  refine ⟨⟨twin.count, twin.procList, twin.blockedList, twin.pools, twin.param1, twin.param2⟩,
    twin.who, twin.dontReply, ?_⟩
  change σ'.sent ++ [(proc, ⟨σ'.errno, rta, σ'.m1.param1, σ'.m1.param2⟩)] =
    σ.sent ++ [(proc, ⟨σ.errno, rta, σ.m1.param1, σ.m1.param2⟩)]
  rw [twin.sent, errno, twin.param1, twin.param2]

variable [ListLib P Int]

theorem granted (handle : Int) : σ'.granted handle = σ.granted handle := by
  have belongs : ∀ i, σ'.belongs (σ'.semArray i).procList σ'.who =
      σ.belongs (σ.semArray i).procList σ.who := by
    intro i
    rw [Fs.belongs, Fs.belongs, twin.pools, twin.procList, twin.who]
  rw [Fs.granted, Fs.granted]
  exact congrArg (slotAt handle).filter (funext belongs)

theorem insert {list list' : ListADT} {p p' : Int} (sameList : list' = list) (same : p' = p) :
    Twin (σ.insert list p) (σ'.insert list' p') := by
  subst sameList same
  refine ⟨⟨twin.count, twin.procList, twin.blockedList, ?_, twin.param1, twin.param2⟩, twin.who,
    twin.dontReply, twin.sent⟩
  change (ListLib.listInsert σ'.pools list' p').1 = (ListLib.listInsert σ.pools list' p').1
  rw [twin.pools]

theorem takeFirst {list list' : ListADT} (sameList : list' = list) (proc : Int) :
    Twin (σ.takeFirst list proc).1 (σ'.takeFirst list' proc).1 ∧
      (σ'.takeFirst list' proc).2 = (σ.takeFirst list proc).2 := by
  subst sameList
  have found : (σ'.takeFirst list' proc).1.pools = (σ.takeFirst list' proc).1.pools ∧
      (σ'.takeFirst list' proc).2 = (σ.takeFirst list' proc).2 := by
    simp only [Fs.takeFirst, twin.pools]
    exact ⟨rfl, trivial⟩
  exact ⟨⟨⟨twin.count, twin.procList, twin.blockedList, found.1, twin.param1, twin.param2⟩,
    twin.who, twin.dontReply, twin.sent⟩, found.2⟩

/-! ### Operations on the count -/

theorem semWait (handle : Int) : Twins (σ.semWait handle) (σ'.semWait handle) := by
  have cleared := twin.setErrno 0 0
  rw [Fs.semWait, Fs.semWait, cleared.granted]
  cases (σ.setErrno 0).granted handle with
  | none => exact ⟨cleared.setErrno einval einval, rfl, fun _ => rfl⟩
  | some i =>
      simp only
      rw [cleared.count]
      split
      · have queued := (cleared.setDontReply true).insert (cleared.blockedList i) cleared.who
        exact ⟨(queued.addCount i (-1)).note i _, rfl, fun failed => absurd rfl failed⟩
      · exact ⟨(cleared.addCount i (-1)).note i _, rfl,
          fun failed => absurd rfl failed⟩

theorem semTrywait (handle : Int) : Twins (σ.semTrywait handle) (σ'.semTrywait handle) := by
  have cleared := twin.setErrno 0 0
  rw [Fs.semTrywait, Fs.semTrywait, cleared.granted]
  cases (σ.setErrno 0).granted handle with
  | none => exact ⟨cleared.setErrno einval einval, rfl, fun _ => rfl⟩
  | some i =>
      simp only
      rw [cleared.count]
      split
      · exact ⟨cleared.setErrno eagain eagain, rfl, fun _ => rfl⟩
      · exact ⟨(cleared.addCount i (-1)).note i _, rfl,
          fun failed => absurd rfl failed⟩

theorem semPost (handle proc result : Int) :
    Twins (σ.semPost handle proc, result) (σ'.semPost handle proc, result) := by
  have cleared := twin.setErrno 0 0
  rw [Fs.semPost, Fs.semPost, cleared.granted]
  cases (σ.setErrno 0).granted handle with
  | none => exact ⟨cleared.setErrno einval einval, rfl, fun _ => rfl⟩
  | some i =>
      simp only
      rw [cleared.count]
      split
      · obtain ⟨taken, same⟩ := cleared.takeFirst (cleared.blockedList i) proc
        have woken := taken.semWake rfl ((σ.setErrno 0).takeFirst
          ((σ.setErrno 0).semArray i).blockedList proc).2 0
        rw [← same] at woken ⊢
        exact ⟨(woken.addCount i 1).note i fun p => .posted p (some _), rfl, fun _ => rfl⟩
      · exact ⟨(cleared.addCount i 1).note i fun p => .posted p none, rfl, fun _ => rfl⟩

theorem semGetvalue (handle : Int) :
    Twins ((σ.semGetvalue handle).1, (σ.semGetvalue handle).2.1)
        ((σ'.semGetvalue handle).1, (σ'.semGetvalue handle).2.1) ∧
      (σ'.semGetvalue handle).2.2 = (σ.semGetvalue handle).2.2 := by
  rw [Fs.semGetvalue, Fs.semGetvalue, twin.granted]
  cases σ.granted handle with
  | none => exact ⟨⟨twin.setErrno einval einval, rfl, fun _ => rfl⟩, rfl⟩
  | some i => exact ⟨⟨twin, rfl, fun failed => absurd rfl failed⟩, congrArg some (twin.count i)⟩

end Twin

/-! ### Rounds -/

variable [ListLib P Int] {m : Message} {g : Garbage} {p : Int}

/-- Requests that have been served alike are answered with the same messages. -/
theorem Twins.step (twins : Twins ((σ.getWork p).dispatch m g) ((σ'.getWork p).dispatch m g))
    (rta : ((σ'.getWork p).dispatch m g).1.m1.rta = ((σ.getWork p).dispatch m g).1.m1.rta) :
    Kin (σ.step (.semaph p m g)) (σ'.step (.semaph p m g)) ∧
      (σ'.step (.semaph p m g)).sent = (σ.step (.semaph p m g)).sent := by
  obtain ⟨twin, result, errno⟩ := twins
  rw [step_semaph, step_semaph]
  simp only
  rw [twin.dontReply]
  split
  · exact ⟨twin.toKin, twin.sent⟩
  · refine ⟨⟨twin.count, twin.procList, twin.blockedList, twin.pools, twin.param1, twin.param2⟩, ?_⟩
    have type : (if ((σ'.getWork p).dispatch m g).2 ≠ 0 then
        ((σ'.getWork p).dispatch m g).1.errno else ok) =
        if ((σ.getWork p).dispatch m g).2 ≠ 0 then
          ((σ.getWork p).dispatch m g).1.errno else ok := by
      rw [result]
      split
      · rename_i failed
        exact errno failed
      · rfl
    simp only [reply]
    rw [type, twin.sent, twin.who, rta, twin.param1, twin.param2]

/-- An operation on the count goes the same way whatever the names and marks are. -/
theorem Kin.step (kin : Kin σ σ') {e : Event} {f : Funcion} {i : SlotIx}
    (requests : e.Requests p f i) (onCount : f.onCount = true) :
    Kin (σ.step e) (σ'.step e) ∧ (σ'.step e).sent = (σ.step e).sent := by
  obtain ⟨m, g, rfl, funcion, -⟩ := requests
  have twin := kin.getWork p
  -- `answer` writes the result and the handle to both buffers
  have answered : ∀ {r r' : Fs P × Int}, Twins r r' →
      Twins (answerHandle r m.semaforo) (answerHandle r' m.semaforo) ∧
        (answerHandle r' m.semaforo).1.m1.rta = (answerHandle r m.semaforo).1.m1.rta := by
    rintro r r' ⟨twin, result, errno⟩
    exact ⟨⟨⟨⟨twin.count, twin.procList, twin.blockedList, twin.pools, rfl, twin.param2⟩, twin.who,
      twin.dontReply, twin.sent⟩, result, errno⟩, result⟩
  have handled : Twins ((σ.getWork p).dispatch m g) ((σ'.getWork p).dispatch m g) ∧
      ((σ'.getWork p).dispatch m g).1.m1.rta = ((σ.getWork p).dispatch m g).1.m1.rta := by
    rw [dispatch, dispatch, funcion]
    cases f with
    | semWait => exact answered (twin.semWait m.semaforo)
    | semTrywait => exact answered (twin.semTrywait m.semaforo)
    | semPost => exact answered (twin.semPost m.semaforo g.proc g.returnVal)
    | semGetval =>
        obtain ⟨⟨twin, result, errno⟩, value⟩ := twin.semGetvalue m.semaforo
        refine ⟨⟨⟨⟨twin.count, twin.procList, twin.blockedList, twin.pools, rfl, ?_⟩, twin.who,
          twin.dontReply, twin.sent⟩, result, errno⟩, result⟩
        exact congrArg (Option.getD · m.valActual) value
    | _ => contradiction
  exact handled.1.step handled.2

/-- `sem_unlink` touches names, marks and the result in the buffer only. -/
theorem kin_semUlink (funcion : Funcion.ofInt m.funcion = some .semUlink) :
    Kin σ (σ.step (.semaph p m g)) := by
  have table : Kin σ ((σ.getWork p).semUnlink (requestName m)).1 := by
    have ends := (σ.getWork p).semUnlink_ends (requestName m)
    generalize (σ.getWork p).semUnlink (requestName m) = result at ends ⊢
    cases ends with
    | tooLong => exact ⟨fun _ => rfl, fun _ => rfl, fun _ => rfl, rfl, rfl, rfl⟩
    | absent => exact ⟨fun _ => rfl, fun _ => rfl, fun _ => rfl, rfl, rfl, rfl⟩
    | stranger => exact ⟨fun _ => rfl, fun _ => rfl, fun _ => rfl, rfl, rfl, rfl⟩
    | unused => exact ⟨fun _ => rfl, fun _ => rfl, fun _ => rfl, rfl, rfl, rfl⟩
    | @unlinked i =>
        refine ⟨fun j => ?_, fun j => ?_, fun j => ?_, rfl, rfl, rfl⟩ <;>
          by_cases same : j = i <;> simp [Fs.note, setMap, modSem, getWork, same]
  have handled : (σ.getWork p).dispatch m g =
      (((σ.getWork p).semUnlink (requestName m)).1.answer
        ((σ.getWork p).semUnlink (requestName m)).2 0 0 1,
        ((σ.getWork p).semUnlink (requestName m)).2) := by
    rw [dispatch, funcion]
  rw [step_semaph, handled]
  simp only
  split
  · exact ⟨table.count, table.procList, table.blockedList, table.pools, table.param1, table.param2⟩
  · exact ⟨table.count, table.procList, table.blockedList, table.pools, table.param1, table.param2⟩

end

/-! ## What a name is needed for -/

section

variable {σ : SeqFs} {i : SlotIx} {p : Int}

/-- No open returns a live slot without a name. -/
theorem semOpen_ne (owned : σ.Owned) (live : 0 < (σ.semArray i).refCount)
    (unlinked : (σ.semArray i).unlinked = true) (name : CString) (oflag : BitVec 32) (mod : Int)
    (val : BitVec 32) : (σ.semOpen name oflag mod val).2 ≠ some i := by
  have ends := σ.semOpen_ends name oflag mod val
  generalize σ.semOpen name oflag mod val = result at ends ⊢
  cases ends with
  | absent => exact (Option.some_ne_none i).symm
  | tooLong => exact (Option.some_ne_none i).symm
  | taken => exact (Option.some_ne_none i).symm
  | uncovered => exact (Option.some_ne_none i).symm
  | notMade => exact (Option.some_ne_none i).symm
  | joined _ found =>
      rintro ⟨⟩
      obtain ⟨e, occupied, -, rfl⟩ := exists_entry_of_find σ.semNameMap found
      have linked := (owned.named e occupied).2
      rw [unlinked] at linked
      contradiction
  | made _ _ _ _ result =>
      rintro ⟨⟩
      have created := created_of_semCreate (σ := σ.setErrno 0) owned result
      exact live.ne' created.dead

/-- An event closes a slot for a process: it asks for this, or the process leaves all
slots. -/
def Closing (e : Event) (p : Int) (i : SlotIx) : Prop :=
  e.Requests p .semClose i ∨ e.leaver = some p

theorem asks_nodup {e : Event} {acts : List Act} (asks : Asks e acts) :
    (acts.map Action.place).Nodup := by
  cases e with
  | semaph p m g =>
      rcases asks with rfl | ⟨a, rfl, -⟩
      · exact List.nodup_nil
      · exact List.nodup_singleton _
  | fork parent child => exact asks.2
  | exec slot => exact asks.2
  | exit slot => exact asks.2

theorem closing_of_asks {e : Event} {acts : List Act} (asks : Asks e acts)
    (mem : (⟨i, .closed p⟩ : Act) ∈ acts) : Closing e p i := by
  cases e with
  | semaph q m g =>
      rcases asks with rfl | ⟨a, rfl, asked⟩
      · contradiction
      · obtain rfl := List.mem_singleton.mp mem
        cases asked with
        | closed funcion slot => exact Or.inl ⟨m, g, rfl, funcion, slot⟩
  | fork parent child =>
      have deed : Deed.closed p = .inherited parent child := asks.1 _ mem
      contradiction
  | exec slot | exit slot =>
      have deed : Deed.closed p = .closed slot := asks.1 _ mem
      exact Or.inr (congrArg some (Deed.closed.inj deed).symm)

/-- A destruction is the answer to a request that destroys. -/
theorem destroys_of_asks {e : Event} (mem : (⟨i, .destroyed p⟩ : Act) ∈ (σ.step e).acts) :
    σ.Destroys e i := by
  have asks := (step_recorded σ e).1
  cases e with
  | fork parent child =>
      have deed : Deed.destroyed p = .inherited parent child := asks.1 _ mem
      contradiction
  | exec slot | exit slot =>
      have deed : Deed.destroyed p = .closed slot := asks.1 _ mem
      contradiction
  | semaph q m g =>
      rcases asks with nothing | ⟨a, did, asked⟩
      · rw [nothing] at mem
        contradiction
      rw [did, List.mem_singleton] at mem
      subst mem
      cases asked with
      | destroyed funcion slot =>
          have handled : (σ.getWork p).dispatch m g =
              answerHandle ((σ.getWork p).semDestroy m.semaforo) m.semaforo := by
            rw [dispatch, funcion]
          obtain ⟨acts, -⟩ := step_handle handled
          rw [did] at acts
          have notNothing : ((σ.getWork p).semDestroy m.semaforo).1.acts ≠ [] := by
            rw [← acts]
            exact List.cons_ne_nil _ _
          have ends := (σ.getWork p).semDestroy_ends m.semaforo
          generalize (σ.getWork p).semDestroy m.semaforo = result at ends notNothing
          cases ends with
          | refused => exact absurd rfl notNothing
          | busy => exact absurd rfl notNothing
          | destroyed granted empty =>
              obtain rfl := Option.some.inj (slot.symm.trans (slotAt_of_granted granted))
              exact ⟨funcion, granted, empty⟩

/-- A process that closes a slot as its only user leaves nobody there. -/
theorem members_of_closing (paired : σ.Paired) {e : Event} (closing : Closing e p i)
    (alone : σ.members i = [p]) : (σ.step e).members i = [] := by
  rcases closing with ⟨m, g, rfl, funcion, slot⟩ | leaver
  · have lists := lists_semClose (σ := σ.getWork p) paired slot i
    rw [if_pos rfl] at lists
    have handled : (σ.getWork p).dispatch m g =
        answerHandle ((σ.getWork p).semClose m.semaforo) m.semaforo := by
      rw [dispatch, funcion]
    have served : ((σ.getWork p).semClose m.semaforo).1.members i = [] := by
      have first := congrArg Prod.fst lists
      rw [visit_fst] at first
      have rest : ((σ.getWork p).lists i).1.erase (σ.getWork p).who = [p].erase p :=
        congrArg (List.erase · p) alone
      rw [rest, List.erase_cons_head] at first
      exact first
    rw [step_semaph, handled]
    simp only
    split
    · exact served
    · exact served
  · have lists := lists_step_of_leaver paired leaver i
    have inside : (σ.step e).members i ⊆ [p] := by
      have subset := visits_fst_subset p (fun j => (σ.semArray j).unlinked) (σ.sharing i)
        (σ.lists i)
      rw [← lists] at subset
      exact fun q mem => alone ▸ subset mem
    have gone : p ∉ (σ.step e).members i := by
      have visited : i ∈ σ.sharing i :=
        List.mem_filter.mpr ⟨List.mem_finRange i, decide_eq_true rfl⟩
      have count : ((σ.lists i).1).count p ≤ (σ.sharing i).length := by
        change (σ.members i).count p ≤ _
        rw [alone, List.count_singleton_self]
        exact List.length_pos_of_mem visited
      change p ∉ ((σ.step e).lists i).1
      rw [lists, notMem_visits_fst_iff]
      exact count
    apply List.eq_nil_iff_forall_not_mem.mpr
    intro q mem
    exact gone (List.mem_singleton.mp (inside mem) ▸ mem)

end

/-- The event is a `sem_unlink` that takes its name from the slot. -/
def Unlinks {P : Type u} [ListLib P Int] (σ : Fs P) (e : Event) (i : SlotIx) : Prop :=
  ∃ p m g, e = .semaph p m g ∧ Funcion.ofInt m.funcion = some .semUlink ∧
    σ.semNameMap.hashTableFind (requestName m) = some i ∧
      ((σ.getWork p).semUnlink (requestName m)).2 = 0

end Fs

/-! ## Orphans -/

namespace World

section

variable {w : World (SeqStore Int)} {T : SlotTable} {e : Event} {i : SlotIx}

/-- The slot holds a semaphore that was made with a name, has lost it, and is in use. -/
structure Orphaned (w : World (SeqStore Int)) (i : SlotIx) : Prop where
  tracked : ∃ T s, w.Tracks T ∧ T i = some s ∧ s.Orphan
  named : unnamed (current (deedsAt i w.log)) = false

theorem Orphaned.kept (orphaned : w.Orphaned i) : w.Kept :=
  let ⟨_, _, tracks, _⟩ := orphaned.tracked
  tracks.toKept

/-- A slot with an orphan is live, marked as unlinked, and somebody uses it. -/
theorem Orphaned.shown (orphaned : w.Orphaned i) : 0 < (w.fs.semArray i).refCount ∧
    (w.fs.semArray i).unlinked = true ∧ w.fs.members i ≠ [] := by
  obtain ⟨T, s, tracks, here, unlinked, used⟩ := orphaned.tracked
  have live := tracks.live_of_sem here
  obtain ⟨s', here', shown⟩ := tracks.exists_sem live
  obtain rfl := Option.some.inj (here.symm.trans here')
  obtain ⟨-, members, -, mark⟩ := Fs.shown_fields shown
  exact ⟨live, mark ▸ unlinked, members ▸ used⟩

/-- A lawful step keeps an orphan, or is the close of its last use and releases it. -/
theorem Orphaned.step (orphaned : w.Orphaned i) (lawful : w.Lawful e) :
    (w.step e).Orphaned i ∨
      ((w.step e).fs.semArray i).refCount = 0 ∧ ∃ p, w.fs.members i = [p] ∧ Fs.Closing e p i := by
  obtain ⟨⟨T, s, tracks, here, orphan⟩, named⟩ := orphaned
  obtain ⟨T', steps, tracks'⟩ := tracks.step lawful
  have asks := (Fs.step_recorded w.fs e).1
  have run := run_deedsAt steps i
  have log : deedsAt i (w.step e).log = deedsAt i w.log ++ deedsAt i (w.fs.step e).acts :=
    deedsAt_append i w.log _
  rcases deedsAt_of_nodup (Fs.asks_nodup asks) i with nothing | ⟨deed, only, mem⟩
  · left
    rw [nothing] at run log
    rw [List.append_nil] at log
    refine ⟨⟨T', s, tracks', ?_, orphan⟩, log ▸ named⟩
    rw [← here]
    exact run.eq_foldl
  · rw [only] at run log
    obtain ⟨enabled, result⟩ := run.singleton
    rw [here] at enabled result
    have admits : s.Admits deed := enabled
    cases ended : Sem.step (some s) deed with
    | some t =>
        left
        have notCreation : deed.creates = false := by
          cases deed with
          | created => exact admits.elim
          | _ => rfl
        refine ⟨⟨T', t, tracks', result.trans ended, orphan.step admits ended⟩, ?_⟩
        rw [log, current_snoc, notCreation, if_neg Bool.false_ne_true, unnamed_snoc notCreation]
        exact named
    | none =>
        right
        rcases Sem.closed_of_step_none admits ended with ⟨p, rfl, alone⟩ | ⟨p, rfl⟩
        · constructor
          · apply le_antisymm _ (tracks'.owned.counted i)
            by_contra live
            obtain ⟨t, there, -⟩ := tracks'.exists_sem (not_le.mp live)
            rw [there, ended] at result
            contradiction
          · obtain ⟨s', here', shown⟩ := tracks.exists_sem (tracks.live_of_sem here)
            obtain rfl := Option.some.inj (here.symm.trans here')
            exact ⟨p, (Fs.shown_fields shown).2.1.symm.trans alone, Fs.closing_of_asks asks mem⟩
        · -- it was made with a name
          have own := lawful.2 i (Fs.destroys_of_asks mem)
          rw [named] at own
          contradiction

/-- A successful `sem_unlink` makes an orphan. -/
theorem orphaned_of_unlinks (tracks : w.Tracks T) (lawful : w.Lawful e)
    (unlinks : w.fs.Unlinks e i) : (w.step e).Orphaned i := by
  obtain ⟨p, m, g, rfl, funcion, found, succeeds⟩ := unlinks
  obtain ⟨T', steps, tracks'⟩ := tracks.step lawful
  have handled : (w.fs.getWork p).dispatch m g =
      (((w.fs.getWork p).semUnlink (Fs.requestName m)).1.answer
        ((w.fs.getWork p).semUnlink (Fs.requestName m)).2 0 0 1,
        ((w.fs.getWork p).semUnlink (Fs.requestName m)).2) := by
    rw [Fs.dispatch, funcion]
  have acts : (w.fs.step (.semaph p m g)).acts = [⟨i, .unlinked p⟩] :=
    (Fs.step_replied handled).acts.trans (Fs.semUnlink_acts (σ := w.fs.getWork p) found succeeds)
  rw [acts] at steps
  obtain ⟨enabled, after⟩ := steps.singleton
  obtain ⟨s, here, member, -⟩ := Sem.exists_of_enabled enabled fun _ _ _ => by simp
  constructor
  · refine ⟨T', s.mark, tracks', ?_, rfl, List.ne_nil_of_mem member⟩
    have here : T i = some s := here
    rw [after, Table.step, Function.update_self, here]
    rfl
  · obtain ⟨entry, occupied, -, rfl⟩ := Fs.exists_entry_of_find w.fs.semNameMap found
    have made := (tracks.rooted.origin entry occupied).not_unnamed
    have self := deedsAt_singleton_self
      (⟨(w.fs.semNameMap.entryArray entry).value, .unlinked p⟩ : Act)
    rw [World.step, acts, deedsAt_append, self, current_snoc, if_neg (by simp [Deed.creates]),
      unnamed_snoc rfl]
    exact made

end

/-! ## What follows a `sem_unlink` -/

/-- What a request shows: the messages it sends, and the count and the blocked processes
that it leaves. -/
structure Round where
  sent : List (Int × Reply)
  count : Int
  blocked : List Int

/-- What a sequence of requests shows of a slot. -/
def course (s : SlotIx) (w : World (Pools Int)) : List Event → List Round
  | [] => []
  | e :: es =>
      ⟨(w.step e).fs.sent, ((w.step e).fs.semArray s).semCount, (w.step e).fs.blocked s⟩ ::
        course s (w.step e) es

/-- The event is lawful and does not release the slot. -/
def Outlasts (s : SlotIx) (w : World (Pools Int)) (e : Event) : Prop :=
  w.Lawful e ∧ 0 < ((w.step e).fs.semArray s).refCount

instance (s : SlotIx) (w : World (Pools Int)) (e : Event) : Decidable (Outlasts s w e) :=
  inferInstanceAs (Decidable (_ ∧ _))

variable {w w' : World (Pools Int)} {s : SlotIx} {es : List Event} {e : Event}

theorem course_eq (kin : Fs.Kin w.fs w'.fs)
    (onCount : ∀ e ∈ es, ∃ p f, e.Requests p f s ∧ f.onCount = true) :
    course s w' es = course s w es := by
  induction es generalizing w w' with
  | nil => rfl
  | cons e es ih =>
      obtain ⟨p, f, requests, working⟩ := onCount e List.mem_cons_self
      obtain ⟨kin', sent⟩ := kin.step requests working
      have kin' : Fs.Kin (w.step e).fs (w'.step e).fs := kin'
      have sent : (w'.step e).fs.sent = (w.step e).fs.sent := sent
      have blocked : (w'.step e).fs.blocked s = (w.step e).fs.blocked s := by
        rw [Fs.blocked, Fs.blocked, kin'.pools, kin'.blockedList]
      have rest := ih kin' fun e mem => onCount e (List.mem_cons_of_mem _ mem)
      rw [course, course, rest, sent, kin'.count, blocked]

/-- A request for `sem_unlink` is lawful. -/
theorem lawful_of_unlinks (unlinks : w.fs.Unlinks e s) : w.Lawful e := by
  obtain ⟨p, m, g, rfl, funcion, -⟩ := unlinks
  constructor
  · have full := (Fs.step_end w.fs (.semaph p m g)).2.1
    exact full.trans (Fs.dispatch_full m g (by simp [funcion]) (by simp [funcion])
      (by simp [funcion]))
  · rintro i ⟨other, -⟩
    rw [funcion] at other
    contradiction

theorem kin_of_unlinks (unlinks : w.fs.Unlinks e s) : Fs.Kin w.fs (w.step e).fs := by
  obtain ⟨p, m, g, rfl, funcion, -⟩ := unlinks
  exact Fs.kin_semUlink funcion

theorem unlinks_abs (simulated : w.Simulated) (unlinks : w.fs.Unlinks e s) :
    w.abs.fs.Unlinks e s := by
  obtain ⟨p, m, g, rfl, funcion, found, succeeds⟩ := unlinks
  refine ⟨p, m, g, rfl, funcion, found, ?_⟩
  exact ((simulated.getWork p).semUnlink (Fs.requestName m)).2.symm.trans succeeds

/-- In every state that a lawful run reaches, and whatever follows a successful
`sem_unlink`: the operations on the count take the same course with it and without it; the
slot is released by the close that removes its last use, and by nothing else; and no open
returns the slot before. -/
theorem unlink_defers (run : Run World.step Lawful boot es w) (unlinks : w.fs.Unlinks e s) :
    (∀ fs, (∀ f ∈ fs, ∃ p c, f.Requests p c s ∧ c.onCount = true) →
      course s (w.step e) fs = course s w fs) ∧
    ∀ fs v, Run World.step (Outlasts s) (w.step e) fs v →
      0 < (v.fs.semArray s).refCount ∧
      (∀ f, v.Lawful f → (((v.step f).fs.semArray s).refCount = 0 ↔
        ∃ p, v.fs.procs s = [p] ∧ Fs.Closing f p s)) ∧
      ∀ p name oflag mod val, ((v.fs.getWork p).semOpen name oflag mod val).2 ≠ some s := by
  constructor
  · intro fs onCount
    exact course_eq (kin_of_unlinks unlinks) onCount
  intro fs v after
  obtain ⟨simulated, T, tracks⟩ := exists_tracks_abs run
  have lawful := lawful_abs simulated (lawful_of_unlinks unlinks)
  have start : (w.step e).Simulated ∧ (w.step e).abs.Orphaned s := by
    refine ⟨step_simulated simulated e, ?_⟩
    rw [step_abs simulated]
    exact orphaned_of_unlinks tracks lawful (unlinks_abs simulated unlinks)
  obtain ⟨simulated, orphaned⟩ := after.invariant
      (I := fun v => v.Simulated ∧ v.abs.Orphaned s) start <| by
    rintro v f ⟨simulated, orphaned⟩ ⟨lawful, live⟩
    refine ⟨step_simulated simulated f, ?_⟩
    rw [step_abs simulated]
    rcases orphaned.step (lawful_abs simulated lawful) with kept | ⟨released, -⟩
    · exact kept
    · rw [← step_abs simulated] at released
      exact absurd released (ne_of_gt live)
  obtain ⟨live, unlinked, -⟩ := orphaned.shown
  refine ⟨live, fun f lawful => ?_, fun p name oflag mod val => ?_⟩
  · have step := orphaned.step (lawful_abs simulated lawful)
    rw [← step_abs simulated] at step
    rw [← members_abs]
    constructor
    · intro released
      rcases step with kept | ⟨-, closes⟩
      · exact absurd released (ne_of_gt kept.shown.1)
      · exact closes
    · rintro ⟨p, alone, closing⟩
      rcases step with kept | ⟨released, -⟩
      · -- an orphan would have a user left
        have empty := Fs.members_of_closing orphaned.kept.owned.paired closing alone
        rw [step_abs simulated] at kept
        exact absurd empty kept.shown.2.2
      · exact released
  · obtain ⟨-, result⟩ := (simulated.getWork p).semOpen name oflag mod val
    rw [result]
    exact Fs.semOpen_ne (σ := v.abs.fs.getWork p) orphaned.kept.owned live unlinked name oflag mod
      val

/-- Two processes use a semaphore when it loses its name. One of them waits and is woken by
the other one, and they close it one after the other. -/
theorem unlink_defers_of_two_users :
    let opens := [Client.call 5 (Client.semOpenRequest default ⟨[97], by simp⟩ 0o100 0 0),
      Client.call 6 (Client.semOpenRequest default ⟨[97], by simp⟩ 0 0 0)]
    let w := after opens
    let unlink := Client.call 5 (Client.semUnlinkRequest default ⟨[97], by simp⟩)
    let requests := [Client.call 6 (Client.semWaitRequest default 0),
      Client.call 5 (Client.semPostRequest default 0)]
    let close := Client.call 5 (Client.semCloseRequest default 0)
    let closed := (w.step unlink).step close
    course 0 (w.step unlink) requests = course 0 w requests ∧
      ((closed.step (Client.call 6 (Client.semCloseRequest default 0))).fs.semArray 0).refCount =
        0 ∧
      ((closed.fs.getWork 7).semOpen ⟨[97], by simp⟩ 0o100 0 0).2 ≠ some 0 := by
  intro opens w unlink requests close closed
  have allowed : Allowed World.step Lawful boot opens := by decide +kernel
  obtain ⟨same, later⟩ := unlink_defers allowed.run
    (s := 0) (e := unlink) ⟨5, _, _, rfl, rfl, by decide +kernel, by decide +kernel⟩
  have outlasts : Allowed World.step (Outlasts 0) (w.step unlink) [close] := by decide +kernel
  obtain ⟨-, released, fresh⟩ := later _ closed outlasts.run
  refine ⟨same requests ?_, ?_, fresh 7 _ _ _ _⟩
  · simp only [requests, List.forall_mem_cons]
    exact ⟨⟨6, .semWait, ⟨_, _, rfl, rfl, by decide⟩, rfl⟩,
      ⟨5, .semPost, ⟨_, _, rfl, rfl, by decide⟩, rfl⟩, by simp⟩
  · exact (released _ (by decide +kernel)).mpr
      ⟨6, by decide +kernel, Or.inl ⟨_, _, rfl, rfl, by decide⟩⟩

end World

end MinixSemaphore.Server
