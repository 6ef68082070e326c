import MinixSemaphore.Lists.Calls
import MinixSemaphore.Lists.Session
import MinixSemaphore.Server.Capacity

/-!
# Where the nodes are

All slots share one pool of nodes. As long as no slot is destroyed while it has a name,
every node in use is in a list of a live slot, so that the memberships and the waiting
processes of all semaphores together are what the pool has to hold.
-/

namespace MinixSemaphore.Server

open MinixSemaphore.Lists
open MinixSemaphore.Names
open MinixSemaphore.Store
open MinixSemaphore.Semaphore
open MinixSemaphore.Transition

namespace Fs

open SemTable

variable {σ : SeqFs} {log : List Act} {i : SlotIx} {list : ListADT}

/-! ## Operations on lists -/

/-- The lists of a live slot are allocated. -/
theorem exists_busy (owned : σ.Owned) (live : 0 < (σ.semArray i).refCount)
    (mine : list = (σ.semArray i).procList ∨ list = (σ.semArray i).blockedList) :
    ∃ l, list = some l ∧ σ.pools.busy l = true := by
  rcases mine with rfl | rfl
  · exact ⟨_, owned.procList_eq live, (owned.procBusy i).mpr live⟩
  · exact ⟨_, owned.blockedList_eq live, (owned.blockedBusy i).mpr live⟩

theorem tight_insert (tight : σ.pools.Tight) (owned : σ.Owned)
    (live : 0 < (σ.semArray i).refCount)
    (mine : list = (σ.semArray i).procList ∨ list = (σ.semArray i).blockedList) (p : Int) :
    (σ.insert list p).pools.Tight := by
  obtain ⟨l, rfl, busy⟩ := exists_busy owned live mine
  exact (tight.listInsert busy p).2.2

theorem tight_delete (tight : σ.pools.Tight) (owned : σ.Owned)
    (live : 0 < (σ.semArray i).refCount) (p : Int) :
    (σ.delete (σ.semArray i).procList p).pools.Tight := by
  obtain ⟨l, list, busy⟩ := exists_busy owned live (Or.inl rfl)
  rw [list]
  exact (tight.listDelete busy p).2.2

theorem tight_takeFirst (tight : σ.pools.Tight) (owned : σ.Owned)
    (live : 0 < (σ.semArray i).refCount) (proc : Int) :
    (σ.takeFirst (σ.semArray i).blockedList proc).1.pools.Tight := by
  obtain ⟨l, list, busy⟩ := exists_busy owned live (Or.inr rfl)
  rw [list]
  exact (tight.listRemoveFirst busy).2.2

theorem tight_release (tight : σ.pools.Tight) (owned : σ.Owned)
    (live : 0 < (σ.semArray i).refCount) : (σ.release i).pools.Tight := by
  have pools : (σ.release i).pools = ListLib.freeList
      (ListLib.freeList σ.pools (σ.semArray i).procList) (σ.semArray i).blockedList := rfl
  rw [pools, owned.procList_eq live, owned.blockedList_eq live]
  exact (tight.freeList _).freeList _

theorem tight_makeLists (tight : σ.pools.Tight) (paired : σ.Paired) (i : SlotIx) :
    (σ.makeLists i).pools.Tight := by
  obtain ⟨k, first, -⟩ := paired.freeCell_eq
  have made := newList_eq first procCmp
  have allocated : (Fs.allocated σ.pools (procCell k)).Tight := by
    have fresh : (σ.newList procCmp).1.pools.Tight := tight.newList procCmp
    rw [made] at fresh
    exact fresh
  have busy : (Fs.allocated σ.pools (procCell k)).busy (procCell k) = true :=
    Function.update_self _ _ _
  have inserted := (allocated.listInsert busy σ.who).2.2
  rw [makeLists, made]
  exact inserted.newList blockedCmp

/-! ## Requests -/

theorem tight_semCreate (tight : σ.pools.Tight) (paired : σ.Paired) (mode : Int)
    (value : BitVec 32) : (σ.semCreate mode value).1.pools.Tight := by
  have ends := σ.semCreate_ends mode value
  generalize σ.semCreate mode value = result at ends ⊢
  cases ends with
  | noSlot | stale | tooLarge => exact tight
  | made first =>
      refine tight_makeLists ?_ (paired_begun paired (idle_of_first first) mode value) _
      exact tight

theorem tight_semOpen (tight : σ.pools.Tight) (owned : σ.Owned) (name : CString)
    (oflag : BitVec 32) (mod : Int) (val : BitVec 32) :
    (σ.semOpen name oflag mod val).1.pools.Tight := by
  have created := tight_semCreate (σ := σ.setErrno 0) tight owned.paired mod val
  have ends := σ.semOpen_ends name oflag mod val
  generalize σ.semOpen name oflag mod val = result at ends ⊢
  cases ends with
  | absent | tooLong | taken | uncovered => exact tight
  | @joined i _ found =>
      obtain ⟨e, occupied, -, value⟩ := exists_entry_of_find _ found
      have live := (owned.named e occupied).1
      rw [value] at live
      exact tight_insert (σ := σ) tight owned live (Or.inl rfl) σ.who
  | notMade _ _ _ _ result | made _ _ _ _ result =>
      rw [result] at created
      exact created

theorem tight_semInit (tight : σ.pools.Tight) (paired : σ.Paired) (pshared : Int)
    (value : BitVec 32) : (σ.semInit pshared value).1.pools.Tight := by
  have created := tight_semCreate tight paired 0 value
  have ends := σ.semInit_ends pshared value
  generalize σ.semInit pshared value = result at ends ⊢
  cases ends with
  | notMade result | made result =>
      rw [result] at created
      exact created

theorem live_of_granted_seq (owned : σ.Owned) {handle : Int} (granted : σ.granted handle = some i) :
    0 < (σ.semArray i).refCount :=
  owned.live_of_mem (granted_iff.mp granted).2

theorem tight_semDestroy (tight : σ.pools.Tight) (owned : σ.Owned) (handle : Int) :
    (σ.semDestroy handle).1.pools.Tight := by
  have ends := σ.semDestroy_ends handle
  generalize σ.semDestroy handle = result at ends ⊢
  cases ends with
  | refused | busy => exact tight
  | destroyed granted => exact tight_release tight owned (live_of_granted_seq owned granted)

theorem tight_semUnlink (tight : σ.pools.Tight) (name : CString) :
    (σ.semUnlink name).1.pools.Tight := by
  have ends := σ.semUnlink_ends name
  generalize σ.semUnlink name = result at ends ⊢
  cases ends <;> exact tight

theorem tight_semClose (tight : σ.pools.Tight) (owned : σ.Owned) (handle : Int) :
    (σ.semClose handle).1.pools.Tight := by
  have ends := σ.semClose_ends handle
  generalize σ.semClose handle = result at ends ⊢
  cases ends with
  | refused => exact tight
  | @last i granted =>
      have live := live_of_granted_seq owned granted
      have deleted := owned_rewritten owned live (Or.inl rfl) (delete_rewritten owned live σ.who)
      exact tight_release (σ := σ.delete (σ.semArray i).procList σ.who)
        (tight_delete tight owned live σ.who) deleted live
  | left granted => exact tight_delete tight owned (live_of_granted_seq owned granted) σ.who

theorem tight_semWait (tight : σ.pools.Tight) (owned : σ.Owned) (handle : Int) :
    (σ.semWait handle).1.pools.Tight := by
  have ends := σ.semWait_ends handle
  generalize σ.semWait handle = result at ends ⊢
  cases ends with
  | refused | passed => exact tight
  | queued granted =>
      exact tight_insert (σ := σ) tight owned (live_of_granted_seq owned granted) (Or.inr rfl) σ.who

theorem tight_semTrywait (tight : σ.pools.Tight) (handle : Int) :
    (σ.semTrywait handle).1.pools.Tight := by
  have ends := σ.semTrywait_ends handle
  generalize σ.semTrywait handle = result at ends ⊢
  cases ends <;> exact tight

theorem tight_semPost (tight : σ.pools.Tight) (owned : σ.Owned) (handle proc : Int) :
    (σ.semPost handle proc).pools.Tight := by
  have ends := σ.semPost_ends handle proc
  generalize σ.semPost handle proc = result at ends ⊢
  cases ends with
  | refused | counted => exact tight
  | woken granted _ took =>
      obtain rfl := took
      exact tight_takeFirst (σ := σ) tight owned (live_of_granted_seq owned granted) proc

theorem tight_semGetvalue (tight : σ.pools.Tight) (handle : Int) :
    (σ.semGetvalue handle).1.pools.Tight := by
  have ends := σ.semGetvalue_ends handle
  generalize σ.semGetvalue handle = result at ends ⊢
  cases ends <;> exact tight

theorem tight_semOpenAll (sound : Sound log σ) (tight : σ.pools.Tight) (pPslot cPslot : Int) :
    (σ.semOpenAll pPslot cPslot).pools.Tight := by
  refine (sweep_invariant (I := fun τ : SeqFs => Sound log τ ∧ τ.pools.Tight) ⟨sound, tight⟩
    fun τ i before => ?_).2
  refine ⟨(serves_openAllAt before.1 pPslot cPslot i).sound, ?_⟩
  have ends := τ.openAllAt_ends pPslot cPslot i
  generalize openAllAt pPslot cPslot τ i = result at ends ⊢
  cases ends with
  | stranger => exact before.2
  | inherited belongs =>
      exact tight_insert (σ := τ) before.2 before.1.owned
        (before.1.owned.live_of_mem (belongs_iff.mp belongs)) (Or.inl rfl) cPslot

theorem tight_semCloseAll (sound : Sound log σ) (tight : σ.pools.Tight) (pslot : Int) :
    (σ.semCloseAll pslot).pools.Tight := by
  have begun : Sound log (σ.setWho pslot) := ⟨sound.owned, sound.rooted⟩
  exact (sweep_invariant (I := fun τ : SeqFs => Sound log τ ∧ τ.pools.Tight) ⟨begun, tight⟩
    fun τ i before => ⟨(serves_semClose before.1 (i : Nat)).sound,
      tight_semClose before.2 before.1.owned (i : Nat)⟩).2

theorem tight_dispatch (tight : σ.pools.Tight) (owned : σ.Owned) (m : Message) (g : Garbage) :
    (σ.dispatch m g).1.pools.Tight := by
  rw [dispatch]
  cases Funcion.ofInt m.funcion with
  | none => exact tight
  | some funcion =>
      cases funcion with
      | semOpen => exact tight_semOpen tight owned _ _ _ _
      | semClose => exact tight_semClose tight owned _
      | semInit => exact tight_semInit tight owned.paired _ _
      | semWait => exact tight_semWait tight owned _
      | semPost => exact tight_semPost tight owned _ _
      | semUlink => exact tight_semUnlink tight _
      | semGetval => exact tight_semGetvalue tight _
      | semTrywait => exact tight_semTrywait tight _
      | semDestroy => exact tight_semDestroy tight owned _
      | semTimedwait => exact tight

theorem tight_step (tight : σ.pools.Tight) (owned : σ.Owned) (rooted : σ.Rooted log) (e : Event) :
    (σ.step e).pools.Tight := by
  have sound := sound_getWork owned rooted mmProcNr
  have served : ((σ.getWork e.source).callVector e).1.pools.Tight := by
    cases e with
    | semaph p m g => exact tight_dispatch (σ := σ.getWork p) tight owned m g
    | fork parent child => exact tight_semOpenAll sound tight parent child
    | exec slot => exact tight_semCloseAll sound tight slot
    | exit slot => exact tight_semCloseAll sound tight slot
  rw [Fs.step]
  split <;> exact served

/-! ## The lists of the slots -/

/-- The two list cells of each slot. -/
def cellOf (c : SlotIx × Bool) : ListIx :=
  if c.2 then blockedCell (pairOf c.1) else procCell (pairOf c.1)

theorem cellOf_injective : Function.Injective cellOf := by
  rintro ⟨i, b⟩ ⟨j, c⟩ same
  cases b <;> cases c <;> simp [cellOf, procCell_inj, blockedCell_inj, pairOf_inj] at same ⊢ <;>
    exact same

/-- A list that is allocated is one of a slot, and the slot is live. -/
theorem exists_slot_of_busy (owned : σ.Owned) {l : ListIx} (busy : σ.pools.busy l = true) :
    ∃ i, 0 < (σ.semArray i).refCount ∧ (l = procCell (pairOf i) ∨ l = blockedCell (pairOf i)) := by
  obtain ⟨k, own⟩ := exists_pair l
  have first : σ.pools.busy (procCell k) = true := by
    rcases own with rfl | rfl
    · exact busy
    · rw [← owned.paired.together k]
      exact busy
  obtain ⟨i, rfl⟩ := SemTable.Owned.exists_slot owned.spare first
  exact ⟨i, (owned.procBusy i).mp first, own⟩

/-- What a cell of a slot holds is what the slot shows. -/
theorem content_cellOf (tight : σ.pools.Tight) (owned : σ.Owned) (i : SlotIx) :
    σ.pools.content (procCell (pairOf i)) = σ.members i ∧
      σ.pools.content (blockedCell (pairOf i)) = σ.waiters i := by
  by_cases live : 0 < (σ.semArray i).refCount
  · rw [SemTable.members, SemTable.waiters, owned.procList_eq live, owned.blockedList_eq live]
    exact ⟨rfl, rfl⟩
  · have idle : (σ.semArray i).refCount = 0 := le_antisymm (not_lt.mp live) (owned.counted i)
    obtain ⟨members, waiters⟩ := owned.idle i idle
    rw [members, waiters]
    constructor
    · exact tight.spare _ (Bool.eq_false_iff.mpr fun busy => live ((owned.procBusy i).mp busy))
    · exact tight.spare _ (Bool.eq_false_iff.mpr fun busy => live ((owned.blockedBusy i).mp busy))

/-- The nodes in use are those of the lists of the slots. -/
theorem used_eq (tight : σ.pools.Tight) (owned : σ.Owned) :
    σ.pools.used = ∑ i, ((σ.members i).length + (σ.waiters i).length) := by
  have outside : ∀ l ∉ Set.range cellOf, (σ.pools.content l).length = 0 := by
    intro l out
    rw [tight.spare l, List.length_nil]
    by_contra busy
    obtain ⟨i, -, rfl | rfl⟩ := exists_slot_of_busy owned (Bool.not_eq_false _ ▸ busy)
    · exact out ⟨(i, false), rfl⟩
    · exact out ⟨(i, true), rfl⟩
  rw [tight.used, ← Fintype.sum_of_injective cellOf cellOf_injective _ _ outside fun _ => rfl,
    Fintype.sum_prod_type]
  apply Finset.sum_congr rfl
  intro i _
  obtain ⟨proc, blocked⟩ := content_cellOf tight owned i
  rw [Fintype.sum_bool, cellOf, cellOf, if_pos rfl, if_neg Bool.false_ne_true, proc, blocked,
    Nat.add_comm]

end Fs

namespace World

variable {w : World (Pools Int)} {es : List Event}

theorem tight_of_run (run : Run World.step SparesNames boot es w) :
    w.Simulated ∧ w.abs.Kept ∧ w.fs.pools.abs.Tight := by
  obtain ⟨simulated, run'⟩ := run_abs run fun _ _ => sparesNames_abs
  have start : (World.start SeqStore.empty).Kept ∧
      (World.start (SeqStore.empty : SeqStore Int)).fs.pools.Tight :=
    ⟨start_kept, SeqStore.empty_tight⟩
  have kept := run'.invariant (I := fun w => w.Kept ∧ w.fs.pools.Tight) start
    fun _ e before spares => ⟨before.1.step spares,
      Fs.tight_step before.2 before.1.owned before.1.rooted e⟩
  exact ⟨simulated, kept⟩

/-- A node in one of the lists is in a list of a live slot. -/
theorem exists_slot_of_mem (owned : w.abs.fs.Owned) (tight : w.fs.pools.abs.Tight) {n : NodeIx}
    {l : ListIx} (mem : n ∈ w.fs.pools.cells l) : ∃ i, 0 < (w.fs.semArray i).refCount ∧
      (l = procCell (pairOf i) ∨ l = blockedCell (pairOf i)) := by
  have filled : w.fs.pools.abs.content l ≠ [] := by
    rw [show w.fs.pools.abs.content l = w.fs.pools.seq (some l) from rfl, Pools.seq_eq_map]
    exact List.ne_nil_of_mem (List.mem_map_of_mem mem)
  have busy : w.abs.fs.pools.busy l = true := by
    by_contra free
    exact filled (tight.spare l (Bool.eq_false_iff.mpr free))
  exact Fs.exists_slot_of_busy owned busy

/-- In every state of a run that destroys no slot with a name, every node in use is in a
list of a live slot, and there are as many elements in use as nodes. The nodes in use are
as many as the memberships and the waiting processes of all slots, and an event is served
as a whole exactly if these and the processes that it inserts are not more than the pool
has nodes. -/
theorem nodes_accounted (run : Run World.step SparesNames boot es w) :
    (∀ n, (w.fs.pools.nodes n).busy = true ↔ ∃ i, 0 < (w.fs.semArray i).refCount ∧
      (n ∈ w.fs.pools.cells (procCell (pairOf i)) ∨
        n ∈ w.fs.pools.cells (blockedCell (pairOf i)))) ∧
    (Finset.univ.filter fun x => (w.fs.pools.elements x).busy = true).card = w.fs.pools.used ∧
    w.fs.pools.used = ∑ i, ((w.fs.procs i).length + (w.fs.blocked i).length) ∧
    ∀ e, w.fs.Whole e ↔
      ∑ i, ((w.fs.procs i).length + (w.fs.blocked i).length) + w.fs.insertions e ≤ maxNodes := by
  obtain ⟨simulated, kept, tight⟩ := tight_of_run run
  have shape := simulated.wellFormed.shape
  have used : w.fs.pools.used = ∑ i, ((w.fs.procs i).length + (w.fs.blocked i).length) := by
    have counted := Fs.used_eq (σ := w.abs.fs) tight kept.owned
    simp only [members_abs, waiters_abs] at counted
    exact counted
  refine ⟨fun n => ?_, shape.card_elements, used, fun e => ?_⟩
  · rw [shape.busy_iff tight]
    constructor
    · rintro ⟨l, mem⟩
      obtain ⟨i, live, rfl | rfl⟩ := exists_slot_of_mem kept.owned tight mem
      · exact ⟨i, live, Or.inl mem⟩
      · exact ⟨i, live, Or.inr mem⟩
    · rintro ⟨i, -, mem | mem⟩
      · exact ⟨_, mem⟩
      · exact ⟨_, mem⟩
  · have sturdy := sturdy_of_run run
    rw [← used]
    exact Fs.whole_iff (Fs.settled_event sturdy.simulated sturdy.paired sturdy.anchored e)

/-- Two processes share a semaphore, and one of them waits: three nodes are in use. -/
theorem nodes_accounted_of_wait :
    let es := [Client.call 5 (Client.semInitRequest default 0 0 0), .fork 5 6,
      Client.call 5 (Client.semWaitRequest default 0)]
    let w := es.foldl World.step boot
    w.fs.pools.used = 3 ∧
      w.fs.pools.used = ∑ i, ((w.fs.procs i).length + (w.fs.blocked i).length) := by
  intro es w
  have allowed : Allowed World.step SparesNames boot es := by decide +kernel
  obtain ⟨-, -, used, -⟩ := nodes_accounted allowed.run
  exact ⟨by decide +kernel, used⟩

end World

end MinixSemaphore.Server
