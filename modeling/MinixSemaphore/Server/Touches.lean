import MinixSemaphore.Client.Library
import MinixSemaphore.Server.Room
import MinixSemaphore.Server.World

/-!
# The lists that are touched

An operation passes list pointers to list.c, each with the pools as they are at the time
of the call. What it passes is written down here for every operation, in the order of its
calls. A pointer is sound while its cell is allocated: `NewList` has returned it, and
`FreeList` has not taken it back.
-/

namespace MinixSemaphore.Server

open MinixSemaphore.Lists
open MinixSemaphore.Names
open MinixSemaphore.Store
open MinixSemaphore.Semaphore
open MinixSemaphore.Transition

universe u

namespace Fs

/-- The pools at a call of list.c, and the pointer that is passed. -/
abbrev Touch (P : Type u) := P × ListADT

section Traces

variable {P : Type u} [ListLib P Int]

/-- The test of a handle looks into the list of the slot, if the handle is in range. -/
def grantedTouches (σ : Fs P) (handle : Int) : List (Touch P) :=
  (slotAt handle).toList.map fun i => (σ.pools, (σ.semArray i).procList)

/-- `ListInsert` in `sem_create` gets what `NewList` has returned. -/
def createTouches (σ : Fs P) (mode : Int) (value : BitVec 32) : List (Touch P) :=
  ((σ.semCreate mode value).2.toList.map fun _ =>
    ((σ.newList procCmp).1.pools, (σ.newList procCmp).2))

/-- The calls of list.c in `sem_open`. -/
def openTouches (σ : Fs P) (name : CString) (oflag : BitVec 32) (mod : Int) (val : BitVec 32) :
    List (Touch P) :=
  match σ.semNameMap.hashTableFind name with
  | some i => (σ.semOpen name oflag mod val).2.toList.map fun _ =>
      (σ.pools, (σ.semArray i).procList)
  | none =>
      if (σ.semOpen name oflag mod val).2.isSome then (σ.setErrno 0).createTouches mod val else []

/-- Both calls of `FreeList`. -/
def releaseTouches (σ : Fs P) (i : SlotIx) : List (Touch P) :=
  [(σ.pools, (σ.semArray i).procList),
    ((σ.freeList (σ.semArray i).procList).pools, (σ.semArray i).blockedList)]

/-- The calls of list.c in `sem_destroy` behind its test of the handle. -/
def destroyTouches (σ : Fs P) (i : SlotIx) : List (Touch P) :=
  (σ.pools, (σ.semArray i).blockedList) ::
    if ListLib.listIsEmpty σ.pools (σ.semArray i).blockedList then σ.releaseTouches i else []

/-- The calls of list.c in `sem_unlink`. -/
def unlinkTouches (σ : Fs P) (name : CString) : List (Touch P) :=
  match σ.semNameMap.hashTableFind name with
  | none => []
  | some i =>
      if pathMax < name.length then []
      else (σ.pools, (σ.semArray i).procList) ::
        if σ.belongs (σ.semArray i).procList σ.who then [(σ.pools, (σ.semArray i).procList)]
        else []

/-- The calls of list.c in a round of `sem_open_all`. -/
def openAllTouches (pPslot : Int) (σ : Fs P) (i : SlotIx) : List (Touch P) :=
  (σ.pools, (σ.semArray i).procList) ::
    if σ.belongs (σ.semArray i).procList pPslot then [(σ.pools, (σ.semArray i).procList)] else []

/-- The calls of list.c in `sem_close` behind its test of the handle. -/
def closeTouches (σ : Fs P) (i : SlotIx) : List (Touch P) :=
  let deleted := σ.delete (σ.semArray i).procList σ.who
  (σ.pools, (σ.semArray i).procList) ::
    if (σ.semArray i).unlinked then
      (deleted.pools, (σ.semArray i).procList) ::
        if ListLib.listIsEmpty deleted.pools (σ.semArray i).procList then
          deleted.releaseTouches i
        else []
    else []

/-- The call of `ListInsert` in `sem_wait`. -/
def waitTouches (σ : Fs P) (i : SlotIx) : List (Touch P) :=
  if (σ.semArray i).semCount ≤ 0 then [(σ.pools, (σ.semArray i).blockedList)] else []

/-- `ListToBegin`, `ListGetElement` and `ListRemoveFirst` in `sem_post`. -/
def postTouches (σ : Fs P) (i : SlotIx) : List (Touch P) :=
  if (σ.semArray i).semCount < 0 then
    [(σ.pools, (σ.semArray i).blockedList),
      (ListLib.listToBegin σ.pools (σ.semArray i).blockedList, (σ.semArray i).blockedList),
      ((ListLib.listGetElement (ListLib.listToBegin σ.pools (σ.semArray i).blockedList)
        (σ.semArray i).blockedList).1, (σ.semArray i).blockedList)]
  else []

/-- The calls of an operation on a handle: those of the test, and those behind it. -/
def handleTouches (σ : Fs P) (handle : Int) (rest : SlotIx → List (Touch P)) : List (Touch P) :=
  σ.grantedTouches handle ++ (σ.granted handle).toList.flatMap rest

/-- A round of a loop, with the calls of list.c in it added to those before. -/
def traced (body : Fs P → SlotIx → Fs P) (touches : Fs P → SlotIx → List (Touch P))
    (acc : Fs P × List (Touch P)) (i : SlotIx) : Fs P × List (Touch P) :=
  (body acc.1 i, acc.2 ++ touches acc.1 i)

/-- The calls of list.c in `sem_close_all`. -/
def closeAllTouches (σ : Fs P) (pslot : Int) : List (Touch P) :=
  (sweep (traced (fun σ (i : SlotIx) => (semClose σ (i : Nat)).1)
    fun σ i => σ.handleTouches (i : Nat) σ.closeTouches) (σ.setWho pslot, [])).2

/-- The calls of list.c that an event leads to. -/
def touches (σ : Fs P) : Event → List (Touch P)
  | .semaph p m g =>
      let σ := σ.getWork p
      match Funcion.ofInt m.funcion with
      | some .semOpen =>
          σ.openTouches (requestName m) (BitVec.ofInt 32 m.oflag)
            (if m.cantArg = 4 then m.permisos else g.mod)
            (if m.cantArg = 4 then BitVec.ofInt 32 m.valInicial else g.val)
      | some .semInit => σ.createTouches 0 (BitVec.ofInt 32 m.valInicial)
      | some .semUlink => σ.unlinkTouches (requestName m)
      | some .semClose => σ.handleTouches m.semaforo σ.closeTouches
      | some .semWait => σ.handleTouches m.semaforo σ.waitTouches
      | some .semPost => σ.handleTouches m.semaforo σ.postTouches
      | some .semDestroy => σ.handleTouches m.semaforo σ.destroyTouches
      | some .semTrywait => σ.handleTouches m.semaforo fun _ => []
      | some .semGetval => σ.handleTouches m.semaforo fun _ => []
      | some .semTimedwait => []
      | none => []
  | .fork parent child =>
      (sweep (traced (openAllAt parent child) (openAllTouches parent))
        (σ.getWork mmProcNr, [])).2
  | .exec slot => (σ.getWork mmProcNr).closeAllTouches slot
  | .exit slot => (σ.getWork mmProcNr).closeAllTouches slot

end Traces

/-- The pointer is one that `NewList` has returned and `FreeList` has not taken back. -/
def Allocated (p : Pools Int) : ListADT → Prop
  | none => False
  | some l => (p.lists l).busy = true

instance (p : Pools Int) : ∀ list, Decidable (Allocated p list)
  | none => inferInstanceAs (Decidable False)
  | some l => inferInstanceAs (Decidable ((p.lists l).busy = true))

/-- All calls get pointers to allocated lists. -/
def AllAllocated (touches : List (Touch (Pools Int))) : Prop :=
  ∀ t ∈ touches, Allocated t.1 t.2

instance (touches : List (Touch (Pools Int))) : Decidable (AllAllocated touches) :=
  inferInstanceAs (Decidable (∀ t ∈ touches, Allocated t.1 t.2))

theorem allAllocated_append {first second : List (Touch (Pools Int))} :
    AllAllocated (first ++ second) ↔ AllAllocated first ∧ AllAllocated second :=
  List.forall_mem_append

variable {σ σ' : Fs (Pools Int)} {τ τ' : SeqFs} {i : SlotIx} {list : ListADT}

/-! ## Lists of live slots -/

theorem allocated_iff (sim : Sim σ τ) :
    Allocated σ.pools list ↔ ∃ l, list = some l ∧ τ.pools.busy l = true := by
  rw [sim.pools]
  cases list with
  | none => simp [Allocated]
  | some l => simp [Allocated]

theorem allocated_congr (sim : Sim σ τ) (sim' : Sim σ' τ')
    (busy : τ'.pools.busy = τ.pools.busy) :
    Allocated σ'.pools list ↔ Allocated σ.pools list := by
  rw [allocated_iff sim, allocated_iff sim', busy]

/-- The list of processes of a slot is allocated exactly while the slot is live. -/
theorem procList_allocated_iff (sim : Sim σ τ) (owned : τ.Owned) :
    Allocated σ.pools (σ.semArray i).procList ↔ 0 < (σ.semArray i).refCount := by
  rw [allocated_iff sim, ← sim.semArray]
  constructor
  · rintro ⟨l, here, busy⟩
    rcases owned.procList_cases i with none | cell
    · rw [none] at here
      contradiction
    · rw [cell] at here
      rw [← Option.some.inj here] at busy
      exact (owned.procBusy i).mp busy
  · intro live
    exact ⟨_, owned.procList_eq live, (owned.procBusy i).mpr live⟩

theorem blockedList_allocated (sim : Sim σ τ) (owned : τ.Owned)
    (live : 0 < (σ.semArray i).refCount) : Allocated σ.pools (σ.semArray i).blockedList := by
  rw [allocated_iff sim, ← sim.semArray]
  rw [← sim.semArray] at live
  exact ⟨_, owned.blockedList_eq live, (owned.blockedBusy i).mpr live⟩

/-- The test of a handle touches a list that is not allocated, if the slot is not live. -/
theorem grantedTouches_iff (sim : Sim σ τ) (owned : τ.Owned) (handle : Int) :
    AllAllocated (σ.grantedTouches handle) ↔
      ∀ i, slotAt handle = some i → 0 < (σ.semArray i).refCount := by
  rw [grantedTouches]
  cases slotAt handle with
  | none => simp [AllAllocated]
  | some i => simp [AllAllocated, procList_allocated_iff sim owned]

theorem live_of_granted (sim : Sim σ τ) (owned : τ.Owned) {handle : Int}
    (granted : σ.granted handle = some i) : 0 < (σ.semArray i).refCount := by
  rw [← sim.granted] at granted
  rw [← sim.semArray]
  exact owned.live_of_mem (granted_iff.mp granted).2

/-- What an operation touches behind its test of the handle is allocated, if it is
allocated for live slots. -/
theorem handleTouches_iff (sim : Sim σ τ) (owned : τ.Owned) (handle : Int)
    {rest : SlotIx → List (Touch (Pools Int))}
    (behind : ∀ i, 0 < (σ.semArray i).refCount → AllAllocated (rest i)) :
    AllAllocated (σ.handleTouches handle rest) ↔
      ∀ i, slotAt handle = some i → 0 < (σ.semArray i).refCount := by
  rw [handleTouches, allAllocated_append, grantedTouches_iff sim owned]
  refine and_iff_left ?_
  cases granted : σ.granted handle with
  | none => simp [AllAllocated]
  | some i => simpa using behind i (live_of_granted sim owned granted)

/-! ## Operations on live slots -/

theorem releaseTouches_allocated (sim : Sim σ τ) (owned : τ.Owned)
    (live : 0 < (σ.semArray i).refCount) : AllAllocated (σ.releaseTouches i) := by
  have freed := sim.freeList (σ.semArray i).procList
  have live' : 0 < (τ.semArray i).refCount := sim.semArray ▸ live
  have proc := owned.procList_eq live'
  have blocked := owned.blockedList_eq live'
  rw [sim.semArray] at proc blocked
  have second : Allocated (σ.freeList (σ.semArray i).procList).pools
      (σ.semArray i).blockedList := by
    rw [allocated_iff freed]
    refine ⟨_, blocked, ?_⟩
    rw [proc]
    change Function.update τ.pools.busy (procCell (pairOf i)) false (blockedCell (pairOf i)) = true
    rw [Function.update_of_ne (by simp)]
    exact (owned.blockedBusy i).mpr live'
  simp [AllAllocated, releaseTouches, second, (procList_allocated_iff sim owned).mpr live]

theorem destroyTouches_allocated (sim : Sim σ τ) (owned : τ.Owned)
    (live : 0 < (σ.semArray i).refCount) : AllAllocated (σ.destroyTouches i) := by
  rw [destroyTouches]
  split
  · exact List.forall_mem_cons.mpr
      ⟨blockedList_allocated sim owned live, releaseTouches_allocated sim owned live⟩
  · exact List.forall_mem_singleton.mpr (blockedList_allocated sim owned live)

theorem waitTouches_allocated (sim : Sim σ τ) (owned : τ.Owned)
    (live : 0 < (σ.semArray i).refCount) : AllAllocated (σ.waitTouches i) := by
  rw [waitTouches]
  split
  · exact List.forall_mem_singleton.mpr (blockedList_allocated sim owned live)
  · exact List.forall_mem_nil _

/-- Reading an element moves the cursor only. -/
theorem postTouches_allocated (sim : Sim σ τ) (owned : τ.Owned)
    (live : 0 < (σ.semArray i).refCount) : AllAllocated (σ.postTouches i) := by
  have first := blockedList_allocated sim owned live
  have rewound := sim.setPools (Pools.setCurrent_refines sim.wellFormed
    (σ.semArray i).blockedList (σ.pools.list (σ.semArray i).blockedList).nodes)
  have read := sim.setPools (Pools.getElement_toBegin_refines sim.wellFormed
    (σ.semArray i).blockedList).1
  have second := (allocated_congr sim rewound (by rw [sim.pools]; rfl)).mpr first
  have third := (allocated_congr sim read (by rw [sim.pools]; rfl)).mpr first
  rw [postTouches]
  split
  · exact List.forall_mem_cons.mpr ⟨first, List.forall_mem_cons.mpr ⟨second,
      List.forall_mem_singleton.mpr third⟩⟩
  · exact List.forall_mem_nil _

theorem closeTouches_allocated (sim : Sim σ τ) (owned : τ.Owned)
    (live : 0 < (σ.semArray i).refCount) : AllAllocated (σ.closeTouches i) := by
  have deleted := sim.delete (sim.usable i).1 σ.who
  have first := (procList_allocated_iff sim owned).mpr live
  have live' : 0 < (τ.semArray i).refCount := sim.semArray ▸ live
  have second : Allocated (σ.delete (σ.semArray i).procList σ.who).pools
      (σ.semArray i).procList :=
    (allocated_congr sim deleted (SeqStore.listDelete_busy _ _ _)).mpr first
  have rewritten := delete_rewritten owned live' σ.who
  rw [sim.semArray] at rewritten
  have ownedDeleted : (τ.delete (σ.semArray i).procList σ.who).Owned := by
    have kept := owned_rewritten owned live' (Or.inl (congrFun sim.semArray i ▸ rfl)) rewritten
    exact kept
  rw [closeTouches]
  split
  · refine List.forall_mem_cons.mpr ⟨first, List.forall_mem_cons.mpr ⟨second, ?_⟩⟩
    split
    · exact releaseTouches_allocated deleted ownedDeleted live
    · exact List.forall_mem_nil _
  · exact List.forall_mem_singleton.mpr first

/-! ## Operations on names -/

/-- `NewList` returns a list. -/
theorem createTouches_allocated (sim : Sim σ τ) (paired : τ.Paired) (mode : Int)
    (value : BitVec 32) : AllAllocated (σ.createTouches mode value) := by
  obtain ⟨made, pointer, -⟩ := sim.newList procCmp_eq_zero_iff
  obtain ⟨k, first, -⟩ := paired.freeCell_eq
  have allocated : Allocated (σ.newList procCmp).1.pools (σ.newList procCmp).2 := by
    rw [allocated_iff made, ← pointer, newList_eq first]
    exact ⟨_, rfl, by simp [Fs.allocated, setPools]⟩
  rw [createTouches]
  cases (σ.semCreate mode value).2 with
  | none => exact List.forall_mem_nil _
  | some i => exact List.forall_mem_singleton.mpr allocated

/-- What a name denotes is live. -/
theorem bound_allocated (sim : Sim σ τ) (owned : τ.Owned) {name : CString}
    (bound : σ.semNameMap.hashTableFind name = some i) :
    Allocated σ.pools (σ.semArray i).procList := by
  rw [← sim.semNameMap] at bound
  obtain ⟨e, occupied, -, value⟩ := exists_entry_of_find _ bound
  have live := (owned.named e occupied).1
  rw [value, sim.semArray] at live
  exact (procList_allocated_iff sim owned).mpr live

theorem openTouches_allocated (sim : Sim σ τ) (owned : τ.Owned) (name : CString)
    (oflag : BitVec 32) (mod : Int) (val : BitVec 32) :
    AllAllocated (σ.openTouches name oflag mod val) := by
  rw [openTouches]
  cases bound : σ.semNameMap.hashTableFind name with
  | some i =>
      have allocated := bound_allocated sim owned bound
      cases (σ.semOpen name oflag mod val).2 with
      | none => exact List.forall_mem_nil _
      | some j => exact List.forall_mem_singleton.mpr allocated
  | none =>
      simp only
      split
      · exact createTouches_allocated (sim.setErrno 0) (τ := τ.setErrno 0) owned.paired mod val
      · exact List.forall_mem_nil _

theorem unlinkTouches_allocated (sim : Sim σ τ) (owned : τ.Owned) (name : CString) :
    AllAllocated (σ.unlinkTouches name) := by
  rw [unlinkTouches]
  cases bound : σ.semNameMap.hashTableFind name with
  | none => exact List.forall_mem_nil _
  | some i =>
      have allocated := bound_allocated sim owned bound
      simp only
      split
      · exact List.forall_mem_nil _
      split
      · exact List.forall_mem_cons.mpr ⟨allocated, List.forall_mem_singleton.mpr allocated⟩
      · exact List.forall_mem_singleton.mpr allocated

/-! ## Loops over all slots -/

/-- The loops of `sem_open_all` and `sem_close_all` touch lists that are not allocated,
unless all slots are live. -/
theorem tracedTouches_iff {log : List Act} {body : Fs (Pools Int) → SlotIx → Fs (Pools Int)}
    {body' : SeqFs → SlotIx → SeqFs}
    {touches : Fs (Pools Int) → SlotIx → List (Touch (Pools Int))}
    (start : Sim σ τ) (sound : Fs.Sound log τ)
    (together : ∀ {σ τ} i, Sim σ τ → Sim (body σ i) (body' τ i))
    (kept : ∀ {τ} i, Fs.Sound log τ → Fs.Sound log (body' τ i))
    (apart : ∀ (σ : Fs (Pools Int)) i j, j ≠ i → (body σ i).semArray j = σ.semArray j)
    (round : ∀ {σ τ} i, Sim σ τ → τ.Owned →
      (AllAllocated (touches σ i) ↔ 0 < (σ.semArray i).refCount)) :
    AllAllocated (sweep (traced body touches) (σ, [])).2 ↔ ∀ i, 0 < (σ.semArray i).refCount := by
  have swept := sweep_progress (traced body touches) (σ, [])
    (I := fun (done : List SlotIx) (acc : Fs (Pools Int) × List (Touch (Pools Int))) =>
      (∃ τ, Sim acc.1 τ ∧ Fs.Sound log τ) ∧
        (∀ j, j ∉ done → acc.1.semArray j = σ.semArray j) ∧
        (AllAllocated acc.2 ↔ ∀ j ∈ done, 0 < (σ.semArray j).refCount))
    ⟨⟨τ, start, sound⟩, fun _ _ => rfl, by simp [AllAllocated]⟩ ?_
  · simpa using swept.2.2
  · rintro done ⟨σ', before⟩ i fresh ⟨⟨τ', sim, sound⟩, same, progress⟩
    refine ⟨⟨body' τ' i, together i sim, kept i sound⟩, fun j outside => ?_, ?_⟩
    · rw [List.mem_append, List.mem_singleton, not_or] at outside
      exact (apart σ' i j outside.2).trans (same j outside.1)
    · change AllAllocated (before ++ touches σ' i) ↔ _
      rw [allAllocated_append, progress, round i sim sound.owned, same i fresh,
        List.forall_mem_append, List.forall_mem_singleton]

theorem semClose_semArray_of_ne (σ : Fs (Pools Int)) (i : SlotIx) {j : SlotIx} (other : j ≠ i) :
    (σ.semClose (i : Nat)).1.semArray j = σ.semArray j := by
  have ends := σ.semClose_ends (i : Nat)
  generalize σ.semClose (i : Nat) = result at ends ⊢
  cases ends with
  | refused | left => rfl
  | last granted =>
      obtain rfl := Option.some.inj ((slotAt_coe i).symm.trans (slotAt_of_granted granted))
      exact Function.update_of_ne other _ _

theorem openAllAt_semArray_of_ne (pPslot cPslot : Int) (σ : Fs (Pools Int)) (i : SlotIx)
    {j : SlotIx} (other : j ≠ i) :
    (openAllAt pPslot cPslot σ i).semArray j = σ.semArray j := by
  have ends := openAllAt_ends σ pPslot cPslot i
  generalize openAllAt pPslot cPslot σ i = after at ends ⊢
  cases ends with
  | stranger => rfl
  | inherited => exact Function.update_of_ne other _ _

theorem closeAllTouches_iff {log : List Act} (sim : Sim σ τ) (sound : Fs.Sound log τ)
    (pslot : Int) : AllAllocated (σ.closeAllTouches pslot) ↔
      ∀ i, 0 < (σ.semArray i).refCount := by
  rw [closeAllTouches]
  have begun : Fs.Sound log (τ.setWho pslot) := ⟨sound.owned, sound.rooted⟩
  refine tracedTouches_iff (sim.setWho pslot) begun (fun i sim => (sim.semClose (i : Nat)).1)
    (fun i sound => (serves_semClose sound (i : Nat)).sound)
    (fun σ i j other => semClose_semArray_of_ne σ i other) fun {σ' τ'} i sim owned => ?_
  rw [handleTouches_iff sim owned (i : Nat) fun j live => closeTouches_allocated sim owned live,
    slotAt_coe]
  simp

theorem openAllTouches_iff {log : List Act} (sim : Sim σ τ) (sound : Fs.Sound log τ)
    (parent child : Int) : AllAllocated
        (sweep (traced (openAllAt parent child) (openAllTouches parent)) (σ, [])).2 ↔
      ∀ i, 0 < (σ.semArray i).refCount := by
  refine tracedTouches_iff sim sound (fun i sim => sim.openAllAt parent child i)
    (fun i sound => (serves_openAllAt sound parent child i).sound)
    (fun σ i j other => openAllAt_semArray_of_ne parent child σ i other)
    fun {σ' τ'} i sim owned => ?_
  rw [← procList_allocated_iff sim owned, openAllTouches]
  split
  · simp [AllAllocated]
  · simp [AllAllocated]

/-! ## Events -/

/-- The slots that an event looks at whatever is in them: the one of a handle, and all in
a fork, exec or exit. -/
def LooksAt (e : Event) (i : SlotIx) : Prop :=
  match e with
  | .semaph _ m _ => (Funcion.ofInt m.funcion).any Funcion.onHandle = true ∧
      slotAt m.semaforo = some i
  | .fork _ _ | .exec _ | .exit _ => True

/-- Only lists that are allocated are touched, and the lists of a slot that is not live
are not looked at when the handle is refused. -/
structure TouchesLive (σ : Fs (Pools Int)) (e : Event) : Prop where
  allocated : AllAllocated (σ.touches e)
  unread : ∀ p m g i, e = .semaph p m g → LooksAt e i → ¬0 < (σ.semArray i).refCount →
    (σ.getWork p).granted m.semaforo = none ∧ σ.touches e = []

theorem request_allocated_iff (sim : Sim σ τ) (owned : τ.Owned) (p : Int) (m : Message)
    (g : Garbage) : AllAllocated (σ.touches (.semaph p m g)) ↔
      ∀ i, LooksAt (.semaph p m g) i → 0 < (σ.semArray i).refCount := by
  have begun := sim.getWork p
  have handle : ∀ {rest : SlotIx → List (Touch (Pools Int))},
      (Funcion.ofInt m.funcion).any Funcion.onHandle = true →
      (∀ i, 0 < (σ.semArray i).refCount → AllAllocated (rest i)) →
        (AllAllocated ((σ.getWork p).handleTouches m.semaforo rest) ↔
          ∀ i, LooksAt (.semaph p m g) i → 0 < (σ.semArray i).refCount) := by
    intro rest onHandle behind
    rw [handleTouches_iff begun owned m.semaforo behind]
    simp only [LooksAt, onHandle, true_and]
    exact Iff.rfl
  have noHandle : (Funcion.ofInt m.funcion).any Funcion.onHandle = false →
      ∀ i, LooksAt (.semaph p m g) i → 0 < (σ.semArray i).refCount := by
    intro onHandle i looks
    rw [LooksAt, onHandle] at looks
    exact absurd looks.1 Bool.false_ne_true
  rw [touches]
  cases code : Funcion.ofInt m.funcion with
  | none => exact iff_of_true (List.forall_mem_nil _) (noHandle (by rw [code]; rfl))
  | some funcion =>
      cases funcion with
      | semOpen =>
          exact iff_of_true (openTouches_allocated begun owned _ _ _ _)
            (noHandle (by rw [code]; rfl))
      | semInit =>
          exact iff_of_true (createTouches_allocated begun owned.paired 0 _)
            (noHandle (by rw [code]; rfl))
      | semUlink =>
          exact iff_of_true (unlinkTouches_allocated begun owned _)
            (noHandle (by rw [code]; rfl))
      | semTimedwait =>
          exact iff_of_true (List.forall_mem_nil _) (noHandle (by rw [code]; rfl))
      | semClose =>
          exact handle (by rw [code]; rfl) fun i live => closeTouches_allocated begun owned live
      | semWait =>
          exact handle (by rw [code]; rfl) fun i live => waitTouches_allocated begun owned live
      | semPost =>
          exact handle (by rw [code]; rfl) fun i live => postTouches_allocated begun owned live
      | semDestroy =>
          exact handle (by rw [code]; rfl) fun i live => destroyTouches_allocated begun owned live
      | semTrywait => exact handle (by rw [code]; rfl) fun i _ => List.forall_mem_nil _
      | semGetval => exact handle (by rw [code]; rfl) fun i _ => List.forall_mem_nil _

theorem event_allocated_iff {log : List Act} (sim : Sim σ τ) (owned : τ.Owned)
    (rooted : τ.Rooted log) (e : Event) : AllAllocated (σ.touches e) ↔
      ∀ i, LooksAt e i → 0 < (σ.semArray i).refCount := by
  have begun := sim.getWork mmProcNr
  have sound := sound_getWork owned rooted mmProcNr
  cases e with
  | semaph p m g => exact request_allocated_iff sim owned p m g
  | fork parent child =>
      refine (openAllTouches_iff begun sound parent child).trans ?_
      simp [LooksAt, getWork]
  | exec slot =>
      refine (closeAllTouches_iff begun sound slot).trans ?_
      simp [LooksAt, getWork]
  | exit slot =>
      refine (closeAllTouches_iff begun sound slot).trans ?_
      simp [LooksAt, getWork]

end Fs

namespace World

variable {w : World (Pools Int)} {es : List Event}

/-- In every state of a run that destroys no slot with a name, an event touches lists
that are allocated, and no others, exactly if the slots that it looks at are live. -/
theorem touchesLive_iff (run : Run World.step SparesNames boot es w) (e : Event) :
    w.fs.TouchesLive e ↔ ∀ i, Fs.LooksAt e i → 0 < (w.fs.semArray i).refCount := by
  obtain ⟨simulated, run'⟩ := run_abs run fun _ _ => sparesNames_abs
  have kept : w.abs.Kept := run'.invariant start_kept fun _ _ kept spares => kept.step spares
  have allocated := Fs.event_allocated_iff simulated kept.owned kept.rooted e
  constructor
  · intro touches
    exact allocated.mp touches.allocated
  · intro live
    exact ⟨allocated.mpr live, fun _ _ _ i _ looks dead => absurd (live i looks) dead⟩

/-- A semaphore is in use, and a process closes its handle. -/
theorem touchesLive_iff_of_close :
    let w := [Client.call 5 (Client.semInitRequest default 0 0 1)].foldl World.step boot
    w.fs.TouchesLive (Client.call 5 (Client.semCloseRequest default 0)) := by
  refine (touchesLive_iff (Allowed.run (show Allowed World.step SparesNames boot
    [Client.call 5 (Client.semInitRequest default 0 0 1)] by decide +kernel)) _).mpr ?_
  intro i looks
  obtain rfl := Option.some.inj (looks.2.symm.trans (show Fs.slotAt 0 = some 0 by decide))
  decide +kernel

/-- A process closes a semaphore, which is released, and closes the handle once more: the
second call searches a list that has been freed. The first exit ever passes the pointers
of slots that were never created. -/
theorem not_touchesLive_of_close :
    let es := [Client.call 5 (Client.semInitRequest default 0 0 1),
      Client.call 5 (Client.semCloseRequest default 0)]
    let w := es.foldl World.step boot
    Run World.step SparesNames boot es w ∧
      ¬w.fs.TouchesLive (Client.call 5 (Client.semCloseRequest default 0)) ∧
      ¬boot.fs.TouchesLive (.exit 5) := by
  refine ⟨Allowed.run (by decide +kernel), fun live => ?_, fun live => ?_⟩
  · have unread := live.unread 5 _ _ 0 rfl ⟨by decide, by decide⟩ (by decide +kernel)
    exact absurd unread.2 (by decide +kernel)
  · exact absurd live.allocated (by decide +kernel)

end World

end MinixSemaphore.Server
