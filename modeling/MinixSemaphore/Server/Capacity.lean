import MinixSemaphore.Server.Creation
import MinixSemaphore.Server.Refusals

/-!
# Requests and the capacity of the lists

Four operations put a process into a list, and none of them learns whether there was a
node for it. How many nodes an event takes can be told from the state before it, and
this number decides whether the event is served as a whole.
-/

namespace MinixSemaphore.Server

open MinixSemaphore.Lists
open MinixSemaphore.Names
open MinixSemaphore.Store
open MinixSemaphore.Semaphore
open MinixSemaphore.Transition

universe u

namespace Fs

open SemTable

/-! ## Insertions that are asked for -/

section Asked

variable {P : Type u} [ListLib P Int]

/-- The value that a request passes to `sem_open`. -/
def openValue (m : Message) (g : Garbage) : BitVec 32 :=
  if m.cantArg = 4 then BitVec.ofInt 32 m.valInicial else g.val

/-- The call of `sem_open` that a request leads to. -/
def opened (σ : Fs P) (m : Message) (g : Garbage) : Fs P × Option SlotIx :=
  σ.semOpen (requestName m) (BitVec.ofInt 32 m.oflag) (if m.cantArg = 4 then m.permisos else g.mod)
    (openValue m g)

/-- The call of `sem_init` that a request leads to. -/
def inited (σ : Fs P) (m : Message) : Fs P × Option SlotIx :=
  σ.semInit m.pshared (BitVec.ofInt 32 m.valInicial)

/-- `sem_open` is going to put its caller into a list. -/
def OpenInserts (σ : Fs P) (name : CString) (oflag val : BitVec 32) : Prop :=
  ¬Excludes oflag ∧ (σ.semNameMap.hashTableFind name ≠ none ∨
    Creates oflag ∧ σ.HasFree ∧ val.toNat ≤ semValueMax)

/-- `sem_init` is going to put its caller into a list. -/
def InitInserts (σ : Fs P) (value : BitVec 32) : Prop :=
  σ.HasFree ∧ σ.errno = 0 ∧ value.toNat ≤ semValueMax

/-- `sem_wait` is going to put its caller into a list. -/
def WaitInserts (σ : Fs P) (handle : Int) : Prop :=
  ∃ i, σ.granted handle = some i ∧ (σ.semArray i).semCount ≤ 0

instance (σ : Fs P) (name : CString) (oflag val : BitVec 32) :
    Decidable (σ.OpenInserts name oflag val) :=
  inferInstanceAs (Decidable (_ ∧ _))

instance (σ : Fs P) (value : BitVec 32) : Decidable (σ.InitInserts value) :=
  inferInstanceAs (Decidable (_ ∧ _))

instance (σ : Fs P) (handle : Int) : Decidable (σ.WaitInserts handle) :=
  inferInstanceAs (Decidable (∃ i, σ.granted handle = some i ∧ (σ.semArray i).semCount ≤ 0))

/-- A request is going to put its caller into a list. -/
def Inserts (σ : Fs P) (m : Message) (g : Garbage) : Prop :=
  Funcion.ofInt m.funcion = some .semOpen ∧
      σ.OpenInserts (requestName m) (BitVec.ofInt 32 m.oflag) (openValue m g) ∨
    Funcion.ofInt m.funcion = some .semInit ∧ σ.InitInserts (BitVec.ofInt 32 m.valInicial) ∨
    Funcion.ofInt m.funcion = some .semWait ∧ σ.WaitInserts m.semaforo

instance (σ : Fs P) (m : Message) (g : Garbage) : Decidable (σ.Inserts m g) :=
  inferInstanceAs (Decidable (_ ∨ _ ∨ _))

/-- How many nodes an event takes: one for a request that inserts its caller, and one for
each slot that a parent has open. -/
def insertions (σ : Fs P) : Event → Nat
  | .semaph who m g => if (σ.getWork who).Inserts m g then 1 else 0
  | .fork parent _ =>
      (List.finRange initialSem).countP fun i => σ.belongs (σ.semArray i).procList parent
  | .exec _ => 0
  | .exit _ => 0

end Asked

/-! ## Operations -/

variable {σ : Fs (Pools Int)} {τ τ' : SeqFs}

/-- An insertion that an operation has tried: it has failed if there was no node, and has
given the caller to the list otherwise. -/
structure Tried (τ τ' : SeqFs) (list : SeqFs → SlotIx → List Int) (i : SlotIx) : Prop where
  full : τ'.full = (τ.full || decide (maxNodes ≤ τ.pools.used))
  errno : τ'.errno = 0
  stored : τ.pools.used < maxNodes → τ.who ∈ list τ' i

/-- The processes of a slot. -/
abbrev membersOf (τ : SeqFs) : SlotIx → List Int := τ.members

/-- The blocked processes of a slot. -/
abbrev waitersOf (τ : SeqFs) : SlotIx → List Int := τ.waiters

theorem semCreate_inserts (paired : τ.Paired) (mode : Int) (value : BitVec 32) :
    ¬τ.InitInserts value ∧ (τ.semCreate mode value).2 = none ∨
      τ.InitInserts value ∧ ∃ τ' i, τ.semCreate mode value = (τ', some i) ∧
        τ'.dontReply = τ.dontReply ∧ Tried τ τ' membersOf i := by
  rcases semCreate_made paired mode value with ⟨τ', result, notMade⟩ | ⟨τ', i, result, fills⟩
  · refine Or.inl ⟨?_, by rw [result]⟩
    rintro ⟨⟨i, free⟩, ready, small⟩
    cases notMade with
    | noSlot busy => exact busy i free
    | stale _ stale => exact stale ready
    | tooLarge _ _ large => exact absurd small (not_le.mpr large)
  · have idle := (firstFit_eq_some_iff.mp fills.first).1
    have kept := (semCreate_recorded τ mode value).dontReply
    rw [result] at kept
    refine Or.inr ⟨⟨⟨i, by simpa using idle⟩, fills.ready, fills.inRange⟩, τ', i, result,
      by simpa using kept, fills.full, fills.errno, fun room => ?_⟩
    rw [membersOf, fills.members, if_pos room]
    exact List.mem_singleton.mpr rfl

theorem semInit_inserts (paired : τ.Paired) (pshared : Int) (value : BitVec 32) :
    ¬τ.InitInserts value ∧ (τ.semInit pshared value).2 = none ∨
      τ.InitInserts value ∧ ∃ τ' i, τ.semInit pshared value = (τ', some i) ∧
        τ'.dontReply = τ.dontReply ∧ Tried τ τ' membersOf i := by
  have ends := τ.semInit_ends pshared value
  generalize τ.semInit pshared value = result at ends ⊢
  rcases semCreate_inserts paired 0 value with ⟨never, none⟩ | ⟨inserts, τ', i, result, kept, tried⟩
  · cases ends with
    | notMade => exact Or.inl ⟨never, rfl⟩
    | made result =>
        rw [result] at none
        contradiction
  · cases ends with
    | notMade failed =>
        rw [failed] at result
        cases result
    | made made =>
        cases made.symm.trans result
        obtain ⟨members, -⟩ := lists_modSem (σ := τ') i
          (fun s => { s with unlinked := true }) (fun _ => rfl) (fun _ => rfl) i
        refine Or.inr ⟨inserts, _, i, rfl, kept, tried.full, tried.errno, fun room => ?_⟩
        exact Eq.mpr (congrArg (τ.who ∈ ·) members) (tried.stored room)

theorem semOpen_inserts (paired : τ.Paired) (anchored : τ.Anchored) {name : CString}
    (short : name.length < maxName) (oflag : BitVec 32) (mod : Int) (val : BitVec 32) :
    ¬τ.OpenInserts name oflag val ∧ (τ.semOpen name oflag mod val).2 = none ∨
      τ.OpenInserts name oflag val ∧ ∃ τ' i, τ.semOpen name oflag mod val = (τ', some i) ∧
        τ'.dontReply = τ.dontReply ∧ Tried τ τ' membersOf i := by
  by_cases excludes : Excludes oflag
  · refine Or.inl ⟨fun inserts => inserts.1 excludes, ?_⟩
    cases bound : τ.semNameMap.hashTableFind name with
    | some i =>
        by_cases creates : Creates oflag
        · rw [semOpen_exists mod val bound short creates excludes]
        · rw [semOpen_uncovered mod val short excludes (iff_of_false (by simp [bound]) creates)]
    | none =>
        by_cases creates : Creates oflag
        · rw [semOpen_uncovered mod val short excludes (iff_of_true bound creates)]
        · rw [semOpen_absent mod val bound creates]
  · cases bound : τ.semNameMap.hashTableFind name with
    | some i =>
        have members := members_semOpen mod val anchored bound short excludes
        rw [semOpen_bound mod val bound short excludes] at members ⊢
        refine Or.inr ⟨⟨excludes, Or.inl (by simp [bound])⟩, _, i, rfl, rfl,
          insert_full (σ := (τ.setErrno 0).modSem i fun s => { s with refCount := s.refCount + 1 })
            _ _, rfl, fun room => ?_⟩
        rw [membersOf, members, if_pos room]
        exact List.mem_cons_self
    | none =>
        by_cases creates : Creates oflag
        · rcases semCreate_inserts (τ := τ.setErrno 0) paired mod val with
            ⟨never, failed⟩ | ⟨inserts, τ', i, result, kept, tried⟩
          · have result : (τ.setErrno 0).semCreate mod val =
                (((τ.setErrno 0).semCreate mod val).1, none) := Prod.ext rfl failed
            rw [semOpen_unbound bound short creates excludes result]
            refine Or.inl ⟨?_, rfl⟩
            rintro ⟨-, named | ⟨-, free, small⟩⟩
            · exact named bound
            · exact never ⟨free, rfl, small⟩
          · rw [semOpen_unbound bound short creates excludes result]
            exact Or.inr ⟨⟨excludes, Or.inr ⟨creates, inserts.1, inserts.2.2⟩⟩, _, i, rfl, kept,
              tried.full, tried.errno, tried.stored⟩
        · rw [semOpen_absent mod val bound creates]
          refine Or.inl ⟨?_, rfl⟩
          rintro ⟨-, named | ⟨creates', -⟩⟩
          · exact named bound
          · exact creates creates'

/-- A slot with members has a list of them. -/
theorem exists_procList {p : Int} {i : SlotIx} (member : p ∈ τ.members i) :
    ∃ l, (τ.semArray i).procList = some l := by
  rw [← Option.ne_none_iff_exists']
  intro none
  rw [SemTable.members, none] at member
  exact List.not_mem_nil member

/-- A slot with members has a list of blocked processes. -/
theorem exists_blockedList (paired : τ.Paired) {p : Int} {i : SlotIx} (member : p ∈ τ.members i) :
    ∃ l, (τ.semArray i).blockedList = some l := by
  rcases paired.lists i with ⟨none, -⟩ | ⟨k, -, blocked⟩
  · rw [SemTable.members, none] at member
    exact absurd member List.not_mem_nil
  · exact ⟨_, blocked⟩

theorem semWait_inserts (paired : τ.Paired) (handle : Int) :
    ¬τ.WaitInserts handle ∧ (τ.semWait handle).1.full = τ.full ∧
        (τ.semWait handle).1.dontReply = τ.dontReply ∨
      τ.WaitInserts handle ∧ (τ.semWait handle).1.dontReply = true ∧
        ∃ i, slotAt handle = some i ∧ Tried τ (τ.semWait handle).1 waitersOf i := by
  have ends := τ.semWait_ends handle
  generalize τ.semWait handle = result at ends ⊢
  cases ends with
  | refused refused =>
      refine Or.inl ⟨?_, rfl, rfl⟩
      rintro ⟨i, granted, -⟩
      exact absurd (granted.symm.trans refused) (Option.some_ne_none i)
  | @queued i granted blocked =>
      refine Or.inr ⟨⟨i, granted, blocked⟩, rfl, i, slotAt_of_granted granted,
        insert_full (σ := (τ.setErrno 0).setDontReply true) _ _, rfl, fun room => ?_⟩
      obtain ⟨l, list⟩ := exists_blockedList paired (granted_iff.mp granted).2
      obtain ⟨-, waiters⟩ := lists_modSem (σ := ((τ.setErrno 0).setDontReply true).insert
        (τ.semArray i).blockedList τ.who) i (fun s => { s with semCount := s.semCount + -1 })
          (fun _ => rfl) (fun _ => rfl) i
      refine Eq.mpr (congrArg (τ.who ∈ ·) waiters) ?_
      rw [SemTable.waiters]
      change τ.who ∈ (((τ.setErrno 0).setDontReply true).insert (τ.semArray i).blockedList
        τ.who).pools.seq (τ.semArray i).blockedList
      rw [list, insert_seq_self (σ := (τ.setErrno 0).setDontReply true) room]
      exact List.mem_cons_self
  | @passed i granted free =>
      refine Or.inl ⟨?_, rfl, rfl⟩
      rintro ⟨j, granted', blocked⟩
      obtain rfl : i = j := Option.some.inj (granted.symm.trans granted')
      exact absurd free (not_lt.mpr blocked)

/-! ## Forks -/

/-- One round of `sem_open_all`: where the parent is a member, one insertion is tried. -/
theorem openAllAt_cases (τ : SeqFs) (pPslot cPslot : Int) (i : SlotIx) :
    pPslot ∉ τ.members i ∧ openAllAt pPslot cPslot τ i = τ ∨
      pPslot ∈ τ.members i ∧
        (openAllAt pPslot cPslot τ i).full = (τ.full || decide (maxNodes ≤ τ.pools.used)) ∧
        (openAllAt pPslot cPslot τ i).dontReply = τ.dontReply ∧
        (∀ j, ((openAllAt pPslot cPslot τ i).semArray j).procList = (τ.semArray j).procList) ∧
        (openAllAt pPslot cPslot τ i).pools =
          (τ.insert (τ.semArray i).procList cPslot).pools := by
  have ends := openAllAt_ends τ pPslot cPslot i
  generalize openAllAt pPslot cPslot τ i = after at ends ⊢
  cases ends with
  | stranger stranger =>
      refine Or.inl ⟨fun member => ?_, rfl⟩
      rw [belongs_iff.mpr member] at stranger
      contradiction
  | inherited belongs =>
      exact Or.inr ⟨belongs_iff.mp belongs, insert_full _ _, rfl, grow_procList i, rfl⟩

/-- A child joins only where its parent is, so that the parent is where it was. -/
theorem mem_openAllAt_iff (τ : SeqFs) (pPslot cPslot : Int) (i j : SlotIx) :
    pPslot ∈ (openAllAt pPslot cPslot τ i).members j ↔ pPslot ∈ τ.members j := by
  rcases openAllAt_cases τ pPslot cPslot i with ⟨-, nothing⟩ | ⟨member, -, -, lists, pools⟩
  · rw [nothing]
  · obtain ⟨l, list⟩ := exists_procList member
    rw [SemTable.members, lists, pools, list]
    by_cases room : τ.pools.used < maxNodes
    · rw [mem_insert_iff room]
      refine or_iff_left_of_imp fun joins => ?_
      change pPslot ∈ τ.members j
      rw [SemTable.members, joins.1, ← list]
      exact member
    · rw [insert_pools_of_full (not_lt.mp room)]
      rfl

/-- How many slots of a list a process has open. -/
def openCount (τ : SeqFs) (p : Int) (slots : List SlotIx) : Nat :=
  slots.countP fun i => decide (p ∈ τ.members i)

/-- After some rounds of `sem_open_all` all insertions have succeeded, and the child has
joined its parent in the slots that were visited, or there were too many. -/
structure Inheriting (τ : SeqFs) (pPslot cPslot : Int) (done : List SlotIx) (τ' : SeqFs) :
    Prop where
  procList : ∀ j, (τ'.semArray j).procList = (τ.semArray j).procList
  parent : ∀ j, pPslot ∈ τ'.members j ↔ pPslot ∈ τ.members j
  dontReply : τ'.dontReply = τ.dontReply
  progress : τ'.full = false ∧ τ'.pools.used = τ.pools.used + τ.openCount pPslot done ∧
      τ'.pools.used ≤ maxNodes ∧ (∀ j ∈ done, pPslot ∈ τ.members j → cPslot ∈ τ'.members j) ∨
    τ'.full = true ∧ maxNodes < τ.pools.used + τ.openCount pPslot done

theorem Inheriting.round {pPslot cPslot : Int} {done : List SlotIx} {i : SlotIx}
    (inheriting : Inheriting τ pPslot cPslot done τ') :
    Inheriting τ pPslot cPslot (done ++ [i]) (openAllAt pPslot cPslot τ' i) := by
  obtain ⟨procList, parent, dontReply, progress⟩ := inheriting
  rcases openAllAt_cases τ' pPslot cPslot i with
    ⟨outsider, nothing⟩ | ⟨member, full, kept, lists, pools⟩
  · have count : τ.openCount pPslot (done ++ [i]) = τ.openCount pPslot done := by
      have outsider : pPslot ∉ τ.members i := fun member => outsider ((parent i).mpr member)
      simp [openCount, outsider]
    rw [nothing]
    refine ⟨procList, parent, dontReply, ?_⟩
    rw [count]
    rcases progress with ⟨notFull, used, bound, joined⟩ | tooMany
    · refine Or.inl ⟨notFull, used, bound, fun j mem member => ?_⟩
      rcases List.mem_append.mp mem with mem | mem
      · exact joined j mem member
      · rw [List.mem_singleton.mp mem, ← parent] at member
        exact absurd member outsider
    · exact Or.inr tooMany
  · have count : τ.openCount pPslot (done ++ [i]) = τ.openCount pPslot done + 1 := by
      have member : pPslot ∈ τ.members i := (parent i).mp member
      simp [openCount, member]
    obtain ⟨l, list⟩ := exists_procList member
    rw [list] at pools
    have grown : τ'.pools.used < maxNodes → ∀ j q,
        q ∈ (openAllAt pPslot cPslot τ' i).members j ↔
          q ∈ τ'.members j ∨ (τ'.semArray j).procList = some l ∧ q = cPslot := by
      intro room j q
      rw [SemTable.members, lists, pools]
      exact mem_insert_iff room l cPslot q _
    refine ⟨fun j => (lists j).trans (procList j),
      fun j => (mem_openAllAt_iff τ' pPslot cPslot i j).trans (parent j), kept.trans dontReply, ?_⟩
    · rw [count, full]
      rcases progress with ⟨notFull, used, bound, joined⟩ | ⟨already, tooMany⟩
      · by_cases room : τ'.pools.used < maxNodes
        · refine Or.inl ⟨by simp [notFull, room], ?_, ?_, fun j mem member => ?_⟩
          · rw [pools, insert_pools_of_room room, used]
            rfl
          · rw [pools, insert_pools_of_room room]
            exact room
          · rw [grown room]
            rcases List.mem_append.mp mem with mem | mem
            · exact Or.inl (joined j mem member)
            · rw [List.mem_singleton.mp mem]
              exact Or.inr ⟨list, rfl⟩
        · refine Or.inr ⟨by simp [not_lt.mp room], ?_⟩
          omega
      · exact Or.inr ⟨by simp [already], by omega⟩

theorem semOpenAll_inheriting (bounded : τ.pools.used ≤ maxNodes) (notFull : τ.full = false)
    (pPslot cPslot : Int) :
    Inheriting τ pPslot cPslot (List.finRange initialSem) (τ.semOpenAll pPslot cPslot) := by
  refine sweep_progress (openAllAt pPslot cPslot) τ (I := Inheriting τ pPslot cPslot) ?_
    fun done τ' i _ inheriting => inheriting.round
  exact ⟨fun _ => rfl, fun _ => Iff.rfl, rfl, Or.inl ⟨notFull, rfl, bounded, by simp⟩⟩

/-! ## Rounds -/

section Rounds

variable {P : Type u} [ListLib P Int] {ρ : Fs P}

theorem semClose_full (ρ : Fs P) (handle : Int) : (ρ.semClose handle).1.full = ρ.full := by
  have ends := ρ.semClose_ends handle
  generalize ρ.semClose handle = result at ends ⊢
  cases ends <;> rfl

theorem semCloseAll_full (ρ : Fs P) (pslot : Int) : (ρ.semCloseAll pslot).full = ρ.full :=
  sweep_invariant (I := fun ρ' : Fs P => ρ'.full = ρ.full) (b := ρ.setWho pslot) rfl
    fun ρ' (i : SlotIx) same => (semClose_full ρ' (i : Nat)).trans same

/-- Requests other than the three that insert. -/
theorem dispatch_full (m : Message) (g : Garbage)
    (notOpen : Funcion.ofInt m.funcion ≠ some .semOpen)
    (notInit : Funcion.ofInt m.funcion ≠ some .semInit)
    (notWait : Funcion.ofInt m.funcion ≠ some .semWait) : (ρ.dispatch m g).1.full = ρ.full := by
  rw [dispatch]
  cases code : Funcion.ofInt m.funcion with
  | none => rfl
  | some funcion =>
      cases funcion with
      | semOpen => exact absurd code notOpen
      | semInit => exact absurd code notInit
      | semWait => exact absurd code notWait
      | semClose => exact semClose_full ρ m.semaforo
      | semPost =>
          change (ρ.semPost m.semaforo g.proc).full = ρ.full
          have ends := ρ.semPost_ends m.semaforo g.proc
          generalize ρ.semPost m.semaforo g.proc = after at ends ⊢
          cases ends with
          | refused | counted => rfl
          | woken _ _ took => exact took ▸ rfl
      | semUlink =>
          change (ρ.semUnlink (requestName m)).1.full = ρ.full
          have ends := ρ.semUnlink_ends (requestName m)
          generalize ρ.semUnlink (requestName m) = result at ends ⊢
          cases ends <;> rfl
      | semGetval =>
          change (ρ.semGetvalue m.semaforo).1.full = ρ.full
          have ends := ρ.semGetvalue_ends m.semaforo
          generalize ρ.semGetvalue m.semaforo = result at ends ⊢
          cases ends <;> rfl
      | semTrywait =>
          change (ρ.semTrywait m.semaforo).1.full = ρ.full
          have ends := ρ.semTrywait_ends m.semaforo
          generalize ρ.semTrywait m.semaforo = result at ends ⊢
          cases ends <;> rfl
      | semDestroy =>
          change (ρ.semDestroy m.semaforo).1.full = ρ.full
          have ends := ρ.semDestroy_ends m.semaforo
          generalize ρ.semDestroy m.semaforo = result at ends ⊢
          cases ends <;> rfl
      | semTimedwait => rfl

/-- The reply at the end of a round changes neither the table nor what is recorded. -/
theorem step_end (ρ : Fs P) (e : Event) :
    (ρ.step e).toSemTable = ((ρ.getWork e.source).callVector e).1.toSemTable ∧
      (ρ.step e).full = ((ρ.getWork e.source).callVector e).1.full ∧
      (ρ.step e).dontReply = ((ρ.getWork e.source).callVector e).1.dontReply ∧
      (((ρ.getWork e.source).callVector e).1.dontReply = false →
        (ρ.step e).m1.type = ((ρ.getWork e.source).callVector e).2) := by
  rw [Fs.step]
  split
  · rename_i suppressed
    exact ⟨rfl, rfl, rfl, fun replies => by simp [replies] at suppressed⟩
  · exact ⟨rfl, rfl, rfl, fun _ => rfl⟩

theorem step_dontReply (ρ : Fs P) (e : Event) :
    (ρ.step e).dontReply = Suppressed (ρ.step e).acts := by
  obtain ⟨done, recorded, -⟩ := callVector_recorded (ρ.getWork e.source) e rfl
  have acts : ((ρ.getWork e.source).callVector e).1.acts = done := recorded.acts
  have kept : ((ρ.getWork e.source).callVector e).1.dontReply = Suppressed done :=
    recorded.dontReply
  rw [← acts] at kept
  rw [Fs.step]
  split <;> exact kept

end Rounds

theorem length_requestName (m : Message) : (requestName m).length < maxName :=
  Nat.lt_of_le_of_lt (CString.length_take_le m.nombre (maxName - 1)) (by decide)

/-! ## Whole requests -/

/-- Whatever an event reports or keeps silent about, the process is in its list. -/
def Delivers (σ : Fs (Pools Int)) : Event → Prop
  | .semaph p m g =>
      match Funcion.ofInt m.funcion with
      | some .semOpen =>
          ∀ i, ((σ.getWork p).opened m g).2 = some i → p ∈ (σ.step (.semaph p m g)).procs i
      | some .semInit =>
          ∀ i, ((σ.getWork p).inited m).2 = some i → p ∈ (σ.step (.semaph p m g)).procs i
      | some .semWait => (σ.step (.semaph p m g)).dontReply = true →
          ∃ i, slotAt m.semaforo = some i ∧ p ∈ (σ.step (.semaph p m g)).blocked i
      | _ => True
  | .fork parent child =>
      ∀ i, parent ∈ σ.procs i → child ∈ (σ.step (.fork parent child)).procs i
  | .exec _ => True
  | .exit _ => True

/-- An event is served as a whole: the processes are in their lists, and if an insertion
cannot be made, the request is refused with an error and leaves table, names and lists as
they were. -/
structure Whole (σ : Fs (Pools Int)) (e : Event) : Prop where
  delivers : σ.Delivers e
  refused : (σ.step e).full = true → (σ.step e).toSemTable = σ.toSemTable ∧
    ∃ r, (σ.step e).sent = [(e.source, r)] ∧ r.type < 0

/-- What becomes of the insertions of an event: they fail if there are more of them than
free nodes, they have been made if none has failed, and a failure is not reported. -/
structure Settled (σ : Fs (Pools Int)) (e : Event) : Prop where
  full : (σ.step e).full = decide (maxNodes < σ.pools.used + σ.insertions e)
  delivers : (σ.step e).full = false → σ.Delivers e
  silent : (σ.step e).full = true → (σ.step e).dontReply = true ∨ (σ.step e).m1.type = ok

theorem used_le (p : Pools Int) : p.used ≤ maxNodes :=
  (Finset.card_le_univ _).trans_eq (Fintype.card_fin maxNodes)

theorem settled_of_calm {e : Event} (calm : σ.insertions e = 0) (full : (σ.step e).full = false)
    (delivers : σ.Delivers e) : σ.Settled e := by
  refine ⟨?_, fun _ => delivers, by simp [full]⟩
  rw [full, calm, Nat.add_zero, decide_eq_false (not_lt.mpr (used_le σ.pools))]

theorem settled_of_insertion {e : Event} (one : σ.insertions e = 1)
    (full : (σ.step e).full = decide (maxNodes ≤ σ.pools.used))
    (delivers : σ.pools.used < maxNodes → σ.Delivers e)
    (silent : (σ.step e).dontReply = true ∨ (σ.step e).m1.type = ok) : σ.Settled e := by
  refine ⟨?_, fun notFull => delivers ?_, fun _ => silent⟩
  · rw [full, one]
    exact decide_eq_decide.mpr Nat.lt_succ_iff.symm
  · rw [full] at notFull
    simpa using notFull

/-- A creation or an opening that has put its caller into a list. -/
theorem step_of_tried {p : Int} {m : Message} {g : Garbage} {ρ : SeqFs} {v : Int} {i : SlotIx}
    (served : (τ.getWork p).dispatch m g = (ρ, v)) (kept : ρ.dontReply = false)
    (tried : Tried (τ.getWork p) ρ membersOf i) :
    (τ.step (.semaph p m g)).full = decide (maxNodes ≤ τ.pools.used) ∧
      (τ.step (.semaph p m g)).m1.type = ok ∧
      (τ.pools.used < maxNodes → p ∈ (τ.step (.semaph p m g)).members i) := by
  obtain ⟨table, full, -, type⟩ := step_end τ (.semaph p m g)
  have called : (τ.getWork (Event.semaph p m g).source).callVector (.semaph p m g) =
      (ρ, if v ≠ 0 then ρ.errno else ok) := by
    change (τ.getWork p).semaphoreEntry m g = _
    rw [semaphoreEntry, served]
  rw [called] at table full type
  refine ⟨?_, ?_, fun room => ?_⟩
  · rw [full, tried.full]
    rfl
  · rw [type kept, tried.errno, ite_self]
  · rw [SemTable.members, table]
    exact tried.stored room

theorem Sim.openInserts (sim : Sim σ τ) {name : CString} {oflag val : BitVec 32} :
    τ.OpenInserts name oflag val ↔ σ.OpenInserts name oflag val := by
  rw [OpenInserts, OpenInserts, HasFree, HasFree, sim.semNameMap, sim.semArray]

theorem Sim.initInserts (sim : Sim σ τ) {value : BitVec 32} :
    τ.InitInserts value ↔ σ.InitInserts value := by
  rw [InitInserts, InitInserts, HasFree, HasFree, sim.semArray, sim.errno]

theorem Sim.waitInserts (sim : Sim σ τ) {handle : Int} :
    τ.WaitInserts handle ↔ σ.WaitInserts handle := by
  rw [WaitInserts, WaitInserts, sim.granted, sim.semArray]

section Events

variable {p : Int} {m : Message} {g : Garbage}

theorem settled_semOpen (sim : Sim σ τ) (paired : τ.Paired) (anchored : τ.Anchored)
    (code : Funcion.ofInt m.funcion = some .semOpen) : σ.Settled (.semaph p m g) := by
  have sim' := sim.getWork p
  have after := sim.step (.semaph p m g)
  have which : (σ.getWork p).Inserts m g ↔
      (σ.getWork p).OpenInserts (requestName m) (BitVec.ofInt 32 m.oflag) (openValue m g) := by
    rw [Inserts, code]
    simp
  have result : ((σ.getWork p).opened m g).2 = ((τ.getWork p).opened m g).2 :=
    (sim'.semOpen _ _ _ _).2
  rcases semOpen_inserts (τ := τ.getWork p) paired ⟨anchored.denotes, anchored.placed,
      anchored.errno⟩ (length_requestName m) (BitVec.ofInt 32 m.oflag)
        (if m.cantArg = 4 then m.permisos else g.mod) (openValue m g) with
    ⟨never, none⟩ | ⟨inserts, ρ, i, openEq, kept, tried⟩
  · have never : ¬(σ.getWork p).Inserts m g :=
      fun inserts => never (sim'.openInserts.mpr (which.mp inserts))
    refine settled_of_calm (if_neg never) ?_ ?_
    · rw [← after.full, (step_end τ _).2.1]
      have same := (semOpen_failed none).full
      change ((τ.getWork p).dispatch m g).1.full = false
      rw [dispatch, code]
      exact same
    · rw [Delivers, code]
      intro i made
      rw [result] at made
      exact absurd (none.symm.trans made) (Option.some_ne_none i).symm
  · have served : (τ.getWork p).dispatch m g = (ρ.answer (i : Nat) 0 0 1, g.returnVal) := by
      rw [dispatch, code]
      simp only
      rw [show (τ.getWork p).semOpen (requestName m) (BitVec.ofInt 32 m.oflag)
        (if m.cantArg = 4 then m.permisos else g.mod)
        (if m.cantArg = 4 then BitVec.ofInt 32 m.valInicial else g.val) = (ρ, some i) from openEq]
      rfl
    obtain ⟨full, type, stored⟩ := step_of_tried served kept
      ⟨tried.full, tried.errno, tried.stored⟩
    refine settled_of_insertion (if_pos (which.mpr (sim'.openInserts.mp inserts))) ?_ ?_ ?_
    · rw [← after.full, full, sim.used]
    · intro room
      rw [Delivers, code]
      intro j made
      rw [result] at made
      obtain rfl : i = j := Option.some.inj ((congrArg Prod.snd openEq).symm.trans made)
      rw [← after.members]
      exact stored (sim.used ▸ room)
    · rw [← after.dontReply]
      exact Or.inr (by rw [after.eq] at type; exact type)

theorem settled_semInit (sim : Sim σ τ) (paired : τ.Paired)
    (code : Funcion.ofInt m.funcion = some .semInit) : σ.Settled (.semaph p m g) := by
  have sim' := sim.getWork p
  have after := sim.step (.semaph p m g)
  have which : (σ.getWork p).Inserts m g ↔
      (σ.getWork p).InitInserts (BitVec.ofInt 32 m.valInicial) := by
    rw [Inserts, code]
    simp
  have result : ((σ.getWork p).inited m).2 = ((τ.getWork p).inited m).2 := (sim'.semInit _ _).2
  rcases semInit_inserts (τ := τ.getWork p) paired m.pshared (BitVec.ofInt 32 m.valInicial) with
    ⟨never, none⟩ | ⟨inserts, ρ, i, initEq, kept, tried⟩
  · have never : ¬(σ.getWork p).Inserts m g :=
      fun inserts => never (sim'.initInserts.mpr (which.mp inserts))
    refine settled_of_calm (if_neg never) ?_ ?_
    · rw [← after.full, (step_end τ _).2.1]
      have same := (semInit_failed none).full
      change ((τ.getWork p).dispatch m g).1.full = false
      rw [dispatch, code]
      exact same
    · rw [Delivers, code]
      intro i made
      rw [result] at made
      exact absurd (none.symm.trans made) (Option.some_ne_none i).symm
  · have served : (τ.getWork p).dispatch m g = (ρ.answer 0 (i : Nat) 0 2, 0) := by
      rw [dispatch, code]
      simp only
      rw [initEq]
      rfl
    obtain ⟨full, type, stored⟩ := step_of_tried served kept
      ⟨tried.full, tried.errno, tried.stored⟩
    refine settled_of_insertion (if_pos (which.mpr (sim'.initInserts.mp inserts))) ?_ ?_ ?_
    · rw [← after.full, full, sim.used]
    · intro room
      rw [Delivers, code]
      intro j made
      rw [result] at made
      obtain rfl : i = j := Option.some.inj ((congrArg Prod.snd initEq).symm.trans made)
      rw [← after.members]
      exact stored (sim.used ▸ room)
    · rw [← after.dontReply]
      exact Or.inr (by rw [after.eq] at type; exact type)

theorem settled_semWait (sim : Sim σ τ) (paired : τ.Paired)
    (code : Funcion.ofInt m.funcion = some .semWait) : σ.Settled (.semaph p m g) := by
  have sim' := sim.getWork p
  have after := sim.step (.semaph p m g)
  have which : (σ.getWork p).Inserts m g ↔ (σ.getWork p).WaitInserts m.semaforo := by
    rw [Inserts, code]
    simp
  obtain ⟨table, full, dontReply, -⟩ := step_end τ (.semaph p m g)
  have called : ((τ.getWork (Event.semaph p m g).source).callVector (.semaph p m g)).1 =
      ((τ.getWork p).semWait m.semaforo).1.answer ((τ.getWork p).semWait m.semaforo).2
        m.semaforo 0 2 := by
    change ((τ.getWork p).dispatch m g).1 = _
    rw [dispatch, code]
    rfl
  rw [called] at table full dontReply
  rcases semWait_inserts (τ := τ.getWork p) paired m.semaforo with
    ⟨never, kept, replies⟩ | ⟨inserts, suppressed, i, slot, tried⟩
  · have never : ¬(σ.getWork p).Inserts m g :=
      fun inserts => never (sim'.waitInserts.mpr (which.mp inserts))
    refine settled_of_calm (if_neg never) (after.full.symm.trans (full.trans kept)) ?_
    rw [Delivers, code]
    intro suppressed
    rw [← after.dontReply, dontReply] at suppressed
    exact absurd (replies.symm.trans suppressed) Bool.false_ne_true
  · refine settled_of_insertion (if_pos (which.mpr (sim'.waitInserts.mp inserts))) ?_ ?_ ?_
    · rw [← after.full, full, ← sim.used]
      exact tried.full
    · intro room
      rw [Delivers, code]
      refine fun _ => ⟨i, slot, ?_⟩
      rw [← after.waiters, SemTable.waiters, table]
      exact tried.stored (sim.used ▸ room)
    · rw [← after.dontReply, dontReply]
      exact Or.inl suppressed

theorem settled_request (sim : Sim σ τ) (paired : τ.Paired) (anchored : τ.Anchored) :
    σ.Settled (.semaph p m g) := by
  by_cases isOpen : Funcion.ofInt m.funcion = some .semOpen
  · exact settled_semOpen sim paired anchored isOpen
  by_cases isInit : Funcion.ofInt m.funcion = some .semInit
  · exact settled_semInit sim paired isInit
  by_cases isWait : Funcion.ofInt m.funcion = some .semWait
  · exact settled_semWait sim paired isWait
  have never : ¬(σ.getWork p).Inserts m g := by
    rw [Inserts]
    simp [isOpen, isInit, isWait]
  refine settled_of_calm (if_neg never) ?_ ?_
  · rw [(step_end σ _).2.1]
    exact dispatch_full m g isOpen isInit isWait
  · rw [Delivers]
    split
    · rename_i code
      exact absurd code isOpen
    · rename_i code
      exact absurd code isInit
    · rename_i code
      exact absurd code isWait
    · trivial

theorem Sim.openCount (sim : Sim σ τ) (parent child : Int) :
    τ.openCount parent (List.finRange initialSem) = σ.insertions (.fork parent child) := by
  rw [Fs.openCount, insertions]
  apply List.countP_congr
  intro i _
  rw [decide_eq_true_iff, ← belongs_iff, sim.semArray, sim.belongs (sim.usable i).1]

theorem settled_fork (sim : Sim σ τ) (parent child : Int) : σ.Settled (.fork parent child) := by
  have after := sim.step (.fork parent child)
  obtain ⟨table, full, -, type⟩ := step_end τ (.fork parent child)
  have inheriting := semOpenAll_inheriting (τ := τ.getWork mmProcNr)
    (show τ.pools.used ≤ maxNodes by rw [sim.used]; exact used_le σ.pools) rfl parent child
  have count := sim.openCount parent child
  have used : (τ.getWork mmProcNr).pools.used +
      (τ.getWork mmProcNr).openCount parent (List.finRange initialSem) =
        σ.pools.used + σ.insertions (.fork parent child) :=
    congrArg₂ (· + ·) sim.used count
  have replies : ((τ.getWork mmProcNr).semOpenAll parent child).dontReply = false :=
    inheriting.dontReply
  have flag : (σ.step (.fork parent child)).full =
      ((τ.getWork mmProcNr).semOpenAll parent child).full := after.full.symm.trans full
  refine ⟨?_, fun notFull => ?_, fun _ => Or.inr ?_⟩
  · rw [flag]
    rcases inheriting.progress with ⟨notFull, nodes, bound, -⟩ | ⟨already, tooMany⟩
    · rw [nodes, used] at bound
      rw [notFull, decide_eq_false (not_lt.mpr bound)]
    · rw [used] at tooMany
      rw [already, decide_eq_true tooMany]
  · rw [flag] at notFull
    rcases inheriting.progress with ⟨-, -, -, joined⟩ | ⟨already, -⟩
    · intro i member
      rw [← after.members, SemTable.members, table]
      rw [← sim.members] at member
      exact joined i (List.mem_finRange i) member
    · rw [already] at notFull
      contradiction
  · have typeOk := type replies
    rw [after.eq] at typeOk
    exact typeOk

theorem settled_event (sim : Sim σ τ) (paired : τ.Paired) (anchored : τ.Anchored) (e : Event) :
    σ.Settled e := by
  cases e with
  | semaph p m g => exact settled_request sim paired anchored
  | fork parent child => exact settled_fork sim parent child
  | exec slot =>
      exact settled_of_calm rfl ((step_end σ _).2.1.trans (semCloseAll_full _ slot)) trivial
  | exit slot =>
      exact settled_of_calm rfl ((step_end σ _).2.1.trans (semCloseAll_full _ slot)) trivial

/-- A process that is woken gets no error. -/
theorem type_of_wakeReply {m1 r : Reply} {q : Int} {acts : List Act}
    (woken : (q, r) ∈ acts.flatMap (wakeReply m1)) : r.type = ok := by
  obtain ⟨a, -, woken⟩ := List.mem_flatMap.mp woken
  rw [wakeReply] at woken
  split at woken
  · obtain ⟨-, rfl⟩ := Prod.mk.inj (List.mem_singleton.mp woken)
    rfl
  · exact absurd woken List.not_mem_nil

/-- An event is served as a whole exactly if there are nodes for all its insertions. -/
theorem whole_iff {e : Event} (settled : σ.Settled e) :
    σ.Whole e ↔ σ.pools.used + σ.insertions e ≤ maxNodes := by
  constructor
  · intro whole
    by_contra tooMany
    have full : (σ.step e).full = true := by
      rw [settled.full]
      exact decide_eq_true (not_le.mp tooMany)
    obtain ⟨-, r, sent, negative⟩ := whole.refused full
    have told : (e.source, r) ∈ (σ.step e).sent := by
      rw [sent]
      exact List.mem_singleton.mpr rfl
    rw [(step_recorded σ e).2] at told
    rcases List.mem_append.mp told with woken | own
    · rw [type_of_wakeReply woken] at negative
      exact absurd negative (by decide)
    · by_cases suppressed : Suppressed (σ.step e).acts = true
      · rw [if_pos suppressed] at own
        exact List.not_mem_nil own
      · rw [if_neg suppressed] at own
        obtain rfl : r = (σ.step e).m1 := congrArg Prod.snd (List.mem_singleton.mp own)
        rcases settled.silent full with kept | type
        · exact suppressed ((step_dontReply σ e).symm.trans kept)
        · rw [type] at negative
          exact absurd negative (by decide)
  · intro room
    have notFull : (σ.step e).full = false := by
      rw [settled.full]
      exact decide_eq_false (not_lt.mpr room)
    exact ⟨settled.delivers notFull, by simp [notFull]⟩

end Events

end Fs

namespace World

variable {w : World (Pools Int)} {es : List Event}

/-- In every state that a run reaches, an event is served as a whole exactly if the nodes
that are left suffice for the processes it inserts. -/
theorem whole_iff_room (run : Run World.step (fun _ _ => True) boot es w) (e : Event) :
    w.fs.Whole e ↔ w.fs.pools.used + w.fs.insertions e ≤ maxNodes := by
  have sturdy := sturdy_of_run run
  exact Fs.whole_iff (Fs.settled_event sturdy.simulated sturdy.paired sturdy.anchored e)

/-- A process with two semaphores forks. -/
theorem whole_iff_room_of_fork :
    let w := [Client.call 5 (Client.semInitRequest default 0 0 1),
      Client.call 5 (Client.semInitRequest default 0 0 1)].foldl World.step boot
    w.fs.insertions (.fork 5 6) = 2 ∧ w.fs.Whole (.fork 5 6) := by
  refine ⟨by decide +kernel, ?_⟩
  exact (whole_iff_room (Allowed.run (by decide +kernel)) (.fork 5 6)).mpr (by decide +kernel)

/-- Five semaphores of four processes fill the pool. Another process is said to wait, but
is in no list, and does not get an answer either. -/
theorem not_whole_of_full :
    let es := List.replicate 5 (Client.call 5 (Client.semInitRequest default 0 0 0)) ++
      [.fork 5 6, .fork 5 7, .fork 5 8]
    let w := es.foldl World.step boot
    let e := Client.call 6 (Client.semWaitRequest default 0)
    Run World.step (fun _ _ => True) boot es w ∧ (w.fs.step e).sent = [] ∧
      (w.fs.step e).blocked 0 = [] ∧ ¬w.fs.Whole e := by
  refine ⟨Allowed.run (by decide +kernel), by decide +kernel, by decide +kernel, fun whole => ?_⟩
  obtain ⟨i, slot, blocked⟩ := whole.delivers (by decide +kernel)
  obtain rfl := Option.some.inj (slot.symm.trans (show Fs.slotAt 0 = some 0 by decide))
  revert blocked
  decide +kernel

end World

end MinixSemaphore.Server
