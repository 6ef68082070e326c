import MinixSemaphore.Semaphore.Waiting
import MinixSemaphore.Server.Main
import MinixSemaphore.Server.Outcomes

/-!
# What a round records and sends

A round of the main loop records the deeds that were asked for, sends a reply to
every process that was woken, and then replies to the caller unless it has queued
it. None of this depends on the store of lists.
-/

namespace MinixSemaphore.Server

open MinixSemaphore.Lists
open MinixSemaphore.Names
open MinixSemaphore.Store
open MinixSemaphore.Semaphore

universe u

/-- The process that leaves all semaphores in an event. -/
def Event.leaver : Event → Option Int
  | .exec slot => some slot
  | .exit slot => some slot
  | _ => none

/-- The event is the request of `p` for this function on this slot. -/
def Event.Requests (e : Event) (p : Int) (funcion : Funcion) (i : SlotIx) : Prop :=
  ∃ m g, e = .semaph p m g ∧ Funcion.ofInt m.funcion = some funcion ∧
    Fs.slotAt m.semaforo = some i

namespace Fs

/-- What a request of `p` can ask to be done. -/
inductive Asked (p : Int) (m : Message) : Act → Prop
  | opened {i : SlotIx} : Funcion.ofInt m.funcion = some .semOpen → Asked p m ⟨i, .opened p⟩
  | created {i : SlotIx} {value : Nat} {entry : Option EntryIx} :
      Funcion.ofInt m.funcion = some .semOpen → Asked p m ⟨i, .created p value (some entry)⟩
  | initialized {i : SlotIx} {value : Nat} :
      Funcion.ofInt m.funcion = some .semInit → Asked p m ⟨i, .created p value none⟩
  | closed {i : SlotIx} :
      Funcion.ofInt m.funcion = some .semClose → slotAt m.semaforo = some i →
        Asked p m ⟨i, .closed p⟩
  | passed {i : SlotIx} :
      Funcion.ofInt m.funcion = some .semWait → slotAt m.semaforo = some i →
        Asked p m ⟨i, .passed p⟩
  | queued {i : SlotIx} :
      Funcion.ofInt m.funcion = some .semWait → slotAt m.semaforo = some i →
        Asked p m ⟨i, .queued p⟩
  | tried {i : SlotIx} :
      Funcion.ofInt m.funcion = some .semTrywait → slotAt m.semaforo = some i →
        Asked p m ⟨i, .tried p⟩
  | posted {i : SlotIx} {woken : Option Int} :
      Funcion.ofInt m.funcion = some .semPost → slotAt m.semaforo = some i →
        Asked p m ⟨i, .posted p woken⟩
  | unlinked {i : SlotIx} :
      Funcion.ofInt m.funcion = some .semUlink → Asked p m ⟨i, .unlinked p⟩
  | destroyed {i : SlotIx} :
      Funcion.ofInt m.funcion = some .semDestroy → slotAt m.semaforo = some i →
        Asked p m ⟨i, .destroyed p⟩

/-- What an event can ask to be done: one deed, or the same deed to several slots. -/
def Asks : Event → List Act → Prop
  | .semaph p m _, acts => acts = [] ∨ ∃ a, acts = [a] ∧ Asked p m a
  | .fork parent child, acts =>
      (∀ a ∈ acts, a.deed = .inherited parent child) ∧ (acts.map Action.place).Nodup
  | .exec slot, acts => (∀ a ∈ acts, a.deed = .closed slot) ∧ (acts.map Action.place).Nodup
  | .exit slot, acts => (∀ a ∈ acts, a.deed = .closed slot) ∧ (acts.map Action.place).Nodup

/-- The reply to a process that an action wakes, if the buffer holds `m1`. -/
def wakeReply (m1 : Reply) (a : Act) : List (Int × Reply) :=
  match a.deed with
  | .posted _ (some q) => [(q, { m1 with type := ok, rta := 0 })]
  | _ => []

variable {P : Type u} {σ σ' σ'' : Fs P} {done done' : List Act} {told told' : List (Int × Reply)}

/-- The variables a record is about. -/
def record (σ : Fs P) : Int × List Act × List (Int × Reply) × Bool :=
  (σ.who, σ.acts, σ.sent, σ.dontReply)

/-- From `σ` to `σ'` the given actions have been recorded, and the given replies have
been sent. -/
structure Recorded (σ σ' : Fs P) (done : List Act) (told : List (Int × Reply)) : Prop where
  who : σ'.who = σ.who
  acts : σ'.acts = σ.acts ++ done
  sent : σ'.sent = σ.sent ++ told
  dontReply : σ'.dontReply = (σ.dontReply || done.any fun a => a.deed.isQueue)

namespace Recorded

theorem none (who : σ'.who = σ.who) (acts : σ'.acts = σ.acts) (sent : σ'.sent = σ.sent)
    (dontReply : σ'.dontReply = σ.dontReply) : Recorded σ σ' [] [] :=
  ⟨who, by simpa using acts, by simpa using sent, by simpa using dontReply⟩

/-- A change of other variables. -/
theorem globals (recorded : Recorded σ σ' done told) (same : σ''.record = σ'.record) :
    Recorded σ σ'' done told := by
  simp only [record, Prod.mk.injEq] at same
  obtain ⟨who, acts, sent, dontReply⟩ := same
  exact ⟨who.trans recorded.who, acts.trans recorded.acts, sent.trans recorded.sent,
    dontReply.trans recorded.dontReply⟩

theorem trans (first : Recorded σ σ' done told) (second : Recorded σ' σ'' done' told') :
    Recorded σ σ'' (done ++ done') (told ++ told') := by
  refine ⟨second.who.trans first.who, ?_, ?_, ?_⟩
  · rw [second.acts, first.acts, List.append_assoc]
  · rw [second.sent, first.sent, List.append_assoc]
  · rw [second.dontReply, first.dontReply, List.any_append, Bool.or_assoc]

theorem of_setErrno {errno : Int} (recorded : Recorded (σ.setErrno errno) σ' done told) :
    Recorded σ σ' done told :=
  ⟨recorded.who, recorded.acts, recorded.sent, recorded.dontReply⟩

/-- A single deed other than a wait that queues. -/
theorem one {a : Act} (notQueue : a.deed.isQueue = false) (who : σ'.who = σ.who)
    (acts : σ'.acts = σ.acts ++ [a]) (sent : σ'.sent = σ.sent ++ told)
    (dontReply : σ'.dontReply = σ.dontReply) : Recorded σ σ' [a] told :=
  ⟨who, acts, sent, by simpa [notQueue] using dontReply⟩

end Recorded

/-- A sweep that does the same deed wherever it does anything, and to one slot at a
time. -/
theorem sweep_recorded (body : Fs P → SlotIx → Fs P) (deed : Deed Int (Option EntryIx))
    {who : Int} (start : σ.who = who)
    (rounds : ∀ τ i, τ.who = who →
      Recorded τ (body τ i) [] [] ∨ Recorded τ (body τ i) [⟨i, deed⟩] []) :
    ∃ done, Recorded σ (sweep body σ) done [] ∧ (∀ a ∈ done, a.deed = deed) ∧
      (done.map Action.place).Nodup := by
  have swept := sweep_progress body σ
    (I := fun visited τ => ∃ done, Recorded σ τ done [] ∧ (∀ a ∈ done, a.deed = deed) ∧
      (done.map Action.place).Nodup ∧ ∀ a ∈ done, a.place ∈ visited)
    ⟨[], Recorded.none rfl rfl rfl rfl, by simp⟩ ?_
  · obtain ⟨done, recorded, same, places, -⟩ := swept
    exact ⟨done, recorded, same, places⟩
  · rintro visited τ i fresh ⟨done, recorded, same, places, within⟩
    rcases rounds τ i (recorded.who.trans start) with nothing | one
    · exact ⟨done, by simpa using recorded.trans nothing, same, places,
        fun a mem => List.mem_append_left _ (within a mem)⟩
    · refine ⟨done ++ [⟨i, deed⟩], by simpa using recorded.trans one, ?_, ?_, ?_⟩
      · intro a mem
        rcases List.mem_append.mp mem with mem | mem
        · exact same a mem
        · rw [List.mem_singleton.mp mem]
      · rw [List.map_append, List.nodup_append]
        refine ⟨places, List.nodup_singleton _, fun x mem y mem' => ?_⟩
        obtain ⟨a, found, rfl⟩ := List.mem_map.mp mem
        rw [List.mem_singleton.mp mem']
        intro here
        have inside : a.place ∈ visited := within a found
        rw [here] at inside
        exact fresh inside
      · intro a mem
        rcases List.mem_append.mp mem with mem | mem
        · exact List.mem_append_left _ (within a mem)
        · rw [List.mem_singleton.mp mem]
          simp

variable [ListLib P Int]

/-! ## Operations -/

theorem semCreate_recorded (σ : Fs P) (mode : Int) (value : BitVec 32) :
    Recorded σ (σ.semCreate mode value).1 [] [] := by
  have ends := σ.semCreate_ends mode value
  generalize σ.semCreate mode value = result at ends ⊢
  cases ends <;> exact Recorded.none rfl rfl rfl rfl

/-- `sem_open` returns the semaphore that the caller has opened or created. -/
theorem semOpen_recorded (σ : Fs P) (name : CString) (oflag : BitVec 32) (mod : Int)
    (val : BitVec 32) :
    (σ.semOpen name oflag mod val).2 = none ∧ Recorded σ (σ.semOpen name oflag mod val).1 [] [] ∨
      ∃ i deed, (σ.semOpen name oflag mod val).2 = some i ∧
        Recorded σ (σ.semOpen name oflag mod val).1 [⟨i, deed⟩] [] ∧
        (deed = .opened σ.who ∨ ∃ entry, deed = .created σ.who val.toNat (some entry)) := by
  have created := semCreate_recorded (σ.setErrno 0) mod val
  have ends := σ.semOpen_ends name oflag mod val
  generalize σ.semOpen name oflag mod val = result at ends ⊢
  cases ends with
  | absent | tooLong | taken | uncovered =>
      exact Or.inl ⟨rfl, Recorded.none rfl rfl rfl rfl⟩
  | @joined i =>
      exact Or.inr ⟨i, .opened σ.who, rfl, Recorded.one rfl rfl rfl (List.append_nil _).symm rfl,
        Or.inl rfl⟩
  | notMade _ _ _ _ result =>
      rw [result] at created
      exact Or.inl ⟨rfl, created.of_setErrno⟩
  | @made τ i _ _ _ _ result =>
      rw [result] at created
      have bound : Recorded τ ((τ.setMap (τ.semNameMap.hashTableInsert name i).1).note i
          fun p => .created p val.toNat (some (τ.entryFor name)))
          [⟨i, .created τ.who val.toNat (some (τ.entryFor name))⟩] [] :=
        Recorded.one rfl rfl rfl (List.append_nil _).symm rfl
      have recorded := created.of_setErrno.trans bound
      exact Or.inr ⟨i, _, rfl, recorded, Or.inr ⟨τ.entryFor name, congrArg
        (fun p => Deed.created p val.toNat (some (τ.entryFor name))) created.who⟩⟩

theorem semInit_recorded (σ : Fs P) (pshared : Int) (value : BitVec 32) :
    (σ.semInit pshared value).2 = none ∧ Recorded σ (σ.semInit pshared value).1 [] [] ∨
      ∃ i, (σ.semInit pshared value).2 = some i ∧
        Recorded σ (σ.semInit pshared value).1 [⟨i, .created σ.who value.toNat none⟩] [] := by
  have created := semCreate_recorded σ 0 value
  have ends := σ.semInit_ends pshared value
  generalize σ.semInit pshared value = result at ends ⊢
  cases ends with
  | notMade result =>
      rw [result] at created
      exact Or.inl ⟨rfl, created⟩
  | @made τ i result =>
      rw [result] at created
      have marked : Recorded τ ((τ.modSem i fun s => { s with unlinked := true }).note i
          fun p => .created p value.toNat none) [⟨i, .created τ.who value.toNat none⟩] [] :=
        Recorded.one rfl rfl rfl (List.append_nil _).symm rfl
      have recorded := created.trans marked
      refine Or.inr ⟨i, rfl, ?_⟩
      have who : τ.who = σ.who := created.who
      rw [← who]
      exact recorded

theorem slotAt_of_granted {handle : Int} {i : SlotIx} (granted : σ.granted handle = some i) :
    slotAt handle = some i :=
  (Option.filter_eq_some_iff.mp granted).1

theorem semDestroy_recorded (σ : Fs P) (handle : Int) :
    Recorded σ (σ.semDestroy handle).1 [] [] ∨
      ∃ i, σ.granted handle = some i ∧
        ListLib.listIsEmpty σ.pools (σ.semArray i).blockedList = true ∧
        Recorded σ (σ.semDestroy handle).1 [⟨i, .destroyed σ.who⟩] [] := by
  have ends := σ.semDestroy_ends handle
  generalize σ.semDestroy handle = result at ends ⊢
  cases ends with
  | refused | busy => exact Or.inl (Recorded.none rfl rfl rfl rfl)
  | @destroyed i granted empty =>
      exact Or.inr ⟨i, granted, empty, Recorded.one rfl rfl rfl (List.append_nil _).symm rfl⟩

theorem semUnlink_recorded (σ : Fs P) (name : CString) :
    Recorded σ (σ.semUnlink name).1 [] [] ∨
      ∃ i, σ.semNameMap.hashTableFind name = some i ∧
        Recorded σ (σ.semUnlink name).1 [⟨i, .unlinked σ.who⟩] [] := by
  have ends := σ.semUnlink_ends name
  generalize σ.semUnlink name = result at ends ⊢
  cases ends with
  | tooLong | absent | stranger | unused => exact Or.inl (Recorded.none rfl rfl rfl rfl)
  | @unlinked i _ found =>
      exact Or.inr ⟨i, found, Recorded.one rfl rfl rfl (List.append_nil _).symm rfl⟩

theorem semClose_recorded (σ : Fs P) (handle : Int) :
    σ.granted handle = none ∧ Recorded σ (σ.semClose handle).1 [] [] ∧
        (σ.semClose handle).2 = -1 ∨
      ∃ i, σ.granted handle = some i ∧ (σ.semClose handle).2 = 0 ∧
        Recorded σ (σ.semClose handle).1 [⟨i, .closed σ.who⟩] [] := by
  have ends := σ.semClose_ends handle
  generalize σ.semClose handle = result at ends ⊢
  cases ends with
  | refused refused => exact Or.inl ⟨refused, Recorded.none rfl rfl rfl rfl, rfl⟩
  | @last i granted | @left i granted =>
      exact Or.inr ⟨i, granted, rfl, Recorded.one rfl rfl rfl (List.append_nil _).symm rfl⟩

/-- A wait that is granted at once or queued is a success. -/
theorem semWait_recorded (σ : Fs P) (handle : Int) :
    Recorded σ (σ.semWait handle).1 [] [] ∧ (σ.semWait handle).1.errno = einval ∧
        (σ.semWait handle).2 = -1 ∨
      ∃ i, σ.granted handle = some i ∧ (σ.semWait handle).2 = 0 ∧
        (Recorded σ (σ.semWait handle).1 [⟨i, .queued σ.who⟩] [] ∨
          Recorded σ (σ.semWait handle).1 [⟨i, .passed σ.who⟩] []) := by
  have ends := σ.semWait_ends handle
  generalize σ.semWait handle = result at ends ⊢
  cases ends with
  | refused => exact Or.inl ⟨Recorded.none rfl rfl rfl rfl, rfl, rfl⟩
  | @queued i granted =>
      refine Or.inr ⟨i, granted, rfl, Or.inl ⟨rfl, rfl, (List.append_nil _).symm, ?_⟩⟩
      exact (Bool.or_true _).symm
  | @passed i granted =>
      exact Or.inr ⟨i, granted, rfl,
        Or.inr (Recorded.one rfl rfl rfl (List.append_nil _).symm rfl)⟩

theorem semTrywait_recorded (σ : Fs P) (handle : Int) :
    Recorded σ (σ.semTrywait handle).1 [] [] ∧ (σ.semTrywait handle).1.errno ≠ 0 ∧
        (σ.semTrywait handle).2 = -1 ∨
      ∃ i, σ.granted handle = some i ∧ (σ.semTrywait handle).2 = 0 ∧
        Recorded σ (σ.semTrywait handle).1 [⟨i, .tried σ.who⟩] [] := by
  have ends := σ.semTrywait_ends handle
  generalize σ.semTrywait handle = result at ends ⊢
  cases ends with
  | refused | again =>
      exact Or.inl ⟨Recorded.none rfl rfl rfl rfl, by simp [setErrno], rfl⟩
  | @tried i granted =>
      exact Or.inr ⟨i, granted, rfl, Recorded.one rfl rfl rfl (List.append_nil _).symm rfl⟩

/-- A post that finds a negative count replies to the process it takes from the
list, in the buffer as it stands. -/
theorem semPost_recorded (σ : Fs P) (handle proc : Int) :
    σ.granted handle = none ∧ Recorded σ (σ.semPost handle proc) [] [] ∨
      ∃ i woken, σ.granted handle = some i ∧
        Recorded σ (σ.semPost handle proc) [⟨i, .posted σ.who woken⟩]
          (wakeReply σ.m1 ⟨i, .posted σ.who woken⟩) := by
  have ends := σ.semPost_ends handle proc
  generalize σ.semPost handle proc = result at ends ⊢
  cases ends with
  | refused granted => exact Or.inl ⟨granted, Recorded.none rfl rfl rfl rfl⟩
  | @woken i first granted _ took =>
      subst took
      exact Or.inr ⟨i, some _, granted, Recorded.one rfl rfl rfl rfl rfl⟩
  | @counted i granted =>
      exact Or.inr ⟨i, none, granted, Recorded.one rfl rfl rfl (List.append_nil _).symm rfl⟩

theorem semGetvalue_recorded (σ : Fs P) (handle : Int) :
    Recorded σ (σ.semGetvalue handle).1 [] [] := by
  have ends := σ.semGetvalue_ends handle
  generalize σ.semGetvalue handle = result at ends ⊢
  cases ends <;> exact Recorded.none rfl rfl rfl rfl

theorem semOpenAll_recorded (σ : Fs P) (pPslot cPslot : Int) :
    ∃ done, Recorded σ (σ.semOpenAll pPslot cPslot) done [] ∧
      (∀ a ∈ done, a.deed = .inherited pPslot cPslot) ∧ (done.map Action.place).Nodup := by
  refine sweep_recorded (openAllAt pPslot cPslot) (.inherited pPslot cPslot) rfl fun τ i _ => ?_
  have ends := openAllAt_ends τ pPslot cPslot i
  generalize openAllAt pPslot cPslot τ i = after at ends ⊢
  cases ends with
  | stranger => exact Or.inl (Recorded.none rfl rfl rfl rfl)
  | inherited => exact Or.inr (Recorded.one rfl rfl rfl (List.append_nil _).symm rfl)

theorem slotAt_coe (i : SlotIx) : slotAt (i : Nat) = some i := by
  have bound := i.isLt
  rw [slotAt, dif_pos ⟨by omega, by omega⟩]
  simp

theorem semCloseAll_recorded (σ : Fs P) (pslot : Int) :
    ∃ done, Recorded σ (σ.semCloseAll pslot) done [] ∧ (∀ a ∈ done, a.deed = .closed pslot) ∧
      (done.map Action.place).Nodup := by
  have closed := sweep_recorded (fun σ (i : SlotIx) => (semClose σ (i : Nat)).1) (.closed pslot)
    (show (σ.setWho pslot).who = pslot from rfl) fun τ i who => by
      rcases semClose_recorded τ (i : Nat) with ⟨-, refused, -⟩ | ⟨j, granted, -, recorded⟩
      · exact Or.inl refused
      · obtain rfl := Option.some.inj ((slotAt_of_granted granted).symm.trans (slotAt_coe i))
        rw [who] at recorded
        exact Or.inr recorded
  obtain ⟨done, recorded, same, places⟩ := closed
  exact ⟨done, ⟨rfl, recorded.acts, recorded.sent, recorded.dontReply⟩, same, places⟩

/-! ## Rounds -/

/-- A request does at most one thing, and this is what it asked for. -/
theorem dispatch_recorded (σ : Fs P) (m : Message) (g : Garbage) :
    ∃ done, Recorded σ (σ.dispatch m g).1 done (done.flatMap (wakeReply σ.m1)) ∧
      (done = [] ∨ ∃ a, done = [a] ∧ Asked σ.who m a) := by
  have nothing : ∀ {σ' σ'' : Fs P}, Recorded σ σ' [] [] → σ''.record = σ'.record →
      ∃ done, Recorded σ σ'' done (done.flatMap (wakeReply σ.m1)) ∧
        (done = [] ∨ ∃ a, done = [a] ∧ Asked σ.who m a) :=
    fun recorded same => ⟨[], recorded.globals same, Or.inl rfl⟩
  have one : ∀ {σ' σ'' : Fs P} {a : Act}, Recorded σ σ' [a] (wakeReply σ.m1 a) →
      σ''.record = σ'.record → Asked σ.who m a →
        ∃ done, Recorded σ σ'' done (done.flatMap (wakeReply σ.m1)) ∧
          (done = [] ∨ ∃ a, done = [a] ∧ Asked σ.who m a) :=
    fun {_ _ a} recorded same asked =>
      ⟨[a], by simpa using recorded.globals same, Or.inr ⟨a, rfl, asked⟩⟩
  rw [dispatch]
  cases funcion : Funcion.ofInt m.funcion with
  | none => exact ⟨[], Recorded.none rfl rfl rfl rfl, Or.inl rfl⟩
  | some funcion' =>
      cases funcion' with
      | semOpen =>
          rcases semOpen_recorded σ (requestName m) (BitVec.ofInt 32 m.oflag)
            (if m.cantArg = 4 then m.permisos else g.mod)
            (if m.cantArg = 4 then BitVec.ofInt 32 m.valInicial else g.val) with
            ⟨-, refused⟩ | ⟨i, deed, -, recorded, rfl | ⟨entry, rfl⟩⟩
          · exact nothing refused rfl
          · exact one recorded rfl (.opened funcion)
          · exact one recorded rfl (.created funcion)
      | semClose =>
          rcases semClose_recorded σ m.semaforo with ⟨-, refused, -⟩ | ⟨i, granted, -, recorded⟩
          · exact nothing refused rfl
          · exact one recorded rfl (.closed funcion (slotAt_of_granted granted))
      | semInit =>
          rcases semInit_recorded σ m.pshared (BitVec.ofInt 32 m.valInicial) with
            ⟨-, refused⟩ | ⟨i, -, recorded⟩
          · exact nothing refused rfl
          · exact one recorded rfl (.initialized funcion)
      | semWait =>
          rcases semWait_recorded σ m.semaforo with
            ⟨refused, -⟩ | ⟨i, granted, -, recorded | recorded⟩
          · exact nothing refused rfl
          · exact one recorded rfl (.queued funcion (slotAt_of_granted granted))
          · exact one recorded rfl (.passed funcion (slotAt_of_granted granted))
      | semPost =>
          rcases semPost_recorded σ m.semaforo g.proc with
            ⟨-, refused⟩ | ⟨i, woken, granted, recorded⟩
          · exact nothing refused rfl
          · exact one recorded rfl (.posted funcion (slotAt_of_granted granted))
      | semUlink =>
          rcases semUnlink_recorded σ (requestName m) with refused | ⟨i, -, recorded⟩
          · exact nothing refused rfl
          · exact one recorded rfl (.unlinked funcion)
      | semGetval => exact nothing (semGetvalue_recorded σ m.semaforo) rfl
      | semTrywait =>
          rcases semTrywait_recorded σ m.semaforo with ⟨refused, -⟩ | ⟨i, granted, -, recorded⟩
          · exact nothing refused rfl
          · exact one recorded rfl (.tried funcion (slotAt_of_granted granted))
      | semDestroy =>
          rcases semDestroy_recorded σ m.semaforo with refused | ⟨i, granted, -, recorded⟩
          · exact nothing refused rfl
          · exact one recorded rfl (.destroyed funcion (slotAt_of_granted granted))
      | semTimedwait =>
          exact nothing (show Recorded σ σ [] [] from Recorded.none rfl rfl rfl rfl) rfl

theorem callVector_recorded (σ : Fs P) (e : Event) (start : σ.who = e.source) :
    ∃ done, Recorded σ (σ.callVector e).1 done (done.flatMap (wakeReply σ.m1)) ∧
      Asks e done := by
  have silent : ∀ {σ' : Fs P} {done : List Act} {deed : Deed Int (Option EntryIx)},
      (∀ m1 i, wakeReply m1 ⟨i, deed⟩ = []) → Recorded σ σ' done [] →
        (∀ a ∈ done, a.deed = deed) → Recorded σ σ' done (done.flatMap (wakeReply σ.m1)) := by
    intro σ' done deed notPost recorded same
    have nothing : done.flatMap (wakeReply σ.m1) = [] := by
      refine List.flatMap_eq_nil_iff.mpr fun a mem => ?_
      rw [← notPost σ.m1 a.place, ← same a mem]
    rw [nothing]
    exact recorded
  cases e with
  | semaph who m g =>
      obtain ⟨done, recorded, asked⟩ := dispatch_recorded σ m g
      obtain rfl : σ.who = who := start
      exact ⟨done, ⟨recorded.who, recorded.acts, recorded.sent, recorded.dontReply⟩, asked⟩
  | fork parent child =>
      obtain ⟨done, recorded, same⟩ := semOpenAll_recorded σ parent child
      exact ⟨done, silent (fun _ _ => rfl) recorded same.1, same⟩
  | exec slot =>
      obtain ⟨done, recorded, same⟩ := semCloseAll_recorded σ slot
      exact ⟨done, silent (fun _ _ => rfl) recorded same.1, same⟩
  | exit slot =>
      obtain ⟨done, recorded, same⟩ := semCloseAll_recorded σ slot
      exact ⟨done, silent (fun _ _ => rfl) recorded same.1, same⟩

/-- The caller gets no reply. -/
def Suppressed (acts : List Act) : Bool :=
  acts.any fun a => a.deed.isQueue

/-- What a round records is what was asked for, and what it sends follows from it. -/
theorem step_recorded (σ : Fs P) (e : Event) :
    Asks e (σ.step e).acts ∧
      (σ.step e).sent = (σ.step e).acts.flatMap (wakeReply σ.m1) ++
        if Suppressed (σ.step e).acts then [] else [(e.source, (σ.step e).m1)] := by
  obtain ⟨done, recorded, asks⟩ := callVector_recorded (σ.getWork e.source) e rfl
  obtain ⟨τ, served⟩ : ∃ τ, (σ.getWork e.source).callVector e = τ := ⟨_, rfl⟩
  rw [served] at recorded
  have acts : τ.1.acts = done := recorded.acts
  have sent : τ.1.sent = done.flatMap (wakeReply σ.m1) := recorded.sent
  have dontReply : τ.1.dontReply = Suppressed done := recorded.dontReply
  have who : τ.1.who = e.source := recorded.who
  rw [Fs.step, served]
  by_cases suppressed : Suppressed done = true
  · rw [if_pos (dontReply.trans suppressed), acts, sent, if_pos suppressed, List.append_nil]
    exact ⟨asks, rfl⟩
  · have replies : ¬τ.1.dontReply = true := fun kept => suppressed (dontReply.symm.trans kept)
    rw [if_neg replies]
    change Asks e τ.1.acts ∧ τ.1.sent ++ [(τ.1.who, _)] = τ.1.acts.flatMap _ ++
      if Suppressed τ.1.acts then [] else [(e.source, _)]
    rw [acts, sent, who, if_neg suppressed]
    exact ⟨asks, rfl⟩

/-- An event queues its caller, or wakes one process, or does neither. -/
theorem asks_cases {e : Event} {acts : List Act} (asks : Asks e acts) :
    (∃ p i, e.source = p ∧ e.Requests p .semWait i ∧ acts = [⟨i, .queued p⟩]) ∨
      (∃ p q i, e.source = p ∧ e.Requests p .semPost i ∧ acts = [⟨i, .posted p (some q)⟩]) ∨
      (∀ a ∈ acts, ∀ p, a.deed ≠ .queued p) ∧ (∀ a ∈ acts, ∀ p, ¬a.Wakes p) ∧
        ∀ a ∈ acts, ∀ p, a.deed = .closed p → p = e.source ∨ e.leaver = some p := by
  cases e with
  | semaph p m g =>
      rcases asks with rfl | ⟨a, rfl, asked⟩
      · simp
      · cases asked with
        | queued funcion slot => exact Or.inl ⟨p, _, rfl, ⟨m, g, rfl, funcion, slot⟩, rfl⟩
        | @posted i woken funcion slot =>
            cases woken with
            | some q =>
                exact Or.inr (Or.inl ⟨p, q, i, rfl, ⟨m, g, rfl, funcion, slot⟩, rfl⟩)
            | none => simp [Action.Wakes]
        | closed => exact Or.inr (Or.inr (by simp [Action.Wakes, Event.source]))
        | _ => simp [Action.Wakes]
  | fork parent child =>
      have deeds : ∀ a ∈ acts, a.deed = .inherited parent child := asks.1
      refine Or.inr (Or.inr ⟨fun a mem p => ?_, fun a mem p => ?_, fun a mem p => ?_⟩) <;>
        simp [Action.Wakes, deeds a mem]
  | exec slot =>
      have deeds : ∀ a ∈ acts, a.deed = .closed slot := asks.1
      refine Or.inr (Or.inr ⟨fun a mem p => ?_, fun a mem p => ?_, fun a mem p => ?_⟩) <;>
        simp +contextual [Action.Wakes, deeds a mem, Event.leaver]
  | exit slot =>
      have deeds : ∀ a ∈ acts, a.deed = .closed slot := asks.1
      refine Or.inr (Or.inr ⟨fun a mem p => ?_, fun a mem p => ?_, fun a mem p => ?_⟩) <;>
        simp +contextual [Action.Wakes, deeds a mem, Event.leaver]

/-- A round that neither queues nor wakes anybody sends one reply, to its caller. -/
theorem step_sent_of_quiet {e : Event} (noQueue : ∀ a ∈ (σ.step e).acts, ∀ p, a.deed ≠ .queued p)
    (noWake : ∀ a ∈ (σ.step e).acts, ∀ p, ¬a.Wakes p) :
    (σ.step e).sent = [(e.source, (σ.step e).m1)] := by
  obtain ⟨-, sent⟩ := step_recorded σ e
  have silent : (σ.step e).acts.flatMap (wakeReply σ.m1) = [] := by
    refine List.flatMap_eq_nil_iff.mpr fun a mem => ?_
    rw [wakeReply]
    split
    · rename_i p q posts
      exact absurd ⟨p, posts⟩ (noWake a mem q)
    · rfl
  have replies : ¬Suppressed (σ.step e).acts = true := by
    rw [Suppressed, List.any_eq_true]
    rintro ⟨a, mem, queues⟩
    cases deed : a.deed with
    | queued p => exact noQueue a mem p deed
    | _ => simp [deed, Deed.isQueue] at queues
  rw [sent, silent, if_neg replies, List.nil_append]

/-! ## Answers to single requests -/

/-- A round that serves a request. -/
theorem step_semaph (σ : Fs P) (p : Int) (m : Message) (g : Garbage) :
    σ.step (.semaph p m g) =
      let served := (σ.getWork p).dispatch m g
      if served.1.dontReply then served.1
      else served.1.reply served.1.who (if served.2 ≠ 0 then served.1.errno else ok) :=
  rfl

/-- What a round leaves as the request has left it, and the type of the reply. -/
structure Replied (σ σ' : Fs P) (returnVal : Int) : Prop where
  dontReply : σ'.dontReply = σ.dontReply
  errno : σ'.errno = σ.errno
  acts : σ'.acts = σ.acts
  rta : σ'.m1.rta = σ.m1.rta
  param1 : σ'.m1.param1 = σ.m1.param1
  param2 : σ'.m1.param2 = σ.m1.param2
  type : σ.dontReply = false → σ'.m1.type = if returnVal ≠ 0 then σ.errno else ok

theorem step_replied {p : Int} {m : Message} {g : Garbage} {result : Fs P × Int}
    (handled : (σ.getWork p).dispatch m g = result) :
    Replied result.1 (σ.step (.semaph p m g)) result.2 := by
  rw [step_semaph, handled]
  simp only
  split
  · rename_i suppressed
    refine ⟨rfl, rfl, rfl, rfl, rfl, rfl, fun replies => ?_⟩
    rw [replies] at suppressed
    contradiction
  · exact ⟨rfl, rfl, rfl, rfl, rfl, rfl, fun _ => rfl⟩

/-- The end of a round in which an operation on a handle has served the request. -/
theorem step_handle {p : Int} {m : Message} {g : Garbage} {result : Fs P × Int}
    (handled : (σ.getWork p).dispatch m g = answerHandle result m.semaforo) :
    (σ.step (.semaph p m g)).acts = result.1.acts ∧
      (σ.step (.semaph p m g)).m1.rta = result.2 ∧
      (σ.step (.semaph p m g)).m1.param1 = m.semaforo ∧
      (result.1.dontReply = false → (σ.step (.semaph p m g)).m1.type =
        if result.2 ≠ 0 then result.1.errno else ok) :=
  let replied := step_replied handled
  ⟨replied.acts, replied.rta, replied.param1, replied.type⟩

/-- What has been sent after a round that did a single thing. -/
theorem step_sent_of_acts {e : Event} {acts : List Act} (did : (σ.step e).acts = acts) :
    (σ.step e).sent = acts.flatMap (wakeReply σ.m1) ++
      if Suppressed acts then [] else [(e.source, (σ.step e).m1)] := by
  rw [← did]
  exact (step_recorded σ e).2

/-- A wait is refused, queued without a reply, or granted with success. -/
theorem step_semWait {e : Event} {p : Int} {i : SlotIx} (requests : e.Requests p .semWait i) :
    (σ.step e).acts = [] ∧ (∃ r, (σ.step e).sent = [(p, r)] ∧ r.type = einval) ∨
      (σ.step e).acts = [⟨i, .queued p⟩] ∧ (σ.step e).sent = [] ∨
      (σ.step e).acts = [⟨i, .passed p⟩] ∧
        ∃ r, (σ.step e).sent = [(p, r)] ∧ r.type = ok ∧ r.rta = 0 := by
  obtain ⟨m, g, rfl, funcion, slot⟩ := requests
  have handled : (σ.getWork p).dispatch m g =
      answerHandle ((σ.getWork p).semWait m.semaforo) m.semaforo := by
    rw [dispatch, funcion]
  obtain ⟨acts, rta, -, type⟩ := step_handle handled
  rcases semWait_recorded (σ.getWork p) m.semaforo with
    ⟨refused, errno, result⟩ | ⟨j, granted, result, recorded | recorded⟩
  · have did := acts.trans refused.acts
    refine Or.inl ⟨did, _, step_sent_of_acts did, ?_⟩
    rw [type refused.dontReply, if_pos (by simp [result]), errno]
  · obtain rfl := Option.some.inj (slot.symm.trans (slotAt_of_granted granted))
    have did := acts.trans recorded.acts
    exact Or.inr (Or.inl ⟨did, step_sent_of_acts did⟩)
  · obtain rfl := Option.some.inj (slot.symm.trans (slotAt_of_granted granted))
    have did := acts.trans recorded.acts
    refine Or.inr (Or.inr ⟨did, _, step_sent_of_acts did, ?_, rta.trans result⟩)
    rw [type recorded.dontReply, if_neg (by simp [result])]

/-- A try is refused, or granted with success. -/
theorem step_semTrywait {e : Event} {p : Int} {i : SlotIx}
    (requests : e.Requests p .semTrywait i) :
    (σ.step e).acts = [] ∧ (∃ r, (σ.step e).sent = [(p, r)] ∧ r.type ≠ ok) ∨
      (σ.step e).acts = [⟨i, .tried p⟩] ∧
        ∃ r, (σ.step e).sent = [(p, r)] ∧ r.type = ok ∧ r.rta = 0 := by
  obtain ⟨m, g, rfl, funcion, slot⟩ := requests
  have handled : (σ.getWork p).dispatch m g =
      answerHandle ((σ.getWork p).semTrywait m.semaforo) m.semaforo := by
    rw [dispatch, funcion]
  obtain ⟨acts, rta, -, type⟩ := step_handle handled
  rcases semTrywait_recorded (σ.getWork p) m.semaforo with
    ⟨refused, errno, result⟩ | ⟨j, granted, result, recorded⟩
  · have did := acts.trans refused.acts
    refine Or.inl ⟨did, _, step_sent_of_acts did, ?_⟩
    rw [type refused.dontReply, if_pos (by simp [result])]
    exact errno
  · obtain rfl := Option.some.inj (slot.symm.trans (slotAt_of_granted granted))
    have did := acts.trans recorded.acts
    refine Or.inr ⟨did, _, step_sent_of_acts did, ?_, rta.trans result⟩
    rw [type recorded.dontReply, if_neg (by simp [result])]

/-- A post is done if the caller passes the test that all operations on a handle begin
with. -/
theorem step_semPost {e : Event} {p : Int} {i : SlotIx} (requests : e.Requests p .semPost i) :
    (σ.step e).acts = [] ∧ σ.belongs (σ.semArray i).procList p = false ∨
      (∃ woken, (σ.step e).acts = [⟨i, .posted p woken⟩]) ∧
        σ.belongs (σ.semArray i).procList p = true := by
  obtain ⟨m, g, rfl, funcion, slot⟩ := requests
  have handled : (σ.getWork p).dispatch m g =
      answerHandle ((σ.getWork p).semPost m.semaforo g.proc, g.returnVal) m.semaforo := by
    rw [dispatch, funcion]
  obtain ⟨acts, -⟩ := step_handle handled
  have granted : (σ.getWork p).granted m.semaforo =
      if σ.belongs (σ.semArray i).procList p then some i else none := by
    rw [Fs.granted, slot, Option.filter_some]
    rfl
  rcases semPost_recorded (σ.getWork p) m.semaforo g.proc with
    ⟨none, refused⟩ | ⟨j, woken, some, recorded⟩
  · refine Or.inl ⟨acts.trans refused.acts, ?_⟩
    rw [granted] at none
    by_contra member
    rw [if_pos (by simpa using member)] at none
    contradiction
  · obtain rfl := Option.some.inj (slot.symm.trans (slotAt_of_granted some))
    refine Or.inr ⟨⟨woken, acts.trans recorded.acts⟩, ?_⟩
    rw [granted] at some
    by_contra outsider
    rw [if_neg outsider] at some
    contradiction

/-- What the deeds of a round say is what its requests and replies were. -/
structure Accounted (σ : Fs P) (e : Event) : Prop where
  wait : ∀ p i, e.Requests p .semWait i → ((σ.step e).acts = [⟨i, .passed p⟩] ↔
    ∃ r, (σ.step e).sent = [(p, r)] ∧ r.type = ok ∧ r.rta = 0)
  trywait : ∀ p i, e.Requests p .semTrywait i → ((σ.step e).acts = [⟨i, .tried p⟩] ↔
    ∃ r, (σ.step e).sent = [(p, r)] ∧ r.type = ok ∧ r.rta = 0)
  post : ∀ p i, e.Requests p .semPost i → ((∃ woken, (σ.step e).acts = [⟨i, .posted p woken⟩]) ↔
    σ.belongs (σ.semArray i).procList p = true)
  only : ∀ a ∈ (σ.step e).acts,
    (a.deed.isPass = true → ∃ p, e.Requests p .semWait a.place) ∧
      (a.deed.isTry = true → ∃ p, e.Requests p .semTrywait a.place) ∧
      (a.deed.isPost = true → ∃ p, e.Requests p .semPost a.place)
  sent : (σ.step e).sent = (σ.step e).acts.flatMap (wakeReply σ.m1) ++
    if Suppressed (σ.step e).acts then [] else [(e.source, (σ.step e).m1)]

theorem accounted (σ : Fs P) (e : Event) : σ.Accounted e := by
  obtain ⟨asks, sent⟩ := step_recorded σ e
  refine ⟨fun p i requests => ?_, fun p i requests => ?_, fun p i requests => ?_,
    fun a mem => ?_, sent⟩
  · rcases step_semWait (σ := σ) requests with
      ⟨did, r, said, type⟩ | ⟨did, said⟩ | ⟨did, r, said, type, rta⟩
    · simp [did, said, type]
    · simp [did, said]
    · exact iff_of_true did ⟨r, said, type, rta⟩
  · rcases step_semTrywait (σ := σ) requests with ⟨did, r, said, type⟩ | ⟨did, r, said, type, rta⟩
    · simp [did, said, type]
    · exact iff_of_true did ⟨r, said, type, rta⟩
  · rcases step_semPost (σ := σ) requests with ⟨did, outsider⟩ | ⟨did, member⟩
    · simp [did, outsider]
    · exact iff_of_true did member
  · cases e with
    | semaph p m g =>
        rcases asks with none | ⟨b, did, asked⟩
        · simp [none] at mem
        · rw [did] at mem
          obtain rfl := List.mem_singleton.mp mem
          cases asked with
          | passed funcion slot =>
              exact ⟨fun _ => ⟨p, m, g, rfl, funcion, slot⟩, by simp [Deed.isTry],
                by simp [Deed.isPost]⟩
          | tried funcion slot =>
              exact ⟨by simp [Deed.isPass], fun _ => ⟨p, m, g, rfl, funcion, slot⟩,
                by simp [Deed.isPost]⟩
          | posted funcion slot =>
              exact ⟨by simp [Deed.isPass], by simp [Deed.isTry],
                fun _ => ⟨p, m, g, rfl, funcion, slot⟩⟩
          | _ => simp [Deed.isPass, Deed.isTry, Deed.isPost]
    | fork parent child => simp [asks.1 a mem, Deed.isPass, Deed.isTry, Deed.isPost]
    | exec slot => simp [asks.1 a mem, Deed.isPass, Deed.isTry, Deed.isPost]
    | exit slot => simp [asks.1 a mem, Deed.isPass, Deed.isTry, Deed.isPost]

end Fs

end MinixSemaphore.Server
