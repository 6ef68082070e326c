import MinixSemaphore.Client.Library
import MinixSemaphore.Server.States
import MinixSemaphore.Transition.Stack

/-!
# The order of waking

`sem_post` wakes the process in front of the list of blocked processes, and `sem_wait`
puts its caller there. So the list is a stack, and who has waited longest is woken last.
-/

namespace MinixSemaphore.Server

open MinixSemaphore.Lists
open MinixSemaphore.Names
open MinixSemaphore.Store
open MinixSemaphore.Semaphore
open MinixSemaphore.Transition

universe u

namespace Fs

open SemTable

variable {σ σ' σ'' : SeqFs}

/-! ## Operations that neither block nor wake -/

/-- Nobody is blocked or woken; a list of blocked processes can only go as a whole. -/
def Rests (σ σ' : SeqFs) : Prop :=
  ∀ i, σ'.waiters i = σ.waiters i ∨ σ'.waiters i = []

namespace Rests

theorem refl (σ : SeqFs) : Rests σ σ :=
  fun _ => Or.inl rfl

theorem trans (first : Rests σ σ') (second : Rests σ' σ'') : Rests σ σ'' := by
  intro i
  rcases second i with same | gone
  · rw [same]
    exact first i
  · exact Or.inr gone

/-- A change of other variables. -/
theorem globals (rests : Rests σ σ') (array : σ''.semArray = σ'.semArray)
    (pools : σ''.pools = σ'.pools) : Rests σ σ'' := by
  intro i
  rw [waiters, array, pools]
  exact rests i

theorem modSem (σ : SeqFs) (i : SlotIx) (f : SemCdt → SemCdt)
    (blocked : ∀ s, (f s).blockedList = s.blockedList) : Rests σ (σ.modSem i f) := by
  intro j
  left
  by_cases same : j = i <;> simp [waiters, Fs.modSem, same, blocked]

/-- Lists of processes and of blocked processes are different lists. -/
theorem of_procList (paired : σ.Paired) (i : SlotIx) (array : σ'.semArray = σ.semArray)
    (others : ∀ list, list ≠ (σ.semArray i).procList → σ'.pools.seq list = σ.pools.seq list) :
    Rests σ σ' := by
  intro j
  left
  rw [waiters, waiters, array]
  cases blocked : (σ.semArray j).blockedList with
  | none => rfl
  | some l =>
      apply others
      intro same
      rw [← blocked] at same
      exact Option.some_ne_none l (blocked.symm.trans (paired.blockedList_eq_none same))

theorem insert_procList (paired : σ.Paired) (i : SlotIx) (p : Int) :
    Rests σ (σ.insert (σ.semArray i).procList p) := by
  apply of_procList paired i
  · rfl
  · intro list other
    exact SeqStore.seq_listInsert_of_ne σ.pools other p

theorem delete_procList (paired : σ.Paired) (i : SlotIx) (p : Int) :
    Rests σ (σ.delete (σ.semArray i).procList p) := by
  apply of_procList paired i
  · rfl
  · intro list other
    exact SeqStore.seq_listDelete_of_ne σ.pools other p

theorem release (paired : σ.Paired) (i : SlotIx) : Rests σ (σ.release i) := by
  intro j
  have lists : ((σ.release i).semArray j).blockedList = (σ.semArray j).blockedList := by
    rw [release_semArray]
    by_cases same : j = i <;> simp [same]
  rw [waiters, waiters, lists]
  rcases paired.lists i with ⟨noProc, noBlocked⟩ | ⟨k, proc, blocked⟩
  · rw [release_pools_of_none noProc noBlocked]
    exact Or.inl rfl
  · obtain ⟨-, content⟩ := release_pools proc blocked
    cases (σ.semArray j).blockedList with
    | none => exact Or.inl rfl
    | some l =>
        rw [SeqStore.seq_some, SeqStore.seq_some, content]
        split
        · exact Or.inr rfl
        · exact Or.inl rfl

/-- A new slot starts with an empty list. -/
theorem makeLists (paired : σ.Paired) (i : SlotIx) : Rests σ (σ.makeLists i) := by
  obtain ⟨k, made⟩ := exists_made paired i
  intro j
  by_cases same : j = i
  · right
    rw [waiters, made.semArray, same, Function.update_self]
    exact made.waiters
  · rw [waiters, waiters, made.semArray, Function.update_of_ne same]
    rcases paired.lists j with ⟨-, noBlocked⟩ | ⟨k', -, blocked⟩
    · rw [noBlocked]
      exact Or.inl rfl
    · rw [blocked, SeqStore.seq_some, SeqStore.seq_some]
      by_cases taken : blockedCell k' = blockedCell k
      · rw [taken]
        exact Or.inr made.waiters
      · exact Or.inl (made.others _ (blockedCell_ne_procCell k' k) taken)

end Rests

theorem rests_semCreate (paired : σ.Paired) (mode : Int) (value : BitVec 32) :
    Rests σ (σ.semCreate mode value).1 := by
  have valued : ∀ i, Rests σ (σ.modSem i fun s =>
      { s with permision := mode, semCount := value.toInt }) := fun i =>
    Rests.modSem σ i _ fun _ => rfl
  have ends := σ.semCreate_ends mode value
  generalize σ.semCreate mode value = result at ends ⊢
  cases ends with
  | noSlot => exact (Rests.refl σ).globals rfl rfl
  | stale => exact Rests.refl σ
  | tooLarge => exact (valued _).globals rfl rfl
  | @made i first =>
      have begun := paired_begun paired (idle_of_first first) mode value
      exact ((valued i).trans (Rests.modSem _ i
        (fun s => { s with refCount := 1, unlinked := false }) fun _ => rfl)).trans
          (Rests.makeLists begun i)

theorem rests_join (paired : σ.Paired) (i : SlotIx) (p : Int) :
    Rests σ ((σ.modSem i fun s => { s with refCount := s.refCount + 1 }).insert
      (σ.semArray i).procList p) := by
  have counted := Rests.modSem σ i (fun s => { s with refCount := s.refCount + 1 }) fun _ => rfl
  have inserted := Rests.insert_procList (paired_grow paired i) i p
  rw [grow_procList] at inserted
  exact counted.trans inserted

theorem rests_semOpen (paired : σ.Paired) (name : CString) (oflag : BitVec 32) (mod : Int)
    (val : BitVec 32) : Rests σ (σ.semOpen name oflag mod val).1 := by
  have cleared : Rests σ (σ.setErrno 0) := (Rests.refl σ).globals rfl rfl
  have created := rests_semCreate (σ := σ.setErrno 0) paired mod val
  have ends := σ.semOpen_ends name oflag mod val
  generalize σ.semOpen name oflag mod val = result at ends ⊢
  cases ends with
  | absent => exact (Rests.refl σ).globals rfl rfl
  | tooLong => exact (Rests.refl σ).globals rfl rfl
  | taken => exact (Rests.refl σ).globals rfl rfl
  | uncovered => exact cleared
  | @joined i =>
      have joined := rests_join (σ := σ.setErrno 0) paired i σ.who
      exact (cleared.trans joined).globals rfl rfl
  | notMade _ _ _ _ result =>
      rw [result] at created
      exact cleared.trans created
  | made _ _ _ _ result =>
      rw [result] at created
      exact (cleared.trans created).globals rfl rfl

theorem rests_semInit (paired : σ.Paired) (pshared : Int) (value : BitVec 32) :
    Rests σ (σ.semInit pshared value).1 := by
  have created := rests_semCreate paired 0 value
  have ends := σ.semInit_ends pshared value
  generalize σ.semInit pshared value = result at ends ⊢
  cases ends with
  | notMade result =>
      rw [result] at created
      exact created
  | @made τ i result =>
      rw [result] at created
      exact (created.trans (Rests.modSem τ i
        (fun s => { s with unlinked := true }) fun _ => rfl)).globals rfl rfl

theorem rests_semDestroy (paired : σ.Paired) (handle : Int) :
    Rests σ (σ.semDestroy handle).1 := by
  have ends := σ.semDestroy_ends handle
  generalize σ.semDestroy handle = result at ends ⊢
  cases ends with
  | refused => exact (Rests.refl σ).globals rfl rfl
  | busy => exact (Rests.refl σ).globals rfl rfl
  | destroyed => exact (Rests.release paired _).globals rfl rfl

theorem rests_semUnlink (σ : SeqFs) (name : CString) : Rests σ (σ.semUnlink name).1 := by
  have ends := σ.semUnlink_ends name
  generalize σ.semUnlink name = result at ends ⊢
  cases ends with
  | tooLong => exact (Rests.refl σ).globals rfl rfl
  | absent => exact (Rests.refl σ).globals rfl rfl
  | stranger => exact (Rests.refl σ).globals rfl rfl
  | unused => exact Rests.refl σ
  | @unlinked i =>
      exact (Rests.modSem σ i (fun s => { s with unlinked := true }) fun _ => rfl).globals rfl rfl

theorem rests_semClose (paired : σ.Paired) (handle : Int) : Rests σ (σ.semClose handle).1 := by
  have ends := σ.semClose_ends handle
  generalize σ.semClose handle = result at ends ⊢
  cases ends with
  | refused => exact (Rests.refl σ).globals rfl rfl
  | @last i =>
      have released := Rests.release (paired.steady (steady_delete (σ.semArray i).procList σ.who)) i
      exact ((Rests.delete_procList paired i σ.who).trans released).globals rfl rfl
  | left => exact (Rests.delete_procList paired _ σ.who).globals rfl rfl

theorem rests_semTrywait (σ : SeqFs) (handle : Int) : Rests σ (σ.semTrywait handle).1 := by
  have ends := σ.semTrywait_ends handle
  generalize σ.semTrywait handle = result at ends ⊢
  cases ends with
  | refused => exact (Rests.refl σ).globals rfl rfl
  | again => exact (Rests.refl σ).globals rfl rfl
  | @tried i =>
      exact (Rests.modSem σ i (fun s => { s with semCount := s.semCount + -1 })
        fun _ => rfl).globals rfl rfl

theorem rests_semGetvalue (σ : SeqFs) (handle : Int) : Rests σ (σ.semGetvalue handle).1 := by
  have ends := σ.semGetvalue_ends handle
  generalize σ.semGetvalue handle = result at ends ⊢
  cases ends with
  | refused => exact (Rests.refl σ).globals rfl rfl
  | read => exact Rests.refl σ

theorem rests_semOpenAll (paired : σ.Paired) (pPslot cPslot : Int) :
    Rests σ (σ.semOpenAll pPslot cPslot) := by
  have swept : (σ.semOpenAll pPslot cPslot).Paired ∧ Rests σ (σ.semOpenAll pPslot cPslot) := by
    apply sweep_invariant (I := fun τ : SeqFs => τ.Paired ∧ Rests σ τ)
    · exact ⟨paired, Rests.refl σ⟩
    · rintro τ i ⟨paired, rests⟩
      have ends := τ.openAllAt_ends pPslot cPslot i
      generalize openAllAt pPslot cPslot τ i = result at ends ⊢
      cases ends with
      | stranger => exact ⟨paired, rests⟩
      | inherited =>
          exact ⟨(paired_grow paired i).steady (steady_insert _ _),
            (rests.trans (rests_join paired i cPslot)).globals rfl rfl⟩
  exact swept.2

theorem rests_semCloseAll (paired : σ.Paired) (pslot : Int) :
    Rests σ (σ.semCloseAll pslot) := by
  have swept : (σ.semCloseAll pslot).Paired ∧ Rests σ (σ.semCloseAll pslot) := by
    refine sweep_invariant (I := fun τ : SeqFs => τ.Paired ∧ Rests σ τ)
      (b := σ.setWho pslot) ⟨paired, (Rests.refl σ).globals rfl rfl⟩ ?_
    rintro τ i ⟨paired, rests⟩
    exact ⟨paired_semClose paired (i : Nat), rests.trans (rests_semClose paired (i : Nat))⟩
  exact swept.2

/-! ## Waits and posts -/

theorem moves_listInsert (s : SeqStore Int) (list list' : ListADT) (p : Int) :
    Moves (s.seq list') ((s.listInsert list p).1.seq list') := by
  by_cases same : list' = list
  · subst same
    cases list' with
    | none => exact Moves.still _
    | some l =>
        rw [SeqStore.listInsert]
        split
        · have pushed : ({ s.put (some l) (p :: s.seq (some l)) with used := s.used + 1 } :
              SeqStore Int).seq (some l) = p :: s.seq (some l) :=
            SeqStore.seq_put_self s l _
          rw [pushed]
          exact Moves.push p _
        · exact Moves.still _
  · rw [SeqStore.seq_listInsert_of_ne s same]
    exact Moves.still _

theorem moves_listRemoveFirst (s : SeqStore Int) (list list' : ListADT) :
    Moves (s.seq list') ((s.listRemoveFirst list).1.seq list') := by
  cases list with
  | none => exact Moves.still _
  | some l =>
      have rewritten := SeqStore.listRemoveFirst_rewritten s l
      by_cases same : list' = some l
      · subst same
        rw [rewritten.self]
        cases s.seq (some l) with
        | nil => exact Moves.still _
        | cons p rest => exact Moves.pop p rest
      · rw [rewritten.others list' same]
        exact Moves.still _

theorem Rests.moves (rests : Rests σ σ') (i : SlotIx) : Moves (σ.waiters i) (σ'.waiters i) := by
  rcases rests i with same | gone
  · rw [same]
    exact Moves.still _
  · rw [gone]
    exact Moves.clear _

theorem waiters_addCount (σ : SeqFs) (j : SlotIx) (amount : Int) (i : SlotIx) :
    (σ.addCount j amount).waiters i = σ.waiters i :=
  (lists_modSem j (fun s => { s with semCount := s.semCount + amount }) (fun _ => rfl)
    (fun _ => rfl) i).2

/-- A wait that blocks puts its caller in front. -/
theorem moves_semWait (σ : SeqFs) (handle : Int) (i : SlotIx) :
    Moves (σ.waiters i) ((σ.semWait handle).1.waiters i) := by
  have ends := σ.semWait_ends handle
  generalize σ.semWait handle = result at ends ⊢
  cases ends with
  | refused => exact Moves.still _
  | @queued j =>
      have inserted := moves_listInsert σ.pools (σ.semArray j).blockedList
        (σ.semArray i).blockedList σ.who
      have kept := waiters_addCount (((σ.setErrno 0).setDontReply true).insert
        (σ.semArray j).blockedList σ.who) j (-1) i
      exact kept.symm ▸ inserted
  | @passed j =>
      have kept := waiters_addCount (σ.setErrno 0) j (-1) i
      exact kept.symm ▸ Moves.still _

/-- A post on a negative count takes the process in front. -/
theorem moves_semPost (σ : SeqFs) (handle proc : Int) (i : SlotIx) :
    Moves (σ.waiters i) ((σ.semPost handle proc).waiters i) := by
  have ends := σ.semPost_ends handle proc
  generalize σ.semPost handle proc = result at ends ⊢
  cases ends with
  | refused => exact Moves.still _
  | @woken j first _ _ took =>
      obtain rfl := took
      have taken := moves_listRemoveFirst σ.pools (σ.semArray j).blockedList
        (σ.semArray i).blockedList
      have kept := waiters_addCount (((σ.setErrno 0).takeFirst
        (σ.semArray j).blockedList proc).1.semWake ((σ.setErrno 0).takeFirst
          (σ.semArray j).blockedList proc).2 0) j 1 i
      exact kept.symm ▸ taken
  | @counted j =>
      have kept := waiters_addCount (σ.setErrno 0) j 1 i
      exact kept.symm ▸ Moves.still _

/-- In every round each list of blocked processes changes as a stack does. -/
theorem moves_step (paired : σ.Paired) (e : Event) (i : SlotIx) :
    Moves (σ.waiters i) ((σ.step e).waiters i) := by
  have served : Moves (σ.waiters i) (((σ.getWork e.source).callVector e).1.waiters i) := by
    cases e with
    | fork parent child =>
        exact (rests_semOpenAll (σ := σ.getWork mmProcNr) paired parent child).moves i
    | exec slot => exact (rests_semCloseAll (σ := σ.getWork mmProcNr) paired slot).moves i
    | exit slot => exact (rests_semCloseAll (σ := σ.getWork mmProcNr) paired slot).moves i
    | semaph p m g =>
        change Moves ((σ.getWork p).waiters i) (((σ.getWork p).dispatch m g).1.waiters i)
        have paired : (σ.getWork p).Paired := paired
        rw [dispatch]
        cases Funcion.ofInt m.funcion with
        | none => exact Moves.still _
        | some funcion =>
            cases funcion with
            | semOpen => exact (rests_semOpen paired _ _ _ _).moves i
            | semClose => exact (rests_semClose paired m.semaforo).moves i
            | semInit => exact (rests_semInit paired m.pshared _).moves i
            | semWait => exact moves_semWait (σ.getWork p) m.semaforo i
            | semPost => exact moves_semPost (σ.getWork p) m.semaforo g.proc i
            | semUlink => exact (rests_semUnlink (σ.getWork p) (requestName m)).moves i
            | semGetval => exact (rests_semGetvalue (σ.getWork p) m.semaforo).moves i
            | semTrywait => exact (rests_semTrywait (σ.getWork p) m.semaforo).moves i
            | semDestroy => exact (rests_semDestroy paired m.semaforo).moves i
            | semTimedwait => exact Moves.still _
  rw [Fs.step]
  split
  · exact served
  · exact served

end Fs

/-! ## Who is woken -/

namespace Fs

section

variable {P : Type u} [ListLib P Int]

/-- The event wakes a process that is blocked on the slot. -/
def Wakes (σ : Fs P) (e : Event) (i : SlotIx) (q : Int) : Prop :=
  ∃ p, (⟨i, .posted p (some q)⟩ : Act) ∈ (σ.step e).acts

/-- The event is a post by a process of the slot, whose count is negative. -/
def Rouses (σ : Fs P) (e : Event) (i : SlotIx) : Prop :=
  ∃ p, e.Requests p .semPost i ∧ σ.belongs (σ.semArray i).procList p = true ∧
    (σ.semArray i).semCount < 0

/-- What a post on a slot does. -/
theorem step_semPost_acts (σ : Fs P) {p : Int} {m : Message} {g : Garbage} {i : SlotIx}
    (funcion : Funcion.ofInt m.funcion = some .semPost) (slot : slotAt m.semaforo = some i)
    (member : σ.belongs (σ.semArray i).procList p = true) :
    (σ.step (.semaph p m g)).acts = [⟨i, .posted p (if (σ.semArray i).semCount < 0 then
      some (σ.takeFirst (σ.semArray i).blockedList g.proc).2 else none)⟩] := by
  have handled : (σ.getWork p).dispatch m g =
      answerHandle ((σ.getWork p).semPost m.semaforo g.proc, g.returnVal) m.semaforo := by
    rw [dispatch, funcion]
  obtain ⟨acts, -⟩ := step_handle handled
  have granted : (σ.getWork p).granted m.semaforo = some i :=
    Option.filter_eq_some_iff.mpr ⟨slot, member⟩
  rw [acts]
  have ends := (σ.getWork p).semPost_ends m.semaforo g.proc
  generalize (σ.getWork p).semPost m.semaforo g.proc = after at ends ⊢
  cases ends with
  | refused refused =>
      rw [granted] at refused
      contradiction
  | woken granted' negative took =>
      obtain rfl := Option.some.inj (granted.symm.trans granted')
      subst took
      have negative : (σ.semArray i).semCount < 0 := negative
      rw [if_pos negative]
      rfl
  | counted granted' positive =>
      obtain rfl := Option.some.inj (granted.symm.trans granted')
      have positive : ¬(σ.semArray i).semCount < 0 := not_lt.mpr positive
      rw [if_neg positive]
      rfl

theorem Wakes.rouses {σ : Fs P} {e : Event} {i : SlotIx} {q : Int} (wakes : σ.Wakes e i q) :
    ∃ p m g, e = .semaph p m g ∧ Funcion.ofInt m.funcion = some .semPost ∧
      slotAt m.semaforo = some i ∧ σ.belongs (σ.semArray i).procList p = true ∧
      (σ.semArray i).semCount < 0 := by
  obtain ⟨p, mem⟩ := wakes
  rcases asks_cases (step_recorded σ e).1 with
    ⟨p', j, -, -, acts⟩ | ⟨p', q', j, -, requests, acts⟩ | ⟨-, noWake, -⟩
  · rw [acts, List.mem_singleton] at mem
    exact absurd (congrArg Action.deed mem) (by simp)
  · rw [acts, List.mem_singleton] at mem
    obtain ⟨rfl, -, rfl⟩ : i = j ∧ p = p' ∧ q = q' := by simpa using mem
    obtain ⟨m, g, rfl, funcion, slot⟩ := requests
    refine ⟨p', m, g, rfl, funcion, slot, ?_⟩
    rcases step_semPost (σ := σ) ⟨m, g, rfl, funcion, slot⟩ with ⟨nothing, -⟩ | ⟨-, member⟩
    · rw [acts] at nothing
      contradiction
    · refine ⟨member, ?_⟩
      by_contra notNegative
      rw [step_semPost_acts σ funcion slot member, if_neg notNegative] at acts
      simp at acts
  · exact absurd ⟨p, rfl⟩ (noWake _ mem q)

end

end Fs

namespace World

variable {w : World (Pools Int)} {es : List Event} {e : Event} {i : SlotIx} {q : Int}

/-- If processes are blocked on the slot, a post that has to wake one wakes the one in
front. -/
theorem wakes_iff (simulated : w.Simulated) (present : w.fs.blocked i ≠ []) :
    w.fs.Wakes e i q ↔ w.fs.Rouses e i ∧ (w.fs.blocked i).head? = some q := by
  have taken : ∀ proc, some (w.fs.takeFirst (w.fs.semArray i).blockedList proc).2 =
      (w.fs.blocked i).head? := by
    intro proc
    have head := (Pools.getElement_toBegin_refines simulated.wellFormed
      (w.fs.semArray i).blockedList).2
    rw [← Fs.blocked] at head
    obtain ⟨first, rest, front⟩ := List.exists_cons_of_ne_nil present
    rw [front] at head ⊢
    exact congrArg (fun found => some (Option.getD found proc)) head
  constructor
  · intro wakes
    obtain ⟨p, m, g, rfl, funcion, slot, member, negative⟩ := wakes.rouses
    refine ⟨⟨p, ⟨m, g, rfl, funcion, slot⟩, member, negative⟩, ?_⟩
    obtain ⟨p', mem⟩ := wakes
    rw [Fs.step_semPost_acts w.fs funcion slot member, if_pos negative, List.mem_singleton] at mem
    rw [← taken g.proc]
    exact ((Deed.posted.inj (congrArg Action.deed mem)).2).symm
  · rintro ⟨⟨p, ⟨m, g, rfl, funcion, slot⟩, member, negative⟩, front⟩
    refine ⟨p, ?_⟩
    rw [Fs.step_semPost_acts w.fs funcion slot member, if_pos negative, taken g.proc, front]
    exact List.mem_singleton.mpr rfl

/-- The processes that are blocked on a slot after some events. -/
def blockedAfter (i : SlotIx) (es : List Event) : List Int :=
  (after es).fs.blocked i

/-- The event wakes nobody before a process that has been blocked on the same slot for a
longer time. -/
def FirstWoken (es : List Event) (e : Event) : Prop :=
  ∀ i p q, Precedes (blockedAfter i) es p q → ¬(after es).fs.Wakes e i q

theorem blockedAfter_nil (i : SlotIx) : blockedAfter i [] = [] := by
  have empty := Fs.Sim.waiters boot_sturdy.simulated i
  rw [boot_abs] at empty
  exact empty.symm

theorem blockedAfter_moves (i : SlotIx) (es : List Event) (e : Event) :
    Moves (blockedAfter i es) (blockedAfter i (es ++ [e])) := by
  have sturdy := after_sturdy es
  have before := Fs.Sim.waiters sturdy.simulated i
  have after := Fs.Sim.waiters (sturdy.step e).simulated i
  rw [step_abs sturdy.simulated e] at after
  rw [blockedAfter, blockedAfter, after_snoc, ← before, ← after]
  exact Fs.moves_step sturdy.paired e i

/-- After any events, a process that is woken has been blocked longest, exactly if a post
that has to wake a process of a slot finds the same process at both ends of its list. -/
theorem firstWoken_iff_ends (es : List Event) (e : Event) : FirstWoken es e ↔
    ∀ i, (after es).fs.Rouses e i →
      ((after es).fs.blocked i).head? = ((after es).fs.blocked i).getLast? := by
  have simulated := (after_sturdy es).simulated
  constructor
  · intro fair i rouses
    cases blocked : (after es).fs.blocked i with
    | nil => rfl
    | cons q rest =>
        have present : (after es).fs.blocked i ≠ [] := by simp [blocked]
        have wakes : (after es).fs.Wakes e i q :=
          (wakes_iff simulated present).mpr ⟨rouses, by rw [blocked]; rfl⟩
        have stack : blockedAfter i es = q :: rest := blocked
        by_contra differ
        obtain ⟨p, precedes⟩ : ∃ p, Precedes (blockedAfter i) es p q := by
          apply (exists_precedes_iff (blockedAfter_nil i) (blockedAfter_moves i) ?_).mpr
          · intro last
            rw [stack] at last
            exact differ last.symm
          · rw [stack]
            exact List.mem_cons_self
        exact fair i p q precedes wakes
  · intro ends i p q precedes wakes
    have present : (after es).fs.blocked i ≠ [] := List.ne_nil_of_mem precedes.1
    obtain ⟨rouses, front⟩ := (wakes_iff simulated present).mp wakes
    have overtaken := (exists_precedes_iff (blockedAfter_nil i) (blockedAfter_moves i)
      precedes.1).mp ⟨p, precedes⟩
    exact overtaken ((ends i rouses).symm.trans front)

/-- Process 6 waits, then process 7 waits, and a post wakes process 7. -/
theorem not_firstWoken_of_two_waiters :
    let waits := [Client.call 5 (Client.semOpenRequest default ⟨[97], by simp⟩ 0o100 0 0),
      Client.call 6 (Client.semOpenRequest default ⟨[97], by simp⟩ 0 0 0),
      Client.call 7 (Client.semOpenRequest default ⟨[97], by simp⟩ 0 0 0),
      Client.call 6 (Client.semWaitRequest default 0)]
    ¬FirstWoken (waits ++ [Client.call 7 (Client.semWaitRequest default 0)])
      (Client.call 5 (Client.semPostRequest default 0)) := by
  intro waits fair
  apply fair 0 6 7
  · apply Precedes.snoc
    · decide +kernel
    · decide +kernel
    · decide +kernel
    · decide +kernel
  · exact ⟨5, by decide +kernel⟩

end World

end MinixSemaphore.Server
