import MinixSemaphore.Server.Capacity

/-!
# The largest value

`SEM_VALUE_MAX` is looked at when a semaphore is created, and a post counts up without
looking. A value that is refused has been written into the free slot by then, and what
keeps it there from being the value of a semaphore is that the next creation overwrites
it: a slot that comes to life without a creation keeps it.
-/

namespace MinixSemaphore.Server

open MinixSemaphore.Lists
open MinixSemaphore.Names
open MinixSemaphore.Store
open MinixSemaphore.Semaphore
open MinixSemaphore.Transition

universe u

namespace Fs

open SemTable

section Events

variable {P : Type u}

/-- No live semaphore has a value above the limit. -/
def Bounded (σ : Fs P) : Prop :=
  ∀ i, 0 < (σ.semArray i).refCount → (σ.semArray i).semCount ≤ semValueMax

instance (σ : Fs P) : Decidable σ.Bounded :=
  inferInstanceAs (Decidable (∀ i, 0 < (σ.semArray i).refCount → _))

variable [ListLib P Int]

/-- The event is a post on a slot, and its sender may use the slot. -/
def Posts (σ : Fs P) (e : Event) (i : SlotIx) : Prop :=
  match e with
  | .semaph who m _ =>
      Funcion.ofInt m.funcion = some .semPost ∧ (σ.getWork who).granted m.semaforo = some i
  | _ => False

/-- The event gives a slot one reference more: the slot is opened by a name that it has,
or the parent in a fork is a member. -/
def Joins (σ : Fs P) (e : Event) (i : SlotIx) : Prop :=
  match e with
  | .semaph _ m _ =>
      Funcion.ofInt m.funcion = some .semOpen ∧ ¬Excludes (BitVec.ofInt 32 m.oflag) ∧
        σ.semNameMap.hashTableFind (requestName m) = some i
  | .fork parent _ => σ.belongs (σ.semArray i).procList parent = true
  | _ => False

instance (σ : Fs P) (e : Event) (i : SlotIx) : Decidable (σ.Posts e i) :=
  match e with
  | .semaph _ _ _ => inferInstanceAs (Decidable (_ ∧ _))
  | .fork _ _ | .exec _ | .exit _ => inferInstanceAs (Decidable False)

instance (σ : Fs P) (e : Event) (i : SlotIx) : Decidable (σ.Joins e i) :=
  match e with
  | .semaph _ _ _ => inferInstanceAs (Decidable (_ ∧ _ ∧ _))
  | .fork _ _ => inferInstanceAs (Decidable (_ = true))
  | .exec _ | .exit _ => inferInstanceAs (Decidable False)

/-- No semaphore is posted at the limit, and no free slot in which a larger value was
left behind comes to life again. -/
structure Fits (σ : Fs P) (e : Event) : Prop where
  posts : ∀ i, σ.Posts e i → 0 < (σ.semArray i).refCount →
    (σ.semArray i).semCount < semValueMax
  joins : ∀ i, σ.Joins e i → (σ.semArray i).refCount = 0 →
    (σ.semArray i).semCount ≤ semValueMax

instance (σ : Fs P) (e : Event) : Decidable (σ.Fits e) :=
  decidable_of_iff ((∀ i, σ.Posts e i → 0 < (σ.semArray i).refCount →
      (σ.semArray i).semCount < semValueMax) ∧
    ∀ i, σ.Joins e i → (σ.semArray i).refCount = 0 → (σ.semArray i).semCount ≤ semValueMax)
    ⟨fun both => ⟨both.1, both.2⟩, fun fits => ⟨fits.posts, fits.joins⟩⟩

/-- Whatever is live afterwards was live before with no smaller value, or has a value
within the limit. -/
def Calm (σ σ' : Fs P) : Prop :=
  ∀ i, 0 < (σ'.semArray i).refCount →
    0 < (σ.semArray i).refCount ∧ (σ'.semArray i).semCount ≤ (σ.semArray i).semCount ∨
      (σ'.semArray i).semCount ≤ semValueMax

variable {σ σ' σ'' : Fs P}

namespace Calm

omit [ListLib P Int]

theorem of_same (same : σ'.semArray = σ.semArray) : Calm σ σ' := by
  intro i live
  rw [same] at live ⊢
  exact Or.inl ⟨live, le_rfl⟩

theorem trans (first : Calm σ σ') (second : Calm σ' σ'') : Calm σ σ'' := by
  intro i live
  rcases second i live with ⟨live', below⟩ | within
  · rcases first i live' with ⟨live'', below'⟩ | within
    · exact Or.inl ⟨live'', below.trans below'⟩
    · exact Or.inr (below.trans within)
  · exact Or.inr within

theorem of_unchanged (unchanged : Unchanged σ σ') : Calm σ σ' := by
  intro i live
  rw [unchanged.refCount] at live
  rw [unchanged.slot i live.ne']
  exact Or.inl ⟨live, le_rfl⟩

theorem modSem (σ : Fs P) (i : SlotIx) (f : SemCdt → SemCdt)
    (refs : ∀ s, (f s).refCount ≤ s.refCount) (below : ∀ s, (f s).semCount ≤ s.semCount) :
    Calm σ (σ.modSem i f) := by
  intro j live
  by_cases same : j = i
  · rw [same] at live ⊢
    simp only [Fs.modSem, Function.update_self] at live ⊢
    exact Or.inl ⟨live.trans_le (refs _), below _⟩
  · simp only [Fs.modSem, Function.update_of_ne same] at live ⊢
    exact Or.inl ⟨live, le_rfl⟩

theorem bounded (calm : Calm σ σ') (bounded : σ.Bounded) : σ'.Bounded := by
  intro i live
  rcases calm i live with ⟨live', below⟩ | within
  · exact below.trans (bounded i live')
  · exact within

end Calm

end Events

/-! ## Operations that raise no value -/

section Operations

variable {P : Type u} [ListLib P Int] {σ : Fs P}

omit [ListLib P Int] in
theorem calm_addCount (σ : Fs P) (i : SlotIx) {amount : Int} (down : amount ≤ 0) :
    Calm σ (σ.addCount i amount) := by
  apply Calm.modSem
  · exact fun _ => le_rfl
  · intro s
    exact Int.add_le_of_le_sub_left (by omega)

/-- A released slot is not live. -/
theorem calm_release (σ : Fs P) (i : SlotIx) : Calm σ (σ.release i) := by
  intro j live
  have array : (σ.release i).semArray =
      Function.update σ.semArray i { σ.semArray i with refCount := 0 } := rfl
  rw [array] at live ⊢
  by_cases same : j = i
  · rw [same, Function.update_self] at live
    exact absurd live (lt_irrefl 0)
  · rw [Function.update_of_ne same] at live ⊢
    exact Or.inl ⟨live, le_rfl⟩

theorem calm_semClose (σ : Fs P) (handle : Int) : Calm σ (σ.semClose handle).1 := by
  have ends := σ.semClose_ends handle
  generalize σ.semClose handle = result at ends ⊢
  cases ends with
  | refused | left => exact Calm.of_same rfl
  | @last i =>
      have deleted : Calm σ (σ.delete (σ.semArray i).procList σ.who) := Calm.of_same rfl
      exact deleted.trans ((calm_release _ i).trans (Calm.of_same rfl))

theorem calm_semCloseAll (σ : Fs P) (pslot : Int) : Calm σ (σ.semCloseAll pslot) := by
  have closed : Calm σ (sweep (fun σ (i : SlotIx) => (semClose σ (i : Nat)).1)
      (σ.setWho pslot)) := by
    apply sweep_invariant (I := fun τ => Calm σ τ)
    · exact Calm.of_same rfl
    · exact fun τ i calm => calm.trans (calm_semClose τ (i : Nat))
  exact closed.trans (Calm.of_same rfl)

theorem calm_semDestroy (σ : Fs P) (handle : Int) : Calm σ (σ.semDestroy handle).1 := by
  have ends := σ.semDestroy_ends handle
  generalize σ.semDestroy handle = result at ends ⊢
  cases ends with
  | refused | busy => exact Calm.of_same rfl
  | @destroyed i => exact (calm_release σ i).trans (Calm.of_same rfl)

theorem calm_semUnlink (σ : Fs P) (name : CString) : Calm σ (σ.semUnlink name).1 := by
  have ends := σ.semUnlink_ends name
  generalize σ.semUnlink name = result at ends ⊢
  cases ends with
  | tooLong | absent | stranger | unused => exact Calm.of_same rfl
  | @unlinked i =>
      apply (Calm.modSem σ i (fun s => { s with unlinked := true }) _ _).trans
      · exact Calm.of_same rfl
      · exact fun _ => le_rfl
      · exact fun _ => le_rfl

theorem calm_semWait (σ : Fs P) (handle : Int) : Calm σ (σ.semWait handle).1 := by
  have cleared : Calm σ (σ.setErrno 0) := Calm.of_same rfl
  have ends := σ.semWait_ends handle
  generalize σ.semWait handle = result at ends ⊢
  cases ends with
  | refused => exact Calm.of_same rfl
  | @queued i =>
      have queued : Calm σ (((σ.setErrno 0).setDontReply true).insert
          (σ.semArray i).blockedList σ.who) := Calm.of_same rfl
      exact (queued.trans (calm_addCount _ i (by decide))).trans (Calm.of_same rfl)
  | @passed i => exact (cleared.trans (calm_addCount _ i (by decide))).trans (Calm.of_same rfl)

theorem calm_semTrywait (σ : Fs P) (handle : Int) : Calm σ (σ.semTrywait handle).1 := by
  have cleared : Calm σ (σ.setErrno 0) := Calm.of_same rfl
  have ends := σ.semTrywait_ends handle
  generalize σ.semTrywait handle = result at ends ⊢
  cases ends with
  | refused | again => exact Calm.of_same rfl
  | @tried i => exact (cleared.trans (calm_addCount _ i (by decide))).trans (Calm.of_same rfl)

theorem calm_semGetvalue (σ : Fs P) (handle : Int) : Calm σ (σ.semGetvalue handle).1 := by
  have ends := σ.semGetvalue_ends handle
  generalize σ.semGetvalue handle = result at ends ⊢
  cases ends <;> exact Calm.of_same rfl

end Operations

variable {τ τ' : SeqFs}

/-- A new semaphore has a value that was tested. -/
theorem Fills.calm {i : SlotIx} {value : BitVec 32} (fills : Fills τ τ' i value) :
    Calm τ τ' := by
  intro j live
  by_cases same : j = i
  · right
    rw [same, fills.count]
    exact_mod_cast fills.inRange
  · rw [fills.others j same] at live ⊢
    exact Or.inl ⟨live, le_rfl⟩

theorem calm_semCreate (paired : τ.Paired) (mode : Int) (value : BitVec 32) :
    Calm τ (τ.semCreate mode value).1 := by
  rcases semCreate_made paired mode value with ⟨τ', result, -⟩ | ⟨τ', i, result, fills⟩
  · apply Calm.of_unchanged
    apply semCreate_failed
    rw [result]
  · rw [result]
    exact fills.calm

theorem calm_semInit (paired : τ.Paired) (pshared : Int) (value : BitVec 32) :
    Calm τ (τ.semInit pshared value).1 := by
  have created := calm_semCreate paired 0 value
  have ends := τ.semInit_ends pshared value
  generalize τ.semInit pshared value = result at ends ⊢
  cases ends with
  | notMade result =>
      rw [result] at created
      exact created
  | @made τ' i result =>
      rw [result] at created
      apply (created.trans (Calm.modSem τ' i (fun s => { s with unlinked := true }) _ _)).trans
      · exact Calm.of_same rfl
      · exact fun _ => le_rfl
      · exact fun _ => le_rfl

/-- `sem_open` raises no value unless its caller joins a semaphore. -/
theorem calm_semOpen (paired : τ.Paired) {name : CString} {oflag : BitVec 32}
    (noJoin : ∀ i, τ.semNameMap.hashTableFind name = some i → Excludes oflag) (mod : Int)
    (val : BitVec 32) : Calm τ (τ.semOpen name oflag mod val).1 := by
  have created := calm_semCreate (τ := τ.setErrno 0) paired mod val
  have ends := τ.semOpen_ends name oflag mod val
  generalize τ.semOpen name oflag mod val = result at ends ⊢
  cases ends with
  | absent | tooLong | taken | uncovered => exact Calm.of_same rfl
  | joined _ bound shared => exact absurd (noJoin _ bound) shared
  | notMade _ _ _ _ result =>
      rw [result] at created
      exact (Calm.of_same rfl).trans created
  | made _ _ _ _ result =>
      rw [result] at created
      exact ((Calm.of_same rfl).trans created).trans (Calm.of_same rfl)

/-! ## One event -/

/-- Slots that get one reference more stay within the limit if what they hold is. -/
theorem bounded_iff_of_joins {J : SlotIx → Prop} [DecidablePred J]
    (counted : ∀ i, 0 ≤ (τ.semArray i).refCount) (bounded : τ.Bounded)
    (array : ∀ i, τ'.semArray i = if J i then
      { τ.semArray i with refCount := (τ.semArray i).refCount + 1 } else τ.semArray i) :
    τ'.Bounded ↔
      ∀ i, J i → (τ.semArray i).refCount = 0 → (τ.semArray i).semCount ≤ semValueMax := by
  constructor
  · intro bounded' i joins free
    have live : 0 < (τ'.semArray i).refCount := by
      rw [array, if_pos joins, free]
      exact Int.one_pos
    have within := bounded' i live
    rw [array, if_pos joins] at within
    exact within
  · intro within i live
    have count : (τ'.semArray i).semCount = (τ.semArray i).semCount := by
      rw [array]
      split <;> rfl
    rw [count]
    rcases (counted i).lt_or_eq with live' | free
    · exact bounded i live'
    · apply within i _ free.symm
      by_contra stays
      rw [array, if_neg stays, ← free] at live
      exact lt_irrefl 0 live

/-- A post adds one to the value of its slot. -/
theorem bounded_iff_of_post {i : SlotIx} (bounded : τ.Bounded)
    (array : τ'.semArray = Function.update τ.semArray i
      { τ.semArray i with semCount := (τ.semArray i).semCount + 1 }) :
    τ'.Bounded ↔ (0 < (τ.semArray i).refCount → (τ.semArray i).semCount < semValueMax) := by
  constructor
  · intro bounded' live
    have within := bounded' i
    rw [array, Function.update_self] at within
    exact Int.lt_of_add_one_le (within live)
  · intro within j live
    rw [array] at live ⊢
    by_cases same : j = i
    · rw [same, Function.update_self] at live ⊢
      exact Int.add_one_le_of_lt (within live)
    · rw [Function.update_of_ne same] at live ⊢
      exact bounded j live

theorem semPost_semArray {handle proc : Int} {i : SlotIx} (granted : τ.granted handle = some i) :
    (τ.semPost handle proc).semArray = Function.update τ.semArray i
      { τ.semArray i with semCount := (τ.semArray i).semCount + 1 } := by
  have ends := τ.semPost_ends handle proc
  generalize τ.semPost handle proc = after at ends ⊢
  cases ends with
  | refused refused =>
      rw [granted] at refused
      contradiction
  | woken granted' _ took =>
      obtain rfl := Option.some.inj (granted.symm.trans granted')
      subst took
      rfl
  | counted granted' =>
      obtain rfl := Option.some.inj (granted.symm.trans granted')
      rfl

/-- In a fork the slots of the parent get one reference more each. -/
theorem semOpenAll_semArray (τ : SeqFs) (pPslot cPslot : Int) (i : SlotIx) :
    (τ.semOpenAll pPslot cPslot).semArray i =
      if pPslot ∈ τ.members i then
        { τ.semArray i with refCount := (τ.semArray i).refCount + 1 }
      else τ.semArray i := by
  have swept := sweep_progress (openAllAt pPslot cPslot) τ
    (I := fun done τ' => (∀ j, pPslot ∈ τ'.members j ↔ pPslot ∈ τ.members j) ∧
      ∀ j, τ'.semArray j = if j ∈ done ∧ pPslot ∈ τ.members j then
        { τ.semArray j with refCount := (τ.semArray j).refCount + 1 } else τ.semArray j)
    ⟨fun _ => Iff.rfl, by simp⟩ ?_
  · rw [semOpenAll]
    simpa using swept.2 i
  · rintro done τ' j fresh ⟨parent, array⟩
    refine ⟨fun k => (mem_openAllAt_iff τ' pPslot cPslot j k).trans (parent k), fun k => ?_⟩
    have visited : k ∈ done ++ [j] ↔ k ∈ done ∨ k = j := by simp
    simp only [visited]
    have ends := openAllAt_ends τ' pPslot cPslot j
    generalize openAllAt pPslot cPslot τ' j = round at ends ⊢
    cases ends with
    | inherited belongs =>
        have here : pPslot ∈ τ.members j := (parent j).mp (belongs_iff.mp belongs)
        change (Function.update τ'.semArray j _) k = _
        by_cases same : k = j
        · rw [same, Function.update_self, array, if_neg fun both => fresh both.1,
            if_pos ⟨Or.inr rfl, here⟩]
        · rw [Function.update_of_ne same, array]
          simp only [same, or_false]
    | stranger stranger =>
        rw [array]
        by_cases same : k = j
        · have outsider : pPslot ∉ τ.members k := by
            intro here
            have belongs := belongs_iff.mpr ((parent j).mpr (same ▸ here))
            rw [stranger] at belongs
            contradiction
          rw [if_neg fun both => outsider both.2, if_neg fun both => outsider both.2]
        · simp only [same, or_false]

/-- An event that neither posts nor joins. -/
theorem bounded_iff_of_calm {e : Event} (bounded : τ.Bounded) (calm : Calm τ τ')
    (noPost : ∀ i, ¬τ.Posts e i) (noJoin : ∀ i, ¬τ.Joins e i) : τ'.Bounded ↔ τ.Fits e := by
  apply iff_of_true
  · exact calm.bounded bounded
  · constructor
    · exact fun i posts => absurd posts (noPost i)
    · exact fun i joins => absurd joins (noJoin i)

theorem dispatch_calm (paired : τ.Paired) {m : Message} (g : Garbage)
    (notOpen : Funcion.ofInt m.funcion ≠ some .semOpen)
    (notPost : Funcion.ofInt m.funcion ≠ some .semPost) : Calm τ (τ.dispatch m g).1 := by
  have same {τ' : SeqFs} (calm : Calm τ τ') (rta param1 param2 : Int) (params : Nat) :
      Calm τ (τ'.answer rta param1 param2 params) := by
    apply calm.trans
    apply Calm.of_same
    rcases params with _ | _ | _ | _ | params <;> rfl
  rw [dispatch]
  cases code : Funcion.ofInt m.funcion with
  | none => exact Calm.of_same rfl
  | some funcion =>
      cases funcion with
      | semOpen => exact absurd code notOpen
      | semPost => exact absurd code notPost
      | semClose => exact same (calm_semClose τ m.semaforo) _ _ _ _
      | semInit => exact same (calm_semInit paired m.pshared _) _ _ _ _
      | semWait => exact same (calm_semWait τ m.semaforo) _ _ _ _
      | semUlink => exact same (calm_semUnlink τ (requestName m)) _ _ _ _
      | semGetval => exact same (calm_semGetvalue τ m.semaforo) _ _ _ _
      | semTrywait => exact same (calm_semTrywait τ m.semaforo) _ _ _ _
      | semDestroy => exact same (calm_semDestroy τ m.semaforo) _ _ _ _
      | semTimedwait => exact same (Calm.of_same rfl) _ _ _ _

/-- A request to post. -/
theorem bounded_iff_of_semPost {p : Int} {m : Message} (g : Garbage) (bounded : τ.Bounded)
    (code : Funcion.ofInt m.funcion = some .semPost) :
    ((τ.getWork p).dispatch m g).1.Bounded ↔ τ.Fits (.semaph p m g) := by
  have array : ((τ.getWork p).dispatch m g).1.semArray =
      ((τ.getWork p).semPost m.semaforo g.proc).semArray := by
    rw [dispatch, code]
    rfl
  have noJoin : ∀ i, ¬τ.Joins (.semaph p m g) i := by
    rintro i ⟨opens, -⟩
    rw [code] at opens
    contradiction
  cases granted : (τ.getWork p).granted m.semaforo with
  | none =>
      have calm : Calm τ ((τ.getWork p).dispatch m g).1 := by
        apply Calm.of_same
        rw [array, semPost_refused granted]
        rfl
      apply bounded_iff_of_calm bounded calm _ noJoin
      rintro i ⟨-, posts⟩
      rw [granted] at posts
      contradiction
  | some i =>
      have posted : ((τ.getWork p).dispatch m g).1.Bounded ↔ _ :=
        bounded_iff_of_post (i := i) bounded (array.trans (semPost_semArray granted))
      rw [posted]
      constructor
      · intro within
        constructor
        · rintro j ⟨-, posts⟩
          obtain rfl : i = j := Option.some.inj (granted.symm.trans posts)
          exact within
        · exact fun j joins => absurd joins (noJoin j)
      · intro fits
        exact fits.posts i ⟨code, granted⟩

/-- A request to open. -/
theorem bounded_iff_of_semOpen (paired : τ.Paired) {p : Int} {m : Message} (g : Garbage)
    (bounded : τ.Bounded) (code : Funcion.ofInt m.funcion = some .semOpen) :
    ((τ.getWork p).dispatch m g).1.Bounded ↔ τ.Fits (.semaph p m g) := by
  have array : ((τ.getWork p).dispatch m g).1.semArray =
      ((τ.getWork p).opened m g).1.semArray := by
    rw [dispatch, code]
    rfl
  have noPost : ∀ i, ¬τ.Posts (.semaph p m g) i := by
    rintro i ⟨posts, -⟩
    rw [code] at posts
    contradiction
  by_cases joins : ∃ i, τ.Joins (.semaph p m g) i
  · obtain ⟨i, -, shared, bound⟩ := joins
    have opened := semOpen_bound (σ := τ.getWork p)
      (if m.cantArg = 4 then m.permisos else g.mod) (openValue m g) bound
      (length_requestName m) shared
    have joined : ((τ.getWork p).dispatch m g).1.Bounded ↔ _ :=
      bounded_iff_of_joins (J := fun j => j = i) paired.counted bounded fun j => by
        rw [array, Fs.opened, opened]
        by_cases same : j = i
        · rw [if_pos same, same]
          exact Function.update_self ..
        · rw [if_neg same]
          exact Function.update_of_ne same ..
    rw [joined]
    constructor
    · intro within
      constructor
      · exact fun j posts => absurd posts (noPost j)
      · rintro j ⟨-, -, bound'⟩
        exact within j (Option.some.inj (bound'.symm.trans bound))
    · rintro fits j rfl
      exact fits.joins j ⟨code, shared, bound⟩
  · apply bounded_iff_of_calm bounded _ noPost
    · exact fun i now => joins ⟨i, now⟩
    · have begun : Calm τ (τ.getWork p) := Calm.of_same rfl
      have opened : Calm (τ.getWork p) ((τ.getWork p).opened m g).1 := by
        apply calm_semOpen (τ := τ.getWork p) paired
        intro i bound excludes
        exact joins ⟨i, code, not_not.mpr excludes, bound⟩
      exact begun.trans (opened.trans (Calm.of_same array))

/-- After an event the values are within the limit if they were before and the event
fits. -/
theorem bounded_step_iff (paired : τ.Paired) (bounded : τ.Bounded) (e : Event) :
    (τ.step e).Bounded ↔ τ.Fits e := by
  have table := (step_end τ e).1
  have ends : (τ.step e).Bounded ↔ ((τ.getWork e.source).callVector e).1.Bounded := by
    rw [Bounded, Bounded, table]
  rw [ends]
  have begun {p : Int} : Calm τ (τ.getWork p) := Calm.of_same rfl
  cases e with
  | semaph p m g =>
      change ((τ.getWork p).dispatch m g).1.Bounded ↔ _
      by_cases opens : Funcion.ofInt m.funcion = some .semOpen
      · exact bounded_iff_of_semOpen paired g bounded opens
      by_cases posts : Funcion.ofInt m.funcion = some .semPost
      · exact bounded_iff_of_semPost g bounded posts
      apply bounded_iff_of_calm bounded
      · exact begun.trans (dispatch_calm (τ := τ.getWork p) paired g opens posts)
      · exact fun i now => posts now.1
      · exact fun i now => opens now.1
  | fork parent child =>
      have joined : ((τ.getWork mmProcNr).semOpenAll parent child).Bounded ↔ _ :=
        bounded_iff_of_joins (J := fun i => τ.belongs (τ.semArray i).procList parent = true)
          paired.counted bounded fun i => by
            rw [semOpenAll_semArray]
            change (if parent ∈ τ.members i then _ else _) = _
            by_cases member : parent ∈ τ.members i
            · rw [if_pos (belongs_iff.mpr member)]
              exact if_pos member
            · rw [if_neg fun belongs => member (belongs_iff.mp belongs)]
              exact if_neg member
      apply joined.trans
      constructor
      · exact fun within => ⟨fun i posts => posts.elim, within⟩
      · exact fun fits => fits.joins
  | exec slot =>
      apply bounded_iff_of_calm bounded
      · exact begun.trans (calm_semCloseAll _ slot)
      · exact fun i => id
      · exact fun i => id
  | exit slot =>
      apply bounded_iff_of_calm bounded
      · exact begun.trans (calm_semCloseAll _ slot)
      · exact fun i => id
      · exact fun i => id

/-! ## Both stores -/

variable {σ : Fs (Pools Int)}

theorem Sim.bounded (sim : Sim σ τ) : τ.Bounded ↔ σ.Bounded := by
  rw [Bounded, Bounded, sim.semArray]

theorem Sim.fits (sim : Sim σ τ) (e : Event) : τ.Fits e ↔ σ.Fits e := by
  have posts : ∀ i, τ.Posts e i ↔ σ.Posts e i := by
    intro i
    cases e with
    | semaph p m g =>
        rw [Posts, Posts]
        rw [(sim.getWork p).granted]
    | _ => exact Iff.rfl
  have joins : ∀ i, τ.Joins e i ↔ σ.Joins e i := by
    intro i
    cases e with
    | semaph p m g =>
        rw [Joins, Joins]
        rw [sim.semNameMap]
    | fork parent child =>
        rw [Joins, Joins]
        rw [sim.semArray, sim.belongs (sim.usable i).1]
    | _ => exact Iff.rfl
  constructor
  · rintro ⟨post, join⟩
    rw [sim.semArray] at post join
    exact ⟨fun i now => post i ((posts i).mpr now), fun i now => join i ((joins i).mpr now)⟩
  · rintro ⟨post, join⟩
    rw [← sim.semArray] at post join
    exact ⟨fun i now => post i ((posts i).mp now), fun i now => join i ((joins i).mp now)⟩

end Fs

/-! ## All runs -/

namespace World

/-- The event fits the values of the semaphores. -/
def Fits (w : World (Pools Int)) (e : Event) : Prop :=
  w.fs.Fits e

instance (w : World (Pools Int)) (e : Event) : Decidable (w.Fits e) :=
  inferInstanceAs (Decidable (w.fs.Fits e))

/-- A creation with too large a value is refused in every state. After every event of a
run no live semaphore has a value above the limit exactly if every event fits. -/
theorem bounded_iff_fits (es : List Event) :
    (∀ mode value, semValueMax < value.toNat → ((after es).fs.semCreate mode value).2 = none) ∧
      ((∀ fs, fs <+: es → (after fs).fs.Bounded) ↔ Run World.step Fits boot es (after es)) := by
  constructor
  · intro mode value large
    have ends := (after es).fs.semCreate_ends mode value
    generalize (after es).fs.semCreate mode value = result at ends ⊢
    cases ends with
    | noSlot | stale | tooLarge => rfl
    | made _ _ small => exact absurd large (not_lt.mpr small)
  · apply (after_run es).always_iff (I := Sturdy) (Q := fun w => w.fs.Bounded) boot_sturdy
    · intro i live
      exact absurd live (lt_irrefl 0)
    · exact fun w e sturdy _ => sturdy.step e
    · intro w e sturdy _ bounded
      have sim : Fs.Sim w.fs w.abs.fs := sturdy.simulated
      have stepped : Fs.Sim (w.fs.step e) (w.abs.fs.step e) := sim.step e
      change (w.fs.step e).Bounded ↔ w.fs.Fits e
      rw [← stepped.bounded, ← sim.fits]
      exact Fs.bounded_step_iff sturdy.paired (sim.bounded.mpr bounded) e

/-- A semaphore is created with the largest value, and its creator posts. -/
theorem not_bounded_of_post :
    let w := after [Client.call 5 (Client.semInitRequest default 0 0 35000),
      Client.call 5 (Client.semPostRequest default 0)]
    (w.fs.semArray 0).refCount = 1 ∧ (w.fs.semArray 0).semCount = 35001 ∧ w.fs.errno = 0 ∧
      ¬w.fs.Bounded := by
  decide +kernel

end World

end MinixSemaphore.Server
