import MinixSemaphore.Server.Semaphore

/-!
# How the operations end

An operation of semaphore.c makes a few tests and then its writes. The ways in which each
of them ends are listed here, with the tests that lead there and with the state and the
result it leaves. What operations do is derived from these lists.
-/

namespace MinixSemaphore.Server

open MinixSemaphore.Lists
open MinixSemaphore.Names
open MinixSemaphore.Store

universe u

/-- `O_CREAT` is among the flags. -/
abbrev Creates (oflag : BitVec 32) : Prop :=
  oflag &&& oCreat ≠ 0

/-- `O_EXCL` is among the flags. -/
abbrev Excludes (oflag : BitVec 32) : Prop :=
  oflag &&& oExcl ≠ 0

namespace Fs

section Ends

variable {P : Type u} [ListLib P Int]

/-- The ways `sem_create` ends. -/
inductive SemCreateEnds (σ : Fs P) (mode : Int) (value : BitVec 32) :
    Fs P × Option SlotIx → Prop
  | noSlot : (∀ i, (σ.semArray i).refCount ≠ 0) →
      SemCreateEnds σ mode value (σ.setErrno enospc, none)
  | stale {i : SlotIx} : firstFit (fun j => decide ((σ.semArray j).refCount = 0)) = some i →
      σ.errno ≠ 0 → SemCreateEnds σ mode value (σ, none)
  | tooLarge {i : SlotIx} : firstFit (fun j => decide ((σ.semArray j).refCount = 0)) = some i →
      σ.errno = 0 → semValueMax < value.toNat →
        SemCreateEnds σ mode value ((σ.modSem i fun s =>
          { s with permision := mode, semCount := value.toInt }).setErrno einval, none)
  | made {i : SlotIx} : firstFit (fun j => decide ((σ.semArray j).refCount = 0)) = some i →
      σ.errno = 0 → value.toNat ≤ semValueMax →
        SemCreateEnds σ mode value ((((σ.modSem i fun s =>
          { s with permision := mode, semCount := value.toInt }).modSem i fun s =>
            { s with refCount := 1, unlinked := false }).makeLists i), some i)

/-- The ways `sem_open` ends. -/
inductive SemOpenEnds (σ : Fs P) (name : CString) (oflag : BitVec 32) (mod : Int)
    (val : BitVec 32) : Fs P × Option SlotIx → Prop
  | absent : σ.semNameMap.hashTableFind name = none → ¬Creates oflag →
      SemOpenEnds σ name oflag mod val (σ.setErrno enoent, none)
  | tooLong : pathMax < name.length →
      SemOpenEnds σ name oflag mod val (σ.setErrno enametoolong, none)
  | taken {i : SlotIx} : σ.semNameMap.hashTableFind name = some i → Creates oflag →
      Excludes oflag → SemOpenEnds σ name oflag mod val (σ.setErrno eexist, none)
  | uncovered : Excludes oflag →
      (σ.semNameMap.hashTableFind name = none ↔ Creates oflag) →
        SemOpenEnds σ name oflag mod val (σ.setErrno 0, none)
  | joined {i : SlotIx} : name.length ≤ pathMax → σ.semNameMap.hashTableFind name = some i →
      ¬Excludes oflag → SemOpenEnds σ name oflag mod val
        ((((σ.setErrno 0).modSem i fun s => { s with refCount := s.refCount + 1 }).insert
          (σ.semArray i).procList σ.who).note i .opened, some i)
  | notMade {τ : Fs P} : name.length ≤ pathMax → σ.semNameMap.hashTableFind name = none →
      Creates oflag → ¬Excludes oflag →
        (σ.setErrno 0).semCreate mod val = (τ, none) →
          SemOpenEnds σ name oflag mod val (τ, none)
  | made {τ : Fs P} {i : SlotIx} : name.length ≤ pathMax →
      σ.semNameMap.hashTableFind name = none → Creates oflag → ¬Excludes oflag →
        (σ.setErrno 0).semCreate mod val = (τ, some i) → SemOpenEnds σ name oflag mod val
          ((τ.setMap (τ.semNameMap.hashTableInsert name i).1).note i
            fun p => .created p val.toNat (some (τ.entryFor name)), some i)

/-- The ways `sem_init` ends. -/
inductive SemInitEnds (σ : Fs P) (value : BitVec 32) : Fs P × Option SlotIx → Prop
  | notMade {τ : Fs P} : σ.semCreate 0 value = (τ, none) → SemInitEnds σ value (τ, none)
  | made {τ : Fs P} {i : SlotIx} : σ.semCreate 0 value = (τ, some i) →
      SemInitEnds σ value ((τ.modSem i fun s => { s with unlinked := true }).note i
        fun p => .created p value.toNat none, some i)

/-- The ways `sem_destroy` ends. -/
inductive SemDestroyEnds (σ : Fs P) (handle : Int) : Fs P × Int → Prop
  | refused : σ.granted handle = none → SemDestroyEnds σ handle (σ.setErrno einval, -1)
  | busy {i : SlotIx} : σ.granted handle = some i →
      ListLib.listIsEmpty σ.pools (σ.semArray i).blockedList = false →
        SemDestroyEnds σ handle (σ.setErrno ebusy, -1)
  | destroyed {i : SlotIx} : σ.granted handle = some i →
      ListLib.listIsEmpty σ.pools (σ.semArray i).blockedList = true →
        SemDestroyEnds σ handle ((σ.release i).note i .destroyed, 0)

/-- The ways `sem_unlink` ends. -/
inductive SemUnlinkEnds (σ : Fs P) (name : CString) : Fs P × Int → Prop
  | tooLong : pathMax < name.length → SemUnlinkEnds σ name (σ.setErrno enametoolong, -1)
  | absent : σ.semNameMap.hashTableFind name = none →
      SemUnlinkEnds σ name (σ.setErrno enoent, -1)
  | stranger {i : SlotIx} : σ.semNameMap.hashTableFind name = some i →
      σ.belongs (σ.semArray i).procList σ.who = false →
        SemUnlinkEnds σ name (σ.setErrno eacces, -1)
  | unused {i : SlotIx} : σ.semNameMap.hashTableFind name = some i →
      σ.belongs (σ.semArray i).procList σ.who = true →
        ListLib.listIsEmpty σ.pools (σ.semArray i).procList = true →
          SemUnlinkEnds σ name (σ, -1)
  | unlinked {i : SlotIx} : name.length ≤ pathMax → σ.semNameMap.hashTableFind name = some i →
      σ.belongs (σ.semArray i).procList σ.who = true →
        ListLib.listIsEmpty σ.pools (σ.semArray i).procList = false →
          SemUnlinkEnds σ name (((σ.modSem i fun s => { s with unlinked := true }).setMap
            (σ.semNameMap.hashTableRemove name).1).note i .unlinked, 0)

/-- The ways `sem_close` ends. -/
inductive SemCloseEnds (σ : Fs P) (handle : Int) : Fs P × Int → Prop
  | refused : σ.granted handle = none → SemCloseEnds σ handle (σ.setErrno einval, -1)
  | last {i : SlotIx} : σ.granted handle = some i → (σ.semArray i).unlinked = true →
      ListLib.listIsEmpty (σ.delete (σ.semArray i).procList σ.who).pools
        (σ.semArray i).procList = true →
          SemCloseEnds σ handle
            (((σ.delete (σ.semArray i).procList σ.who).release i).note i .closed, 0)
  | left {i : SlotIx} : σ.granted handle = some i →
      ((σ.semArray i).unlinked = true →
        ListLib.listIsEmpty (σ.delete (σ.semArray i).procList σ.who).pools
          (σ.semArray i).procList = false) →
        SemCloseEnds σ handle ((σ.delete (σ.semArray i).procList σ.who).note i .closed, 0)

/-- The ways `sem_wait` ends. -/
inductive SemWaitEnds (σ : Fs P) (handle : Int) : Fs P × Int → Prop
  | refused : σ.granted handle = none → SemWaitEnds σ handle (σ.setErrno einval, -1)
  | queued {i : SlotIx} : σ.granted handle = some i → (σ.semArray i).semCount ≤ 0 →
      SemWaitEnds σ handle (((((σ.setErrno 0).setDontReply true).insert
        (σ.semArray i).blockedList σ.who).addCount i (-1)).note i .queued, 0)
  | passed {i : SlotIx} : σ.granted handle = some i → 0 < (σ.semArray i).semCount →
      SemWaitEnds σ handle (((σ.setErrno 0).addCount i (-1)).note i .passed, 0)

/-- The ways `sem_trywait` ends. -/
inductive SemTrywaitEnds (σ : Fs P) (handle : Int) : Fs P × Int → Prop
  | refused : σ.granted handle = none → SemTrywaitEnds σ handle (σ.setErrno einval, -1)
  | again {i : SlotIx} : σ.granted handle = some i → (σ.semArray i).semCount ≤ 0 →
      SemTrywaitEnds σ handle (σ.setErrno eagain, -1)
  | tried {i : SlotIx} : σ.granted handle = some i → 0 < (σ.semArray i).semCount →
      SemTrywaitEnds σ handle (((σ.setErrno 0).addCount i (-1)).note i .tried, 0)

/-- The ways `sem_post` ends. -/
inductive SemPostEnds (σ : Fs P) (handle proc : Int) : Fs P → Prop
  | refused : σ.granted handle = none → SemPostEnds σ handle proc (σ.setErrno einval)
  | woken {i : SlotIx} {first : Fs P × Int} : σ.granted handle = some i →
      (σ.semArray i).semCount < 0 →
        (σ.setErrno 0).takeFirst (σ.semArray i).blockedList proc = first →
          SemPostEnds σ handle proc (((first.1.semWake first.2 0).addCount i 1).note i
            fun p => .posted p (some first.2))
  | counted {i : SlotIx} : σ.granted handle = some i → 0 ≤ (σ.semArray i).semCount →
      SemPostEnds σ handle proc (((σ.setErrno 0).addCount i 1).note i fun p => .posted p none)

/-- The ways `sem_getvalue` ends. -/
inductive SemGetvalueEnds (σ : Fs P) (handle : Int) : Fs P × Int × Option Int → Prop
  | refused : σ.granted handle = none →
      SemGetvalueEnds σ handle (σ.setErrno einval, -1, none)
  | read {i : SlotIx} : σ.granted handle = some i →
      SemGetvalueEnds σ handle (σ, 0, some (σ.semArray i).semCount)

/-- The ways a round of `sem_open_all` ends. -/
inductive OpenAllAtEnds (pPslot cPslot : Int) (σ : Fs P) (i : SlotIx) : Fs P → Prop
  | stranger : σ.belongs (σ.semArray i).procList pPslot = false →
      OpenAllAtEnds pPslot cPslot σ i σ
  | inherited : σ.belongs (σ.semArray i).procList pPslot = true →
      OpenAllAtEnds pPslot cPslot σ i (((σ.modSem i fun s =>
        { s with refCount := s.refCount + 1 }).insert (σ.semArray i).procList cPslot).note i
          fun _ => .inherited pPslot cPslot)

end Ends

/-! ## The lists are complete -/

/-- The slot that `sem_create` takes is free. -/
theorem idle_of_first {P : Type u} {σ : Fs P} {i : SlotIx}
    (first : firstFit (fun j => decide ((σ.semArray j).refCount = 0)) = some i) :
    (σ.semArray i).refCount = 0 := by
  simpa using (firstFit_eq_some_iff.mp first).1

/-- A value that is not too large is stored as it is. -/
theorem toInt_of_inRange {value : BitVec 32} (inRange : value.toNat ≤ semValueMax) :
    value.toInt = value.toNat := by
  apply BitVec.toInt_eq_toNat_of_lt
  have bound : semValueMax = 35000 := rfl
  omega

theorem grow_procList {P : Type u} {σ : Fs P} (i j : SlotIx) :
    ((σ.modSem i fun s => { s with refCount := s.refCount + 1 }).semArray j).procList =
      (σ.semArray j).procList := by
  by_cases same : j = i <;> simp [modSem, same]

variable {P : Type u} [ListLib P Int] (σ : Fs P)

theorem semCreate_ends (mode : Int) (value : BitVec 32) :
    SemCreateEnds σ mode value (σ.semCreate mode value) := by
  rw [semCreate]
  cases first : firstFit fun i => decide ((σ.semArray i).refCount = 0) with
  | none =>
      apply SemCreateEnds.noSlot
      intro i
      simpa using firstFit_eq_none_iff.mp first i
  | some i =>
      by_cases ready : σ.errno = 0
      · simp only
        rw [if_neg (not_not.mpr ready)]
        by_cases large : semValueMax < value.toNat
        · rw [if_pos large]
          exact .tooLarge first ready large
        · rw [if_neg large]
          exact .made first ready (not_lt.mp large)
      · simp only
        rw [if_pos ready]
        exact .stale first ready

theorem semOpen_ends (name : CString) (oflag : BitVec 32) (mod : Int) (val : BitVec 32) :
    SemOpenEnds σ name oflag mod val (σ.semOpen name oflag mod val) := by
  rw [semOpen]
  have find : (σ.setErrno 0).semNameMap = σ.semNameMap := rfl
  simp only [find]
  split
  · rename_i both
    exact .absent both.1 both.2
  rename_i found
  split
  · rename_i long
    exact .tooLong long
  rename_i short
  cases bound : σ.semNameMap.hashTableFind name with
  | some i =>
      by_cases excludes : Excludes oflag
      · by_cases creates : Creates oflag
        · rw [if_pos ⟨Option.some_ne_none i, creates, excludes⟩]
          exact .taken bound creates excludes
        · rw [if_neg fun all => creates all.2.1]
          simp only [if_neg (not_not.mpr excludes)]
          apply SemOpenEnds.uncovered excludes
          rw [bound]
          exact iff_of_false (Option.some_ne_none i) creates
      · rw [if_neg fun all => excludes all.2.2]
        simp only [if_pos excludes, grow_procList]
        exact .joined (not_lt.mp short) bound excludes
  | none =>
      have creates : Creates oflag := by
        by_contra plain
        exact found ⟨bound, not_not.mpr plain⟩
      rw [if_neg fun all => all.1 rfl]
      simp only
      by_cases excludes : Excludes oflag
      · rw [if_neg fun both => both.2 excludes]
        exact .uncovered excludes (iff_of_true bound creates)
      · rw [if_pos ⟨creates, excludes⟩]
        cases result : (σ.setErrno 0).semCreate mod val with
        | mk τ made =>
            cases made with
            | none => exact .notMade (not_lt.mp short) bound creates excludes result
            | some i => exact .made (not_lt.mp short) bound creates excludes result

theorem semInit_ends (pshared : Int) (value : BitVec 32) :
    SemInitEnds σ value (σ.semInit pshared value) := by
  rw [semInit]
  cases result : σ.semCreate 0 value with
  | mk τ made =>
      cases made with
      | none => exact .notMade result
      | some i => exact .made result

theorem semDestroy_ends (handle : Int) : SemDestroyEnds σ handle (σ.semDestroy handle) := by
  rw [semDestroy]
  cases granted : σ.granted handle with
  | none => exact .refused granted
  | some i =>
      simp only
      split
      · rename_i empty
        exact .destroyed granted empty
      · rename_i waiting
        exact .busy granted (Bool.eq_false_iff.mpr waiting)

theorem semUnlink_ends (name : CString) : SemUnlinkEnds σ name (σ.semUnlink name) := by
  rw [semUnlink]
  simp only
  split
  · rename_i long
    exact .tooLong long
  rename_i short
  cases found : σ.semNameMap.hashTableFind name with
  | none => exact .absent found
  | some i =>
      simp only
      split
      · rename_i stranger
        exact .stranger found (Bool.eq_false_iff.mpr stranger)
      rename_i member
      split
      · rename_i empty
        exact .unused found (not_not.mp member) empty
      · rename_i used
        exact .unlinked (not_lt.mp short) found (not_not.mp member) (Bool.eq_false_iff.mpr used)

theorem semClose_ends (handle : Int) : SemCloseEnds σ handle (σ.semClose handle) := by
  rw [semClose]
  cases granted : σ.granted handle with
  | none => exact .refused granted
  | some i =>
      simp only
      split
      · rename_i last
        rw [Bool.and_eq_true] at last
        exact .last granted last.1 last.2
      · rename_i left
        apply SemCloseEnds.left granted
        intro unlinked
        rw [Bool.and_eq_true] at left
        exact Bool.eq_false_iff.mpr fun empty => left ⟨unlinked, empty⟩

theorem semWait_ends (handle : Int) : SemWaitEnds σ handle (σ.semWait handle) := by
  rw [semWait]
  cases granted : (σ.setErrno 0).granted handle with
  | none => exact .refused granted
  | some i =>
      simp only
      split
      · rename_i blocked
        exact .queued granted blocked
      · rename_i free
        exact .passed granted (not_le.mp free)

theorem semTrywait_ends (handle : Int) : SemTrywaitEnds σ handle (σ.semTrywait handle) := by
  rw [semTrywait]
  cases granted : (σ.setErrno 0).granted handle with
  | none => exact .refused granted
  | some i =>
      simp only
      split
      · rename_i blocked
        exact .again granted blocked
      · rename_i free
        exact .tried granted (not_le.mp free)

theorem semPost_ends (handle proc : Int) : SemPostEnds σ handle proc (σ.semPost handle proc) := by
  rw [semPost]
  cases granted : (σ.setErrno 0).granted handle with
  | none => exact .refused granted
  | some i =>
      simp only
      split
      · rename_i waiting
        exact .woken granted waiting rfl
      · rename_i free
        exact .counted granted (not_lt.mp free)

theorem semGetvalue_ends (handle : Int) : SemGetvalueEnds σ handle (σ.semGetvalue handle) := by
  rw [semGetvalue]
  cases granted : σ.granted handle with
  | none => exact .refused granted
  | some i => exact .read granted

theorem openAllAt_ends (pPslot cPslot : Int) (i : SlotIx) :
    OpenAllAtEnds pPslot cPslot σ i (openAllAt pPslot cPslot σ i) := by
  rw [openAllAt]
  cases belongs : σ.belongs (σ.semArray i).procList pPslot with
  | false => exact .stranger belongs
  | true =>
      rw [if_pos rfl]
      simp only [grow_procList]
      exact .inherited belongs

/-! ## Handles -/

section Handles

variable {P : Type u} [ListLib P Int] {σ : Fs P} {handle : Int} {i : SlotIx}

theorem semClose_refused (refused : σ.granted handle = none) :
    σ.semClose handle = (σ.setErrno einval, -1) := by
  rw [semClose, refused]

theorem semDestroy_refused (refused : σ.granted handle = none) :
    σ.semDestroy handle = (σ.setErrno einval, -1) := by
  rw [semDestroy, refused]

theorem semWait_refused (refused : σ.granted handle = none) :
    σ.semWait handle = (σ.setErrno einval, -1) := by
  have refused : (σ.setErrno 0).granted handle = none := refused
  rw [semWait, refused]
  rfl

theorem semTrywait_refused (refused : σ.granted handle = none) :
    σ.semTrywait handle = (σ.setErrno einval, -1) := by
  have refused : (σ.setErrno 0).granted handle = none := refused
  rw [semTrywait, refused]
  rfl

theorem semPost_refused (refused : σ.granted handle = none) (proc : Int) :
    σ.semPost handle proc = σ.setErrno einval := by
  have refused : (σ.setErrno 0).granted handle = none := refused
  rw [semPost, refused]
  rfl

theorem semGetvalue_refused (refused : σ.granted handle = none) :
    σ.semGetvalue handle = (σ.setErrno einval, -1, none) := by
  rw [semGetvalue, refused]

theorem semGetvalue_granted (granted : σ.granted handle = some i) :
    σ.semGetvalue handle = (σ, 0, some (σ.semArray i).semCount) := by
  rw [semGetvalue, granted]

theorem semDestroy_granted (granted : σ.granted handle = some i)
    (empty : ListLib.listIsEmpty σ.pools (σ.semArray i).blockedList = true) :
    σ.semDestroy handle = ((σ.release i).note i .destroyed, 0) := by
  rw [semDestroy, granted]
  exact if_pos empty

end Handles

/-! ## Names -/

section Names

variable {P : Type u} [ListLib P Int] {σ : Fs P} {name : CString} {oflag : BitVec 32} {i : SlotIx}

theorem semOpen_absent (mod : Int) (val : BitVec 32)
    (unbound : σ.semNameMap.hashTableFind name = none)
    (plain : ¬Creates oflag) : σ.semOpen name oflag mod val = (σ.setErrno enoent, none) := by
  rw [semOpen]
  exact if_pos ⟨unbound, plain⟩

theorem semOpen_exists (mod : Int) (val : BitVec 32)
    (bound : σ.semNameMap.hashTableFind name = some i) (short : name.length < maxName)
    (creates : Creates oflag) (excludes : Excludes oflag) :
    σ.semOpen name oflag mod val = (σ.setErrno eexist, none) := by
  have bound : (σ.setErrno 0).semNameMap.hashTableFind name = some i := bound
  rw [semOpen]
  simp only [bound]
  rw [if_neg (by simp), if_neg (not_lt.mpr (Nat.le_of_lt short)),
    if_pos ⟨by simp, creates, excludes⟩]
  rfl

/-- The caller joins a semaphore that has the name. -/
theorem semOpen_bound (mod : Int) (val : BitVec 32)
    (bound : σ.semNameMap.hashTableFind name = some i) (short : name.length < maxName)
    (shared : ¬Excludes oflag) : σ.semOpen name oflag mod val =
      ((((σ.setErrno 0).modSem i fun s => { s with refCount := s.refCount + 1 }).insert
        (σ.semArray i).procList σ.who).note i .opened, some i) := by
  have bound : (σ.setErrno 0).semNameMap.hashTableFind name = some i := bound
  have list : (((σ.setErrno 0).modSem i fun s =>
      { s with refCount := s.refCount + 1 }).semArray i).procList = (σ.semArray i).procList := by
    simp [modSem, setErrno]
  rw [semOpen]
  simp only [bound]
  rw [if_neg (by simp), if_neg (not_lt.mpr (Nat.le_of_lt short)),
    if_neg fun both => shared both.2.2, if_pos shared, list]
  rfl

/-- Two cases that no test covers: the name is bound and `O_EXCL` stands alone, or it is
not bound and both flags are set. -/
theorem semOpen_uncovered (mod : Int) (val : BitVec 32) (short : name.length < maxName)
    (excludes : Excludes oflag)
    (differ : σ.semNameMap.hashTableFind name = none ↔ Creates oflag) :
    σ.semOpen name oflag mod val = (σ.setErrno 0, none) := by
  have differ : (σ.setErrno 0).semNameMap.hashTableFind name = none ↔ Creates oflag := differ
  rw [semOpen]
  simp only
  rw [if_neg fun both => both.2 (differ.mp both.1), if_neg (not_lt.mpr (Nat.le_of_lt short)),
    if_neg fun both => both.1 (differ.mpr both.2.1)]
  cases (σ.setErrno 0).semNameMap.hashTableFind name with
  | some i => exact if_neg fun shared => shared excludes
  | none => exact if_neg fun both => both.2 excludes

/-- The name is not bound, and a semaphore is to be created. -/
theorem semOpen_unbound (unbound : σ.semNameMap.hashTableFind name = none)
    (short : name.length < maxName) (creates : Creates oflag) (shared : ¬Excludes oflag)
    {mod : Int} {val : BitVec 32} {τ : Fs P} {made : Option SlotIx}
    (result : (σ.setErrno 0).semCreate mod val = (τ, made)) :
    σ.semOpen name oflag mod val = made.elim (τ, none) fun i =>
      ((τ.setMap (τ.semNameMap.hashTableInsert name i).1).note i
        fun p => .created p val.toNat (some (τ.entryFor name)), some i) := by
  have unbound : (σ.setErrno 0).semNameMap.hashTableFind name = none := unbound
  rw [semOpen]
  simp only [unbound, result]
  rw [if_neg fun both => both.2 creates, if_neg (not_lt.mpr (Nat.le_of_lt short)),
    if_neg fun both => shared both.2.2]
  refine (if_pos ⟨creates, shared⟩).trans ?_
  cases made <;> rfl

end Names

end Fs

end MinixSemaphore.Server
