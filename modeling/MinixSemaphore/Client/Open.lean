import MinixSemaphore.Client.Remote
import MinixSemaphore.Server.Creation

/-!
# `sem_open` through the library

The library sends the mode and the value only if `O_CREAT` stands alone, and the server
reads them whenever `O_CREAT` is set and `O_EXCL` is not. The server has no result for
`semaphore_entry` to go by: `return_val` is never written, so a call that fails may be
answered as one that has succeeded.
-/

namespace MinixSemaphore.Client

open MinixSemaphore.Lists
open MinixSemaphore.Names
open MinixSemaphore.Server
open MinixSemaphore.Store

universe u

/-- The end of `sem_open`, unless `malloc` has failed: what the pointer points to that it
returns, or `SEM_FAILED`. -/
def openResult (syscall : Reply → Int) (reply : Reply) : Option Int :=
  if syscall reply = 0 then some reply.rta else none

/-- The arguments that `semaphore_entry` calls `sem_open` with. -/
structure OpenArgs where
  name : CString
  oflag : BitVec 32
  mod : Int
  val : BitVec 32

/-- The last two are passed if the message says that there are four. -/
def openArgs (m : Message) (g : Garbage) : OpenArgs where
  name := Fs.requestName m
  oflag := BitVec.ofInt 32 m.oflag
  mod := if m.cantArg = 4 then m.permisos else g.mod
  val := if m.cantArg = 4 then BitVec.ofInt 32 m.valInicial else g.val

section

variable {P : Type u} [ListLib P Int]

/-- `sem_open` of the server. -/
def OpenArgs.opened (args : OpenArgs) (σ : Fs P) : Fs P × Option SlotIx :=
  σ.semOpen args.name args.oflag args.mod args.val

/-- `sem_open` comes to the point where it reads its last two arguments. -/
def OpenArgs.ReadsAll (args : OpenArgs) (σ : Fs P) : Prop :=
  σ.semNameMap.hashTableFind args.name = none ∧ ¬pathMax < args.name.length ∧
    Creates args.oflag ∧ ¬Excludes args.oflag

/-- The message that the library sends. -/
def openMessage (msg : Message) (name : CString) (oflags : BitVec 32) (mode : Int)
    (value : BitVec 32) : Message :=
  semOpenRequest msg name oflags.toInt mode value.toInt

/-- `sem_open` means the same at both ends, whatever C leaves undetermined. -/
structure SameOpen (syscall : Reply → Int) (σ : Fs P) (p : Int) (name : CString)
    (oflags : BitVec 32) (mode : Int) (value : BitVec 32) : Prop where
  named : ∀ msg g, (openArgs (openMessage msg name oflags mode value) g).name = name
  flagged : ∀ msg g, (openArgs (openMessage msg name oflags mode value) g).oflag = oflags
  created : ∀ msg g, Creates oflags →
    (openArgs (openMessage msg name oflags mode value) g).mod = mode ∧
      (openArgs (openMessage msg name oflags mode value) g).val = value
  passed : ∀ msg g, (openArgs (openMessage msg name oflags mode value) g).ReadsAll (σ.getWork p) →
    (openMessage msg name oflags mode value).cantArg = 4
  result : ∀ msg g,
    openResult syscall (σ.step (.semaph p (openMessage msg name oflags mode value) g)).m1 =
      ((openArgs (openMessage msg name oflags mode value) g).opened (σ.getWork p)).2.map
        fun i => ((i : Nat) : Int)

/-- `O_CREAT` does not come with other flags. If the name is bound then `O_EXCL` is not
set, and if it is not bound then a semaphore is to be created, and can be. -/
def OpenAgrees (σ : Fs P) (name : CString) (oflags value : BitVec 32) : Prop :=
  (Creates oflags → oflags = oCreat) ∧
    if σ.semNameMap.hashTableFind name = none then
      Creates oflags ∧ σ.HasFree ∧ value.toNat ≤ semValueMax
    else ¬Excludes oflags

/-! ## What the server gets -/

variable {σ : Fs P} {p : Int} {name : CString} {oflags : BitVec 32} {mode : Int}
  {value : BitVec 32} {msg : Message} {g : Garbage}

theorem requestName_of_short (short : name.length < maxName) :
    (openArgs (openMessage msg name oflags mode value) g).name = name := by
  have named : (openMessage msg name oflags mode value).nombre = name := by
    rw [openMessage, semOpenRequest]
    simp only
    split <;> rfl
  change Fs.requestName _ = name
  rw [Fs.requestName, named]
  apply CString.ext
  apply List.take_of_length_le
  exact Nat.le_sub_one_of_lt short

omit [ListLib P Int] in
theorem oflag_eq : (openArgs (openMessage msg name oflags mode value) g).oflag = oflags := by
  have sent : (openMessage msg name oflags mode value).oflag = oflags.toInt := by
    rw [openMessage, semOpenRequest]
    simp only
    split <;> rfl
  change BitVec.ofInt 32 _ = oflags
  rw [sent, BitVec.ofInt_toInt]

/-- With `O_CREAT` alone, all four arguments are passed. -/
theorem openArgs_of_creat (alone : oflags = oCreat) :
    (openMessage msg name oflags mode value).cantArg = 4 ∧
      (openArgs (openMessage msg name oflags mode value) g).mod = mode ∧
      (openArgs (openMessage msg name oflags mode value) g).val = value := by
  have all : openMessage msg name oflags mode value =
      { msg with m2i1 := 1, m2i2 := mode, m2i3 := 4, m2l1 := value.toInt,
                 m2l2 := oflags.toInt, m2p1 := name } := by
    rw [openMessage, semOpenRequest]
    exact if_pos (by rw [alone]; decide)
  rw [all]
  refine ⟨rfl, rfl, ?_⟩
  change BitVec.ofInt 32 value.toInt = value
  exact BitVec.ofInt_toInt

/-- Otherwise only two are. -/
theorem openArgs_of_others (others : oflags ≠ oCreat) :
    (openArgs (openMessage msg name oflags mode value) g).mod = g.mod ∧
      (openArgs (openMessage msg name oflags mode value) g).val = g.val := by
  have two : openMessage msg name oflags mode value =
      { msg with m2i1 := 1, m2i3 := 2, m2l2 := oflags.toInt, m2p1 := name } := by
    rw [openMessage, semOpenRequest]
    refine if_neg fun same => others ?_
    apply BitVec.eq_of_toInt_eq
    rw [same]
    decide
  rw [two]
  exact ⟨rfl, rfl⟩

/-! ## What the client gets -/

/-- When `sem_create` makes a semaphore. -/
theorem semCreate_isSome_iff (σ : Fs P) (mode : Int) (value : BitVec 32) :
    (σ.semCreate mode value).2.isSome = true ↔
      σ.HasFree ∧ σ.errno = 0 ∧ value.toNat ≤ semValueMax := by
  have ends := σ.semCreate_ends mode value
  generalize σ.semCreate mode value = result at ends ⊢
  cases ends with
  | noSlot busy =>
      refine iff_of_false Bool.false_ne_true ?_
      rintro ⟨⟨i, free⟩, -⟩
      exact busy i free
  | stale _ stale => exact iff_of_false Bool.false_ne_true fun all => stale all.2.1
  | tooLarge _ _ large =>
      exact iff_of_false Bool.false_ne_true fun all => absurd large (not_lt.mpr all.2.2)
  | made first ready small => exact iff_of_true rfl ⟨⟨_, Fs.idle_of_first first⟩, ready, small⟩

theorem semCreate_errno (σ : Fs P) (mode : Int) (value : BitVec 32)
    (made : (σ.semCreate mode value).2.isSome = true) :
    (σ.semCreate mode value).1.errno = σ.errno := by
  have ends := σ.semCreate_ends mode value
  generalize σ.semCreate mode value = result at ends made ⊢
  cases ends with
  | noSlot | stale | tooLarge => exact absurd made Bool.false_ne_true
  | made => rfl

/-- What `sem_open` makes of the result of `sem_create`. -/
theorem semOpen_created (σ : Fs P) (short : name.length < maxName) {oflag : BitVec 32}
    (mod : Int) (val : BitVec 32) (unbound : σ.semNameMap.hashTableFind name = none)
    (creates : Creates oflag) (shared : ¬Excludes oflag) :
    (σ.semOpen name oflag mod val).2 = ((σ.setErrno 0).semCreate mod val).2 ∧
      (σ.semOpen name oflag mod val).1.errno = ((σ.setErrno 0).semCreate mod val).1.errno := by
  obtain ⟨⟨τ, made⟩, result⟩ : ∃ r, (σ.setErrno 0).semCreate mod val = r := ⟨_, rfl⟩
  rw [Fs.semOpen_unbound unbound short creates shared result, result]
  cases made with
  | none => exact ⟨rfl, rfl⟩
  | some i => exact ⟨rfl, rfl⟩

/-- When `sem_open` of the server returns a semaphore. -/
theorem semOpen_isSome_iff (σ : Fs P) (short : name.length < maxName) (oflag : BitVec 32)
    (mod : Int) (val : BitVec 32) : (σ.semOpen name oflag mod val).2.isSome = true ↔
      if σ.semNameMap.hashTableFind name = none then
        Creates oflag ∧ ¬Excludes oflag ∧ σ.HasFree ∧ val.toNat ≤ semValueMax
      else ¬Excludes oflag := by
  cases bound : σ.semNameMap.hashTableFind name with
  | some i =>
      rw [if_neg (Option.some_ne_none i)]
      by_cases excludes : Excludes oflag
      · refine iff_of_false ?_ (not_not.mpr excludes)
        by_cases creates : Creates oflag
        · rw [Fs.semOpen_exists mod val bound short creates excludes]
          exact Bool.false_ne_true
        · rw [Fs.semOpen_uncovered mod val short excludes (iff_of_false (by simp [bound]) creates)]
          exact Bool.false_ne_true
      · rw [Fs.semOpen_bound mod val bound short excludes]
        exact iff_of_true rfl excludes
  | none =>
      rw [if_pos rfl]
      by_cases creates : Creates oflag
      · by_cases excludes : Excludes oflag
        · rw [Fs.semOpen_uncovered mod val short excludes (iff_of_true bound creates)]
          exact iff_of_false Bool.false_ne_true fun all => all.2.1 excludes
        · rw [(semOpen_created σ short mod val bound creates excludes).1, semCreate_isSome_iff]
          constructor
          · rintro ⟨hasFree, -, small⟩
            exact ⟨creates, excludes, hasFree, small⟩
          · rintro ⟨-, -, hasFree, small⟩
            exact ⟨hasFree, rfl, small⟩
      · rw [Fs.semOpen_absent mod val bound creates]
        exact iff_of_false Bool.false_ne_true fun all => creates all.1

/-- A call that has succeeded leaves no error number. -/
theorem semOpen_errno (σ : Fs P) (short : name.length < maxName) (oflag : BitVec 32)
    (mod : Int) (val : BitVec 32) (opened : (σ.semOpen name oflag mod val).2.isSome = true) :
    (σ.semOpen name oflag mod val).1.errno = 0 := by
  have possible := (semOpen_isSome_iff σ short oflag mod val).mp opened
  cases bound : σ.semNameMap.hashTableFind name with
  | some i =>
      rw [if_neg (by simp [bound])] at possible
      rw [Fs.semOpen_bound mod val bound short possible]
      rfl
  | none =>
      rw [if_pos bound] at possible
      obtain ⟨creates, shared, -⟩ := possible
      obtain ⟨result, errno⟩ := semOpen_created σ short mod val bound creates shared
      rw [result] at opened
      exact errno.trans (semCreate_errno (σ.setErrno 0) mod val opened)

theorem dispatch_open (σ : Fs P) : σ.dispatch (openMessage msg name oflags mode value) g =
    (((openArgs (openMessage msg name oflags mode value) g).opened σ).1.answer
      (((openArgs (openMessage msg name oflags mode value) g).opened σ).2.elim 0
        fun i => ((i : Nat) : Int)) 0 0 1, g.returnVal) := by
  have open' : (openMessage msg name oflags mode value).funcion = 1 := by
    rw [openMessage, semOpenRequest]
    simp only
    split <;> rfl
  rw [Fs.dispatch, open']
  rfl

/-- `sem_open` is always answered. -/
theorem semOpen_dontReply (σ : Fs P) (oflag : BitVec 32) (mod : Int) (val : BitVec 32) :
    (σ.semOpen name oflag mod val).1.dontReply = σ.dontReply := by
  rcases Fs.semOpen_recorded σ name oflag mod val with
    ⟨-, recorded⟩ | ⟨i, deed, -, recorded, rfl | ⟨entry, rfl⟩⟩
  · rw [recorded.dontReply]
    exact Bool.or_false _
  · rw [recorded.dontReply]
    exact Bool.or_false _
  · rw [recorded.dontReply]
    exact Bool.or_false _

variable {syscall : Reply → Int} {errno : Reply → Option Int}

/-- A call that fails is answered with success if `return_val` happens to be 0. -/
theorem result_iff_opened (documented : Documented syscall errno) (short : name.length < maxName) :
    (∀ msg g,
      openResult syscall (σ.step (.semaph p (openMessage msg name oflags mode value) g)).m1 =
        ((openArgs (openMessage msg name oflags mode value) g).opened (σ.getWork p)).2.map
          fun i => ((i : Nat) : Int)) ↔
      ∀ msg g, ((openArgs (openMessage msg name oflags mode value) g).opened
        (σ.getWork p)).2.isSome = true := by
  have replied : ∀ msg g, Fs.Replied
      (((openArgs (openMessage msg name oflags mode value) g).opened (σ.getWork p)).1.answer
        (((openArgs (openMessage msg name oflags mode value) g).opened (σ.getWork p)).2.elim 0
          fun i => ((i : Nat) : Int)) 0 0 1)
      (σ.step (.semaph p (openMessage msg name oflags mode value) g)) g.returnVal :=
    fun msg g => Fs.step_replied (dispatch_open (σ.getWork p))
  have awake : ∀ msg g, ((openArgs (openMessage msg name oflags mode value) g).opened
      (σ.getWork p)).1.dontReply = false :=
    fun msg g => semOpen_dontReply (σ.getWork p) _ _ _
  constructor
  · intro same msg g
    -- the arguments do not depend on `return_val`
    have luck := same msg { g with returnVal := 0 }
    have type : (σ.step (.semaph p (openMessage msg name oflags mode value)
        { g with returnVal := 0 })).m1.type = 0 :=
      ((replied msg { g with returnVal := 0 }).type (awake msg _)).trans (if_neg (not_not.mpr rfl))
    have returned := (documented.success _ (le_of_eq type.symm)).trans type
    rw [openResult, if_pos returned] at luck
    cases opened : ((openArgs (openMessage msg name oflags mode value) g).opened
        (σ.getWork p)).2 with
    | some i => rfl
    | none =>
        have failed : ((openArgs (openMessage msg name oflags mode value)
            { g with returnVal := 0 }).opened (σ.getWork p)).2 = none := opened
        rw [failed] at luck
        contradiction
  · intro opened msg g
    obtain ⟨i, made⟩ := Option.isSome_iff_exists.mp (opened msg g)
    have errnoEq : ((openArgs (openMessage msg name oflags mode value) g).opened
        (σ.getWork p)).1.errno = 0 := by
      apply semOpen_errno (σ.getWork p)
      · rw [requestName_of_short short]
        exact short
      · exact opened msg g
    have type : (σ.step (.semaph p (openMessage msg name oflags mode value) g)).m1.type = 0 := by
      rw [(replied msg g).type (awake msg g)]
      split
      · exact errnoEq
      · rfl
    have returned := (documented.success _ (le_of_eq type.symm)).trans type
    rw [openResult, if_pos returned, (replied msg g).rta, made]
    rfl

theorem opened_isSome_iff (σ : Fs P) (p : Int) (short : name.length < maxName) :
    ((openArgs (openMessage msg name oflags mode value) g).opened (σ.getWork p)).2.isSome = true ↔
      if σ.semNameMap.hashTableFind name = none then
        Creates oflags ∧ ¬Excludes oflags ∧ σ.HasFree ∧
          (openArgs (openMessage msg name oflags mode value) g).val.toNat ≤ semValueMax
      else ¬Excludes oflags := by
  rw [OpenArgs.opened, requestName_of_short short, oflag_eq]
  exact semOpen_isSome_iff (σ.getWork p) short oflags _ _

/-- In every state, a call of `sem_open` with a name that fits means the same at both ends
exactly if `O_CREAT` does not come with other flags and the semaphore can be opened. -/
theorem sameOpen_iff_agrees (documented : Documented syscall errno) (σ : Fs P) (p : Int)
    (short : name.length < maxName) (oflags : BitVec 32) (mode : Int) (value : BitVec 32) :
    SameOpen syscall σ p name oflags mode value ↔ OpenAgrees σ name oflags value := by
  constructor
  · intro same
    constructor
    · intro creates
      by_contra others
      have sent := (same.created default { (default : Garbage) with mod := mode + 1 } creates).1
      rw [(openArgs_of_others others).1] at sent
      exact absurd sent (by simp)
    · have opened := (result_iff_opened documented short).mp same.result default default
      rw [opened_isSome_iff σ p short] at opened
      split at opened
      · rename_i unbound
        obtain ⟨creates, -, hasFree, small⟩ := opened
        rw [(same.created default default creates).2] at small
        rw [if_pos unbound]
        exact ⟨creates, hasFree, small⟩
      · rename_i bound
        rw [if_neg bound]
        exact opened
  · rintro ⟨alone, possible⟩
    refine ⟨fun _ _ => requestName_of_short short, fun _ _ => oflag_eq, ?_, ?_, ?_⟩
    · intro msg g creates
      exact (openArgs_of_creat (alone creates)).2
    · rintro msg g ⟨-, -, creates, -⟩
      rw [oflag_eq] at creates
      exact (openArgs_of_creat (g := g) (alone creates)).1
    · apply (result_iff_opened documented short).mpr
      intro msg g
      rw [opened_isSome_iff σ p short]
      split at possible
      · rename_i unbound
        obtain ⟨creates, hasFree, small⟩ := possible
        have only := alone creates
        rw [if_pos unbound, (openArgs_of_creat only).2.2]
        refine ⟨creates, ?_, hasFree, small⟩
        rw [only]
        decide
      · rename_i bound
        rw [if_neg bound]
        exact possible

end

/-- A new semaphore is created at the start. -/
theorem sameOpen_iff_agrees_of_creat :
    SameOpen syscallResult World.boot.fs 5 ⟨[97], by simp⟩ oCreat 0 1 :=
  (sameOpen_iff_agrees documented_syscall World.boot.fs 5 (by decide) oCreat 0 1).mpr
    ⟨fun _ => rfl, by decide +kernel⟩

/-- Nobody has created the semaphore that is to be opened. If `return_val` holds 0 before
the request, the call returns a pointer to 0 where the server has failed. -/
theorem not_sameOpen_of_absent :
    ¬SameOpen syscallResult World.boot.fs 5 ⟨[97], by simp⟩ 0 0 1 := by
  intro same
  have result := same.result default default
  revert result
  decide +kernel

end MinixSemaphore.Client
