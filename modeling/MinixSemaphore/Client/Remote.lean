import MinixSemaphore.Client.Library
import MinixSemaphore.Server.States

/-!
# Calls through the library

A function of the library stands for an operation of the server. What the operation
comes to goes through its result, the error number, the type of the reply and the buffer
before the function makes its own result of it. Here both ends are compared.
-/

namespace MinixSemaphore.Client

open MinixSemaphore.Lists
open MinixSemaphore.Names
open MinixSemaphore.Server
open MinixSemaphore.Semaphore
open MinixSemaphore.Store

universe u

/-! ## Calls -/

/-- The end of `sem_unlink`. -/
def unlinkResult (syscall : Reply → Int) (reply : Reply) : Int :=
  if syscall reply = 0 then reply.rta else -1

/-- What the library relies on: `_syscall` returns -1 for a negative type and sets `errno`
to the positive number, and returns any other type. -/
structure Documented (syscall : Reply → Int) (errno : Reply → Option Int) : Prop where
  failure : ∀ r, r.type < 0 → syscall r = -1 ∧ errno r = some (-r.type)
  success : ∀ r, 0 ≤ r.type → syscall r = r.type

/-- A `_syscall` as it is documented. -/
def syscallResult (r : Reply) : Int :=
  if r.type < 0 then -1 else r.type

/-- The error number that it sets. -/
def syscallErrno (r : Reply) : Option Int :=
  if r.type < 0 then some (-r.type) else none

theorem documented_syscall : Documented syscallResult syscallErrno :=
  ⟨fun _ negative => ⟨if_pos negative, if_pos negative⟩,
    fun _ notNegative => if_neg (not_lt.mpr notNegative)⟩

/-- A call of a function other than `sem_open`, with the values behind its pointers. -/
inductive Call
  | semClose (sem : Int)
  | semGetvalue (sem val : Int)
  | semPost (sem : Int)
  | semTrywait (sem : Int)
  | semUnlink (name : CString)
  | semWait (sem : Int)
  | semInit (sem pshared init : Int)
  | semDestroy (sem : Int)

namespace Call

/-- The message that a call sends. -/
def request (msg : Message) : Call → Message
  | .semClose sem => semCloseRequest msg sem
  | .semGetvalue sem val => semGetvalueRequest msg sem val
  | .semPost sem => semPostRequest msg sem
  | .semTrywait sem => semTrywaitRequest msg sem
  | .semUnlink name => semUnlinkRequest msg name
  | .semWait sem => semWaitRequest msg sem
  | .semInit sem pshared init => semInitRequest msg sem pshared init
  | .semDestroy sem => semDestroyRequest msg sem

/-- The result of a call; `unset` is the result of a function that ends without `return`. -/
def result (syscall : Reply → Int) (unset : Int) (reply : Reply) : Call → Int
  | .semUnlink _ => unlinkResult syscall reply
  | .semGetvalue sem val => (getvalueResult syscall sem val unset reply).1
  | .semClose sem | .semPost sem | .semTrywait sem | .semWait sem | .semInit sem _ _
  | .semDestroy sem => (handleResult syscall sem reply).1

/-- The value that a call leaves behind the pointer through which it returns one: the
handle of `sem_init`, and the count of `sem_getvalue`. -/
def written (syscall : Reply → Int) (unset : Int) (reply : Reply) : Call → Option Int
  | .semInit sem _ _ => some (handleResult syscall sem reply).2
  | .semGetvalue sem val => some (getvalueResult syscall sem val unset reply).2.2
  | _ => none

variable {P : Type u} [ListLib P Int]

/-- The operation of the server, as `semaphore_entry` calls it. -/
def serve (σ : Fs P) (g : Garbage) : Call → Fs P
  | .semClose sem => (σ.semClose sem).1
  | .semGetvalue sem _ => (σ.semGetvalue sem).1
  | .semPost sem => σ.semPost sem g.proc
  | .semTrywait sem => (σ.semTrywait sem).1
  | .semUnlink name => (σ.semUnlink (name.take (maxName - 1))).1
  | .semWait sem => (σ.semWait sem).1
  | .semInit _ pshared init => (σ.semInit pshared (BitVec.ofInt 32 init)).1
  | .semDestroy sem => (σ.semDestroy sem).1

/-- The value that the operation has computed for its caller. -/
def computed (σ : Fs P) : Call → Option Int
  | .semInit _ pshared init =>
      (σ.semInit pshared (BitVec.ofInt 32 init)).2.map fun i => ((i : Nat) : Int)
  | .semGetvalue sem _ => (σ.semGetvalue sem).2.2
  | _ => none

/-- The operation has had its effect: something has been done to a semaphore, or its count
has been read. -/
def Performs (σ : Fs P) (g : Garbage) (call : Call) : Prop :=
  (call.serve σ g).acts ≠ [] ∨ ∃ sem val, call = .semGetvalue sem val ∧ call.computed σ ≠ none

/-- The call gives its caller what the operation has come to, whatever C leaves
undetermined. A wait that blocks is answered when its caller is woken, in a round of
another process. -/
structure Faithful (syscall : Reply → Int) (errno : Reply → Option Int) (σ : Fs P) (p : Int)
    (call : Call) : Prop where
  performed : ∀ msg g unset, call.Performs (σ.getWork p) g →
    (σ.step (.semaph p (call.request msg) g)).dontReply = false →
      call.result syscall unset (σ.step (.semaph p (call.request msg) g)).m1 = 0 ∧
        call.written syscall unset (σ.step (.semaph p (call.request msg) g)).m1 =
          call.computed (σ.getWork p)
  refused : ∀ msg g unset, ¬call.Performs (σ.getWork p) g →
    (σ.step (.semaph p (call.request msg) g)).dontReply = false ∧
      call.result syscall unset (σ.step (.semaph p (call.request msg) g)).m1 = -1 ∧
        errno (σ.step (.semaph p (call.request msg) g)).m1 =
          some (-(call.serve (σ.getWork p) g).errno)
  woken : ∀ sem, call = .semWait sem → ∀ (σ' : Fs P) e r unset, e.source ≠ p →
    (p, r) ∈ (σ'.step e).sent → call.result syscall unset r = 0

end Call

/-! ## What operations come to -/

section

variable {P : Type u}

/-- An operation has succeeded and done something; or it has failed, has done nothing, has
left an error number, and is going to be answered. -/
inductive Concludes (r : Fs P × Int) : Prop
  | success : r.2 = 0 → r.1.acts ≠ [] → Concludes r
  | failure : r.2 = -1 → r.1.acts = [] → r.1.dontReply = false → r.1.errno < 0 → Concludes r

theorem Concludes.note (τ : Fs P) (i : SlotIx) (deed : Int → Deed Int (Option EntryIx)) :
    Concludes (τ.note i deed, 0) :=
  Concludes.success rfl (List.append_ne_nil_of_right_ne_nil _ (List.cons_ne_nil _ _))

variable [ListLib P Int]

theorem semClose_concludes (σ : Fs P) (p sem : Int) :
    Concludes ((σ.getWork p).semClose sem) := by
  have ends := (σ.getWork p).semClose_ends sem
  generalize (σ.getWork p).semClose sem = result at ends ⊢
  cases ends with
  | refused => exact Concludes.failure rfl rfl rfl (show einval < 0 by decide)
  | last | left => exact Concludes.note _ _ _

theorem semDestroy_concludes (σ : Fs P) (p sem : Int) :
    Concludes ((σ.getWork p).semDestroy sem) := by
  have ends := (σ.getWork p).semDestroy_ends sem
  generalize (σ.getWork p).semDestroy sem = result at ends ⊢
  cases ends with
  | refused => exact Concludes.failure rfl rfl rfl (show einval < 0 by decide)
  | busy => exact Concludes.failure rfl rfl rfl (show ebusy < 0 by decide)
  | destroyed => exact Concludes.note _ _ _

theorem semWait_concludes (σ : Fs P) (p sem : Int) : Concludes ((σ.getWork p).semWait sem) := by
  have ends := (σ.getWork p).semWait_ends sem
  generalize (σ.getWork p).semWait sem = result at ends ⊢
  cases ends with
  | refused => exact Concludes.failure rfl rfl rfl (show einval < 0 by decide)
  | queued | passed => exact Concludes.note _ _ _

theorem semTrywait_concludes (σ : Fs P) (p sem : Int) :
    Concludes ((σ.getWork p).semTrywait sem) := by
  have ends := (σ.getWork p).semTrywait_ends sem
  generalize (σ.getWork p).semTrywait sem = result at ends ⊢
  cases ends with
  | refused => exact Concludes.failure rfl rfl rfl (show einval < 0 by decide)
  | again => exact Concludes.failure rfl rfl rfl (show eagain < 0 by decide)
  | tried => exact Concludes.note _ _ _

/-- A list with a member is not empty, so that the test behind the one for members never
fails. -/
theorem semUnlink_concludes (σ : Fs P) (p : Int) (name : CString)
    (nonempty : ∀ i, σ.belongs (σ.semArray i).procList p = true →
      ListLib.listIsEmpty σ.pools (σ.semArray i).procList = false) :
    Concludes ((σ.getWork p).semUnlink name) := by
  have ends := (σ.getWork p).semUnlink_ends name
  generalize (σ.getWork p).semUnlink name = result at ends ⊢
  cases ends with
  | tooLong => exact Concludes.failure rfl rfl rfl (show enametoolong < 0 by decide)
  | absent => exact Concludes.failure rfl rfl rfl (show enoent < 0 by decide)
  | stranger => exact Concludes.failure rfl rfl rfl (show eacces < 0 by decide)
  | @unused i _ member empty =>
      have found : ListLib.listIsEmpty σ.pools (σ.semArray i).procList = false :=
        nonempty i member
      exact absurd (found.symm.trans empty) Bool.false_ne_true
  | unlinked => exact Concludes.note _ _ _

/-- The ways that `sem_create` fails leave an error number, or have found one. -/
theorem semCreate_refused {σ : Fs P} (mode : Int) (value : BitVec 32) (errno : σ.errno ≤ 0)
    (refused : (σ.semCreate mode value).2 = none) :
    (σ.semCreate mode value).1.acts = σ.acts ∧
      (σ.semCreate mode value).1.dontReply = σ.dontReply ∧
      (σ.semCreate mode value).1.errno < 0 := by
  have ends := σ.semCreate_ends mode value
  generalize σ.semCreate mode value = result at ends refused ⊢
  cases ends with
  | noSlot => exact ⟨rfl, rfl, show enospc < 0 by decide⟩
  | stale _ stale => exact ⟨rfl, rfl, lt_of_le_of_ne errno stale⟩
  | tooLarge => exact ⟨rfl, rfl, show einval < 0 by decide⟩
  | made => contradiction

/-- The result that `semaphore_entry` takes from `sem_init`. -/
theorem semInit_concludes (σ : Fs P) (errno : σ.errno ≤ 0) (p pshared : Int)
    (value : BitVec 32) : Concludes (((σ.getWork p).semInit pshared value).1,
      if ((σ.getWork p).semInit pshared value).2 = none then -1 else 0) := by
  have created := semCreate_refused (σ := σ.getWork p) 0 value errno
  have ends := (σ.getWork p).semInit_ends pshared value
  generalize (σ.getWork p).semInit pshared value = result at ends ⊢
  cases ends with
  | notMade result =>
      rw [result] at created
      obtain ⟨acts, dontReply, negative⟩ := created rfl
      exact Concludes.failure rfl acts dontReply negative
  | @made τ i =>
      have concludes := Concludes.note (τ.modSem i fun s => { s with unlinked := true }) i
        fun p => .created p value.toNat none
      exact concludes

end

/-! ## What replies come to -/

section

variable {P : Type u} {served σ' : Fs P} {r : Fs P × Int}
  {syscall : Reply → Int} {errno : Reply → Option Int}

theorem syscall_of_success (documented : Documented syscall errno)
    (replied : Fs.Replied served σ' r.2) (awake : served.dontReply = false)
    (succeeded : r.2 = 0) : syscall σ'.m1 = 0 := by
  have type := replied.type awake
  rw [if_neg (not_not.mpr succeeded)] at type
  rw [documented.success σ'.m1 (le_of_eq type.symm), type]

theorem syscall_of_failure (documented : Documented syscall errno)
    (replied : Fs.Replied served σ' r.2) (awake : served.dontReply = false)
    (failed : r.2 ≠ 0) (negative : served.errno < 0) :
    syscall σ'.m1 = -1 ∧ errno σ'.m1 = some (-served.errno) := by
  have type := replied.type awake
  rw [if_pos failed] at type
  rw [← type] at negative ⊢
  exact documented.failure σ'.m1 negative

theorem Concludes.performed (concludes : Concludes r) (documented : Documented syscall errno)
    (replied : Fs.Replied served σ' r.2) (rta : served.m1.rta = r.2) (did : r.1.acts ≠ [])
    (awake : σ'.dontReply = false) : syscall σ'.m1 = 0 ∧ σ'.m1.rta = 0 := by
  cases concludes with
  | success succeeded =>
      have awake : served.dontReply = false := replied.dontReply.symm.trans awake
      exact ⟨syscall_of_success documented replied awake succeeded,
        (replied.rta.trans rta).trans succeeded⟩
  | failure failed nothing => exact absurd nothing did

theorem Concludes.refused (concludes : Concludes r) (documented : Documented syscall errno)
    (replied : Fs.Replied served σ' r.2) (errnoEq : served.errno = r.1.errno)
    (dontReply : served.dontReply = r.1.dontReply) (nothing : ¬r.1.acts ≠ []) :
    σ'.dontReply = false ∧ syscall σ'.m1 = -1 ∧ errno σ'.m1 = some (-r.1.errno) := by
  cases concludes with
  | success _ did => exact absurd did nothing
  | failure failed _ awake negative =>
      have awake : served.dontReply = false := dontReply.trans awake
      rw [← errnoEq] at negative ⊢
      refine ⟨replied.dontReply.trans awake, ?_⟩
      apply syscall_of_failure documented replied awake ?_ negative
      rw [failed]
      decide

end

/-! ## Calls that are faithful -/

section

variable {P : Type u} [ListLib P Int] {σ : Fs P} {p : Int}
  {syscall : Reply → Int} {errno : Reply → Option Int}

/-- A message that a process gets in a round of another one wakes it with success. -/
theorem woken_reply {e : Event} {r : Reply} (other : e.source ≠ p)
    (mem : (p, r) ∈ (σ.step e).sent) : r.type = ok ∧ r.rta = 0 := by
  rw [(Fs.step_recorded σ e).2, List.mem_append] at mem
  rcases mem with woken | own
  · obtain ⟨a, -, woken⟩ := List.mem_flatMap.mp woken
    rw [Fs.wakeReply] at woken
    split at woken
    · have same : r = { σ.m1 with type := ok, rta := 0 } :=
        congrArg Prod.snd (List.mem_singleton.mp woken)
      rw [same]
      exact ⟨rfl, rfl⟩
    · contradiction
  · split at own
    · contradiction
    · have same : p = e.source := congrArg Prod.fst (List.mem_singleton.mp own)
      exact absurd same.symm other

theorem Call.performs_iff {call : Call} {τ : Fs P} {g : Garbage}
    (notValue : ∀ sem val, call ≠ .semGetvalue sem val) :
    call.Performs τ g ↔ (call.serve τ g).acts ≠ [] := by
  constructor
  · rintro (did | ⟨sem, val, same, -⟩)
    · exact did
    · exact absurd same (notValue sem val)
  · exact Or.inl

/-- A call whose operation concludes, and whose reply carries its result. -/
theorem faithful_of_concludes (documented : Documented syscall errno) {call : Call}
    {op : Fs P × Int} (concludes : Concludes op)
    (serve : ∀ g, call.serve (σ.getWork p) g = op.1)
    (notValue : ∀ sem val, call ≠ .semGetvalue sem val)
    (handled : ∀ msg g, ∃ served : Fs P,
      (σ.getWork p).dispatch (call.request msg) g = (served, op.2) ∧ served.m1.rta = op.2 ∧
        served.errno = op.1.errno ∧ served.dontReply = op.1.dontReply ∧
        ∀ (σ' : Fs P) unset, σ'.m1.param1 = served.m1.param1 → syscall σ'.m1 = 0 →
          op.1.acts ≠ [] → call.written syscall unset σ'.m1 = call.computed (σ.getWork p))
    (result : ∀ unset reply,
      call.result syscall unset reply = if syscall reply = 0 then reply.rta else -1) :
    call.Faithful syscall errno σ p := by
  constructor
  · intro msg g unset performs awake
    obtain ⟨served, same, rta, -, -, value⟩ := handled msg g
    have replied := Fs.step_replied same
    have did : op.1.acts ≠ [] := serve g ▸ (Call.performs_iff notValue).mp performs
    obtain ⟨returned, zero⟩ := concludes.performed documented replied rta did awake
    rw [result, if_pos returned]
    exact ⟨zero, value _ unset replied.param1 returned did⟩
  · intro msg g unset refuses
    obtain ⟨served, same, -, errnoEq, dontReply, -⟩ := handled msg g
    have nothing : ¬op.1.acts ≠ [] := serve g ▸ mt (Call.performs_iff notValue).mpr refuses
    have replied : Fs.Replied served (σ.step (.semaph p (call.request msg) g)) op.2 :=
      Fs.step_replied same
    obtain ⟨awake, returned, set⟩ :=
      concludes.refused documented replied errnoEq dontReply nothing
    rw [result, if_neg (by rw [returned]; decide), serve g]
    exact ⟨awake, rfl, set⟩
  · intro sem _ σ' e r unset other mem
    obtain ⟨type, rta⟩ := woken_reply other mem
    have returned : syscall r = 0 := (documented.success r (le_of_eq type.symm)).trans type
    rw [result, if_pos returned, rta]

theorem handleResult_fst (sem : Int) (reply : Reply) :
    (handleResult syscall sem reply).1 = if syscall reply = 0 then reply.rta else -1 := by
  rw [handleResult]
  split <;> rfl

/-- An operation on a handle. -/
theorem faithful_of_handle (documented : Documented syscall errno) {call : Call} {sem : Int}
    {op : Fs P × Int} (concludes : Concludes op)
    (serve : ∀ g, call.serve (σ.getWork p) g = op.1)
    (notValue : ∀ sem val, call ≠ .semGetvalue sem val)
    (handled : ∀ msg g,
      (σ.getWork p).dispatch (call.request msg) g = Fs.answerHandle op sem)
    (value : ∀ unset reply,
      call.written syscall unset reply = call.computed (σ.getWork p))
    (result : ∀ unset reply,
      call.result syscall unset reply = (handleResult syscall sem reply).1) :
    call.Faithful syscall errno σ p := by
  apply faithful_of_concludes documented concludes serve notValue
  · intro msg g
    exact ⟨_, handled msg g, rfl, rfl, rfl, fun σ' unset _ _ _ => value unset σ'.m1⟩
  · intro unset reply
    rw [result, handleResult_fst]

/-- `*sem` after a function on a handle has succeeded. -/
theorem handleResult_snd {sem : Int} {reply : Reply} (returned : syscall reply = 0) :
    (handleResult syscall sem reply).2 = reply.param1 := by
  rw [handleResult, if_pos returned]

theorem faithful_semInit (documented : Documented syscall errno) (errnoLe : σ.errno ≤ 0)
    (sem pshared init : Int) : (Call.semInit sem pshared init).Faithful syscall errno σ p := by
  have concludes := semInit_concludes σ errnoLe p pshared (BitVec.ofInt 32 init)
  apply faithful_of_concludes documented concludes (fun _ => rfl) (fun _ _ => by simp)
  · intro msg g
    refine ⟨_, rfl, rfl, rfl, rfl, ?_⟩
    intro σ' unset param1 returned did
    -- a slot has been made, and its index is in the buffer
    have made : ((σ.getWork p).semInit pshared (BitVec.ofInt 32 init)).2 ≠ none := by
      intro none'
      rw [if_pos none'] at concludes
      cases concludes with
      | success succeeded => contradiction
      | failure _ nothing => exact did nothing
    obtain ⟨i, made⟩ := Option.ne_none_iff_exists'.mp made
    have value : σ'.m1.param1 = (i : Nat) :=
      param1.trans (congrArg (fun made : Option SlotIx => made.elim sem fun i => ((i : Nat) : Int))
        made)
    change some (handleResult syscall sem σ'.m1).2 = Option.map _ _
    rw [handleResult_snd returned, value, made]
    rfl
  · intro unset reply
    exact handleResult_fst sem reply

theorem faithful_semUnlink (documented : Documented syscall errno)
    (nonempty : ∀ i, σ.belongs (σ.semArray i).procList p = true →
      ListLib.listIsEmpty σ.pools (σ.semArray i).procList = false)
    (name : CString) : (Call.semUnlink name).Faithful syscall errno σ p := by
  apply faithful_of_concludes documented
    (semUnlink_concludes σ p (name.take (maxName - 1)) nonempty) (fun _ => rfl)
    (fun _ _ => by simp)
  · intro msg g
    exact ⟨_, rfl, rfl, rfl, rfl, fun _ _ _ _ _ => rfl⟩
  · exact fun _ _ => rfl

/-- `sem_getvalue` makes a result of a reply only if the call has succeeded. -/
theorem faithful_semGetvalue_iff (documented : Documented syscall errno) (sem val : Int) :
    (Call.semGetvalue sem val).Faithful syscall errno σ p ↔
      ((σ.getWork p).granted sem).isSome = true := by
  have served : ∀ msg g, ∃ τ : Fs P,
      (σ.getWork p).dispatch ((Call.semGetvalue sem val).request msg) g =
        (τ, ((σ.getWork p).semGetvalue sem).2.1) ∧
      τ.m1.rta = ((σ.getWork p).semGetvalue sem).2.1 ∧
      τ.m1.param2 = ((σ.getWork p).semGetvalue sem).2.2.getD val ∧
      τ.errno = ((σ.getWork p).semGetvalue sem).1.errno ∧
      τ.dontReply = ((σ.getWork p).semGetvalue sem).1.dontReply :=
    fun _ _ => ⟨_, rfl, rfl, rfl, rfl, rfl⟩
  cases granted : (σ.getWork p).granted sem with
  | none =>
      refine iff_of_false ?_ (by simp)
      intro faithful
      have refuses : ¬(Call.semGetvalue sem val).Performs (σ.getWork p) default := by
        rintro (did | ⟨_, _, _, read⟩)
        · rw [Call.serve, Fs.semGetvalue_refused granted] at did
          exact did rfl
        · rw [Call.computed, Fs.semGetvalue_refused granted] at read
          exact read rfl
      obtain ⟨τ, same, -, -, errnoEq, dontReply⟩ := served default default
      rw [Fs.semGetvalue_refused granted] at same errnoEq dontReply
      have replied : Fs.Replied τ (σ.step (.semaph p
          ((Call.semGetvalue sem val).request default) default)) (τ, (-1 : Int)).2 :=
        Fs.step_replied same
      obtain ⟨returned, -⟩ := syscall_of_failure documented replied dontReply
        (show (-1 : Int) ≠ 0 by decide) (errnoEq ▸ (show einval < 0 by decide))
      -- the result is what was there before
      obtain ⟨-, result, -⟩ := faithful.refused default default 0 refuses
      rw [Call.result, getvalueResult, if_neg (by rw [returned]; decide)] at result
      contradiction
  | some i =>
      rw [Fs.semGetvalue_granted granted] at served
      have reads : (Call.semGetvalue sem val).computed (σ.getWork p) =
          some (σ.semArray i).semCount := by
        rw [Call.computed, Fs.semGetvalue_granted granted]
        rfl
      refine iff_of_true ⟨?_, ?_, nofun⟩ rfl
      · intro msg g unset _ awake
        obtain ⟨τ, same, rta, value, -, -⟩ := served msg g
        have replied : Fs.Replied τ (σ.step (.semaph p
            ((Call.semGetvalue sem val).request msg) g)) (τ, (0 : Int)).2 :=
          Fs.step_replied same
        have returned := syscall_of_success documented replied
          (replied.dontReply.symm.trans awake) rfl
        rw [Call.result, Call.written, getvalueResult, if_pos returned, reads]
        exact ⟨replied.rta.trans rta, congrArg some (replied.param2.trans value)⟩
      · intro msg g unset refuses
        refine absurd (Or.inr ⟨sem, val, rfl, ?_⟩) refuses
        rw [reads]
        exact Option.some_ne_none _

theorem semPost_granted {sem : Int} {i : SlotIx} (granted : (σ.getWork p).granted sem = some i)
    (proc : Int) : ((σ.getWork p).semPost sem proc).acts ≠ [] ∧
      ((σ.getWork p).semPost sem proc).errno = 0 ∧
      ((σ.getWork p).semPost sem proc).dontReply = false := by
  have ends := (σ.getWork p).semPost_ends sem proc
  generalize (σ.getWork p).semPost sem proc = after at ends ⊢
  cases ends with
  | refused refused =>
      rw [granted] at refused
      contradiction
  | woken _ _ took =>
      subst took
      exact ⟨List.append_ne_nil_of_right_ne_nil _ (List.cons_ne_nil _ _), rfl, rfl⟩
  | counted => exact ⟨List.append_ne_nil_of_right_ne_nil _ (List.cons_ne_nil _ _), rfl, rfl⟩

/-- `sem_post` leaves its result to chance. -/
theorem not_faithful_semPost (documented : Documented syscall errno) (sem : Int) :
    ¬(Call.semPost sem).Faithful syscall errno σ p := by
  intro faithful
  have served : ∀ g : Garbage, Fs.Replied
      (Fs.answerHandle ((σ.getWork p).semPost sem g.proc, g.returnVal) sem).1
      (σ.step (.semaph p ((Call.semPost sem).request default) g))
      (Fs.answerHandle ((σ.getWork p).semPost sem g.proc, g.returnVal) sem).2 :=
    fun _ => Fs.step_replied rfl
  have posts : ∀ g, (Call.semPost sem).Performs (σ.getWork p) g ↔
      ((σ.getWork p).semPost sem g.proc).acts ≠ [] :=
    fun _ => Call.performs_iff fun _ _ => by simp
  cases granted : (σ.getWork p).granted sem with
  | none =>
      -- the caller is refused, and the result happens to be 0
      have refuses : ¬(Call.semPost sem).Performs (σ.getWork p) default := by
        rw [posts, Fs.semPost_refused granted]
        exact not_not.mpr rfl
      obtain ⟨awake, result, -⟩ := faithful.refused default default 0 refuses
      have replied := served default
      have returned := syscall_of_success documented replied
        (replied.dontReply.symm.trans awake) rfl
      rw [Call.result, handleResult_fst, if_pos returned, replied.rta] at result
      contradiction
  | some i =>
      -- the caller posts, and the result happens to be 1
      obtain ⟨did, errnoEq, awake⟩ := semPost_granted granted 0
      have replied := served { (default : Garbage) with returnVal := 1 }
      have type : (σ.step (.semaph p ((Call.semPost sem).request default)
          { (default : Garbage) with returnVal := 1 })).m1.type = 0 :=
        (replied.type awake).trans errnoEq
      obtain ⟨result, -⟩ := faithful.performed default { (default : Garbage) with returnVal := 1 } 0
        ((posts _).mpr did) (replied.dontReply.trans awake)
      have returned := (documented.success _ (le_of_eq type.symm)).trans type
      rw [Call.result, handleResult_fst, if_pos returned, replied.rta] at result
      exact absurd result (show (1 : Int) ≠ 0 by decide)

end

/-! ## Reachable states -/

section

open World

variable {syscall : Reply → Int} {errno : Reply → Option Int}

/-- The caller of `sem_getvalue` has the semaphore open, and the call is not a post. -/
def Call.Answerable (call : Call) (σ : Fs (Pools Int)) (p : Int) : Prop :=
  match call with
  | .semPost _ => False
  | .semGetvalue sem _ => ((σ.getWork p).granted sem).isSome = true
  | _ => True

/-- After any events, a call is faithful unless it is a post, or asks for the value of a
semaphore that its caller does not have open. -/
theorem faithful_iff_answerable (documented : Documented syscall errno) (es : List Event)
    (p : Int) (call : Call) :
    call.Faithful syscall errno (after es).fs p ↔ call.Answerable (after es).fs p := by
  have sturdy := after_sturdy es
  have errnoLe : (after es).fs.errno ≤ 0 := sturdy.anchored.errno
  cases call with
  | semPost sem => exact iff_of_false (not_faithful_semPost documented sem) id
  | semGetvalue sem val => exact faithful_semGetvalue_iff documented sem val
  | semInit sem pshared init =>
      exact iff_of_true (faithful_semInit documented errnoLe sem pshared init) trivial
  | semUnlink name =>
      refine iff_of_true (faithful_semUnlink documented ?_ name) trivial
      intro i member
      have simulated := sturdy.simulated
      have found : (after es).abs.fs.belongs ((after es).fs.semArray i).procList p = true :=
        (simulated.belongs (simulated.usable i).1 p).trans member
      have present : p ∈ (after es).abs.fs.pools.seq ((after es).fs.semArray i).procList :=
        Fs.belongs_iff.mp found
      by_contra empty
      rw [Bool.not_eq_false, ← simulated.listIsEmpty, Fs.listIsEmpty_iff] at empty
      rw [empty] at present
      contradiction
  | semClose sem =>
      refine iff_of_true ?_ trivial
      exact faithful_of_handle documented (semClose_concludes _ p sem) (fun _ => rfl)
        (fun _ _ => by simp) (fun _ _ => rfl) (fun _ _ => rfl) fun _ _ => rfl
  | semDestroy sem =>
      refine iff_of_true ?_ trivial
      exact faithful_of_handle documented (semDestroy_concludes _ p sem) (fun _ => rfl)
        (fun _ _ => by simp) (fun _ _ => rfl) (fun _ _ => rfl) fun _ _ => rfl
  | semWait sem =>
      refine iff_of_true ?_ trivial
      exact faithful_of_handle documented (semWait_concludes _ p sem) (fun _ => rfl)
        (fun _ _ => by simp) (fun _ _ => rfl) (fun _ _ => rfl) fun _ _ => rfl
  | semTrywait sem =>
      refine iff_of_true ?_ trivial
      exact faithful_of_handle documented (semTrywait_concludes _ p sem) (fun _ => rfl)
        (fun _ _ => by simp) (fun _ _ => rfl) (fun _ _ => rfl) fun _ _ => rfl

/-- A process closes a semaphore that it has open. -/
theorem faithful_iff_answerable_of_close :
    (Call.semClose 0).Faithful syscallResult syscallErrno
      (after [call 5 (semInitRequest default 0 0 1)]).fs 5 :=
  (faithful_iff_answerable documented_syscall _ 5 (Call.semClose 0)).mpr trivial

/-- A process posts on a semaphore that it has open. If `return_val` holds 1 before the
request, its call returns 1. -/
theorem not_faithful_of_post :
    ¬(Call.semPost 0).Faithful syscallResult syscallErrno
      (after [call 5 (semInitRequest default 0 0 1)]).fs 5 := by
  intro faithful
  obtain ⟨result, -⟩ := faithful.performed default { (default : Garbage) with returnVal := 1 } 0
    (Or.inl (by decide +kernel)) (by decide +kernel)
  revert result
  decide +kernel

end

end MinixSemaphore.Client
