import MinixSemaphore.Linux.Rights

/-!
# The buffer between producers and consumers

However many producers and consumers run, start and end, in whatever order: no element is
consumed before it has been created, and every semaphore `sem_prod` that was made allows
for 15 elements in excess, and every consumer that has come to its end for one more.
-/

namespace MinixSemaphore.Linux

open MinixSemaphore.Lists
open MinixSemaphore.Names
open MinixSemaphore.Semaphore
open MinixSemaphore.Server
open MinixSemaphore.Store
open MinixSemaphore.Transition

variable {log done : List Act} {T T' : SlotTable} {c : ConIx} {x : BitVec 32 × Nat} {a : Act}
  {value : Nat} {i : SlotIx}

/-! ## Counts -/

namespace ProdCons

variable {P : Type} {s : ProdCons P} {taken given : Nat → Nat} {p q : Proceso}

/-- The sum over all processes. -/
def total (procesos : ConIx → Option Proceso) (f : Proceso → Nat) : Nat :=
  ∑ c, (procesos c).elim 0 f

theorem total_update (procesos : ConIx → Option Proceso) (f : Proceso → Nat) (c : ConIx)
    (q : Option Proceso) : total (Function.update procesos c q) f + (procesos c).elim 0 f =
      total procesos f + q.elim 0 f := by
  have moved := Ledger.sum_add_of_ne (x := c) (f := fun c => (procesos c).elim 0 f)
    (g := fun c' => (Function.update procesos c q c').elim 0 f) fun c' other => by
      rw [Function.update_of_ne other]
  rw [Function.update_self] at moved
  exact moved

/-- A process goes on, and its weight becomes another one. -/
theorem total_moved (here : s.procesos c = some p) (f : Proceso → Nat) :
    total (Function.update s.procesos c (some q)) f + f p = total s.procesos f + f q := by
  have moved := total_update s.procesos f c (some q)
  rwa [here] at moved

/-- How the elements and places go with the tokens: a place is taken before an element is
created, and given back after one has been consumed or at the end; an element is announced
after it has been created, and its announcement is taken before it is consumed. -/
structure Counts (s : ProdCons P) (taken given : Nat → Nat) : Prop where
  places : s.creados + total s.procesos Proceso.room ≤ taken 15
  freed : given 15 + total s.procesos Proceso.owes ≤ s.consumidos + s.terminados
  elements : s.consumidos ≤ taken 0
  announced : given 0 + total s.procesos Proceso.brings ≤ s.creados

theorem boot_counts : boot.Counts (fun _ => 0) fun _ => 0 := by
  have nothing : ∀ f, total boot.procesos f = 0 := fun f => Finset.sum_eq_zero fun _ _ => rfl
  constructor <;> simp [boot] <;> exact nothing _

/-- A process whose call has returned has taken and given the tokens of the call. -/
theorem Counts.returned (counts : s.Counts taken given) {taken' given' : Nat → Nat} {c : ConIx}
    {rta : BitVec 32} (here : s.procesos c = some p) (returned : p.returned rta = some q)
    (takes : ∀ v, taken' v = taken v + p.takes v) (gives : ∀ v, given' v = given v + p.gives v)
    {sys : System P} :
    Counts ⟨sys, Function.update s.procesos c (some q), s.creados, s.consumidos + p.consumes,
      s.terminados⟩ taken' given' := by
  obtain ⟨places, freed, elements, announced⟩ := counts
  obtain ⟨room, room', owes, owes', consumes, brings, brings'⟩ := Proceso.weights_returned returned
  have rooms := total_moved (q := q) here Proceso.room
  have dues := total_moved (q := q) here Proceso.owes
  have news := total_moved (q := q) here Proceso.brings
  have takes15 := takes 15
  have takes0 := takes 0
  have gives15 := gives 15
  have gives0 := gives 0
  constructor <;> dsimp only <;> omega

theorem Counts.tested (counts : s.Counts taken given) {c : ConIx} {eof : Bool}
    (here : s.procesos c = some p) (tested : p.tested eof = some q) {sys : System P} :
    Counts ⟨sys, Function.update s.procesos c (some q), s.creados + p.creates eof, s.consumidos,
      s.terminados + p.ends eof⟩ taken given := by
  obtain ⟨places, freed, elements, announced⟩ := counts
  obtain ⟨-, -, room, creates, owes, owes', brings, brings'⟩ := Proceso.weights_tested tested
  have rooms := total_moved (q := q) here Proceso.room
  have dues := total_moved (q := q) here Proceso.owes
  have news := total_moved (q := q) here Proceso.brings
  constructor <;> dsimp only <;> omega

/-- Processes that begin or end have nothing to do with elements and places. -/
theorem Counts.replace (counts : s.Counts taken given) {c : ConIx} {p q : Option Proceso}
    (here : s.procesos c = p)
    (idle : ∀ r, p = some r ∨ q = some r → r.room = 0 ∧ r.owes = 0 ∧ r.brings = 0)
    {sys : System P} :
    Counts ⟨sys, Function.update s.procesos c q, s.creados, s.consumidos, s.terminados⟩
      taken given := by
  have moved := fun f => total_update s.procesos f c q
  rw [here] at moved
  have same : ∀ f : Proceso → Nat, (∀ r, p = some r ∨ q = some r → f r = 0) →
      total (Function.update s.procesos c q) f = total s.procesos f := by
    intro f zero
    have before : p.elim 0 f = 0 := by
      cases p with
      | none => rfl
      | some r => exact zero r (Or.inl rfl)
    have after : q.elim 0 f = 0 := by
      cases q with
      | none => rfl
      | some r => exact zero r (Or.inr rfl)
    have moved := moved f
    omega
  obtain ⟨places, freed, elements, announced⟩ := counts
  have rooms := same Proceso.room fun r mem => (idle r mem).1
  have dues := same Proceso.owes fun r mem => (idle r mem).2.1
  have news := same Proceso.brings fun r mem => (idle r mem).2.2
  constructor <;> dsimp only <;> omega

/-! ## Calls of the processes -/

/-- The processes have what they hold. -/
def Holding (procesos : ConIx → Option Proceso) (log : List Act) (T : SlotTable) : Prop :=
  ∀ c p, procesos c = some p → ∀ x ∈ p.holds, Entitled (Ledger.ofLog log) T c x

variable {procesos : ConIx → Option Proceso} {call : Call} {rta : BitVec 32}

/-- Nobody is deprived of anything but what the process itself closes. -/
theorem Holding.run (holding : Holding procesos log T)
    (run : Run Table.step Table.Enabled T done T')
    (closes : ∀ a ∈ done, ∀ r, a.deed = .closed r →
      r = c.proc ∧ p.closes = some ((Ledger.ofLog log).kind a.place))
    (lasts : ∀ a ∈ done, ∀ r, a.deed ≠ .destroyed r) {c' : ConIx} {p' : Proceso}
    (here : procesos c' = some p') (mem : x ∈ p'.holds) (stays : c' = c → p.closes ≠ some x.2) :
    Entitled (Ledger.ofLog (log ++ done)) T' c' x := by
  refine (holding c' p' here x mem).run run (fun a act closed kind => ?_) lasts
  obtain ⟨own, value⟩ := closes a act c'.proc closed
  rw [kind] at value
  exact stays (ConIx.proc_injective own) value

/-- A process whose call has returned has what it holds then. -/
theorem Holding.returned (returned : p.returned rta = some q) (here : procesos c = some p)
    (kept : ∀ c' p', procesos c' = some p' → ∀ x ∈ p'.holds, (c' = c → p.closes ≠ some x.2) →
      Entitled (Ledger.ofLog log) T c' x)
    (opens : ∀ value, p.opens = some value → rta ≠ -1 →
      Entitled (Ledger.ofLog log) T c (rta, value)) :
    Holding (Function.update procesos c (some q)) log T := by
  intro c' p' here' x mem
  by_cases same : c' = c
  · subst same
    rw [Function.update_self] at here'
    obtain rfl := Option.some.inj here'
    rcases Proceso.holds_returned returned mem with ⟨mem, stays⟩ | ⟨opened, success, rfl⟩
    · exact kept c' p here x mem fun _ => stays
    · exact opens x.2 opened success
  · rw [Function.update_of_ne same] at here'
    exact kept c' p' here' x mem fun same' => absurd same' same

/-- A process that begins, tests `c` or ends gets nothing that it has no right to. -/
theorem Holding.replace (holding : Holding procesos log T) {q : Option Proceso}
    (rights : ∀ r, q = some r → ∀ x ∈ r.holds, Entitled (Ledger.ofLog log) T c x) :
    Holding (Function.update procesos c q) log T := by
  intro c' r here
  by_cases same : c' = c
  · subst same
    rw [Function.update_self] at here
    exact rights r here
  · rw [Function.update_of_ne same] at here
    exact holding c' r here

/-- The processes have what they hold, and the elements and places go with the tokens. -/
structure Consistent (s : ProdCons P) (log : List Act) (T : SlotTable) : Prop where
  holding : Holding s.procesos log T
  counts : s.Counts (Ledger.ofLog log).taken (Ledger.ofLog log).given

theorem returned_eq_some {s s' : ProdCons P} {r : ConIx × Call × Call.Result}
    (next : s.returned r = some s') :
    ∃ p q, s.procesos r.1 = some p ∧ p.returned r.2.2.rta = some q ∧
      s' = ⟨s.sys, Function.update s.procesos r.1 (some q), s.creados, s.consumidos + p.consumes,
        s.terminados⟩ := by
  obtain ⟨p, here, rest⟩ := Option.bind_eq_some_iff.mp next
  obtain ⟨q, returned, same⟩ := Option.bind_eq_some_iff.mp rest
  exact ⟨p, q, here, returned, (Option.some.inj same).symm⟩

theorem foldlM_returned (s : ProdCons P) (r : ConIx × Call × Call.Result) :
    [r].foldlM returned s = s.returned r := by
  simp

/-- The call of a process returns, and has done nothing. -/
theorem Consistent.refused {s' : ProdCons P} (consistent : s.Consistent log T)
    (here : s.procesos c = some p) {result : Call.Result} (opens : p.opens = none ∨ result.rta = -1)
    (takes : ∀ v, p.takes v = 0) (gives : ∀ v, p.gives v = 0) {sys : System P}
    (next : ({ s with sys := sys } : ProdCons P).returned (c, call, result) = some s') :
    s'.Consistent log T := by
  obtain ⟨p', q, here', returned, rfl⟩ := returned_eq_some next
  obtain rfl : p = p' := Option.some.inj (here.symm.trans here')
  refine ⟨Holding.returned returned here (fun c' p' there x mem _ => ?_) ?_, ?_⟩
  · exact consistent.holding c' p' there x mem
  · intro value opened success
    rcases opens with nothing | failed
    · rw [nothing] at opened
      contradiction
    · exact absurd failed success
  · refine consistent.counts.returned here returned (fun v => ?_) fun v => ?_
    · rw [takes, Nat.add_zero]
    · rw [gives, Nat.add_zero]

/-- The call of a process returns, and nobody is woken. -/
theorem Consistent.answered {s' : ProdCons P} (consistent : s.Consistent log T)
    (here : s.procesos c = some p) (run : Run Table.step Table.Enabled T [a] T')
    (closes : ∀ r, a.deed = .closed r →
      r = c.proc ∧ p.closes = some ((Ledger.ofLog log).kind a.place))
    (lasts : ∀ r, a.deed ≠ .destroyed r) {result : Call.Result}
    (opens : ∀ value, p.opens = some value → result.rta ≠ -1 →
      Entitled (Ledger.ofLog (log ++ [a])) T' c (result.rta, value))
    (takes : ∀ v, p.takes v = if (Ledger.ofLog log).kind a.place = v then a.deed.takes else 0)
    (gives : ∀ v, p.gives v = if (Ledger.ofLog log).kind a.place = v then a.deed.gives else 0)
    {sys : System P} (next : ({ s with sys := sys } : ProdCons P).returned (c, call, result) =
      some s') : s'.Consistent (log ++ [a]) T' := by
  obtain ⟨p', q, here', returned, rfl⟩ := returned_eq_some next
  obtain rfl : p = p' := Option.some.inj (here.symm.trans here')
  refine ⟨Holding.returned returned here (fun c' p' there x mem stays => ?_) opens, ?_⟩
  · refine consistent.holding.run run (fun b act => ?_) (fun b act => ?_) there mem stays
    · rw [List.mem_singleton.mp act]
      exact closes
    · rw [List.mem_singleton.mp act]
      exact lasts
  · refine consistent.counts.returned here returned (fun v => ?_) fun v => ?_
    · rw [Ledger.ofLog_snoc, Ledger.taken_enter, takes]
    · rw [Ledger.ofLog_snoc, Ledger.given_enter, gives]

/-! ## Served calls -/

/-- The file system has served the same requests, and what a name denotes began with the
value of the name. -/
structure Backed (sys : System (Pools Int)) (w : World (Pools Int)) (T : SlotTable) : Prop
    extends System.Backed sys w T where
  labels : w.abs.Labels nominal

variable {sys sys' : System (Pools Int)} {w : World (Pools Int)} {g : Garbage}

/-- Nobody is refused what he has a right to. -/
theorem Backed.granted (backed : Backed sys w T) (entitled : Entitled (Ledger.ofLog w.log) T c x) :
    ∃ i, (sys.serv.work c g).granted x.1.toInt = some i ∧
      (Ledger.ofLog w.log).kind i = x.2 := by
  obtain ⟨i, slot, sem, here, member, kind⟩ := entitled
  exact ⟨i, backed.toPaired.granted backed.simulated backed.tracks here member slot, kind⟩

/-- What is found under a name began with the value of the name. -/
theorem Backed.kind_of_found (backed : Backed sys w T) {nombre : CString}
    (short : nombre.length < maxHashElem) (filled : nombre.chars ≠ [])
    (found : sys.serv.fs.semNameMap.hashTableFind nombre = some i) :
    (Ledger.ofLog w.log).kind i = nominal nombre.chars := by
  have map : sys.serv.fs.semNameMap = w.abs.fs.semNameMap :=
    congrArg SemTable.semNameMap backed.mirrors.table
  rw [map] at found
  exact backed.labels.find (short.trans (by decide)) filled found

/-- The call of a process is served, and the calls return that return with it. -/
structure Served (s s' : ProdCons (Pools Int)) (sys' : System (Pools Int)) (w : World (Pools Int))
    (T T' : SlotTable) (c : ConIx) (p : Proceso) (call : Call) (g : Garbage) : Prop where
  consistent : s.Consistent w.log T
  backed : Backed s.sys w T
  here : s.procesos c = some p
  returned : s.sys.Returned sys' c call g
  run : Run Table.step Table.Enabled T sys'.serv.fs.acts T'
  next : sys'.returns.foldlM ProdCons.returned { s with sys := sys' } = some s'

namespace Served

variable {s s' : ProdCons (Pools Int)} {handle : BitVec 32}

theorem granted (served : Served s s' sys' w T T' c p call g) (holds : (handle, value) ∈ p.holds) :
    ∃ i, (s.sys.serv.work c g).granted handle.toInt = some i ∧
      (Ledger.ofLog w.log).kind i = value :=
  served.backed.granted (served.consistent.holding c p served.here _ holds)

/-- The semaphore was there, or is new. -/
theorem opened {nombre : CString} {valor : BitVec 32}
    (served : Served s s' sys' w T T' c p (.semOpen nombre oCreat 0 valor) g)
    (short : nombre.length < maxHashElem) (filled : nombre.chars ≠ [])
    (same : nominal nombre.chars = valor.toNat) (opens : p.opens = some valor.toNat)
    (takes : ∀ v, p.takes v = 0) (gives : ∀ v, p.gives v = 0) :
    s'.Consistent (w.log ++ sys'.serv.fs.acts) T' := by
  obtain ⟨consistent, backed, here, returned, run, next⟩ := served
  rcases returned.semOpen (short.trans (by decide)) (by decide) with
    ⟨acts, result, failed, returns⟩ | ⟨i, acts, result, rta, returns⟩ <;>
    rw [returns, foldlM_returned] at next
  · rw [acts] at run ⊢
    obtain rfl : T' = T := run.eq_foldl
    rw [List.append_nil]
    exact consistent.refused here (Or.inr failed) takes gives next
  · obtain ⟨a, acts, place, deed⟩ : ∃ a : Act, sys'.serv.fs.acts = [a] ∧ a.place = i ∧
        (s.sys.serv.fs.semNameMap.hashTableFind nombre = some i ∧ a.deed = .opened c.proc ∨
          ∃ entry, a.deed = .created c.proc valor.toNat (some entry)) := by
      rcases acts with ⟨found, acts⟩ | ⟨entry, acts⟩
      · exact ⟨_, acts, rfl, Or.inl ⟨found, rfl⟩⟩
      · exact ⟨_, acts, rfl, Or.inr ⟨entry, rfl⟩⟩
    rw [acts] at run ⊢
    have uses : (Ledger.ofLog (w.log ++ [a])).Uses T' c.proc i valor.toNat := by
      obtain ⟨enabled, rfl⟩ := Run.singleton run
      rw [Ledger.ofLog_snoc, ← place]
      rcases deed with ⟨found, deed⟩ | ⟨entry, deed⟩
      · rw [← place] at found
        exact Ledger.uses_of_opened enabled deed
          ((backed.kind_of_found short filled found).trans same)
      · exact Ledger.uses_of_created deed
    obtain ⟨noTakes, noGives, noCloses, lasts⟩ : a.deed.takes = 0 ∧ a.deed.gives = 0 ∧
        (∀ r, a.deed ≠ .closed r) ∧ ∀ r, a.deed ≠ .destroyed r := by
      rcases deed with ⟨-, deed⟩ | ⟨entry, deed⟩ <;> rw [deed] <;> exact ⟨rfl, rfl, nofun, nofun⟩
    refine consistent.answered here run (fun r closes => absurd closes (noCloses r)) lasts ?_
      (fun v => ?_) (fun v => ?_) next
    · intro v opens' _
      obtain rfl := Option.some.inj (opens.symm.trans opens')
      exact ⟨i, rta ▸ slotAt_ofInt i, uses⟩
    · rw [takes, noTakes, ite_self]
    · rw [gives, noGives, ite_self]

/-- The process passes the semaphore, or is queued and does not return. -/
theorem waited (served : Served s s' sys' w T T' c p (.semWait handle) g)
    (holds : (handle, value) ∈ p.holds) (opens : p.opens = none)
    (takes : ∀ v, p.takes v = if value = v then 1 else 0) (gives : ∀ v, p.gives v = 0) :
    s'.Consistent (w.log ++ sys'.serv.fs.acts) T' := by
  obtain ⟨i, granted, kind⟩ := served.granted holds
  obtain ⟨consistent, -, here, returned, run, next⟩ := served
  rcases returned.semWait granted with ⟨acts, returns⟩ | ⟨acts, result, returns⟩ <;>
    rw [returns] at next <;> rw [acts] at run ⊢
  · obtain rfl := Option.some.inj next
    refine ⟨fun c' p' here' x mem => ?_, ?_⟩
    · exact (consistent.holding c' p' here' x mem).run run (by simp) (by simp)
    · have taken : (Ledger.ofLog (w.log ++ [⟨i, .queued c.proc⟩])).taken =
          (Ledger.ofLog w.log).taken := by
        funext v
        rw [Ledger.ofLog_snoc, Ledger.taken_enter]
        exact congrArg _ (ite_self 0)
      have given : (Ledger.ofLog (w.log ++ [⟨i, .queued c.proc⟩])).given =
          (Ledger.ofLog w.log).given := by
        funext v
        rw [Ledger.ofLog_snoc, Ledger.given_enter]
        exact congrArg _ (ite_self 0)
      obtain ⟨places, freed, elements, announced⟩ := consistent.counts
      rw [taken, given]
      exact ⟨places, freed, elements, announced⟩
  · rw [foldlM_returned] at next
    refine consistent.answered here run nofun nofun (by simp [opens]) (fun v => ?_)
      (fun v => ?_) next
    · rw [takes, kind]
      rfl
    · rw [gives]
      exact (ite_self 0).symm

/-- The process that is woken returns, and then the one that posts. -/
theorem posted (served : Served s s' sys' w T T' c p (.semPost handle) g)
    (unread : s.sys.mensajes c ≠ none)
    (waiting : ∀ c' call', (s.sys.clientes c').call = some call' →
      ∃ p', s.procesos c' = some p' ∧ p'.call = some call')
    (holds : (handle, value) ∈ p.holds) (opens : p.opens = none)
    (takes : ∀ v, p.takes v = 0) (gives : ∀ v, p.gives v = if value = v then 1 else 0) :
    s'.Consistent (w.log ++ sys'.serv.fs.acts) T' := by
  obtain ⟨i, granted, kind⟩ := served.granted holds
  obtain ⟨consistent, backed, here, returned, run, next⟩ := served
  rcases returned.semPost granted with ⟨acts, result, returns⟩ | ⟨x, acts, woken, result, returns⟩
    <;> rw [returns] at next <;> rw [acts] at run ⊢
  · rw [foldlM_returned] at next
    refine consistent.answered here run nofun nofun (by simp [opens]) (fun v => ?_)
      (fun v => ?_) next
    · rw [takes]
      exact (ite_self 0).symm
    · rw [gives, kind]
      rfl
  · obtain ⟨handle₀, handle₁, i₀, posts, calls, slot, slot₁, waits, head, -⟩ := woken
    obtain rfl := Call.semPost.inj posts
    obtain rfl : i₀ = i := Option.some.inj (slot.symm.trans (Fs.slotAt_of_granted granted))
    rw [List.foldlM_cons] at next
    obtain ⟨s₁, first, next⟩ := Option.bind_eq_some_iff.mp next
    rw [foldlM_returned] at next
    obtain ⟨p₁, q₁, here₁, returned₁, rfl⟩ := returned_eq_some first
    obtain ⟨p', q, here', returned', rfl⟩ := returned_eq_some next
    obtain ⟨c₁, same, -, read⟩ := backed.blocked (List.mem_of_head? head)
    obtain rfl := ConIx.proc_injective same
    have other : c ≠ x.1 := fun same => unread (same ▸ read)
    obtain rfl : p = p' := Option.some.inj <|
      here.symm.trans ((Function.update_of_ne other _ _).symm.trans here')
    obtain ⟨p₁', here₁', calls₁⟩ := waiting x.1 x.2.1 waits
    obtain rfl : p₁ = p₁' := Option.some.inj (here₁.symm.trans here₁')
    rw [calls] at calls₁
    obtain ⟨value₁, holds₁, opens₁, takes₁, gives₁⟩ := Proceso.asks_semWait calls₁
    have kind₁ : (Ledger.ofLog w.log).kind i₀ = value₁ :=
      (consistent.holding x.1 p₁ here₁ _ holds₁).kind slot₁
    -- nobody closes anything, and the tokens are given and taken in one action
    have holding : Holding s.procesos (w.log ++ [⟨i₀, .posted c.proc (some x.1.proc)⟩]) T' :=
      fun c' p' there x mem => (consistent.holding c' p' there x mem).run run (by simp) (by simp)
    have holding₁ := Holding.returned returned₁ here₁
      (fun c' p' there x mem _ => holding c' p' there x mem) (by simp [opens₁])
    refine ⟨Holding.returned returned' here'
      (fun c' p' there x mem _ => holding₁ c' p' there x mem) (by simp [opens]), ?_⟩
    have given : ∀ v, (Ledger.ofLog w.log).given v = (Ledger.ofLog w.log).given v + p₁.gives v :=
      fun v => by rw [gives₁, Nat.add_zero]
    have counts₁ : Counts ⟨sys', Function.update s.procesos x.1 (some q₁), s.creados,
        s.consumidos + p₁.consumes, s.terminados⟩
        (fun v => (Ledger.ofLog w.log).taken v + p₁.takes v) (Ledger.ofLog w.log).given :=
      consistent.counts.returned here₁ returned₁ (fun v => rfl) given
    refine counts₁.returned here' returned' (fun v => ?_) fun v => ?_
    · rw [Ledger.ofLog_snoc, Ledger.taken_enter, takes, takes₁, kind₁]
      rfl
    · rw [Ledger.ofLog_snoc, Ledger.given_enter, gives, kind]
      rfl

theorem unlinked {name : CString} (served : Served s s' sys' w T T' c p (.semUnlink name) g)
    (short : name.length < maxHashElem) (opens : p.opens = none)
    (takes : ∀ v, p.takes v = 0) (gives : ∀ v, p.gives v = 0) :
    s'.Consistent (w.log ++ sys'.serv.fs.acts) T' := by
  obtain ⟨consistent, -, here, returned, run, next⟩ := served
  obtain ⟨acts, result, returns⟩ := returned.semUnlink (short.trans (by decide))
  rw [returns, foldlM_returned] at next
  rcases acts with acts | ⟨i, acts⟩ <;> rw [acts] at run ⊢
  · obtain rfl : T' = T := run.eq_foldl
    rw [List.append_nil]
    exact consistent.refused here (Or.inl opens) takes gives next
  · refine consistent.answered here run nofun nofun (by simp [opens]) (fun v => ?_)
      (fun v => ?_) next
    · rw [takes]
      exact (ite_self 0).symm
    · rw [gives]
      exact (ite_self 0).symm

theorem closed (served : Served s s' sys' w T T' c p (.semClose handle) g)
    (holds : (handle, value) ∈ p.holds) (opens : p.opens = none) (closes : p.closes = some value)
    (takes : ∀ v, p.takes v = 0) (gives : ∀ v, p.gives v = 0) :
    s'.Consistent (w.log ++ sys'.serv.fs.acts) T' := by
  obtain ⟨i, granted, kind⟩ := served.granted holds
  obtain ⟨consistent, -, here, returned, run, next⟩ := served
  obtain ⟨acts, result, returns⟩ := returned.semClose granted
  rw [returns, foldlM_returned] at next
  rw [acts] at run ⊢
  refine consistent.answered here run (fun r closed => ?_) nofun (by simp [opens]) (fun v => ?_)
    (fun v => ?_) next
  · obtain rfl := Deed.closed.inj closed
    exact ⟨rfl, closes.trans (congrArg some kind.symm)⟩
  · rw [takes]
    exact (ite_self 0).symm
  · rw [gives]
    exact (ite_self 0).symm

end Served

/-! ## Courses of the processes -/

/-- The processes are connected, and wait for what they have called. The message of one that
does not wait has been read. -/
structure Sound (s : ProdCons (Pools Int)) (w : World (Pools Int)) (T : SlotTable) : Prop where
  backed : Backed s.sys w T
  consistent : s.Consistent w.log T
  connected : ∀ c p, s.procesos c = some p → s.sys.serv.statusArray c = true
  read : ∀ c p, s.procesos c = some p → (s.sys.clientes c).call = none → s.sys.mensajes c = none
  waiting : ∀ c call, (s.sys.clientes c).call = some call →
    ∃ p, s.procesos c = some p ∧ p.call = some call

theorem boot_sound : boot.Sound World.boot fun _ => none where
  backed := by
    refine ⟨System.boot_backed, ?_⟩
    rw [World.boot_abs]
    exact HashTable.newHashTable_labelled _
  consistent := ⟨nofun, boot_counts⟩
  connected := nofun
  read := nofun
  waiting := nofun

variable {s s' : ProdCons (Pools Int)}

/-- A process that calls nothing does not wait. -/
theorem Sound.silent (sound : s.Sound w T) (here : s.procesos c = some p)
    (silent : p.call = none) : (s.sys.clientes c).call = none := by
  cases waits : (s.sys.clientes c).call with
  | none => rfl
  | some call =>
      obtain ⟨p', here', calls⟩ := sound.waiting c call waits
      obtain rfl := Option.some.inj (here.symm.trans here')
      rw [silent] at calls
      contradiction

theorem Sound.idle (sound : s.Sound w T) (here : s.procesos c = some p)
    (calls : (s.sys.clientes c).call = none) : s.sys.Idle c :=
  ⟨sound.connected c p here, calls, sound.read c p here calls⟩

/-- A process begins at a connection that is free. -/
theorem Sound.start (sound : s.Sound w T) {rol : Rol} (next : s.step (.start rol) = some s') :
    s'.Sound w T := by
  obtain ⟨c, first, rest⟩ := Option.bind_eq_some_iff.mp next
  obtain ⟨sys, connects, same⟩ := Option.bind_eq_some_iff.mp rest
  obtain rfl := Option.some.inj same
  obtain ⟨c', connected⟩ := System.connect_cases connects
  obtain rfl : c = c' := Option.some.inj (first.symm.trans connected.first)
  have backed := connected.backed sound.backed.toBacked
  have vacant : s.procesos c = none := by
    by_contra taken
    obtain ⟨p, here⟩ := Option.ne_none_iff_exists'.mp taken
    exact nomatch connected.free.symm.trans (sound.connected c p here)
  have silent : s.sys.mensajes c = none := by
    by_contra unread
    obtain ⟨bytes, unread⟩ := Option.ne_none_iff_exists'.mp unread
    exact nomatch connected.free.symm.trans (sound.backed.mensaje c bytes unread).1
  refine ⟨⟨backed, sound.backed.labels⟩,
    ⟨sound.consistent.holding.replace ?_, sound.consistent.counts.replace vacant ?_⟩,
    fun c' p here => ?_, fun c' p here calls => ?_, fun c' call waits => ?_⟩
  · rintro r same
    obtain rfl := Option.some.inj same
    exact nofun
  · rintro r (none | same)
    · contradiction
    · obtain rfl := Option.some.inj same
      exact ⟨by simp [Proceso.room], by simp [Proceso.owes], by simp [Proceso.brings]⟩
  · have status : sys.serv.statusArray = _ := connected.status
    rw [status]
    by_cases same : c' = c
    · rw [same, Function.update_self]
    · rw [Function.update_of_ne same]
      exact sound.connected c' p ((Function.update_of_ne same _ _).symm.trans here)
  · have mensajes : sys.mensajes = _ := connected.mensajes
    have clientes : sys.clientes = _ := connected.clientes
    rw [mensajes]
    by_cases same : c' = c
    · rw [same]
      exact silent
    · rw [clientes, Function.update_of_ne same] at calls
      exact sound.read c' p ((Function.update_of_ne same _ _).symm.trans here) calls
  · have clientes : sys.clientes = _ := connected.clientes
    have other : c' ≠ c := by
      rintro rfl
      rw [clientes, Function.update_self] at waits
      contradiction
    rw [clientes, Function.update_of_ne other] at waits
    obtain ⟨p, here, calls⟩ := sound.waiting c' call waits
    exact ⟨p, (Function.update_of_ne other _ _).trans here, calls⟩

/-- A process that does not wait becomes another one, or ends. -/
theorem Sound.replace (sound : s.Sound w T) (here : s.procesos c = some p)
    (silent : (s.sys.clientes c).call = none) {q : Option Proceso} {sys : System (Pools Int)}
    {n m : Nat} (backed : Backed sys w T) (serv : sys.serv = s.sys.serv)
    (clientes : sys.clientes = s.sys.clientes)
    (mensajes : ∀ c', (c' = c → q ≠ none) → sys.mensajes c' = s.sys.mensajes c')
    (consistent : Consistent ⟨sys, Function.update s.procesos c q, n, s.consumidos, m⟩ w.log T) :
    Sound ⟨sys, Function.update s.procesos c q, n, s.consumidos, m⟩ w T := by
  -- whoever is there now was there before, as the same process or another one
  have before : ∀ c' r, Function.update s.procesos c q c' = some r →
      (c' = c → q ≠ none) ∧ ∃ p', s.procesos c' = some p' := by
    intro c' r here'
    by_cases same : c' = c
    · subst same
      rw [Function.update_self] at here'
      exact ⟨fun _ => here' ▸ Option.some_ne_none r, p, here⟩
    · rw [Function.update_of_ne same] at here'
      exact ⟨fun same' => absurd same' same, r, here'⟩
  refine ⟨backed, consistent, fun c' r here' => ?_, fun c' r here' calls => ?_,
    fun c' call waits => ?_⟩
  · obtain ⟨-, p', there⟩ := before c' r here'
    exact serv ▸ sound.connected c' p' there
  · obtain ⟨stays, p', there⟩ := before c' r here'
    exact (mensajes c' stays).trans (sound.read c' p' there (clientes ▸ calls))
  · have waits : (sys.clientes c').call = some call := waits
    rw [clientes] at waits
    have other : c' ≠ c := fun same => by
      rw [same, silent] at waits
      exact nomatch waits
    obtain ⟨r, here', calls⟩ := sound.waiting c' call waits
    exact ⟨r, (Function.update_of_ne other _ _).trans here', calls⟩

theorem Sound.test (sound : s.Sound w T) {eof : Bool} (next : s.step (.test c eof) = some s') :
    s'.Sound w T := by
  obtain ⟨p, here, rest⟩ := Option.bind_eq_some_iff.mp next
  obtain ⟨q, tested, same⟩ := Option.bind_eq_some_iff.mp rest
  obtain rfl := Option.some.inj same
  obtain ⟨silent, holds, -⟩ := Proceso.weights_tested tested
  refine sound.replace here (sound.silent here silent) sound.backed rfl rfl (fun _ _ => rfl)
    ⟨?_, ?_⟩
  · refine sound.consistent.holding.replace fun r same x mem => ?_
    obtain rfl := Option.some.inj same
    rw [holds] at mem
    exact sound.consistent.holding c p here x mem
  · exact sound.consistent.counts.tested here tested

/-- The names that a process passes are short. -/
theorem short_of_call (calls : p.call = some call) : call.pedido.Short := by
  cases Proceso.asks calls with
  | opens short => exact short.trans (by decide)
  | unlinks short => exact short.trans (by decide)
  | waits | posts | closes => trivial

/-- No process destroys a semaphore. -/
theorem keeps_of_call (calls : p.call = some call) :
    Funcion.ofInt call.pedido.message.funcion ≠ some .semDestroy := by
  cases Proceso.asks calls <;> nofun

/-- A process uses the handles that it holds. -/
theorem holds_of_call {handle : BitVec 32} (calls : p.call = some call)
    (asked : call.pedido.handle = some handle) : ∃ value, (handle, value) ∈ p.holds := by
  cases Proceso.asks calls with
  | opens | unlinks => contradiction
  | waits holds | posts holds | closes holds =>
      obtain rfl := Option.some.inj asked
      exact ⟨_, holds⟩

/-- A process opens the names with their values. -/
theorem agrees_of_call (calls : p.call = some call) :
    Agrees nominal (.semaph c.proc call.pedido.message g.toGarbage) := by
  cases Proceso.asks calls with
  | @opens nombre value short filled same =>
      intro _
      have name : Fs.requestName (Call.semOpen nombre oCreat 0 value).pedido.message = nombre :=
        requestName_of_length (short.trans (by decide))
      have passed : Fs.openValue (Call.semOpen nombre oCreat 0 value).pedido.message
          g.toGarbage = value := BitVec.ofInt_toInt
      rw [name, passed]
      exact ⟨short, fun _ => same.symm⟩
  | unlinks | waits | posts | closes => exact nofun

/-- A process makes its call. -/
theorem Sound.ask (sound : s.Sound w T) (next : s.step (.call c) = some s') : s'.Sound w T := by
  obtain ⟨p, here, rest⟩ := Option.bind_eq_some_iff.mp next
  obtain ⟨call, calls, rest⟩ := Option.bind_eq_some_iff.mp rest
  by_cases silent : (s.sys.clientes c).call = none
  · rw [if_pos silent] at rest
    obtain ⟨sys, asked, same⟩ := Option.bind_eq_some_iff.mp rest
    obtain rfl := Option.some.inj same
    obtain ⟨sys', asked', backed, serv, clientes, mensajes⟩ :=
      sound.backed.ask (sound.idle here silent) (short_of_call calls)
    obtain rfl := Option.some.inj (asked.symm.trans asked')
    obtain ⟨places, freed, elements, announced⟩ := sound.consistent.counts
    refine ⟨⟨backed, sound.backed.labels⟩,
      ⟨sound.consistent.holding, ⟨places, freed, elements, announced⟩⟩, fun c' r here' => ?_,
      fun c' r here' idle => ?_, fun c' call' waits => ?_⟩
    · exact serv ▸ sound.connected c' r here'
    · have idle : (sys.clientes c').call = none := idle
      rw [clientes] at idle
      by_cases other : c' = c
      · exact absurd ((if_pos other).symm.trans idle) (Option.some_ne_none call)
      · exact (mensajes c' other).trans
          (sound.read c' r here' ((if_neg other).symm.trans idle))
    · have waits : (sys.clientes c').call = some call' := waits
      rw [clientes] at waits
      by_cases same : c' = c
      · obtain rfl := Option.some.inj ((if_pos same).symm.trans waits)
        exact ⟨p, same ▸ here, calls⟩
      · exact sound.waiting c' call' ((if_neg same).symm.trans waits)
  · rw [if_neg silent] at rest
    contradiction

theorem Sound.exit (sound : s.Sound w T) (next : s.step (.exit c) = some s') : s'.Sound w T := by
  obtain ⟨p, here, rest⟩ := Option.bind_eq_some_iff.mp next
  by_cases ends : p.punto = .exit
  · rw [if_pos ends] at rest
    obtain ⟨sys, ended, same⟩ := Option.bind_eq_some_iff.mp rest
    obtain rfl := Option.some.inj same
    have silent := sound.silent here (by rw [Proceso.call, ends])
    obtain ⟨sys', ended', backed, serv, clientes, mensajes⟩ :=
      sound.backed.exit (sound.idle here silent)
    obtain rfl := Option.some.inj (ended.symm.trans ended')
    refine sound.replace here silent ⟨backed, sound.backed.labels⟩ serv clientes
      (fun c' stays => mensajes c' fun same => stays same rfl) ⟨?_, ?_⟩
    · exact sound.consistent.holding.replace nofun
    · refine sound.consistent.counts.replace here ?_
      rintro r (same | none)
      · obtain rfl := Option.some.inj same
        exact ⟨by simp [Proceso.room, ends], by simp [Proceso.owes, ends],
          by simp [Proceso.brings, ends]⟩
      · contradiction
  · rw [if_neg ends] at rest
    contradiction

theorem foldlM_returned_frame {rs : List (ConIx × Call × Call.Result)} {s s' : ProdCons P}
    (next : rs.foldlM returned s = some s') : s'.sys = s.sys ∧
      (∀ c p', s'.procesos c = some p' → ∃ p, s.procesos c = some p) ∧
      ∀ c ∉ rs.map Prod.fst, s'.procesos c = s.procesos c := by
  induction rs generalizing s with
  | nil =>
      obtain rfl := Option.some.inj next
      exact ⟨rfl, fun c p here => ⟨p, here⟩, fun _ _ => rfl⟩
  | cons r rs ih =>
      rw [List.foldlM_cons] at next
      obtain ⟨s₁, first, next⟩ := Option.bind_eq_some_iff.mp next
      obtain ⟨p, q, here, -, rfl⟩ := returned_eq_some first
      obtain ⟨sys, present, frame⟩ := ih next
      refine ⟨sys, fun c p' here' => ?_, fun c others => ?_⟩
      · obtain ⟨r', here'⟩ := present c p' here'
        by_cases same : c = r.1
        · exact ⟨p, same ▸ here⟩
        · exact ⟨r', (Function.update_of_ne same _ _).symm.trans here'⟩
      · rw [List.map_cons, List.mem_cons, not_or] at others
        exact (frame c others.2).trans (Function.update_of_ne others.1 _ _)

/-- The request of a process is fair, and opens names with their values. -/
theorem Sound.fair (sound : s.Sound w T) (here : s.procesos c = some p)
    (calls : p.call = some call)
    (roomy : (s.sys.world.setErrno (-(g.errno : Int))).Roomy
      (.semaph c.proc call.pedido.message g.toGarbage)) :
    s.sys.Fair c call g ∧ Agrees nominal (.semaph c.proc call.pedido.message g.toGarbage) := by
  have keeps := keeps_of_call calls
  refine ⟨⟨?_, roomy, fun i destroys => absurd destroys.1 keeps⟩, agrees_of_call calls⟩
  rintro ⟨i, slot, nothing⟩
  obtain ⟨handle, asked, slot⟩ := Option.bind_eq_some_iff.mp slot
  obtain ⟨value, holds⟩ := holds_of_call calls asked
  obtain ⟨j, granted, -⟩ := sound.backed.granted (sound.consistent.holding c p here _ holds)
  obtain rfl : j = i := Option.some.inj ((Fs.slotAt_of_granted granted).symm.trans slot)
  have belongs := (Option.filter_eq_some_iff.mp granted).2
  have list : ((s.sys.serv.work c g).semArray j).procList = none := nothing
  rw [list] at belongs
  contradiction

/-- The server learns that a process has ended, of which nothing is left but its message. -/
theorem Sound.close (sound : s.Sound w T) (turn : s.sys.turn = some c)
    (calls : (s.sys.clientes c).call = none) (next : s.step (.serve g) = some s') :
    s'.Sound w T := by
  obtain ⟨sys, served, next⟩ := Option.bind_eq_some_iff.mp next
  obtain ⟨sys', served', closed, backed⟩ :=
    sound.backed.close turn calls (System.serve_cases served).1 g
  obtain rfl := Option.some.inj (served.symm.trans served')
  rw [closed.returns] at next
  obtain rfl := Option.some.inj next
  have vacant : ∀ c' p, s.procesos c' = some p → c' ≠ c := by
    rintro c' p here rfl
    exact System.unread_of_turn turn (sound.read c' p here calls)
  obtain ⟨places, freed, elements, announced⟩ := sound.consistent.counts
  refine ⟨⟨backed, sound.backed.labels⟩,
    ⟨sound.consistent.holding, ⟨places, freed, elements, announced⟩⟩, fun c' p here => ?_,
    fun c' p here idle => ?_, fun c' call waits => ?_⟩
  · have status : sys.serv.statusArray = _ := closed.status
    rw [status, Function.update_of_ne (vacant c' p here)]
    exact sound.connected c' p here
  · have mensajes : sys.mensajes = _ := closed.mensajes
    rw [mensajes, Function.update_of_ne (vacant c' p here)]
    exact sound.read c' p here (closed.clientes ▸ idle)
  · exact sound.waiting c' call (closed.clientes ▸ waits)

/-- The call of a process is served. -/
theorem Sound.serve (sound : s.Sound w T) (turn : s.sys.turn = some c)
    (waits : (s.sys.clientes c).call = some call) (roomy : s.Roomy (.serve g))
    (next : s.step (.serve g) = some s') : ∃ w' T', s'.Sound w' T' := by
  obtain ⟨p, here, calls⟩ := sound.waiting c call waits
  obtain ⟨sys, served, next⟩ := Option.bind_eq_some_iff.mp next
  obtain ⟨fair, agrees⟩ := sound.fair here calls (roomy c turn call waits)
  obtain ⟨sys', served', returned, paired⟩ :=
    sound.backed.serve turn waits fair (System.serve_cases served).1
  obtain rfl := Option.some.inj (served.symm.trans served')
  have unread := System.unread_of_turn turn
  obtain ⟨T', steps, backed⟩ := sound.backed.served unread fair paired
  have acts := returned.acts sound.backed.toPaired (short_of_call calls)
  have made : Served s s' sys w T T' c p call g :=
    ⟨sound.consistent, sound.backed, here, returned, acts ▸ steps, next⟩
  have consistent : s'.Consistent (w.log ++ sys.serv.fs.acts) T' := by
    cases Proceso.asks calls with
    | opens short filled same opens takes gives =>
        exact made.opened short filled same opens takes gives
    | waits holds opens takes gives => exact made.waited holds opens takes gives
    | posts holds opens takes gives =>
        exact made.posted unread sound.waiting holds opens takes gives
    | unlinks short opens takes gives => exact made.unlinked short opens takes gives
    | closes holds opens closes takes gives => exact made.closed holds opens closes takes gives
  have simulated := sound.backed.simulated.setErrno (-(g.errno : Int))
  have tracks := sound.backed.tracks.setErrno (-(g.errno : Int))
  have labels : (w.setErrno (-(g.errno : Int))).abs.Labels nominal := sound.backed.labels
  have labels := labels.step tracks
    (World.lawful_abs simulated (sound.backed.orderly unread fair).1) agrees
  rw [← World.step_abs simulated] at labels
  obtain ⟨same, present, frame⟩ := foldlM_returned_frame next
  have same : s'.sys = sys := same
  refine ⟨_, T', ⟨same ▸ backed, labels⟩, ?_, ?_, ?_, ?_⟩
  · rw [← acts] at consistent
    exact consistent
  · intro c' p' here'
    obtain ⟨p₀, here₀⟩ := present c' p' here'
    rw [same, returned.status]
    exact sound.connected c' p₀ here₀
  · intro c' p' here' idle
    obtain ⟨p₀, here₀⟩ := present c' p' here'
    rw [same] at idle ⊢
    rw [returned.waits] at idle
    split at idle
    · rename_i returns
      exact sound.backed.read_of_returned returned returns
    · rw [returned.mensajes]
      by_cases own : c' = c
      · rw [own, Function.update_self]
      · rw [Function.update_of_ne own]
        exact sound.read c' p₀ here₀ idle
  · intro c' call' waits'
    rw [same, returned.waits] at waits'
    split at waits'
    · contradiction
    · rename_i others
      rw [frame c' others]
      exact sound.waiting c' call' waits'

/-- Whatever the processes do, in whatever order, no element is consumed before it has been
created. Every semaphore that began with 15 allows for 15 elements in excess, and every
consumer that has come to the end of its input for one more. -/
theorem elements_of_course {es : List Event} (course : Course ProdCons.step Roomy boot es s) :
    s.consumidos ≤ s.creados ∧ s.creados ≤
      s.consumidos + 15 * (Ledger.ofLog s.sys.serv.log).made 15 + s.terminados := by
  obtain ⟨w, T, sound⟩ : ∃ w T, s.Sound w T := by
    refine course.invariant (I := fun s => ∃ w T, s.Sound w T) ⟨_, _, boot_sound⟩ ?_
    rintro s e s' ⟨w, T, sound⟩ roomy next
    cases e with
    | start rol => exact ⟨w, T, sound.start next⟩
    | test c eof => exact ⟨w, T, sound.test next⟩
    | call c => exact ⟨w, T, sound.ask next⟩
    | exit c => exact ⟨w, T, sound.exit next⟩
    | serve g =>
        obtain ⟨sys, served, -⟩ := Option.bind_eq_some_iff.mp next
        obtain ⟨-, c, turn⟩ := System.serve_cases served
        cases calls : (s.sys.clientes c).call with
        | none => exact ⟨w, T, sound.close turn calls next⟩
        | some call => exact sound.serve turn calls roomy next
  obtain ⟨places, freed, elements, announced⟩ := sound.consistent.counts
  have taken15 := Ledger.taken_le sound.backed.tracks.run 15
  have taken0 := Ledger.taken_le sound.backed.tracks.run 0
  have log : s.sys.serv.log = w.log := sound.backed.mirrors.log
  rw [log]
  have log' : w.abs.log = w.log := rfl
  rw [log'] at taken15 taken0
  constructor <;> omega

/-- A consumer waits for the element that a producer creates. -/
theorem elements_of_course_of_post :
    let es : List Event := [.start .productor, .start .consumidor,
      .call 1, .serve default, .call 1, .serve default, .test 1 false, .test 1 false,
      .call 1, .call 0, .serve default, .serve default, .call 0, .serve default,
      .call 0, .serve default, .test 0 false, .call 0, .serve default]
    let s := (follow ProdCons.step Roomy boot es).getD boot
    s.consumidos = 1 ∧ s.consumidos ≤ s.creados ∧ s.creados ≤
      s.consumidos + 15 * (Ledger.ofLog s.sys.serv.log).made 15 + s.terminados := by
  intro es s
  have reached : (follow ProdCons.step Roomy boot es).isSome := by decide +kernel
  exact ⟨by decide +kernel, elements_of_course (Course.of_isSome reached boot)⟩

end ProdCons

end MinixSemaphore.Linux
