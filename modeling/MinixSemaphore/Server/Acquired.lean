import MinixSemaphore.Server.Unlink

/-!
# What a process has acquired

A round records who has created, opened, inherited and closed what. These records are not
words only: each of them stands for a request that returned the slot, a fork whose parent
was a member, or a close that succeeded, and each of these has its record.
-/

namespace MinixSemaphore.Server

open MinixSemaphore.Lists
open MinixSemaphore.Names
open MinixSemaphore.Semaphore
open MinixSemaphore.Store
open MinixSemaphore.Transition

universe u

namespace Fs

section

variable {P : Type u} [ListLib P Int] {σ : Fs P} {p : Int} {m : Message} {g : Garbage} {i : SlotIx}

/-! ## Requests -/

/-- A semaphore that `sem_open` returns has been opened under its name, or created with the
value of the call. -/
theorem semOpen_made {name : CString} {oflag : BitVec 32} {mod : Int} {val : BitVec 32}
    (result : (σ.semOpen name oflag mod val).2 = some i) :
    σ.semNameMap.hashTableFind name = some i ∧
        (σ.semOpen name oflag mod val).1.acts = σ.acts ++ [⟨i, .opened σ.who⟩] ∨
      σ.semNameMap.hashTableFind name = none ∧ ∃ entry, (σ.semOpen name oflag mod val).1.acts =
        σ.acts ++ [⟨i, .created σ.who val.toNat (some entry)⟩] := by
  rcases σ.semOpen_recorded name oflag mod val with ⟨failed, -⟩ | ⟨j, deed, result', recorded, done⟩
  · rw [failed] at result
    contradiction
  · obtain rfl : j = i := Option.some.inj (result'.symm.trans result)
    have acts := recorded.acts
    cases found : σ.semNameMap.hashTableFind name with
    | none =>
        right
        refine ⟨rfl, ?_⟩
        obtain ⟨value, entry, acts'⟩ := semOpen_acts found result
        rcases done with rfl | ⟨entry, rfl⟩
        · have same := List.append_cancel_left (acts.symm.trans acts')
          have created := congrArg Action.deed (List.singleton_inj.mp same)
          contradiction
        · exact ⟨entry, acts⟩
    | some k =>
        left
        rcases semOpen_acts_of_bound oflag mod val found with acts' | acts'
        · rw [acts'] at acts
          exact absurd (List.self_eq_append_right.mp acts) (List.cons_ne_nil _ _)
        · have same := List.append_cancel_left (acts.symm.trans acts')
          obtain rfl : j = k := congrArg Action.place (List.singleton_inj.mp same)
          exact ⟨rfl, acts'⟩

/-- What a request to open a semaphore has done. -/
theorem acts_of_opened (opens : Funcion.ofInt m.funcion = some .semOpen)
    (result : ((σ.getWork p).opened m g).2 = some i) :
    σ.semNameMap.hashTableFind (requestName m) = some i ∧
        (σ.step (.semaph p m g)).acts = [⟨i, .opened p⟩] ∨
      σ.semNameMap.hashTableFind (requestName m) = none ∧
        ∃ entry, (σ.step (.semaph p m g)).acts =
          [⟨i, .created p (openValue m g).toNat (some entry)⟩] := by
  rw [step_acts_semOpen g opens]
  exact semOpen_made result

/-- A request to open a semaphore that fails has done nothing. -/
theorem acts_of_not_opened (opens : Funcion.ofInt m.funcion = some .semOpen)
    (failed : ((σ.getWork p).opened m g).2 = none) : (σ.step (.semaph p m g)).acts = [] := by
  rw [step_acts_semOpen g opens]
  exact (semOpen_failed (σ := σ.getWork p) failed).acts

/-- The slot that `sem_open` returns is told to the caller. -/
theorem told_of_opened (opens : Funcion.ofInt m.funcion = some .semOpen)
    (result : ((σ.getWork p).opened m g).2 = some i) :
    ∃ r, (σ.step (.semaph p m g)).sent = [(p, r)] ∧ r.rta = (i : Nat) := by
  have handled : (σ.getWork p).dispatch m g = (((σ.getWork p).opened m g).1.answer
      (((σ.getWork p).opened m g).2.elim 0 fun i => (i : Nat)) 0 0 1, g.returnVal) := by
    rw [dispatch, opens]
    rfl
  have rta := (step_replied handled).rta
  rw [result] at rta
  refine ⟨_, ?_, rta⟩
  rcases acts_of_opened opens result with ⟨-, acts⟩ | ⟨-, entry, acts⟩ <;>
    exact step_sent_of_acts acts

/-- A request to make a semaphore without a name is refused, or tells the caller its slot. -/
theorem step_semInit (inits : Funcion.ofInt m.funcion = some .semInit) :
    (σ.step (.semaph p m g)).acts = [] ∧
        (∃ r, (σ.step (.semaph p m g)).sent = [(p, r)] ∧ r.rta = -1) ∨
      ∃ i value, (σ.step (.semaph p m g)).acts = [⟨i, .created p value none⟩] ∧
        ∃ r, (σ.step (.semaph p m g)).sent = [(p, r)] ∧ r.type = ok ∧ r.rta = 0 ∧
          r.param1 = (i : Nat) := by
  have handled : (σ.getWork p).dispatch m g =
      (((σ.getWork p).inited m).1.answer (if ((σ.getWork p).inited m).2 = none then -1 else 0)
        (((σ.getWork p).inited m).2.elim m.semaforo fun i => (i : Nat)) 0 2,
          if ((σ.getWork p).inited m).2 = none then -1 else 0) := by
    rw [dispatch, inits]
    rfl
  obtain ⟨-, -, acts, rta, param1, -, type⟩ := step_replied handled
  rcases semInit_recorded (σ.getWork p) m.pshared (BitVec.ofInt 32 m.valInicial) with
    ⟨result, recorded⟩ | ⟨i, result, recorded⟩
  · have result : ((σ.getWork p).inited m).2 = none := result
    have did := acts.trans recorded.acts
    rw [result] at rta
    exact Or.inl ⟨did, _, step_sent_of_acts did, rta⟩
  · have result : ((σ.getWork p).inited m).2 = some i := result
    have did := acts.trans recorded.acts
    rw [result] at rta param1 type
    exact Or.inr ⟨i, _, did, _, step_sent_of_acts did, type recorded.dontReply, rta, param1⟩

/-- A close is refused with `EINVAL`, or done with success. -/
theorem step_semClose {e : Event} (requests : e.Requests p .semClose i) :
    (σ.step e).acts = [] ∧ (∃ r, (σ.step e).sent = [(p, r)] ∧ r.rta = -1) ∨
      (σ.step e).acts = [⟨i, .closed p⟩] ∧
        ∃ r, (σ.step e).sent = [(p, r)] ∧ r.type = ok ∧ r.rta = 0 := by
  obtain ⟨m, g, rfl, funcion, slot⟩ := requests
  have handled : (σ.getWork p).dispatch m g =
      answerHandle ((σ.getWork p).semClose m.semaforo) m.semaforo := by
    rw [dispatch, funcion]
  obtain ⟨acts, rta, -, type⟩ := step_handle handled
  rcases semClose_recorded (σ.getWork p) m.semaforo with
    ⟨-, refused, result⟩ | ⟨j, granted, result, recorded⟩
  · have did := acts.trans refused.acts
    exact Or.inl ⟨did, _, step_sent_of_acts did, rta.trans result⟩
  · obtain rfl := Option.some.inj (slot.symm.trans (slotAt_of_granted granted))
    have did := acts.trans recorded.acts
    refine Or.inr ⟨did, _, step_sent_of_acts did, ?_, rta.trans result⟩
    rw [type recorded.dontReply, if_neg (by simp [result])]

end

/-! ## Forks, execs and exits -/

/-- Of the slots that a sweep has visited, those in use have been given the deed, and nothing
else has been done. -/
def Notes (uses : SlotIx → Prop) (deed : Deed Int (Option EntryIx)) (done : List SlotIx)
    (log log' : List Act) : Prop :=
  ∀ a, a ∈ log' ↔ a ∈ log ∨ a.place ∈ done ∧ a.deed = deed ∧ uses a.place

namespace Notes

variable {uses : SlotIx → Prop} {deed : Deed Int (Option EntryIx)} {done : List SlotIx}
  {log log' : List Act} {i : SlotIx}

theorem start (uses : SlotIx → Prop) (deed : Deed Int (Option EntryIx)) (log : List Act) :
    Notes uses deed [] log log :=
  fun _ => (or_iff_left fun noted => List.not_mem_nil noted.1).symm

theorem skip (notes : Notes uses deed done log log') (outsider : ¬uses i) :
    Notes uses deed (done ++ [i]) log log' := by
  intro a
  rw [notes, List.mem_append, List.mem_singleton]
  refine or_congr_right ⟨And.imp_left Or.inl, ?_⟩
  rintro ⟨mem | rfl, given, member⟩
  · exact ⟨mem, given, member⟩
  · exact absurd member outsider

theorem add (notes : Notes uses deed done log log') (member : uses i) :
    Notes uses deed (done ++ [i]) log (log' ++ [⟨i, deed⟩]) := by
  intro a
  rw [List.mem_append, List.mem_append, List.mem_singleton, List.mem_singleton, notes, or_assoc]
  refine or_congr_right ⟨?_, ?_⟩
  · rintro (⟨mem, rest⟩ | rfl)
    · exact ⟨Or.inl mem, rest⟩
    · exact ⟨Or.inr rfl, rfl, member⟩
  · rintro ⟨mem | same, given, member⟩
    · exact Or.inl ⟨mem, given, member⟩
    · exact Or.inr (by rw [← same, ← given])

theorem all (notes : Notes uses deed (List.finRange initialSem) log log') (a : Act) :
    a ∈ log' ↔ a ∈ log ∨ a.deed = deed ∧ uses a.place :=
  (notes a).trans (or_congr_right (and_iff_right (List.mem_finRange _)))

end Notes

section

variable {τ : SeqFs} {parent child p : Int} {i : SlotIx} {a : Act}

/-- A fork notes an inheritance exactly where the parent is a member. -/
theorem mem_acts_semOpenAll : a ∈ (τ.semOpenAll parent child).acts ↔
    a ∈ τ.acts ∨ a.deed = .inherited parent child ∧ parent ∈ τ.members a.place := by
  have swept := sweep_progress (openAllAt parent child) τ
    (I := fun done τ' => (∀ j, parent ∈ τ'.members j ↔ parent ∈ τ.members j) ∧
      Notes (fun j => parent ∈ τ.members j) (.inherited parent child) done τ.acts τ'.acts)
    ⟨fun _ => Iff.rfl, Notes.start _ _ _⟩ ?_
  · exact swept.2.all a
  · rintro done τ' i - ⟨parents, notes⟩
    refine ⟨fun j => (mem_openAllAt_iff τ' parent child i j).trans (parents j), ?_⟩
    have ends := openAllAt_ends τ' parent child i
    generalize openAllAt parent child τ' i = after at ends ⊢
    cases ends with
    | stranger stranger =>
        refine notes.skip fun member => ?_
        rw [belongs_iff.mpr ((parents i).mpr member)] at stranger
        contradiction
    | inherited belongs => exact notes.add ((parents i).mp (belongs_iff.mp belongs))

/-- Slots that have a list of processes do not share it. -/
theorem procList_eq_none_of_shared (owned : τ.Owned) {j : SlotIx} (other : j ≠ i)
    (same : (τ.semArray j).procList = (τ.semArray i).procList) :
    (τ.semArray i).procList = none := by
  rcases owned.procList_cases i with none | list
  · exact none
  · rw [list] at same
    rcases owned.procList_cases j with none | list'
    · rw [none] at same
      contradiction
    · rw [list', Option.some.injEq, procCell_inj, pairOf_inj] at same
      exact absurd same other

/-- An exec or an exit notes a close exactly where the process is a member. -/
theorem mem_acts_semCloseAll (paired : τ.Paired) (owned : τ.Owned) :
    a ∈ (τ.semCloseAll p).acts ↔
      a ∈ τ.acts ∨ a.deed = .closed p ∧ p ∈ τ.members a.place := by
  have swept := sweep_progress (fun τ (j : SlotIx) => (semClose τ (j : Nat)).1) (τ.setWho p)
    (I := fun done τ' => τ'.Paired ∧ Closes (τ.setWho p) τ' ∧
      (∀ i, i ∉ done → τ'.members i = τ.members i) ∧
      Notes (fun j => p ∈ τ.members j) (.closed p) done τ.acts τ'.acts)
    ⟨paired, ⟨fun _ => rfl, fun _ => rfl, rfl⟩, fun _ _ => rfl, Notes.start _ _ _⟩ ?_
  · exact swept.2.2.2.all a
  · rintro done τ' j fresh ⟨paired, closes, members, notes⟩
    have next := closes_semClose τ' (j : Nat)
    have who : τ'.who = p := closes.who
    refine ⟨paired_semClose paired (j : Nat), ?_, fun i mem => ?_, ?_⟩
    · constructor
      · exact fun k => (next.procList k).trans (closes.procList k)
      · exact fun k => (next.unlinked k).trans (closes.unlinked k)
      · exact next.who.trans closes.who
    · rw [List.mem_append, List.mem_singleton, not_or] at mem
      have lists := congrArg Prod.fst (lists_semClose paired (slotAt_coe j) i)
      rw [← members i mem.1]
      refine lists.trans ?_
      split
      · rename_i same
        rw [closes.procList, closes.procList] at same
        have none : (τ'.semArray i).procList = none :=
          (closes.procList i).trans (procList_eq_none_of_shared owned (Ne.symm mem.2) same)
        have nobody : τ'.members i = [] := by rw [SemTable.members, none]; rfl
        rw [visit_of_notMem (by rw [SemTable.lists, nobody]; exact List.not_mem_nil)]
        rfl
      · rfl
    · rcases semClose_recorded τ' (j : Nat) with ⟨refused, recorded, -⟩ | ⟨k, granted, -, recorded⟩
      · rw [recorded.acts, List.append_nil]
        refine notes.skip fun member => ?_
        rw [← members j fresh, ← who] at member
        rw [granted_iff.mpr ⟨slotAt_coe j, member⟩] at refused
        contradiction
      · obtain ⟨slot, member⟩ := granted_iff.mp granted
        obtain rfl := Option.some.inj ((slotAt_coe j).symm.trans slot)
        rw [who, members j fresh] at member
        rw [recorded.acts, who]
        exact notes.add member

end

/-! ## All events -/

/-- What the joins and leaves of a round say is what its requests have returned and what its
forks, execs and exits were about, and each is recorded once. -/
structure Acquired (σ : Fs (Pools Int)) (e : Event) : Prop where
  created : ∀ p (i : SlotIx),
    (∃ value entry, ⟨i, .created p value (some entry)⟩ ∈ (σ.step e).acts) ↔
      ∃ m g, e = .semaph p m g ∧ Funcion.ofInt m.funcion = some .semOpen ∧
        σ.semNameMap.hashTableFind (requestName m) = none ∧ ((σ.getWork p).opened m g).2 = some i
  opened : ∀ p (i : SlotIx), ⟨i, .opened p⟩ ∈ (σ.step e).acts ↔
    ∃ m g, e = .semaph p m g ∧ Funcion.ofInt m.funcion = some .semOpen ∧
      σ.semNameMap.hashTableFind (requestName m) = some i ∧ ((σ.getWork p).opened m g).2 = some i
  told : ∀ p m g (i : SlotIx), e = .semaph p m g → Funcion.ofInt m.funcion = some .semOpen →
    ((σ.getWork p).opened m g).2 = some i → ∃ r, (σ.step e).sent = [(p, r)] ∧ r.rta = (i : Nat)
  initialized : ∀ p (i : SlotIx), (∃ value, ⟨i, .created p value none⟩ ∈ (σ.step e).acts) ↔
    ∃ m g, e = .semaph p m g ∧ Funcion.ofInt m.funcion = some .semInit ∧
      ∃ r, (σ.step e).sent = [(p, r)] ∧ r.type = ok ∧ r.rta = 0 ∧ r.param1 = (i : Nat)
  inherited : ∀ parent child (i : SlotIx), ⟨i, .inherited parent child⟩ ∈ (σ.step e).acts ↔
    e = .fork parent child ∧ parent ∈ σ.procs i
  closed : ∀ p (i : SlotIx), ⟨i, .closed p⟩ ∈ (σ.step e).acts ↔
    e.Requests p .semClose i ∧ (∃ r, (σ.step e).sent = [(p, r)] ∧ r.type = ok ∧ r.rta = 0) ∨
      e.leaver = some p ∧ p ∈ σ.procs i
  once : (σ.step e).acts.Nodup

section

variable {σ : Fs (Pools Int)} {p q : Int} {m : Message} {g : Garbage} {i : SlotIx} {a b : Act}

/-- A request does one thing at most, and this is what it asked for. -/
theorem asked_of_mem (mem : a ∈ (σ.step (.semaph p m g)).acts) :
    (σ.step (.semaph p m g)).acts = [a] ∧ Asked p m a := by
  rcases (step_recorded σ (.semaph p m g)).1 with nothing | ⟨b, did, asked⟩
  · rw [nothing] at mem
    contradiction
  · rw [did, List.mem_singleton] at mem
    exact mem ▸ ⟨did, asked⟩

theorem eq_of_mem_acts (did : (σ.step (.semaph p m g)).acts = [a])
    (mem : b ∈ (σ.step (.semaph p m g)).acts) : b = a := by
  rw [did] at mem
  exact List.mem_singleton.mp mem

theorem exists_opened_of_mem (opens : Funcion.ofInt m.funcion = some .semOpen)
    (mem : a ∈ (σ.step (.semaph p m g)).acts) :
    ∃ i, ((σ.getWork p).opened m g).2 = some i ∧
      (σ.semNameMap.hashTableFind (requestName m) = some i ∧ a = ⟨i, .opened p⟩ ∨
        σ.semNameMap.hashTableFind (requestName m) = none ∧
          ∃ value entry, a = ⟨i, .created p value (some entry)⟩) := by
  cases result : ((σ.getWork p).opened m g).2 with
  | none =>
      rw [acts_of_not_opened opens result] at mem
      contradiction
  | some i =>
      refine ⟨i, rfl, ?_⟩
      rcases acts_of_opened opens result with ⟨found, acts⟩ | ⟨unbound, entry, acts⟩
      · exact Or.inl ⟨found, eq_of_mem_acts acts mem⟩
      · exact Or.inr ⟨unbound, _, entry, eq_of_mem_acts acts mem⟩

theorem created_semaph_iff :
    (∃ value entry, ⟨i, .created q value (some entry)⟩ ∈ (σ.step (.semaph p m g)).acts) ↔
      q = p ∧ Funcion.ofInt m.funcion = some .semOpen ∧
        σ.semNameMap.hashTableFind (requestName m) = none ∧
          ((σ.getWork p).opened m g).2 = some i := by
  constructor
  · rintro ⟨value, entry, mem⟩
    obtain ⟨-, ⟨⟩⟩ := asked_of_mem mem
    rename_i opens
    obtain ⟨j, result, ⟨-, same⟩ | ⟨unbound, value', entry', same⟩⟩ :=
      exists_opened_of_mem opens mem
    · exact absurd (congrArg Action.deed same) nofun
    · obtain rfl : i = j := congrArg Action.place same
      exact ⟨rfl, opens, unbound, result⟩
  · rintro ⟨rfl, opens, unbound, result⟩
    rcases acts_of_opened opens result with ⟨found, -⟩ | ⟨-, entry, acts⟩
    · rw [found] at unbound
      contradiction
    · refine ⟨(openValue m g).toNat, entry, ?_⟩
      rw [acts]
      exact List.mem_singleton_self _

theorem opened_semaph_iff : ⟨i, .opened q⟩ ∈ (σ.step (.semaph p m g)).acts ↔
    q = p ∧ Funcion.ofInt m.funcion = some .semOpen ∧
      σ.semNameMap.hashTableFind (requestName m) = some i ∧
        ((σ.getWork p).opened m g).2 = some i := by
  constructor
  · intro mem
    obtain ⟨-, ⟨⟩⟩ := asked_of_mem mem
    rename_i opens
    obtain ⟨j, result, ⟨found, same⟩ | ⟨-, value, entry, same⟩⟩ := exists_opened_of_mem opens mem
    · obtain rfl : i = j := congrArg Action.place same
      exact ⟨rfl, opens, found, result⟩
    · exact absurd (congrArg Action.deed same) nofun
  · rintro ⟨rfl, opens, found, result⟩
    rcases acts_of_opened opens result with ⟨-, acts⟩ | ⟨unbound, -⟩
    · rw [acts]
      exact List.mem_singleton_self _
    · rw [found] at unbound
      contradiction

theorem initialized_semaph_iff :
    (∃ value, ⟨i, .created q value none⟩ ∈ (σ.step (.semaph p m g)).acts) ↔
      q = p ∧ Funcion.ofInt m.funcion = some .semInit ∧
        ∃ r, (σ.step (.semaph p m g)).sent = [(p, r)] ∧ r.type = ok ∧ r.rta = 0 ∧
          r.param1 = (i : Nat) := by
  constructor
  · rintro ⟨value, mem⟩
    obtain ⟨-, ⟨⟩⟩ := asked_of_mem mem
    rename_i inits
    rcases step_semInit (σ := σ) (p := p) (g := g) inits with ⟨acts, -⟩ | ⟨j, value', acts, told⟩
    · rw [acts] at mem
      contradiction
    · obtain rfl : i = j := congrArg Action.place (eq_of_mem_acts acts mem)
      exact ⟨rfl, inits, told⟩
  · rintro ⟨rfl, inits, r, said, -, rta, param1⟩
    rcases step_semInit (σ := σ) (p := q) (g := g) inits with
      ⟨-, r', said', failed⟩ | ⟨j, value, acts, r', said', -, -, param1'⟩
    · obtain rfl : r = r' := congrArg Prod.snd (List.singleton_inj.mp (said.symm.trans said'))
      rw [failed] at rta
      contradiction
    · obtain rfl : r = r' := congrArg Prod.snd (List.singleton_inj.mp (said.symm.trans said'))
      have same : (j : Nat) = i := by exact_mod_cast param1'.symm.trans param1
      obtain rfl := Fin.ext same
      refine ⟨value, ?_⟩
      rw [acts]
      exact List.mem_singleton_self _

theorem closed_semaph_iff : ⟨i, .closed q⟩ ∈ (σ.step (.semaph p m g)).acts ↔
    (Event.semaph p m g).Requests q .semClose i ∧
      ∃ r, (σ.step (.semaph p m g)).sent = [(q, r)] ∧ r.type = ok ∧ r.rta = 0 := by
  constructor
  · intro mem
    obtain ⟨-, ⟨⟩⟩ := asked_of_mem mem
    rename_i closes slot
    have requests : (Event.semaph p m g).Requests p .semClose i := ⟨m, g, rfl, closes, slot⟩
    rcases step_semClose (σ := σ) requests with ⟨acts, -⟩ | ⟨-, told⟩
    · rw [acts] at mem
      contradiction
    · exact ⟨requests, told⟩
  · rintro ⟨requests, r, said, -, rta⟩
    rcases step_semClose (σ := σ) requests with ⟨-, r', said', failed⟩ | ⟨acts, -⟩
    · obtain rfl : r = r' := congrArg Prod.snd (List.singleton_inj.mp (said.symm.trans said'))
      rw [failed] at rta
      contradiction
    · rw [acts]
      exact List.mem_singleton_self _

theorem acquired_semaph (σ : Fs (Pools Int)) (p : Int) (m : Message) (g : Garbage) :
    σ.Acquired (.semaph p m g) where
  created q i := by
    rw [created_semaph_iff]
    constructor
    · rintro ⟨rfl, opens, unbound, result⟩
      exact ⟨m, g, rfl, opens, unbound, result⟩
    · rintro ⟨m', g', same, opens, unbound, result⟩
      obtain ⟨rfl, rfl, rfl⟩ := Event.semaph.inj same
      exact ⟨rfl, opens, unbound, result⟩
  opened q i := by
    rw [opened_semaph_iff]
    constructor
    · rintro ⟨rfl, opens, found, result⟩
      exact ⟨m, g, rfl, opens, found, result⟩
    · rintro ⟨m', g', same, opens, found, result⟩
      obtain ⟨rfl, rfl, rfl⟩ := Event.semaph.inj same
      exact ⟨rfl, opens, found, result⟩
  told q m' g' i same opens result := by
    obtain ⟨rfl, rfl, rfl⟩ := Event.semaph.inj same
    exact told_of_opened opens result
  initialized q i := by
    rw [initialized_semaph_iff]
    constructor
    · rintro ⟨rfl, inits, told⟩
      exact ⟨m, g, rfl, inits, told⟩
    · rintro ⟨m', g', same, inits, told⟩
      obtain ⟨rfl, rfl, rfl⟩ := Event.semaph.inj same
      exact ⟨rfl, inits, told⟩
  inherited parent child i := by
    refine ⟨fun mem => ?_, nofun⟩
    obtain ⟨-, ⟨⟩⟩ := asked_of_mem mem
  closed q i := by
    rw [closed_semaph_iff]
    exact (or_iff_left nofun).symm
  once := List.Nodup.of_map _ (asks_nodup (step_recorded σ (.semaph p m g)).1)

/-- An event that is no request neither creates nor opens. -/
theorem acquired_of_other {e : Event} (other : ∀ q m g, e ≠ .semaph q m g)
    (uncreated : ∀ a ∈ (σ.step e).acts, ∀ q value entry, a.deed ≠ .created q value entry)
    (unopened : ∀ a ∈ (σ.step e).acts, ∀ q, a.deed ≠ .opened q)
    (inherited : ∀ parent child (i : SlotIx), ⟨i, .inherited parent child⟩ ∈ (σ.step e).acts ↔
      e = .fork parent child ∧ parent ∈ σ.procs i)
    (closed : ∀ q (i : SlotIx), ⟨i, .closed q⟩ ∈ (σ.step e).acts ↔
      e.leaver = some q ∧ q ∈ σ.procs i) : σ.Acquired e where
  created q i := by
    constructor
    · rintro ⟨value, entry, mem⟩
      exact absurd rfl (uncreated _ mem q value (some entry))
    · rintro ⟨m, g, same, -⟩
      exact absurd same (other q m g)
  opened q i := by
    constructor
    · intro mem
      exact absurd rfl (unopened _ mem q)
    · rintro ⟨m, g, same, -⟩
      exact absurd same (other q m g)
  told q m g i same := absurd same (other q m g)
  initialized q i := by
    constructor
    · rintro ⟨value, mem⟩
      exact absurd rfl (uncreated _ mem q value none)
    · rintro ⟨m, g, same, -⟩
      exact absurd same (other q m g)
  inherited := inherited
  closed q i := by
    rw [closed]
    refine (or_iff_right ?_).symm
    rintro ⟨⟨m, g, same, -⟩, -⟩
    exact other q m g same
  once := List.Nodup.of_map _ (asks_nodup (step_recorded σ e).1)

/-- The process closes the slots of which it is a member, and nothing else is done. -/
theorem acquired_of_leaver {e : Event} (leaver : e.leaver = some p)
    (did : ∀ a : Act, a ∈ (σ.step e).acts ↔ a.deed = .closed p ∧ p ∈ σ.procs a.place) :
    σ.Acquired e := by
  have deed : ∀ a ∈ (σ.step e).acts, a.deed = .closed p := fun a mem => ((did a).mp mem).1
  refine acquired_of_other ?_ (fun a mem q value entry same => ?_) (fun a mem q same => ?_)
    (fun parent child i => ?_) fun q i => ?_
  · rintro q m g rfl
    contradiction
  · rw [deed a mem] at same
    contradiction
  · rw [deed a mem] at same
    contradiction
  · constructor
    · intro mem
      have same := deed _ mem
      contradiction
    · rintro ⟨rfl, -⟩
      contradiction
  · rw [did, leaver, Option.some.injEq, Deed.closed.injEq, eq_comm]
    exact and_congr_right fun same => by rw [same]

/-- The child inherits the slots of which its parent is a member, and nothing else is done. -/
theorem acquired_of_fork {parent child : Int}
    (did : ∀ a : Act, a ∈ (σ.step (.fork parent child)).acts ↔
      a.deed = .inherited parent child ∧ parent ∈ σ.procs a.place) :
    σ.Acquired (.fork parent child) := by
  have deed : ∀ a ∈ (σ.step (.fork parent child)).acts, a.deed = .inherited parent child :=
    fun a mem => ((did a).mp mem).1
  refine acquired_of_other (fun q m g same => ?_) (fun a mem q value entry same => ?_)
    (fun a mem q same => ?_) (fun parent' child' i => ?_) fun q i => ?_
  · contradiction
  · rw [deed a mem] at same
    contradiction
  · rw [deed a mem] at same
    contradiction
  · rw [did]
    constructor
    · rintro ⟨same, member⟩
      obtain ⟨rfl, rfl⟩ := Deed.inherited.inj same
      exact ⟨rfl, member⟩
    · rintro ⟨same, member⟩
      obtain ⟨rfl, rfl⟩ := Event.fork.inj same
      exact ⟨rfl, member⟩
  · constructor
    · intro mem
      have same := deed _ mem
      contradiction
    · rintro ⟨leaver, -⟩
      contradiction

end

end Fs

namespace World

variable {w : World (Pools Int)} {es : List Event}

/-- In a lawful run, what is recorded of joins and leaves has taken place. -/
theorem acquired_of_run (run : Run World.step Lawful boot es w) (e : Event) :
    w.fs.Acquired e := by
  obtain ⟨simulated, T, tracks⟩ := exists_tracks_abs run
  have paired : (w.abs.fs.getWork mmProcNr).Paired := (sturdy_of_run run).paired
  have owned : (w.abs.fs.getWork mmProcNr).Owned := tracks.owned
  have acts : (w.fs.step e).acts = (w.abs.fs.step e).acts := by
    rw [step_fs_abs simulated]
    rfl
  have closes : ∀ p (a : Act), a ∈ ((w.abs.fs.getWork mmProcNr).semCloseAll p).acts ↔
      a.deed = .closed p ∧ p ∈ w.fs.procs a.place := by
    intro p a
    rw [Fs.mem_acts_semCloseAll paired owned, ← members_abs w]
    exact or_iff_right List.not_mem_nil
  cases e with
  | semaph p m g => exact Fs.acquired_semaph w.fs p m g
  | fork parent child =>
      refine Fs.acquired_of_fork fun a => ?_
      have noted : a ∈ ((w.abs.fs.getWork mmProcNr).semOpenAll parent child).acts ↔
          a.deed = .inherited parent child ∧ parent ∈ w.fs.procs a.place := by
        rw [Fs.mem_acts_semOpenAll, ← members_abs w]
        exact or_iff_right List.not_mem_nil
      rw [acts, ← noted, Fs.step]
      split <;> rfl
  | exec slot | exit slot =>
      refine Fs.acquired_of_leaver rfl fun a => ?_
      rw [acts, ← closes slot, Fs.step]
      split <;> rfl

end World

end MinixSemaphore.Server
