import MinixSemaphore.Server.Capacity

/-!
# The name map of the server

The server inserts a name when `sem_open` creates a semaphore, and removes it when
`sem_unlink` succeeds; no other event writes the name map. If no copied name runs over
the key of another entry, the map then answers like a finite map from names to slots.
-/

namespace MinixSemaphore.Server

open MinixSemaphore.Lists
open MinixSemaphore.Names
open MinixSemaphore.Store
open MinixSemaphore.Semaphore
open MinixSemaphore.Transition

universe u

namespace Fs

section

variable {P : Type u}

/-- The table and its own answers. -/
def names (σ : Fs P) : Names.Session SlotIx where
  table := σ.semNameMap
  book key := σ.semNameMap.hashTableFind key.1

/-- The name of a request, as a key of the name map. -/
def requestKey (m : Message) : Key :=
  ⟨requestName m, length_requestName m⟩

variable [ListLib P Int]

/-- What an event does to the name map. -/
def naming (σ : Fs P) : Event → Option (Op SlotIx)
  | .semaph who m g =>
      match Funcion.ofInt m.funcion with
      | some .semOpen =>
          if σ.semNameMap.hashTableFind (requestName m) = none then
            ((σ.getWork who).opened m g).2.map (Op.insert (requestKey m))
          else
            none
      | some .semUlink =>
          if ((σ.getWork who).semUnlink (requestName m)).2 = 0 then
            some (.remove (requestKey m))
          else
            none
      | _ => none
  | _ => none

variable {σ : Fs P}

/-! ## The map after an event -/

theorem semCreate_semNameMap (mode : Int) (value : BitVec 32) :
    (σ.semCreate mode value).1.semNameMap = σ.semNameMap := by
  have ends := σ.semCreate_ends mode value
  generalize σ.semCreate mode value = result at ends ⊢
  cases ends <;> rfl

/-- `sem_open` inserts a name if it creates a semaphore for it. -/
theorem semOpen_semNameMap {name : CString} (oflag : BitVec 32) (mod : Int) (val : BitVec 32)
    (unbound : σ.semNameMap.hashTableFind name = none) :
    (σ.semOpen name oflag mod val).1.semNameMap =
      (σ.semOpen name oflag mod val).2.elim σ.semNameMap fun i =>
        (σ.semNameMap.hashTableInsert name i).1 := by
  have kept := semCreate_semNameMap (σ := σ.setErrno 0) mod val
  have ends := σ.semOpen_ends name oflag mod val
  generalize σ.semOpen name oflag mod val = result at ends ⊢
  cases ends with
  | absent | tooLong | taken | uncovered => rfl
  | joined _ bound =>
      rw [unbound] at bound
      contradiction
  | notMade _ _ _ _ result =>
      rw [result] at kept
      exact kept
  | @made τ i _ _ _ _ result =>
      rw [result] at kept
      have kept : τ.semNameMap = σ.semNameMap := kept
      change (τ.semNameMap.hashTableInsert name i).1 = (σ.semNameMap.hashTableInsert name i).1
      rw [kept]

theorem semOpen_semNameMap_of_bound {name : CString} {i : SlotIx} (oflag : BitVec 32) (mod : Int)
    (val : BitVec 32) (bound : σ.semNameMap.hashTableFind name = some i) :
    (σ.semOpen name oflag mod val).1.semNameMap = σ.semNameMap := by
  have ends := σ.semOpen_ends name oflag mod val
  generalize σ.semOpen name oflag mod val = result at ends ⊢
  cases ends with
  | absent | tooLong | taken | uncovered | joined => rfl
  | notMade _ unbound | made _ unbound =>
      rw [bound] at unbound
      contradiction

/-- `sem_unlink` removes the name if it succeeds. -/
theorem semUnlink_semNameMap (name : CString) : (σ.semUnlink name).1.semNameMap =
    if (σ.semUnlink name).2 = 0 then (σ.semNameMap.hashTableRemove name).1
    else σ.semNameMap := by
  have ends := σ.semUnlink_ends name
  generalize σ.semUnlink name = result at ends ⊢
  cases ends <;> rfl

theorem semClose_semNameMap (handle : Int) :
    (σ.semClose handle).1.semNameMap = σ.semNameMap := by
  have ends := σ.semClose_ends handle
  generalize σ.semClose handle = result at ends ⊢
  cases ends <;> rfl

theorem semCloseAll_semNameMap (pslot : Int) :
    (σ.semCloseAll pslot).semNameMap = σ.semNameMap := by
  have closed : (sweep (fun σ (i : SlotIx) => (semClose σ (i : Nat)).1)
      (σ.setWho pslot)).semNameMap = σ.semNameMap := by
    apply sweep_invariant (I := fun τ : Fs P => τ.semNameMap = σ.semNameMap)
    · rfl
    · exact fun τ i same => (semClose_semNameMap (i : Nat)).trans same
  exact closed

theorem semOpenAll_semNameMap (pPslot cPslot : Int) :
    (σ.semOpenAll pPslot cPslot).semNameMap = σ.semNameMap := by
  apply sweep_invariant (I := fun τ : Fs P => τ.semNameMap = σ.semNameMap)
  · rfl
  · intro τ i same
    have ends := openAllAt_ends τ pPslot cPslot i
    generalize openAllAt pPslot cPslot τ i = after at ends ⊢
    cases ends <;> exact same

theorem dispatch_semNameMap (m : Message) (g : Garbage)
    (notOpen : Funcion.ofInt m.funcion ≠ some .semOpen)
    (notUnlink : Funcion.ofInt m.funcion ≠ some .semUlink) :
    (σ.dispatch m g).1.semNameMap = σ.semNameMap := by
  rw [dispatch]
  cases code : Funcion.ofInt m.funcion with
  | none => rfl
  | some funcion =>
      cases funcion with
      | semOpen => exact absurd code notOpen
      | semUlink => exact absurd code notUnlink
      | semClose => exact semClose_semNameMap m.semaforo
      | semInit =>
          change (σ.semInit m.pshared (BitVec.ofInt 32 m.valInicial)).1.semNameMap = _
          have kept := semCreate_semNameMap (σ := σ) 0 (BitVec.ofInt 32 m.valInicial)
          have ends := σ.semInit_ends m.pshared (BitVec.ofInt 32 m.valInicial)
          generalize σ.semInit m.pshared (BitVec.ofInt 32 m.valInicial) = result at ends ⊢
          cases ends with
          | notMade result | made result =>
              rw [result] at kept
              exact kept
      | semWait =>
          change (σ.semWait m.semaforo).1.semNameMap = _
          have ends := σ.semWait_ends m.semaforo
          generalize σ.semWait m.semaforo = result at ends ⊢
          cases ends <;> rfl
      | semPost =>
          change (σ.semPost m.semaforo g.proc).semNameMap = _
          have ends := σ.semPost_ends m.semaforo g.proc
          generalize σ.semPost m.semaforo g.proc = after at ends ⊢
          cases ends with
          | refused | counted => rfl
          | woken _ _ took => exact took ▸ rfl
      | semGetval =>
          change (σ.semGetvalue m.semaforo).1.semNameMap = _
          have ends := σ.semGetvalue_ends m.semaforo
          generalize σ.semGetvalue m.semaforo = result at ends ⊢
          cases ends <;> rfl
      | semTrywait =>
          change (σ.semTrywait m.semaforo).1.semNameMap = _
          have ends := σ.semTrywait_ends m.semaforo
          generalize σ.semTrywait m.semaforo = result at ends ⊢
          cases ends <;> rfl
      | semDestroy =>
          change (σ.semDestroy m.semaforo).1.semNameMap = _
          have ends := σ.semDestroy_ends m.semaforo
          generalize σ.semDestroy m.semaforo = result at ends ⊢
          cases ends <;> rfl
      | semTimedwait => rfl

/-- An event does to the name map what it asks for. -/
theorem step_semNameMap (σ : Fs P) (e : Event) : (σ.step e).semNameMap =
    (σ.naming e).elim σ.semNameMap fun op => (σ.names.step op).table := by
  rw [(step_end σ e).1]
  cases e with
  | semaph p m g =>
      change ((σ.getWork p).dispatch m g).1.semNameMap = _
      rw [naming]
      by_cases opens : Funcion.ofInt m.funcion = some .semOpen
      · rw [dispatch, opens]
        change ((σ.getWork p).opened m g).1.semNameMap = _
        cases found : σ.semNameMap.hashTableFind (requestName m) with
        | none =>
            have map := semOpen_semNameMap (σ := σ.getWork p) (BitVec.ofInt 32 m.oflag)
              (if m.cantArg = 4 then m.permisos else g.mod) (openValue m g) found
            refine map.trans ?_
            change ((σ.getWork p).opened m g).2.elim _ _ = _
            cases ((σ.getWork p).opened m g).2 <;> rfl
        | some i =>
            exact semOpen_semNameMap_of_bound (σ := σ.getWork p) (BitVec.ofInt 32 m.oflag)
              (if m.cantArg = 4 then m.permisos else g.mod) (openValue m g) found
      by_cases unlinks : Funcion.ofInt m.funcion = some .semUlink
      · rw [dispatch, unlinks]
        refine (semUnlink_semNameMap (σ := σ.getWork p) (requestName m)).trans ?_
        split
        · rfl
        · rfl
      · rw [dispatch_semNameMap m g opens unlinks]
        cases code : Funcion.ofInt m.funcion with
        | none => rfl
        | some funcion =>
            cases funcion with
            | semOpen => exact absurd code opens
            | semUlink => exact absurd code unlinks
            | _ => rfl
  | fork parent child => exact semOpenAll_semNameMap parent child
  | exec slot | exit slot => exact semCloseAll_semNameMap slot

/-! ## What is recorded of names -/

/-- A semaphore that `sem_open` returns for a name that is not bound is a new one. -/
theorem semOpen_acts {name : CString} {oflag : BitVec 32} {mod : Int} {val : BitVec 32}
    {i : SlotIx} (unbound : σ.semNameMap.hashTableFind name = none)
    (result : (σ.semOpen name oflag mod val).2 = some i) :
    ∃ value entry, (σ.semOpen name oflag mod val).1.acts =
      σ.acts ++ [⟨i, .created σ.who value (some entry)⟩] := by
  have recorded := semCreate_recorded (σ.setErrno 0) mod val
  have ends := σ.semOpen_ends name oflag mod val
  generalize σ.semOpen name oflag mod val = opened at ends result ⊢
  cases ends with
  | absent | tooLong | taken | uncovered | notMade => contradiction
  | joined _ bound =>
      rw [unbound] at bound
      contradiction
  | @made τ j _ _ _ _ created =>
      obtain rfl := Option.some.inj result
      rw [created] at recorded
      have acts : τ.acts = σ.acts ++ [] := recorded.acts
      have who : τ.who = σ.who := recorded.who
      refine ⟨val.toNat, τ.entryFor name, ?_⟩
      change τ.acts ++ [⟨j, .created τ.who val.toNat (some (τ.entryFor name))⟩] = _
      rw [acts, who, List.append_nil]

/-- By a name that is bound nothing is created. -/
theorem semOpen_acts_of_bound {name : CString} {j : SlotIx} (oflag : BitVec 32) (mod : Int)
    (val : BitVec 32) (bound : σ.semNameMap.hashTableFind name = some j) :
    (σ.semOpen name oflag mod val).1.acts = σ.acts ∨
      (σ.semOpen name oflag mod val).1.acts = σ.acts ++ [⟨j, .opened σ.who⟩] := by
  have ends := σ.semOpen_ends name oflag mod val
  generalize σ.semOpen name oflag mod val = opened at ends ⊢
  cases ends with
  | absent | tooLong | taken | uncovered => exact Or.inl rfl
  | joined _ bound' =>
      obtain rfl := Option.some.inj (bound.symm.trans bound')
      exact Or.inr rfl
  | notMade _ unbound | made _ unbound =>
      rw [bound] at unbound
      contradiction

/-- What a successful `sem_unlink` has done. -/
theorem semUnlink_acts {name : CString} {i : SlotIx}
    (found : σ.semNameMap.hashTableFind name = some i)
    (succeeds : (σ.semUnlink name).2 = 0) :
    (σ.semUnlink name).1.acts = σ.acts ++ [⟨i, .unlinked σ.who⟩] := by
  have ends := σ.semUnlink_ends name
  generalize σ.semUnlink name = result at ends succeeds ⊢
  cases ends with
  | tooLong | absent | stranger | unused =>
      exact absurd succeeds (show (-1 : Int) ≠ 0 by decide)
  | unlinked _ found' =>
      obtain rfl := Option.some.inj (found.symm.trans found')
      rfl

/-- The requests that write the name map. -/
inductive Naming (σ : Fs P) : Event → Op SlotIx → Prop
  | insert {p : Int} {m : Message} {g : Garbage} {i : SlotIx} :
      Funcion.ofInt m.funcion = some .semOpen →
        σ.semNameMap.hashTableFind (requestName m) = none →
          ((σ.getWork p).opened m g).2 = some i →
            Naming σ (.semaph p m g) (.insert (requestKey m) i)
  | remove {p : Int} {m : Message} {g : Garbage} :
      Funcion.ofInt m.funcion = some .semUlink →
        ((σ.getWork p).semUnlink (requestName m)).2 = 0 →
          Naming σ (.semaph p m g) (.remove (requestKey m))

theorem naming_iff {e : Event} {op : Op SlotIx} : σ.naming e = some op ↔ Naming σ e op := by
  constructor
  · cases e with
    | semaph p m g =>
        rw [naming]
        split
        · rename_i opens
          split
          · rename_i unbound
            intro inserts
            obtain ⟨i, result, rfl⟩ := Option.map_eq_some_iff.mp inserts
            exact Naming.insert opens unbound result
          · intro nothing
            contradiction
        · rename_i unlinks
          split
          · rename_i succeeds
            rintro ⟨⟩
            exact Naming.remove unlinks succeeds
          · intro nothing
            contradiction
        · intro nothing
          contradiction
    | _ =>
        intro nothing
        contradiction
  · rintro (⟨opens, unbound, result⟩ | ⟨unlinks, succeeds⟩)
    · rw [naming, opens]
      simp only [unbound, result]
      rfl
    · rw [naming, unlinks]
      exact if_pos succeeds

theorem step_acts_semOpen {p : Int} {m : Message} (g : Garbage)
    (opens : Funcion.ofInt m.funcion = some .semOpen) :
    (σ.step (.semaph p m g)).acts = ((σ.getWork p).opened m g).1.acts := by
  have handled : (σ.getWork p).dispatch m g = (((σ.getWork p).opened m g).1.answer
      (((σ.getWork p).opened m g).2.elim 0 fun i => (i : Nat)) 0 0 1, g.returnVal) := by
    rw [dispatch, opens]
    rfl
  exact (step_replied handled).acts

/-- No name is inserted that is bound already. -/
theorem unbound_of_insert {e : Event} {key : Key} {i : SlotIx}
    (naming : σ.naming e = some (.insert key i)) : σ.names.book key = none := by
  rcases naming_iff.mp naming with ⟨-, unbound, -⟩
  exact unbound

/-- A name is removed from the semaphore that loses it. -/
theorem acts_of_remove {e : Event} {key : Key} (naming : σ.naming e = some (.remove key)) :
    ∃ i p, σ.names.book key = some i ∧ (σ.step e).acts = [⟨i, .unlinked p⟩] := by
  rcases naming_iff.mp naming with _ | @⟨p, m, g, unlinks, succeeds⟩
  cases found : σ.semNameMap.hashTableFind (requestName m) with
  | none =>
      have ends := (σ.getWork p).semUnlink_ends (requestName m)
      generalize (σ.getWork p).semUnlink (requestName m) = result at ends succeeds
      cases ends with
      | tooLong | absent | stranger | unused =>
          exact absurd succeeds (show (-1 : Int) ≠ 0 by decide)
      | unlinked _ bound =>
          have bound : σ.semNameMap.hashTableFind (requestName m) = _ := bound
          rw [found] at bound
          contradiction
  | some i =>
      refine ⟨i, p, found, ?_⟩
      have handled : (σ.getWork p).dispatch m g =
          (((σ.getWork p).semUnlink (requestName m)).1.answer
            ((σ.getWork p).semUnlink (requestName m)).2 0 0 1,
            ((σ.getWork p).semUnlink (requestName m)).2) := by
        rw [dispatch, unlinks]
      exact (step_replied handled).acts.trans (semUnlink_acts (σ := σ.getWork p) found succeeds)

/-- Whatever is created with an origin gets its name inserted. -/
theorem exists_insert_of_acts {e : Event} {i : SlotIx} {p : Int} {value : Nat}
    {entry : Option EntryIx} (mem : ⟨i, .created p value (some entry)⟩ ∈ (σ.step e).acts) :
    ∃ key, σ.naming e = some (.insert key i) := by
  have asks := (step_recorded σ e).1
  cases e with
  | fork parent child =>
      have deed : Deed.created p value (some entry) = .inherited parent child := asks.1 _ mem
      contradiction
  | exec slot | exit slot =>
      have deed : Deed.created p value (some entry) = .closed slot := asks.1 _ mem
      contradiction
  | semaph q m g =>
      rcases asks with nothing | ⟨a, did, asked⟩
      · rw [nothing] at mem
        contradiction
      rw [did, List.mem_singleton] at mem
      subst mem
      cases asked with
      | created opens =>
          rw [step_acts_semOpen g opens] at did
          cases found : σ.semNameMap.hashTableFind (requestName m) with
          | some j =>
              have recorded := semOpen_acts_of_bound (σ := σ.getWork p) (BitVec.ofInt 32 m.oflag)
                (if m.cantArg = 4 then m.permisos else g.mod) (openValue m g) found
              rcases recorded with acts | acts
              · rw [opened, acts] at did
                contradiction
              · rw [opened, acts] at did
                have deed : Deed.opened p = .created p value (some entry) :=
                  congrArg Action.deed (List.singleton_inj.mp did)
                contradiction
          | none =>
              cases result : ((σ.getWork p).opened m g).2 with
              | none =>
                  have acts := (semOpen_failed result).acts
                  rw [opened, acts] at did
                  contradiction
              | some j =>
                  obtain ⟨value', entry', acts⟩ := semOpen_acts (σ := σ.getWork p) found result
                  rw [opened, acts] at did
                  have same : j = i := by
                    have first := List.singleton_inj.mp did
                    exact congrArg Action.place first
                  rw [← same]
                  exact ⟨requestKey m, naming_iff.mpr (Naming.insert opens found result)⟩

/-! ## A finite map from names to slots -/

/-- What a finite map would answer after an event. -/
def rebound (σ : Fs P) (e : Event) : Key → Option SlotIx :=
  match σ.naming e with
  | none => σ.names.book
  | some (.insert key i) => Function.update σ.names.book key (some i)
  | some (.remove key) => Function.update σ.names.book key none

/-- The event changes what the name map answers as it would change a finite map. -/
def Rebinds (σ : Fs P) (e : Event) : Prop :=
  ∀ key, (σ.step e).names.book key = σ.rebound e key

/-- A name that is inserted runs over no other key. -/
def Copies (σ : Fs P) (e : Event) : Prop :=
  ∀ op, σ.naming e = some op → σ.names.Fits op

/-- If a name is inserted, there is an entry for it. -/
def Stocked (t : HashTable SlotIx) : Op SlotIx → Prop
  | .insert key _ => ∃ entry, t.Stores key.1 entry
  | .remove _ => True

/-- There is an entry for a name that the event inserts. -/
def Stocks (σ : Fs P) (e : Event) : Prop :=
  ∀ op, σ.naming e = some op → Stocked σ.semNameMap op

instance (t : HashTable SlotIx) : ∀ op, Decidable (Stocked t op)
  | .insert key _ => inferInstanceAs (Decidable (∃ entry, t.Stores key.1 entry))
  | .remove _ => inferInstanceAs (Decidable True)

instance (σ : Fs P) (e : Event) : Decidable (σ.Copies e) :=
  decidable_of_iff (∀ op ∈ σ.naming e, σ.names.Fits op) Iff.rfl

instance (σ : Fs P) (e : Event) : Decidable (σ.Stocks e) :=
  decidable_of_iff (∀ op ∈ σ.naming e, Stocked σ.semNameMap op) Iff.rfl

theorem names_step (σ : Fs P) (e : Event) (faithful : σ.names.Faithful) (copies : σ.Copies e) :
    (σ.step e).names = (σ.naming e).elim σ.names σ.names.step := by
  have table := step_semNameMap σ e
  cases naming : σ.naming e with
  | none =>
      rw [naming] at table
      have table : (σ.step e).semNameMap = σ.semNameMap := table
      rw [names, table]
      rfl
  | some op =>
      rw [naming] at table
      have table : (σ.step e).semNameMap = (σ.names.step op).table := table
      have found := (faithful.step (copies op naming)).find
      rw [names, table]
      change Names.Session.mk _ _ = σ.names.step op
      congr
      funext key
      exact found key

/-- Names that run over no other key keep the map faithful. -/
theorem faithful_names_step {e : Event} (faithful : σ.names.Faithful) (copies : σ.Copies e) :
    (σ.step e).names.Faithful := by
  rw [names_step σ e faithful copies]
  cases naming : σ.naming e with
  | none => exact faithful
  | some op => exact faithful.step (copies op naming)

/-- The map then answers like a finite map, as long as there is an entry for every name. -/
theorem rebinds_of_copies {e : Event} (faithful : σ.names.Faithful) (copies : σ.Copies e)
    (stocks : σ.Stocks e) : σ.Rebinds e := by
  intro key
  rw [names_step σ e faithful copies, rebound]
  cases naming : σ.naming e with
  | none => rfl
  | some op =>
      cases op with
      | remove removed => rfl
      | insert inserted i =>
          obtain ⟨entry, stores⟩ := stocks (.insert inserted i) naming
          have stepped := Names.Session.step_insert_of_stores (s := σ.names) (v := i) stores
          exact congrArg (fun s => s.book key) stepped

omit [ListLib P Int] in
theorem start_names_faithful (pools : P) : (Fs.start pools).names.Faithful := by
  have unbound : ∀ key, (Fs.start pools).names.book key = none := by
    intro key
    change HashTable.hashTableFind _ _ = none
    rw [HashTable.hashTableFind_eq_none_iff]
    exact fun i => rfl
  have start : (Fs.start pools).names = Names.Session.start HashTable.zeroed := by
    rw [Names.Session.start]
    change Names.Session.mk _ _ = Names.Session.mk _ _
    congr
    funext key
    exact unbound key
  rw [start]
  exact Names.Session.start_faithful _

end

/-! ## Both stores -/

variable {σ : Fs (Pools Int)} {τ : SeqFs}

theorem Sim.names (sim : Sim σ τ) : τ.names = σ.names := by
  rw [Fs.names, Fs.names, sim.semNameMap]

theorem Sim.naming (sim : Sim σ τ) (e : Event) : τ.naming e = σ.naming e := by
  cases e with
  | semaph p m g =>
      have opened : ((τ.getWork p).opened m g).2 = ((σ.getWork p).opened m g).2 :=
        ((sim.getWork p).semOpen _ _ _ _).2.symm
      have unlinked : ((τ.getWork p).semUnlink (requestName m)).2 =
          ((σ.getWork p).semUnlink (requestName m)).2 :=
        ((sim.getWork p).semUnlink _).2.symm
      rw [Fs.naming, Fs.naming, opened, unlinked, sim.semNameMap]
  | _ => rfl

theorem Sim.rebinds (sim : Sim σ τ) (e : Event) : τ.Rebinds e ↔ σ.Rebinds e := by
  rw [Rebinds, Rebinds, (sim.step e).names, rebound, rebound, sim.naming, sim.names]

end Fs

end MinixSemaphore.Server
