import MinixSemaphore.Server.References

/-!
# Names that meet

A name on its way to a semaphore is cut to the length of a buffer, compared, and copied
into a row of the name table. Here the names that the clients have given are written down
next to the slots they were given, whole, so that it can be said when two of them have
met in one semaphore.
-/

namespace MinixSemaphore.Server

open MinixSemaphore.Lists
open MinixSemaphore.Names
open MinixSemaphore.Store
open MinixSemaphore.Semaphore
open MinixSemaphore.Transition

universe u

namespace Fs

section

variable {P : Type u} [ListLib P Int] {σ : Fs P}

/-- The names that the semaphore in each slot has been asked for by since its creation,
after an event. -/
def askings (σ : Fs P) (asked : SlotIx → List CString) : Event → SlotIx → List CString
  | .semaph who m g =>
      match Funcion.ofInt m.funcion with
      | some .semOpen =>
          match ((σ.getWork who).opened m g).2 with
          | some i =>
              if σ.semNameMap.hashTableFind (requestName m) = none then
                Function.update asked i [m.nombre]
              else
                Function.update asked i (m.nombre :: asked i)
          | none => asked
      | some .semInit =>
          match ((σ.getWork who).inited m).2 with
          | some i => Function.update asked i []
          | none => asked
      | _ => asked
  | _ => asked

/-- The request is about a name. -/
def AsksName (m : Message) : Prop :=
  Funcion.ofInt m.funcion = some .semOpen ∨ Funcion.ofInt m.funcion = some .semUlink

/-- A name that does not fit into the buffer with its terminator is refused with
`ENAMETOOLONG`. -/
structure RefusesLong (σ : Fs P) (p : Int) (m : Message) (g : Garbage) : Prop where
  semOpen : Funcion.ofInt m.funcion = some .semOpen → maxName ≤ m.nombre.length →
    ((σ.getWork p).opened m g).2 = none ∧ ((σ.getWork p).opened m g).1.errno = enametoolong
  semUnlink : Funcion.ofInt m.funcion = some .semUlink → maxName ≤ m.nombre.length →
    ((σ.getWork p).semUnlink (requestName m)).2 = -1 ∧
      ((σ.getWork p).semUnlink (requestName m)).1.errno = enametoolong

/-- A request about a name carries one that fits into the buffer. -/
def Short : Event → Prop
  | .semaph _ m _ => AsksName m → m.nombre.length < maxName
  | _ => True

instance (m : Message) : Decidable (AsksName m) :=
  inferInstanceAs (Decidable (_ ∨ _))

instance : ∀ e, Decidable (Short e)
  | .semaph _ m _ => inferInstanceAs (Decidable (AsksName m → m.nombre.length < maxName))
  | .fork _ _ | .exec _ | .exit _ => inferInstanceAs (Decidable True)

/-! ## Slots that are given -/

theorem requestName_eq {m : Message} (short : m.nombre.length < maxName) :
    requestName m = m.nombre := by
  apply CString.ext
  exact List.take_of_length_le (Nat.le_sub_one_of_lt short)

/-- `sem_open` gives the slot that a bound name denotes. -/
theorem semOpen_of_bound {name : CString} {oflag : BitVec 32} {mod : Int} {val : BitVec 32}
    {i j : SlotIx} (bound : σ.semNameMap.hashTableFind name = some j)
    (result : (σ.semOpen name oflag mod val).2 = some i) : i = j := by
  have ends := σ.semOpen_ends name oflag mod val
  generalize σ.semOpen name oflag mod val = opened at ends result
  cases ends with
  | absent | tooLong | taken | uncovered | notMade => contradiction
  | joined _ bound' =>
      exact (Option.some.inj result).symm.trans (Option.some.inj (bound'.symm.trans bound))
  | made _ unbound =>
      rw [bound] at unbound
      contradiction

/-- `sem_open` gives a free slot for a name that is not bound. -/
theorem semOpen_of_unbound {name : CString} {oflag : BitVec 32} {mod : Int} {val : BitVec 32}
    {i : SlotIx} (unbound : σ.semNameMap.hashTableFind name = none)
    (result : (σ.semOpen name oflag mod val).2 = some i) : (σ.semArray i).refCount = 0 := by
  have ends := σ.semOpen_ends name oflag mod val
  generalize σ.semOpen name oflag mod val = opened at ends result
  cases ends with
  | absent | tooLong | taken | uncovered | notMade => contradiction
  | joined _ bound =>
      rw [unbound] at bound
      contradiction
  | made _ _ _ _ created =>
      obtain rfl := Option.some.inj result
      have ends := (σ.setErrno 0).semCreate_ends mod val
      rw [created] at ends
      cases ends with
      | made first => exact idle_of_first first

/-- A creation that fails says why. -/
theorem semCreate_failed_errno (ready : σ.errno = 0) (mode : Int) (value : BitVec 32)
    (failed : (σ.semCreate mode value).2 = none) :
    (σ.semCreate mode value).1.errno = enospc ∨ (σ.semCreate mode value).1.errno = einval := by
  have ends := σ.semCreate_ends mode value
  generalize σ.semCreate mode value = result at ends failed ⊢
  cases ends with
  | noSlot => exact Or.inl rfl
  | stale _ stale => exact absurd ready stale
  | tooLarge => exact Or.inr rfl
  | made => contradiction

/-- No name that has been cut is too long for `sem_open`. -/
theorem semOpen_errno_ne {name : CString} (short : name.length < maxName) (oflag : BitVec 32)
    (mod : Int) (val : BitVec 32) (failed : (σ.semOpen name oflag mod val).2 = none) :
    (σ.semOpen name oflag mod val).1.errno ≠ enametoolong := by
  have errno := semCreate_failed_errno (σ := σ.setErrno 0) rfl mod val
  have ends := σ.semOpen_ends name oflag mod val
  generalize σ.semOpen name oflag mod val = opened at ends failed ⊢
  cases ends with
  | absent => exact show enoent ≠ enametoolong by decide
  | tooLong long => exact absurd short (not_lt.mpr (Nat.le_of_lt long))
  | taken => exact show eexist ≠ enametoolong by decide
  | uncovered => exact show (0 : Int) ≠ enametoolong by decide
  | joined | made => contradiction
  | notMade _ _ _ _ created =>
      rw [created] at errno
      rcases errno rfl with full | invalid
      · exact full.trans_ne (show enospc ≠ enametoolong by decide)
      · exact invalid.trans_ne (show einval ≠ enametoolong by decide)

/-- No name that has been cut is too long for `sem_unlink`. -/
theorem semUnlink_errno_ne {name : CString} (short : name.length < maxName)
    (inUse : ∀ i p, σ.belongs (σ.semArray i).procList p = true →
      ListLib.listIsEmpty σ.pools (σ.semArray i).procList = false)
    (failed : (σ.semUnlink name).2 = -1) : (σ.semUnlink name).1.errno ≠ enametoolong := by
  have ends := σ.semUnlink_ends name
  generalize σ.semUnlink name = result at ends failed ⊢
  cases ends with
  | tooLong long => exact absurd short (not_lt.mpr (Nat.le_of_lt long))
  | absent => exact show enoent ≠ enametoolong by decide
  | stranger => exact show eacces ≠ enametoolong by decide
  | unused _ member empty =>
      rw [inUse _ _ member] at empty
      contradiction
  | unlinked => contradiction

/-! ## One event -/

/-- What an event writes down: nothing, or that a slot holds a semaphore without a name,
that a name was given a free slot, or that it was given the slot it denotes. -/
inductive Asking (σ : Fs P) (asked : SlotIx → List CString) : Event → Prop
  | same {e : Event} : σ.askings asked e = asked →
      (∀ key i, σ.naming e ≠ some (.insert key i)) → Asking σ asked e
  | nameless {e : Event} {i : SlotIx} : σ.askings asked e = Function.update asked i [] →
      (∀ key i, σ.naming e ≠ some (.insert key i)) → Asking σ asked e
  | fresh {p : Int} {m : Message} {g : Garbage} {i : SlotIx} : AsksName m →
      (σ.semArray i).refCount = 0 →
        σ.naming (.semaph p m g) = some (.insert (requestKey m) i) →
          σ.askings asked (.semaph p m g) = Function.update asked i [m.nombre] →
            Asking σ asked (.semaph p m g)
  | joined {p : Int} {m : Message} {g : Garbage} {i : SlotIx} : AsksName m →
      σ.Bound (requestKey m) i → (∀ key i, σ.naming (.semaph p m g) ≠ some (.insert key i)) →
        σ.askings asked (.semaph p m g) = Function.update asked i (m.nombre :: asked i) →
          Asking σ asked (.semaph p m g)

theorem asking (σ : Fs P) (asked : SlotIx → List CString) (e : Event) : Asking σ asked e := by
  cases e with
  | fork parent child => exact Asking.same rfl fun _ _ => (Option.some_ne_none _).symm
  | exec slot | exit slot => exact Asking.same rfl fun _ _ => (Option.some_ne_none _).symm
  | semaph p m g =>
      -- only `sem_open` inserts a name
      have others : Funcion.ofInt m.funcion ≠ some .semOpen →
          ∀ key i, σ.naming (.semaph p m g) ≠ some (.insert key i) := by
        intro notOpen key i inserts
        rcases naming_iff.mp inserts with ⟨opens, -, -⟩
        exact notOpen opens
      cases code : Funcion.ofInt m.funcion with
      | none =>
          apply Asking.same
          · rw [askings, code]
          · exact others (by simp [code])
      | some funcion =>
          cases funcion with
          | semOpen =>
              have asks : AsksName m := Or.inl code
              cases result : ((σ.getWork p).opened m g).2 with
              | none =>
                  apply Asking.same
                  · rw [askings, code]
                    simp only [result]
                  · intro key i inserts
                    rcases naming_iff.mp inserts with ⟨-, -, given⟩
                    rw [result] at given
                    contradiction
              | some i =>
                  cases found : σ.semNameMap.hashTableFind (requestName m) with
                  | none =>
                      apply Asking.fresh asks
                      · exact semOpen_of_unbound (σ := σ.getWork p) found result
                      · exact naming_iff.mpr (Naming.insert code found result)
                      · rw [askings, code]
                        simp only [result]
                        exact if_pos found
                  | some j =>
                      obtain rfl := semOpen_of_bound (σ := σ.getWork p) found result
                      apply Asking.joined asks found
                      · intro key k inserts
                        rcases naming_iff.mp inserts with ⟨-, unbound, -⟩
                        rw [found] at unbound
                        contradiction
                      · rw [askings, code]
                        simp only [result]
                        exact if_neg (by simp [found])
          | semInit =>
              have notOpen := others (by simp [code])
              cases result : ((σ.getWork p).inited m).2 with
              | none =>
                  apply Asking.same _ notOpen
                  rw [askings, code]
                  simp only [result]
              | some i =>
                  apply Asking.nameless (i := i) _ notOpen
                  rw [askings, code]
                  simp only [result]
          | _ =>
              apply Asking.same
              · rw [askings, code]
              · exact others (by simp [code])

/-- Where a name denotes a slot after an event, it did so before or has been inserted. -/
theorem bound_cases {e : Event} {key : Key} {i : SlotIx} (faithful : σ.names.Faithful)
    (copies : σ.Copies e) (bound : (σ.step e).Bound key i) :
    σ.Bound key i ∨ σ.naming e = some (.insert key i) := by
  have bound : (σ.step e).names.book key = some i := bound
  rw [names_step σ e faithful copies] at bound
  cases naming : σ.naming e with
  | none =>
      rw [naming] at bound
      exact Or.inl bound
  | some op =>
      rw [naming] at bound
      cases op with
      | remove old =>
          left
          have bound : Function.update σ.names.book old none key = some i := bound
          rw [Function.update_apply] at bound
          split at bound
          · contradiction
          · exact bound
      | insert new j =>
          have bound : (if (σ.names.table.hashTableInsert new.1 j).2 = some .noErr then
              Function.update σ.names.book new (some j) else σ.names.book) key = some i := bound
          split at bound
          · rw [Function.update_apply] at bound
            split at bound
            · rename_i same
              right
              rw [same, Option.some.inj bound]
            · exact Or.inl bound
          · exact Or.inl bound

end

end Fs

/-! ## The names of a run -/

/-- A world, and the names by which the semaphores have been asked for. -/
structure Register (P : Type u) where
  world : World P
  asked : SlotIx → List CString

namespace Register

section

variable {P : Type u} [ListLib P Int]

/-- One event. -/
def step (r : Register P) (e : Event) : Register P where
  world := r.world.step e
  asked := r.world.fs.askings r.asked e

/-- No live semaphore has been asked for by two names. -/
def Apart (r : Register P) : Prop :=
  ∀ i, 0 < (r.world.fs.semArray i).refCount →
    ∀ name ∈ r.asked i, ∀ name' ∈ r.asked i, name = name'

/-- Names fit into the buffer, and run over no other key when they are inserted, and no
slot is destroyed that has a name. -/
def Careful (r : Register P) (e : Event) : Prop :=
  Fs.Short e ∧ r.world.fs.Copies e ∧ r.world.SparesNames e

instance (r : Register P) : Decidable r.Apart :=
  inferInstanceAs (Decidable (∀ i, 0 < (r.world.fs.semArray i).refCount →
    ∀ name ∈ r.asked i, ∀ name' ∈ r.asked i, name = name'))

instance (r : Register P) (e : Event) : Decidable (r.Careful e) :=
  inferInstanceAs (Decidable (_ ∧ _ ∧ _))

end

/-- Before the first event. -/
def boot : Register (Pools Int) where
  world := World.boot
  asked _ := []

/-- The register after some events. -/
def after (es : List Event) : Register (Pools Int) :=
  es.foldl step boot

/-- A semaphore has been asked for by the name that denotes it, and by no other. -/
structure Sorted (r : Register (Pools Int)) : Prop where
  simulated : r.world.Simulated
  kept : r.world.abs.Kept
  faithful : r.world.fs.names.Faithful
  apart : ∀ i, ∀ name ∈ r.asked i, ∀ name' ∈ r.asked i, name = name'
  bound : ∀ key i, r.world.fs.Bound key i → ∀ name ∈ r.asked i, name = key.1

theorem boot_sorted : boot.Sorted where
  simulated := World.boot_simulated
  kept := by
    rw [boot, World.boot_abs]
    exact World.start_kept
  faithful := Fs.start_names_faithful _
  apart i name mem := absurd mem List.not_mem_nil
  bound key i bound name mem := absurd mem List.not_mem_nil

variable {r : Register (Pools Int)} {e : Event}

/-- The name that an event asks for. -/
theorem requestKey_eq {p : Int} {m : Message} {g : Garbage} (short : Fs.Short (.semaph p m g))
    (asks : Fs.AsksName m) : (Fs.requestKey m).1 = m.nombre :=
  Fs.requestName_eq (short asks)

/-- What a name denotes is not free. -/
theorem Sorted.not_free (sorted : r.Sorted) {key : Key} {i : SlotIx}
    (bound : r.world.fs.Bound key i) : (r.world.fs.semArray i).refCount ≠ 0 := by
  have sim : Fs.Sim r.world.fs r.world.abs.fs := sorted.simulated
  have bound : r.world.abs.fs.Bound key i := by
    rw [Fs.Bound, sim.semNameMap]
    exact bound
  have live := (Fs.live_of_bound sorted.kept.owned bound).1
  rw [sim.semArray] at live
  exact live.ne'

/-- No two names denote the same slot. -/
theorem Sorted.eq_of_bound (sorted : r.Sorted) {key key' : Key} {i : SlotIx}
    (bound : r.world.fs.Bound key i) (bound' : r.world.fs.Bound key' i) : key = key' := by
  have sim : Fs.Sim r.world.fs r.world.abs.fs := sorted.simulated
  apply Fs.eq_of_bound sorted.kept.owned (i := i)
  · rw [Fs.Bound, sim.semNameMap]
    exact bound
  · rw [Fs.Bound, sim.semNameMap]
    exact bound'

/-- The names of one slot are written anew: they are one name, which is the name that
denotes the slot if there is one, and no other slot is given a name. -/
theorem Sorted.update (sorted : r.Sorted) {i : SlotIx} {names : List CString}
    (askings : r.world.fs.askings r.asked e = Function.update r.asked i names)
    (one : ∀ name ∈ names, ∀ name' ∈ names, name = name')
    (here : ∀ key, (r.world.fs.step e).Bound key i → ∀ name ∈ names, name = key.1)
    (kept : ∀ key j, j ≠ i → (r.world.fs.step e).Bound key j → r.world.fs.Bound key j) :
    (∀ i, ∀ name ∈ r.world.fs.askings r.asked e i, ∀ name' ∈ r.world.fs.askings r.asked e i,
      name = name') ∧
    ∀ key i, (r.world.fs.step e).Bound key i →
      ∀ name ∈ r.world.fs.askings r.asked e i, name = key.1 := by
  rw [askings]
  constructor
  · intro j
    by_cases same : j = i
    · rw [same, Function.update_self]
      exact one
    · rw [Function.update_of_ne same]
      exact sorted.apart j
  · intro key j bound
    by_cases same : j = i
    · rw [same] at bound
      rw [same, Function.update_self]
      exact here key bound
    · rw [Function.update_of_ne same]
      exact sorted.bound key j (kept key j same bound)

/-- What is written down stays sorted. -/
theorem Sorted.askings (sorted : r.Sorted) (careful : r.Careful e) :
    (∀ i, ∀ name ∈ r.world.fs.askings r.asked e i, ∀ name' ∈ r.world.fs.askings r.asked e i,
      name = name') ∧
    ∀ key i, (r.world.fs.step e).Bound key i →
      ∀ name ∈ r.world.fs.askings r.asked e i, name = key.1 := by
  obtain ⟨short, copies, -⟩ := careful
  -- without an insertion, what is denoted was denoted before
  have before : (∀ key i, r.world.fs.naming e ≠ some (.insert key i)) →
      ∀ key i, (r.world.fs.step e).Bound key i → r.world.fs.Bound key i := by
    intro noInsert key i bound
    exact (Fs.bound_cases sorted.faithful copies bound).resolve_right (noInsert key i)
  rcases Fs.asking r.world.fs r.asked e with
    ⟨askings, noInsert⟩ | ⟨askings, noInsert⟩ | ⟨asks, free, naming, askings⟩ |
      ⟨asks, found, noInsert, askings⟩
  · rw [askings]
    constructor
    · exact sorted.apart
    · exact fun key i bound => sorted.bound key i (before noInsert key i bound)
  · apply sorted.update askings
    · exact fun name mem => absurd mem List.not_mem_nil
    · exact fun key bound name mem => absurd mem List.not_mem_nil
    · exact fun key j _ => before noInsert key j
  · rename_i p m g i
    apply sorted.update askings
    · intro name mem name' mem'
      exact (List.mem_singleton.mp mem).trans (List.mem_singleton.mp mem').symm
    · intro key bound name mem
      rcases Fs.bound_cases sorted.faithful copies bound with old | inserted
      · exact absurd free (sorted.not_free old)
      · rw [naming] at inserted
        obtain ⟨rfl, -⟩ := Op.insert.inj (Option.some.inj inserted)
        rw [List.mem_singleton.mp mem, requestKey_eq short asks]
    · intro key j other bound
      rcases Fs.bound_cases sorted.faithful copies bound with old | inserted
      · exact old
      · rw [naming] at inserted
        obtain ⟨-, rfl⟩ := Op.insert.inj (Option.some.inj inserted)
        exact absurd rfl other
  · rename_i p m g i
    have given := requestKey_eq short asks
    have all : ∀ name ∈ m.nombre :: r.asked i, name = m.nombre := by
      intro name mem
      rcases List.mem_cons.mp mem with rfl | mem
      · rfl
      · exact (sorted.bound _ i found name mem).trans given
    apply sorted.update askings
    · intro name mem name' mem'
      exact (all name mem).trans (all name' mem').symm
    · intro key bound name mem
      rw [sorted.eq_of_bound (before noInsert key i bound) found]
      exact (all name mem).trans given.symm
    · exact fun key j _ => before noInsert key j

theorem Sorted.step (sorted : r.Sorted) (careful : r.Careful e) : (r.step e).Sorted := by
  obtain ⟨apart, bound⟩ := sorted.askings careful
  obtain ⟨-, copies, spares⟩ := careful
  constructor
  · exact World.step_simulated sorted.simulated e
  · change (r.world.step e).abs.Kept
    rw [World.step_abs sorted.simulated]
    exact sorted.kept.step (World.sparesNames_abs sorted.simulated spares)
  · exact Fs.faithful_names_step sorted.faithful copies
  · exact apart
  · exact bound

theorem after_snoc (es : List Event) (e : Event) : after (es ++ [e]) = (after es).step e := by
  simp [after]

theorem after_world (es : List Event) : (after es).world = World.after es := by
  induction es using List.reverseRecOn with
  | nil => rfl
  | append_singleton es e ih =>
      rw [after_snoc, World.after_snoc, ← ih]
      rfl

/-- A list of processes with a process in it is not empty. -/
theorem not_empty_of_belongs (simulated : r.world.Simulated) (q : Int) {i : SlotIx} {p : Int}
    (belongs : (r.world.fs.getWork q).belongs
      ((r.world.fs.getWork q).semArray i).procList p = true) :
    ListLib.listIsEmpty (r.world.fs.getWork q).pools
      ((r.world.fs.getWork q).semArray i).procList = false := by
  have sim : Fs.Sim (r.world.fs.getWork q) (r.world.abs.fs.getWork q) :=
    Fs.Sim.getWork simulated q
  rw [← sim.belongs (sim.usable i).1, ← sim.semArray, Fs.belongs_iff] at belongs
  rw [← sim.listIsEmpty, ← sim.semArray]
  by_contra empty
  have nobody : (r.world.abs.fs.getWork q).members i = [] :=
    Fs.listIsEmpty_iff.mp (Bool.not_eq_false _ ▸ empty)
  rw [nobody] at belongs
  exact List.not_mem_nil belongs

/-- In a run of careful events no live semaphore is asked for by two names. In every state
a request about a name that is too long is refused as it should be exactly if the name is
not too long: such a name is cut, and never refused. -/
theorem apart_of_careful (es : List Event) :
    (Run step Careful boot es (after es) → (after es).Apart) ∧
      ∀ p m g, Fs.AsksName m →
        ((after es).world.fs.RefusesLong p m g ↔ m.nombre.length < maxName) := by
  constructor
  · intro run i _
    have sorted : (after es).Sorted :=
      run.invariant boot_sorted fun _ _ sorted careful => sorted.step careful
    exact sorted.apart i
  · intro p m g asks
    constructor
    · rintro ⟨refused, refused'⟩
      by_contra long
      have long : maxName ≤ m.nombre.length := not_lt.mp long
      rcases asks with opens | unlinks
      · obtain ⟨failed, errno⟩ := refused opens long
        exact Fs.semOpen_errno_ne (Fs.length_requestName m) _ _ _ failed errno
      · obtain ⟨failed, errno⟩ := refused' unlinks long
        apply Fs.semUnlink_errno_ne (Fs.length_requestName m) _ failed errno
        intro i q belongs
        apply not_empty_of_belongs _ p belongs
        rw [after_world]
        exact (World.after_sturdy es).simulated
    · intro short
      constructor
      · exact fun _ long => absurd short (not_lt.mpr long)
      · exact fun _ long => absurd short (not_lt.mpr long)

/-- Two processes open a semaphore by its name, and one of them opens another one. -/
theorem apart_of_careful_of_opens :
    let es := [Client.call 5 (Client.semOpenRequest default ⟨[97], by simp⟩ 0o100 0 1),
      Client.call 6 (Client.semOpenRequest default ⟨[97], by simp⟩ 0 0 0),
      Client.call 6 (Client.semOpenRequest default ⟨[98], by simp⟩ 0o100 0 1)]
    (after es).asked 0 = [⟨[97], by simp⟩, ⟨[97], by simp⟩] ∧
      (after es).asked 1 = [⟨[98], by simp⟩] ∧ (after es).Apart := by
  intro es
  have allowed : Allowed step Careful boot es := by decide +kernel
  exact ⟨by decide +kernel, by decide +kernel, (apart_of_careful es).1 allowed.run⟩

/-- A name of 255 bytes. -/
def longName (last : UInt8) (nonzero : last ≠ 0) : CString where
  chars := List.replicate 254 97 ++ [last]
  nonzero c mem := by
    rcases List.mem_append.mp mem with mem | mem
    · rw [List.eq_of_mem_replicate mem]
      decide
    · rw [List.mem_singleton.mp mem]
      exact nonzero

/-- Two names that differ in their last byte only are opened by two processes. -/
theorem not_apart_of_long_names :
    ¬(after [Client.call 5 (Client.semOpenRequest default (longName 98 (by decide)) 0o100 0 1),
      Client.call 6 (Client.semOpenRequest default (longName 99 (by decide)) 0 0 0)]).Apart := by
  decide +kernel

end Register

end MinixSemaphore.Server
