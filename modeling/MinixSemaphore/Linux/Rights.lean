import MinixSemaphore.Linux.Members
import MinixSemaphore.Linux.ProdCons

/-!
# What a process has a right to

A process that has opened a semaphore and not closed it may rely on the handle: nobody else
deprives it of the semaphore, and the semaphore began with the value that goes with its
name, whoever has made it.
-/

namespace MinixSemaphore.Linux

open MinixSemaphore.Lists
open MinixSemaphore.Names
open MinixSemaphore.Semaphore
open MinixSemaphore.Server
open MinixSemaphore.Store
open MinixSemaphore.Transition

/-- The value that both functions pass with a name. -/
def nominal (n : List UInt8) : Nat :=
  if n = nameProd.chars then 15 else 0

/-! ## Single processes -/

namespace Proceso

/-- What the process has a right to: handles, and the values that their semaphores began
with. -/
def holds (p : Proceso) : List (BitVec 32 × Nat) :=
  match p.punto with
  | .openProd | .exit => []
  | .openCons => if p.semProd = -1 then [] else [(p.semProd, 15)]
  | .closeProd => [(p.semProd, 15)]
  | .enter | .wait | .getchar | .post | .postLast | .unlinkCons | .unlinkProd | .closeCons =>
      [(p.semProd, 15), (p.semCons, 0)]

/-- The value of the semaphore at which the process waits. -/
def takesFrom (p : Proceso) : Nat :=
  match p.rol with
  | .productor => 15
  | .consumidor => 0

/-- The value of the semaphore that the process posts. -/
def givesTo (p : Proceso) : Nat :=
  match p.rol with
  | .productor => 0
  | .consumidor => 15

/-- The value with which the process opens a semaphore. -/
def opens (p : Proceso) : Option Nat :=
  match p.punto with
  | .openProd => some 15
  | .openCons => some 0
  | _ => none

/-- The value of the semaphore that the process closes. -/
def closes (p : Proceso) : Option Nat :=
  match p.punto with
  | .closeCons => some 0
  | .closeProd => some 15
  | _ => none

/-- The tokens that the process has taken when its call returns. -/
def takes (p : Proceso) (value : Nat) : Nat :=
  if p.punto = .wait ∧ p.takesFrom = value then 1 else 0

/-- The tokens that the process has given when its call returns. -/
def gives (p : Proceso) (value : Nat) : Nat :=
  if p.punto = .post ∧ p.givesTo = value ∨ p.punto = .postLast ∧ 15 = value then 1 else 0

/-- The places that the process has taken and not filled. -/
def room (p : Proceso) : Nat :=
  if p.rol = .productor ∧ p.punto = .getchar then 1 else 0

/-- The elements that the process has created and not announced. -/
def brings (p : Proceso) : Nat :=
  if p.rol = .productor ∧ p.punto = .post then 1 else 0

/-- The places that the process is about to give back. -/
def owes (p : Proceso) : Nat :=
  if p.rol = .consumidor ∧ p.punto = .post ∨ p.punto = .postLast then 1 else 0

variable {p q : Proceso} {rta : BitVec 32} {eof : Bool} {call : Call} {x : BitVec 32 × Nat}

/-- What a process asks for. It calls its semaphores, and opens names with their values. -/
inductive Asks (p : Proceso) : Call → Prop
  | opens {nombre : CString} {value : BitVec 32} (short : nombre.length < maxHashElem)
      (filled : nombre.chars ≠ []) (nominal : nominal nombre.chars = value.toNat)
      (opens : p.opens = some value.toNat) (takes : ∀ v, p.takes v = 0)
      (gives : ∀ v, p.gives v = 0) :
      Asks p (.semOpen nombre oCreat 0 value)
  | waits {handle : BitVec 32} {value : Nat} (holds : (handle, value) ∈ p.holds)
      (opens : p.opens = none) (takes : ∀ v, p.takes v = if value = v then 1 else 0)
      (gives : ∀ v, p.gives v = 0) :
      Asks p (.semWait handle)
  | posts {handle : BitVec 32} {value : Nat} (holds : (handle, value) ∈ p.holds)
      (opens : p.opens = none) (takes : ∀ v, p.takes v = 0)
      (gives : ∀ v, p.gives v = if value = v then 1 else 0) :
      Asks p (.semPost handle)
  | unlinks {name : CString} (short : name.length < maxHashElem)
      (opens : p.opens = none) (takes : ∀ v, p.takes v = 0) (gives : ∀ v, p.gives v = 0) :
      Asks p (.semUnlink name)
  | closes {handle : BitVec 32} {value : Nat} (holds : (handle, value) ∈ p.holds)
      (opens : p.opens = none) (closes : p.closes = some value)
      (takes : ∀ v, p.takes v = 0) (gives : ∀ v, p.gives v = 0) : Asks p (.semClose handle)

theorem asks (calls : p.call = some call) : p.Asks call := by
  obtain ⟨rol, punto, semProd, semCons⟩ := p
  cases punto with
  | enter | getchar | exit => contradiction
  | openProd =>
      obtain rfl := Option.some.inj calls
      exact .opens (by decide) (by decide) (by decide) rfl (fun _ => rfl) fun _ => rfl
  | openCons =>
      obtain rfl := Option.some.inj calls
      exact .opens (by decide) (by decide) (by decide) rfl (fun _ => rfl) fun _ => rfl
  | wait =>
      obtain rfl := Option.some.inj calls
      cases rol with
      | productor =>
          exact .waits List.mem_cons_self rfl
            (fun v => by simp [Proceso.takes, takesFrom]) fun v => by simp [Proceso.gives]
      | consumidor =>
          exact .waits (List.mem_cons_of_mem _ List.mem_cons_self) rfl
            (fun v => by simp [Proceso.takes, takesFrom]) fun v => by simp [Proceso.gives]
  | post =>
      obtain rfl := Option.some.inj calls
      cases rol with
      | productor =>
          exact .posts (List.mem_cons_of_mem _ List.mem_cons_self) rfl (fun v => rfl)
            fun v => by simp [Proceso.gives, givesTo]
      | consumidor =>
          exact .posts List.mem_cons_self rfl (fun v => rfl)
            fun v => by simp [Proceso.gives, givesTo]
  | postLast =>
      obtain rfl := Option.some.inj calls
      exact .posts List.mem_cons_self rfl (fun v => rfl)
        fun v => by simp [Proceso.gives]
  | unlinkCons =>
      obtain rfl := Option.some.inj calls
      exact .unlinks (by decide) rfl (fun _ => rfl) fun _ => rfl
  | unlinkProd =>
      obtain rfl := Option.some.inj calls
      exact .unlinks (by decide) rfl (fun _ => rfl) fun _ => rfl
  | closeCons =>
      obtain rfl := Option.some.inj calls
      exact .closes (List.mem_cons_of_mem _ List.mem_cons_self) rfl rfl (fun _ => rfl) fun _ => rfl
  | closeProd =>
      obtain rfl := Option.some.inj calls
      exact .closes List.mem_cons_self rfl rfl (fun _ => rfl) fun _ => rfl

/-- A process that waits does so at a semaphore that it holds. -/
theorem asks_semWait {handle : BitVec 32} (calls : p.call = some (.semWait handle)) :
    ∃ value, (handle, value) ∈ p.holds ∧ p.opens = none ∧
      (∀ v, p.takes v = if value = v then 1 else 0) ∧ ∀ v, p.gives v = 0 := by
  obtain _ | ⟨holds, opens, takes, gives⟩ := asks calls
  exact ⟨_, holds, opens, takes, gives⟩

/-- A process holds what it has held and not closed, and what it has opened. -/
theorem holds_returned (returned : p.returned rta = some q) (mem : x ∈ q.holds) :
    x ∈ p.holds ∧ p.closes ≠ some x.2 ∨ p.opens = some x.2 ∧ rta ≠ -1 ∧ x.1 = rta := by
  obtain ⟨rol, punto, semProd, semCons⟩ := p
  cases punto with
  | enter | getchar | exit => contradiction
  | openProd =>
      obtain rfl := Option.some.inj returned
      change x ∈ (if rta = -1 then [] else [(rta, 15)]) at mem
      split at mem
      · contradiction
      · rename_i opened
        obtain rfl := List.mem_singleton.mp mem
        exact Or.inr ⟨rfl, opened, rfl⟩
  | openCons =>
      rw [Proceso.returned] at returned
      dsimp only at returned
      split at returned
      · contradiction
      · rename_i opened
        rw [not_or] at opened
        have held : x ∈ [(semProd, 15), (rta, 0)] := by
          cases rol <;> obtain rfl := Option.some.inj returned <;> exact mem
        rcases List.mem_pair.mp held with rfl | rfl
        · have held : holds ⟨rol, .openCons, semProd, semCons⟩ = [(semProd, 15)] := if_neg opened.1
          rw [held]
          exact Or.inl ⟨List.mem_singleton_self _, nofun⟩
        · exact Or.inr ⟨rfl, opened.2, rfl⟩
  | closeCons =>
      obtain rfl := Option.some.inj returned
      obtain rfl := List.mem_singleton.mp mem
      left
      simp [holds, Proceso.closes]
  | closeProd =>
      obtain rfl := Option.some.inj returned
      contradiction
  | _ =>
      left
      cases rol <;> obtain rfl := Option.some.inj returned <;> exact ⟨mem, nofun⟩

theorem weights_returned (returned : p.returned rta = some q) :
    p.room = 0 ∧ q.room = p.takes 15 ∧ p.owes = p.gives 15 ∧ q.owes = p.consumes ∧
      p.consumes = p.takes 0 ∧ p.brings = p.gives 0 ∧ q.brings = 0 := by
  obtain ⟨rol, punto, semProd, semCons⟩ := p
  cases punto with
  | enter | getchar | exit => contradiction
  | openCons =>
      rw [Proceso.returned] at returned
      dsimp only at returned
      split at returned
      · contradiction
      · cases rol <;> obtain rfl := Option.some.inj returned <;>
          exact ⟨rfl, rfl, rfl, rfl, rfl, rfl, rfl⟩
  | _ =>
      cases rol <;> obtain rfl := Option.some.inj returned <;>
        exact ⟨rfl, rfl, rfl, rfl, rfl, rfl, rfl⟩

/-- A process that tests `c` keeps what it holds, and does nothing but to create an element
or to end. -/
theorem weights_tested (tested : p.tested eof = some q) :
    p.call = none ∧ q.holds = p.holds ∧ q.room = 0 ∧ p.creates eof ≤ p.room ∧ p.owes = 0 ∧
      q.owes = p.ends eof ∧ p.brings = 0 ∧ q.brings = p.creates eof := by
  obtain ⟨rol, punto, semProd, semCons⟩ := p
  cases punto with
  | enter | getchar =>
      cases rol <;> cases eof <;> first
        | contradiction
        | obtain rfl := Option.some.inj tested
          exact ⟨rfl, rfl, rfl, Nat.le_of_ble_eq_true rfl, rfl, rfl, rfl, rfl⟩
  | _ => cases rol <;> contradiction

end Proceso

/-! ## Rights -/

/-- The handle points to a semaphore that began with the value, and the process at the
connection is a member of it. -/
def Entitled (L : Ledger SlotIx) (T : SlotTable) (c : ConIx) (x : BitVec 32 × Nat) : Prop :=
  ∃ i, Fs.slotAt x.1.toInt = some i ∧ L.Uses T c.proc i x.2

variable {log done : List Act} {T T' : SlotTable} {c : ConIx} {x : BitVec 32 × Nat} {a : Act}
  {value : Nat} {i : SlotIx}

theorem slotAt_ofInt (i : SlotIx) :
    Fs.slotAt (BitVec.ofInt 32 ((i : Nat) : Int)).toInt = some i := by
  have small : (i : Nat) < 10 := i.isLt
  have same : (BitVec.ofInt 32 ((i : Nat) : Int)).toInt = ((i : Nat) : Int) := by
    rw [BitVec.toInt_ofInt, Int.bmod_eq_of_le (by omega) (by omega)]
  rw [same, Fs.slotAt_coe]

/-- A right is kept when nothing is destroyed and the process does not close a semaphore that
began with the value. -/
theorem Entitled.run (entitled : Entitled (Ledger.ofLog log) T c x)
    (run : Run Table.step Table.Enabled T done T')
    (stays : ∀ a ∈ done, a.deed = .closed c.proc → (Ledger.ofLog log).kind a.place ≠ x.2)
    (lasts : ∀ a ∈ done, ∀ q, a.deed ≠ .destroyed q) :
    Entitled (Ledger.ofLog (log ++ done)) T' c x := by
  obtain ⟨i, slot, uses⟩ := entitled
  have kind : (Ledger.ofLog log).kind i = x.2 := by
    obtain ⟨-, -, -, kind⟩ := uses
    exact kind
  refine ⟨i, slot, uses.run run (fun a mem closes => ?_) fun a mem q destroys => ?_⟩
  · rw [closes] at mem
    exact stays _ mem rfl kind
  · rw [destroys] at mem
    exact lasts _ mem q rfl

/-- The semaphore that a handle points to. -/
theorem Entitled.kind {L : Ledger SlotIx} (entitled : Entitled L T c x)
    (slot : Fs.slotAt x.1.toInt = some i) : L.kind i = x.2 := by
  obtain ⟨j, slot', -, -, -, kind⟩ := entitled
  obtain rfl := Option.some.inj (slot'.symm.trans slot)
  exact kind

end MinixSemaphore.Linux
