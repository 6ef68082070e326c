import MinixSemaphore.Names.Labels
import MinixSemaphore.Semaphore.Ledger
import MinixSemaphore.Server.Acquired
import MinixSemaphore.Server.References

/-!
# Names and initial values

If names fit into their rows and each of them is always created with the same value, then
whoever opens a name gets a semaphore that began with the value of that name, although the
name map forgets names and may have several semaphores made for one of them.
-/

namespace MinixSemaphore.Server

open MinixSemaphore.Lists
open MinixSemaphore.Names
open MinixSemaphore.Semaphore
open MinixSemaphore.Store
open MinixSemaphore.Transition

universe u

/-- A name that is not there is opened only with `O_CREAT`. -/
theorem Fs.creates_of_unbound {P : Type u} [ListLib P Int] {σ : Fs P} {p : Int} {m : Message}
    {g : Garbage} {i : SlotIx} (unbound : σ.semNameMap.hashTableFind (Fs.requestName m) = none)
    (result : ((σ.getWork p).opened m g).2 = some i) : Creates (BitVec.ofInt 32 m.oflag) := by
  by_contra plain
  have refused : (σ.getWork p).opened m g =
      (((σ.getWork p).setErrno 0).setErrno enoent, none) :=
    if_pos ⟨unbound, not_not.mpr plain⟩
  rw [refused] at result
  contradiction

/-- Every name that is opened fits into a row, and whoever opens it with `O_CREAT` passes its
own value. -/
def Agrees (K : List UInt8 → Nat) : Event → Prop
  | .semaph _ m g => Funcion.ofInt m.funcion = some .semOpen →
      (Fs.requestName m).length < maxHashElem ∧ (Creates (BitVec.ofInt 32 m.oflag) →
        (Fs.openValue m g).toNat = K (Fs.requestName m).chars)
  | .fork _ _ | .exec _ | .exit _ => True

instance (K : List UInt8 → Nat) : ∀ e, Decidable (Agrees K e)
  | .semaph _ m _ => inferInstanceAs (Decidable (Funcion.ofInt m.funcion = some .semOpen →
      (Fs.requestName m).length < maxHashElem ∧ (Creates (BitVec.ofInt 32 m.oflag) →
        _ = K (Fs.requestName m).chars)))
  | .fork _ _ | .exec _ | .exit _ => inferInstanceAs (Decidable True)

namespace World

/-- What a name that has not been wiped out denotes, began with the value of the name. -/
def Labels {P : Type u} (K : List UInt8 → Nat) (w : World P) : Prop :=
  w.fs.semNameMap.Labelled fun n i => (Ledger.ofLog w.log).kind i = K n

variable {K : List UInt8 → Nat} {w : World (SeqStore Int)} {T T' : SlotTable} {e : Event}
  {i : SlotIx}

/-- Nothing is created where there is a semaphore. -/
theorem kind_step_of_live (tracks : w.Tracks T) (lawful : w.Lawful e)
    (live : 0 < (w.fs.semArray i).refCount) :
    (Ledger.ofLog (w.step e).log).kind i = (Ledger.ofLog w.log).kind i := by
  obtain ⟨s, here, -⟩ := tracks.exists_sem live
  obtain ⟨T', run, -⟩ := tracks.step lawful
  have log : (w.step e).log = w.log ++ (w.fs.step e).acts := rfl
  rw [log]
  refine Ledger.kind_append fun a mem creates same => ?_
  have enabled := enabled_of_nodup run (Fs.asks_nodup (Fs.step_recorded w.fs e).1) mem
  rw [← same] at here
  rw [Ledger.not_creates_of_some enabled here] at creates
  contradiction

/-- What an entry denotes is live. -/
theorem kind_step_of_name (tracks : w.Tracks T) (lawful : w.Lawful e) {entry : EntryIx}
    {n : List UInt8} (named : w.fs.semNameMap.name entry = some n) :
    (Ledger.ofLog (w.step e).log).kind (w.fs.semNameMap.entryArray entry).value =
      (Ledger.ofLog w.log).kind (w.fs.semNameMap.entryArray entry).value :=
  kind_step_of_live tracks lawful
    (tracks.owned.named entry (HashTable.occupied_iff_name.mpr ⟨n, named⟩)).1

/-- What is found under a name, or created with its value, began with this value. -/
theorem Labels.kind_of_made (labels : w.Labels K) (tracks : w.Tracks T) (lawful : w.Lawful e)
    {name : CString} (short : name.length < maxHashElem) (filled : name.chars ≠ [])
    (made : w.fs.semNameMap.hashTableFind name = some i ∨
      ∃ p entry, (w.fs.step e).acts = [⟨i, .created p (K name.chars) (some entry)⟩]) :
    (Ledger.ofLog (w.step e).log).kind i = K name.chars := by
  have shorter : name.length < maxStr := short.trans (by decide)
  rcases made with found | ⟨p, entry, acts⟩
  · have bound : w.fs.Bound ⟨name, shorter⟩ i := found
    rw [kind_step_of_live tracks lawful (Fs.live_of_bound tracks.owned bound).1]
    exact labels.find shorter filled found
  · have log : (w.step e).log = w.log ++ [_] := congrArg (w.log ++ ·) acts
    rw [log, Ledger.ofLog_snoc]
    exact Ledger.kind_enter_of_created rfl

/-- Whatever is opened, removed or wiped out, names keep to their values. -/
theorem Labels.step (labels : w.Labels K) (tracks : w.Tracks T) (lawful : w.Lawful e)
    (agrees : Agrees K e) : (w.step e).Labels K := by
  have kept : w.fs.semNameMap.Labelled
      fun n i => (Ledger.ofLog (w.step e).log).kind i = K n :=
    labels.mono fun entry n named kind => (kind_step_of_name tracks lawful named).trans kind
  have map : (w.step e).fs.semNameMap = _ := Fs.step_semNameMap w.fs e
  rw [Labels, map]
  cases naming : w.fs.naming e with
  | none => exact kept
  | some op =>
      rcases Fs.naming_iff.mp naming with @⟨p, m, g, i, opens, unbound, result⟩ | ⟨-, -⟩
      · obtain ⟨short, value⟩ := agrees opens
        refine HashTable.Labelled.insert kept short ?_
        rcases Fs.acts_of_opened opens result with ⟨found, -⟩ | ⟨-, entry, acts⟩
        · rw [unbound] at found
          contradiction
        · have log : (w.step (.semaph p m g)).log = w.log ++ [_] := congrArg (w.log ++ ·) acts
          rw [log, Ledger.ofLog_snoc]
          exact (Ledger.kind_enter_of_created rfl).trans
            (value (Fs.creates_of_unbound unbound result))
      · exact kept.remove _

/-! ## Runs of the program -/

/-- Lawful, and every name is created with its own value. -/
def Agreed {P : Type u} [ListLib P Int] (K : List UInt8 → Nat) (w : World P) (e : Event) : Prop :=
  w.Lawful e ∧ Agrees K e

instance {P : Type u} [ListLib P Int] (K : List UInt8 → Nat) (w : World P) (e : Event) :
    Decidable (w.Agreed K e) :=
  inferInstanceAs (Decidable (_ ∧ _))

/-- Names keep to their values along every run. -/
theorem exists_labels {w : World (Pools Int)} {es : List Event}
    (run : Run World.step (Agreed K) boot es w) :
    w.Simulated ∧ (∃ T, w.abs.Tracks T) ∧ w.abs.Labels K := by
  apply run.invariant (I := fun w => w.Simulated ∧ (∃ T, w.abs.Tracks T) ∧ w.abs.Labels K)
  · refine ⟨boot_simulated, ?_⟩
    rw [boot_abs]
    exact ⟨⟨_, start_tracks⟩, HashTable.newHashTable_labelled _⟩
  · rintro w e ⟨simulated, ⟨T, tracks⟩, labels⟩ ⟨lawful, agrees⟩
    have lawful := lawful_abs simulated lawful
    obtain ⟨T', -, tracks'⟩ := tracks.step lawful
    refine ⟨step_simulated simulated e, ?_⟩
    rw [step_abs simulated]
    exact ⟨⟨T', tracks'⟩, labels.step tracks lawful agrees⟩

end World

end MinixSemaphore.Server
