import MinixSemaphore.Server.Acquired

/-!
# Access to semaphores

A process may use a semaphore as often as it has created, opened or inherited it
without closing it again. Whoever may not use it is refused and changes nothing.
-/

namespace MinixSemaphore.Server

open MinixSemaphore.Lists
open MinixSemaphore.Names
open MinixSemaphore.Semaphore
open MinixSemaphore.Store
open MinixSemaphore.Transition

universe u

namespace Fs

variable {P : Type u} [ListLib P Int] {σ : Fs P}

/-- What a request on a handle does that the caller has not open: it changes nothing
and sends its caller the error. What `sem_post` returns is not determined. -/
structure Refused (σ σ' : Fs P) (p : Int) (funcion : Funcion) : Prop where
  table : σ'.toSemTable = σ.toSemTable
  errno : σ'.errno = einval
  acts : σ'.acts = []
  sent : σ'.sent = [(p, σ'.m1)]
  result : funcion ≠ .semPost → σ'.m1.type = einval ∧ σ'.m1.rta = -1

theorem step_refused {p : Int} {m : Message} (g : Garbage) {funcion : Funcion}
    (code : Funcion.ofInt m.funcion = some funcion) (onHandle : funcion.onHandle = true)
    (refused : (σ.getWork p).granted m.semaforo = none) :
    Refused σ (σ.step (.semaph p m g)) p funcion := by
  rw [step_semaph, dispatch, code]
  cases funcion with
  | semClose =>
      rw [semClose_refused refused]
      exact ⟨rfl, rfl, rfl, rfl, fun _ => ⟨rfl, rfl⟩⟩
  | semWait =>
      rw [semWait_refused refused]
      exact ⟨rfl, rfl, rfl, rfl, fun _ => ⟨rfl, rfl⟩⟩
  | semPost =>
      rw [semPost_refused refused]
      exact ⟨rfl, rfl, rfl, rfl, fun notPost => absurd rfl notPost⟩
  | semGetval =>
      rw [semGetvalue_refused refused]
      exact ⟨rfl, rfl, rfl, rfl, fun _ => ⟨rfl, rfl⟩⟩
  | semTrywait =>
      rw [semTrywait_refused refused]
      exact ⟨rfl, rfl, rfl, rfl, fun _ => ⟨rfl, rfl⟩⟩
  | semDestroy =>
      rw [semDestroy_refused refused]
      exact ⟨rfl, rfl, rfl, rfl, fun _ => ⟨rfl, rfl⟩⟩
  | _ => contradiction

end Fs

namespace World

variable {w : World (Pools Int)} {es : List Event}

/-- The use of a slot is granted only to its processes. -/
theorem granted_eq_none (simulated : w.Simulated) {p handle : Int}
    (outsider : ∀ i, Fs.slotAt handle = some i → (w.fs.procs i).count p = 0) :
    (w.fs.getWork p).granted handle = none := by
  cases granted : (w.fs.getWork p).granted handle with
  | none => rfl
  | some i =>
      have none := outsider i (Fs.slotAt_of_granted granted)
      rw [← (simulated.getWork p).granted] at granted
      have member : p ∈ w.abs.fs.members i := (Fs.granted_iff.mp granted).2
      rw [members_abs, ← List.count_pos_iff, none] at member
      exact absurd member (lt_irrefl _)

/-- In every state that a lawful run reaches, a process is in the list of a live slot as
often as it has created, opened or inherited the semaphore that is there now, without
the times it has closed it. These deeds are what its requests have returned, and what forks,
execs and exits were about. A process that is not in the list is refused every use of the
handle, and changes nothing. -/
theorem procs_count_eq (run : Run World.step Lawful boot es w) :
    (∀ i, 0 < (w.fs.semArray i).refCount → ∀ p,
      ((w.fs.procs i).count p : Int) =
        (current (deedsAt i w.log)).countP (Deed.joins p) -
          (current (deedsAt i w.log)).countP (Deed.leaves p)) ∧
    (∀ e, w.fs.Acquired e) ∧
    ∀ p m g funcion, Funcion.ofInt m.funcion = some funcion → funcion.onHandle = true →
      (∀ i, Fs.slotAt m.semaforo = some i → (w.fs.procs i).count p = 0) →
        Fs.Refused w.fs (w.fs.step (.semaph p m g)) p funcion := by
  obtain ⟨simulated, T, tracks⟩ := exists_tracks_abs run
  refine ⟨fun i live p => ?_, acquired_of_run run,
    fun p m g funcion code onHandle outsider => ?_⟩
  · obtain ⟨s, here, -, members, -⟩ := exists_sem_abs tracks live
    have account : (w.fs.procs i).count p + (current (deedsAt i w.log)).countP (Deed.leaves p) =
        (current (deedsAt i w.log)).countP (Deed.joins p) := by
      rw [← members]
      exact Sem.count_members_of_run (run_deedsAt tracks.run i) here p
    omega
  · exact Fs.step_refused g code onHandle (granted_eq_none simulated outsider)

/-- A process opens a semaphore twice and closes it once; another one only guesses the
handle. -/
theorem procs_count_eq_of_close :
    let es := [Client.call 5 (Client.semOpenRequest default ⟨[97], by simp⟩ 0o100 0 0),
      Client.call 5 (Client.semOpenRequest default ⟨[97], by simp⟩ 0 0 0),
      Client.call 5 (Client.semCloseRequest default 0)]
    let w := es.foldl World.step boot
    ((w.fs.procs 0).count 5 : Int) = (current (deedsAt 0 w.log)).countP (Deed.joins 5) -
        (current (deedsAt 0 w.log)).countP (Deed.leaves 5) ∧
      Fs.Refused w.fs (w.fs.step (Client.call 6 (Client.semPostRequest default 0))) 6
        .semPost := by
  intro es w
  have allowed : Allowed World.step Lawful boot es := by decide +kernel
  obtain ⟨counts, -, refusals⟩ := procs_count_eq allowed.run
  exact ⟨counts 0 (by decide +kernel) 5, refusals 6 _ _ .semPost (by decide) rfl
    (by decide +kernel)⟩

end World

end MinixSemaphore.Server
