import MinixSemaphore.Client.Library
import MinixSemaphore.Server.World

/-!
# Three levels of one server

The server runs on the pools of list.c. It does the same on sequences, whatever happens,
and as long as its lists have room and semaphores are destroyed as the manual demands, it
does what a table of ten semaphores does.
-/

namespace MinixSemaphore.Server

open MinixSemaphore.Lists
open MinixSemaphore.Semaphore
open MinixSemaphore.Transition

namespace World

theorem foldl_simulated (es : List Event) : (es.foldl World.step boot).Simulated ∧
    (es.foldl World.step boot).abs = es.foldl World.step (start SeqStore.empty) := by
  induction es using List.reverseRecOn with
  | nil => exact ⟨boot_simulated, boot_abs⟩
  | append_singleton es e ih =>
      obtain ⟨simulated, same⟩ := ih
      rw [List.foldl_append, List.foldl_append, ← same]
      exact ⟨step_simulated simulated e, step_abs simulated e⟩

/-- After any events at all, the pools are well formed, and everything that shows of the
server is as over sequences: the table and the name map, the sequences behind the lists,
the variables of the file system, what has been done and what has been answered. -/
theorem pools_simulate_sequences (es : List Event) :
    (es.foldl World.step boot).fs.pools.WellFormed ∧
      (es.foldl World.step boot).abs = es.foldl World.step (start SeqStore.empty) := by
  obtain ⟨simulated, same⟩ := foldl_simulated es
  exact ⟨simulated.wellFormed, same⟩

variable {w : World (Pools Int)} {es : List Event}

/-- What has been done in a lawful run can be done to a table of semaphores, and leads to
the semaphores that the live slots hold. -/
theorem refines_table (run : Run World.step Lawful boot es w) :
    ∃ T : SlotTable, Run Table.step Table.Enabled (fun _ => none) w.log T ∧
      ∀ i, (T i).map Sem.toView =
        if 0 < (w.fs.semArray i).refCount then
          some ⟨(w.fs.semArray i).semCount, w.fs.procs i, w.fs.blocked i,
            (w.fs.semArray i).unlinked⟩
        else none := by
  obtain ⟨-, T, tracks⟩ := exists_tracks_abs run
  refine ⟨T, tracks.run, fun i => ?_⟩
  by_cases live : 0 < (w.fs.semArray i).refCount
  · obtain ⟨s, here, count, members, waiters, unlinked⟩ := exists_sem_abs tracks live
    rw [if_pos live, here, ← count, ← members, ← waiters, ← unlinked]
    rfl
  · rw [if_neg live]
    cases here : T i with
    | none => rfl
    | some s => exact absurd (tracks.live_of_sem here) live

/-- A semaphore is made and waited for. -/
theorem refines_table_of_wait :
    let es := [Client.call 5 (Client.semInitRequest default 0 0 0),
      Client.call 5 (Client.semWaitRequest default 0)]
    let w := es.foldl World.step boot
    ∃ T : SlotTable, Run Table.step Table.Enabled (fun _ => none) w.log T ∧
      ∃ s, T 0 = some s ∧ s.count = -1 ∧ s.waiters = [5] := by
  intro es w
  have allowed : Allowed World.step Lawful boot es := by decide +kernel
  obtain ⟨T, run, shows⟩ := refines_table allowed.run
  have first := shows 0
  rw [if_pos (by decide +kernel)] at first
  obtain ⟨s, here, shown⟩ := Option.map_eq_some_iff.mp first
  exact ⟨T, run, s, here, (congrArg View.count shown).trans (by decide +kernel),
    (congrArg View.waiters shown).trans (by decide +kernel)⟩

end World

end MinixSemaphore.Server
