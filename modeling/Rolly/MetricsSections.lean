import Rolly.MetricsLocksLaws

/-!
# Sections under locks

The threads do nothing that they could not do with each section in one step, as
in `MetricsThreads`.
-/

namespace Rolly.Locking

open Locks (Exclusive)
open Metrics (Event)

section
variable {subscriber : Subscriber} {s t : State} {i : Nat} {now : UInt64} {thread : Thread}

-- ---------------------------------------------------------------------------
-- Sections
-- ---------------------------------------------------------------------------

theorem sections_put (s : State) (i : Nat) (moved : Thread) :
    (s.put i moved).sections = s.sections.move i moved.pc := by
  simp [State.sections, State.put, Metrics.State.move, List.map_set]

theorem sections_note (s : State) (event : Event) :
    (s.note event).sections = s.sections.note event := rfl

theorem sections_getElem? (hi : s.threads[i]? = some thread) :
    s.sections.threads[i]? = some thread.pc := by
  rw [State.sections, List.getElem?_map, hi, Option.map_some]

theorem sections_put_same (hi : s.threads[i]? = some thread) (h : moved.pc = thread.pc) :
    (s.put i moved).sections = s.sections := by
  obtain ⟨hlt, hget⟩ := List.getElem?_eq_some_iff.mp (sections_getElem? hi)
  rw [sections_put, Metrics.State.move, h, ← hget, List.set_getElem_self]

theorem insert_sections (registration : Metrics.Registration) (next : Nat → Program) :
    (s.insert i registration next).sections = s.sections.entry i registration := by
  unfold State.insert Metrics.State.entry
  dsimp only
  split
  · next hfound =>
    have hfound : (s.sections.registry.get registration.kind registration.name).isSome := hfound
    rw [if_pos hfound]
    exact congrArg (Metrics.State.note · _) (sections_put ..)
  · next hmissed =>
    have hmissed : ¬(s.sections.registry.get registration.kind registration.name).isSome := hmissed
    rw [if_neg hmissed]
    exact congrArg (fun t => Metrics.State.note (Metrics.State.note t _) _) (sections_put ..)

/-- Who holds the write lock of a map is alone there. -/
theorem not_reading (he : Exclusive s.uses)
    (hi : s.threads[i]? = some (.inserting registration next)) :
    s.sections.reading registration.kind = false := by
  refine Bool.eq_false_iff.mpr fun hreading => ?_
  obtain ⟨pc, hm, hpc⟩ := List.any_eq_true.mp hreading
  obtain ⟨thread, hthread, rfl⟩ := List.mem_map.mp hm
  obtain ⟨j, hj⟩ := List.getElem?_of_mem hthread
  have hne : i ≠ j := by
    rintro rfl
    obtain rfl := Option.some.inj (hi.symm.trans hj)
    cases hpc
  have hfree := he i j _ _ hne (uses_getElem? hi) (uses_getElem? hj) _ List.mem_cons_self
  cases thread with
  | visit | lock =>
    have hkind := of_decide_eq_true hpc
    cases hfree _ List.mem_cons_self (congrArg Lock.map hkind.symm)
  | visiting =>
    have hkind := of_decide_eq_true hpc
    cases hfree _ (List.mem_cons_of_mem _ List.mem_cons_self) (congrArg Lock.map hkind.symm)
  | _ => cases hpc

/-- As long as nobody panicked, a thread takes a whole section in one step or
stays in one. -/
theorem Advanced.sections (h : Advanced subscriber s i now thread t)
    (hi : s.threads[i]? = some thread) (he : Exclusive s.uses) (hp : t.poisoned = []) :
    t.sections = s.sections ∨ ∃ a, Metrics.step a s.sections = some t.sections := by
  have hpc := sections_getElem? hi
  have hmove {moved : Thread} {a : Metrics.Action}
      (ha : Metrics.step a s.sections = some (s.sections.move i moved.pc)) :
      ∃ a, Metrics.step a s.sections = some (s.put i moved).sections :=
    ⟨a, by rw [sections_put]; exact ha⟩
  cases h with
  | @register registration =>
    exact .inr (hmove (a := .register i registration) (by simp [Metrics.step, hpc, Thread.pc]))
  | @record handle call _ hh =>
    exact .inr (hmove (a := .record i handle call) (by simp [Metrics.step, hpc, Thread.pc, hh]))
  | collect =>
    exact .inr (hmove (a := .collect i) (by simp [Metrics.step, hpc, Thread.pc]))
  | skip | unsent | read => exact .inl (sections_put_same hi rfl)
  | printed => exact .inl (sections_put_same hi (event_warned ..).pc)
  | sent => exact .inl (sections_put_same (s := s) hi rfl)
  | found hget =>
    refine .inr ⟨.acquire i, ?_⟩
    have hget : s.sections.registry.get _ _ = some _ := hget
    simp only [Metrics.step, hpc, Thread.pc, Metrics.State.get, hget]
    rw [sections_note, sections_put]
    rfl
  | missed hget =>
    refine .inr (hmove (a := .acquire i) ?_)
    have hget : s.sections.registry.get _ _ = none := hget
    simp only [Metrics.step, hpc, Thread.pc, Metrics.State.get, hget]
  | insert =>
    refine .inr ⟨.acquire i, ?_⟩
    simp [Metrics.step, hpc, Thread.pc, not_reading he hi, insert_sections]
  | @recorded handle call next _ =>
    refine .inr ⟨.acquire i, ?_⟩
    simp only [Metrics.step, hpc, Thread.pc]
    rw [sections_note, sections_put, (recorded_warned ..).pc]
    rfl
  | next hk =>
    refine .inr (hmove (a := .release i) ?_)
    simp [Metrics.step, hpc, Thread.pc, hk]
  | returned hk =>
    refine .inr ⟨.release i, ?_⟩
    simp only [Metrics.step, hpc, Thread.pc, hk]
    rw [sections_note, sections_put]
    rfl
  | @visited instrument kind rest handle snapshots next _ hget =>
    refine .inr ⟨.visit i handle, ?_⟩
    have hget : s.sections.registry.instruments[handle.val]? = some instrument := hget
    simp only [Metrics.step, hpc, Thread.pc, if_pos handle.property, Metrics.State.visit, hget]
    rw [sections_note, sections_put]
    rfl
  | unencoded => cases hp
  | recordPoisoned hm | visitPoisoned hm =>
    have hnone : s.poisoned = [] := hp
    rw [hnone] at hm
    cases hm

theorem step_sections (h : step subscriber action s = some t) (he : Exclusive s.uses)
    (hp : t.poisoned = []) :
    t.sections = s.sections ∨ ∃ a, Metrics.step a s.sections = some t.sections := by
  cases step_stepped h with
  | advance hi ha => exact ha.sections hi he hp
  | @acquire i thread wanted hi hw hg =>
    cases thread with
    | collect kind snapshots next =>
      refine .inr ⟨.acquire i, ?_⟩
      simp only [Metrics.step, sections_getElem? hi, Thread.pc]
      rw [sections_put]
      rfl
    | get | entry | record | print | onEvent | lock => exact .inl (sections_put_same hi rfl)
    | _ => cases hw
  | next hi hm => exact .inl (sections_put_same hi rfl)
  | exporter => exact .inl rfl

theorem step_poisoned (h : step subscriber action s = some t) (hp : t.poisoned = []) :
    s.poisoned = [] := by
  cases step_stepped h with
  | advance hi ha =>
    cases ha with
    | insert =>
      unfold State.insert at hp
      dsimp only at hp
      split at hp <;> exact hp
    | unencoded => cases hp
    | _ => exact hp
  | _ => exact hp

/-- What the threads of `MetricsThreads` do is all that these do. -/
theorem reachable_sections (hr : (metricsLocks subscriber defaultMax).Reachable s)
    (hp : s.poisoned = []) : (Metrics.sharedRegistry defaultMax).Reachable s.sections := by
  refine Machine.Reachable.invariant (I := fun s => s.poisoned = [] →
    (Metrics.sharedRegistry defaultMax).Reachable s.sections) hr ?_ ?_ hp
  · rintro _ ⟨programs, tracing, exporter, rfl⟩ -
    refine .init ⟨programs.length, ?_⟩
    simp [State.sections, start, Metrics.start, Function.comp_def, Thread.pc]
  · intro action s t hr ih ht hp
    have hbefore : s.poisoned = [] := step_poisoned ht hp
    obtain heq | ⟨a, ha⟩ := step_sections ht (reachable_exclusive hr) hp
    · rw [heq]
      exact ih hbefore
    · exact (ih hbefore).step ha

end

/-- One thread records to a counter that it registers, the other collects. -/
def collectingPrograms : List Program :=
  [.register (.counter "requests" "" none) fun handle =>
      .record handle ⟨.add 1, [("method", "GET")], ⟨false, none, 0⟩⟩ .done,
    .collect fun _ => .done]

def silentSubscriber : Subscriber where
  warns := false
  logToStderr := false
  otlpLayer := none
  exporterConfig := ⟨none, none, none, 1024, 512, 4, .drop⟩

/-- The first has the mutex, and the second, with the map, waits for it. -/
def collectingRun : List Action :=
  [.advance 0 0, .acquire 0, .advance 0 0, .acquire 0, .advance 0 0, .advance 0 0, .acquire 0,
    .advance 1 0, .acquire 1, .next 1 0]

theorem reachable_sections_collecting : ∃ s,
    (metricsLocks silentSubscriber 10).Reachable s ∧ s.poisoned = [] ∧
    s.sections.threads = [.record 0 ⟨.add 1, [("method", "GET")], ⟨false, none, 0⟩⟩,
      .visit .counter [0] []] ∧
    (Metrics.sharedRegistry 10).Reachable s.sections := by
  obtain ⟨s, hs, hend⟩ := Option.map_eq_some_iff.mp (show ((metricsLocks silentSubscriber 10).run
    collectingRun (start 10 collectingPrograms { entered := [[], []] }
      { pool := { permits := 4 } })).map (fun s => (s.poisoned, s.sections.threads)) =
    some ([], [.record 0 ⟨.add 1, [("method", "GET")], ⟨false, none, 0⟩⟩,
      .visit .counter [0] []]) by decide +kernel)
  obtain ⟨hp, hthreads⟩ := Prod.mk.inj hend
  have hr : (metricsLocks silentSubscriber 10).Reachable s :=
    Machine.Reachable.run (.init ⟨_, _, _, rfl⟩) hs
  exact ⟨s, hr, hp, hthreads, reachable_sections hr hp⟩

end Rolly.Locking
