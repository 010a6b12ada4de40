import Rolly.MetricsLocksLaws
import Rolly.MetricsRefinement

/-!
# The metrics do not deadlock

A map comes before the mutexes of the instruments, these before what a warning
takes. So some thread can always go on.
-/

namespace Rolly.Locking

open Locks (Granted)
open Metrics (MetricsRegistry)

section
variable {subscriber : Subscriber} {s t : State} {i : Nat} {now : UInt64} {thread : Thread}

-- ---------------------------------------------------------------------------
-- The instruments that are left to visit
-- ---------------------------------------------------------------------------

/-- What a `collect` has left to visit is there. -/
structure State.Inv (s : State) : Prop where
  wellNamed : s.registry.WellNamed
  rest : ∀ thread ∈ s.threads, ∀ handle ∈ thread.rest, handle < s.registry.instruments.length

/-- A thread moves, and no instrument is removed. -/
theorem State.Inv.of_set (hinv : s.Inv) (hnamed : t.registry.WellNamed)
    (hlength : s.registry.instruments.length ≤ t.registry.instruments.length)
    (hthreads : t.threads = s.threads.set i moved)
    (hmoved : ∀ handle ∈ moved.rest, handle < t.registry.instruments.length) : t.Inv := by
  refine ⟨hnamed, fun thread hm handle hh => ?_⟩
  rw [hthreads] at hm
  obtain hm | rfl := List.mem_or_eq_of_mem_set hm
  · exact Nat.lt_of_lt_of_le (hinv.rest thread hm handle hh) hlength
  · exact hmoved handle hh

theorem insert_registry (registration : Metrics.Registration) (next : Nat → Program) :
    (s.insert i registration next).registry = (s.registry.entry registration.kind registration.name
      (registration.instrument s.registry.defaultMaxCardinality)).2 := by
  unfold State.insert
  dsimp only
  split <;> rfl

theorem entry_wellNamed {r : MetricsRegistry} (h : r.WellNamed)
    (registration : Metrics.Registration) :
    (r.entry registration.kind registration.name
        (registration.instrument r.defaultMaxCardinality)).2.WellNamed ∧
      r.instruments.length ≤ (r.entry registration.kind registration.name
        (registration.instrument r.defaultMaxCardinality)).2.instruments.length := by
  cases hget : r.get registration.kind registration.name with
  | some handle =>
    rw [MetricsRegistry.entry_of_some _ _ _ hget]
    exact ⟨h, Nat.le_refl _⟩
  | none =>
    rw [MetricsRegistry.entry_of_none _ _ _ hget]
    refine ⟨h.push _ _ _ hget ?_, by simp⟩
    rw [Metrics.instrument_descriptor, Metrics.descriptor_key]
    rfl

theorem Advanced.inv (h : Advanced subscriber s i now thread t) (hi : s.threads[i]? = some thread)
    (hinv : s.Inv) : t.Inv := by
  have hold := hinv.rest thread (List.mem_of_getElem? hi)
  have hquiet {moved : Thread} (hregistry : t.registry = s.registry)
      (hthreads : t.threads = s.threads.set i moved) (hrest : moved.rest = []) : t.Inv :=
    hinv.of_set (hregistry ▸ hinv.wellNamed) (hregistry ▸ Nat.le_refl _) hthreads
      (hrest ▸ fun _ hh => by cases hh)
  cases h with
  | insert =>
    obtain ⟨handle, hthreads⟩ := insert_threads (s := s) (i := i) _ _
    obtain ⟨hnamed, hlength⟩ := entry_wellNamed hinv.wellNamed _
    rw [← insert_registry] at hnamed hlength
    exact hinv.of_set hnamed hlength hthreads fun _ hh => by cases hh
  | recorded =>
    refine hinv.of_set (i := i) ?_ ?_ rfl ?_
    · exact (MetricsRegistry.record_fst (r := s.registry)) ▸ hinv.wellNamed.act
    · simp [State.note, State.put, MetricsRegistry.record_fst, MetricsRegistry.act]
    · exact (recorded_warned ..).rest ▸ fun _ hh => by cases hh
  | printed => exact hquiet rfl rfl (event_warned ..).rest
  | visited =>
    refine hinv.of_set (i := i) ?_ ?_ rfl fun handle hh => ?_
    · exact (MetricsRegistry.collectOne_snd (r := s.registry)) ▸ hinv.wellNamed.act
    · simp [State.note, State.put, MetricsRegistry.collectOne_snd, MetricsRegistry.act]
    · have := hold handle (List.mem_of_mem_erase hh)
      simpa [State.note, State.put, MetricsRegistry.collectOne_snd, MetricsRegistry.act] using this
  | _ => exact hquiet rfl rfl rfl

theorem step_inv (h : step subscriber action s = some t) (hinv : s.Inv) : t.Inv := by
  cases step_stepped h with
  | advance hi ha => exact ha.inv hi hinv
  | @acquire i thread wanted hi hw hg =>
    refine hinv.of_set hinv.wellNamed (Nat.le_refl _) rfl fun handle hh => ?_
    have hold := hinv.rest thread (List.mem_of_getElem? hi)
    cases thread with
    | collect kind snapshots next =>
      -- the handles in the map
      obtain ⟨key, hkey, -⟩ := Option.map_eq_some_iff.mp
        ((MetricsRegistry.mem_handles hinv.wellNamed).mp hh)
      have hlt := (List.getElem?_eq_some_iff.mp hkey).1
      rwa [MetricsRegistry.keys, List.length_map] at hlt
    | lock => exact hold handle hh
    | visit | visiting => cases hw
    | _ => cases hh
  | next hi hm =>
    have hold := hinv.rest _ (List.mem_of_getElem? hi)
    exact hinv.of_set hinv.wellNamed (Nat.le_refl _) rfl hold
  | exporter => exact ⟨hinv.wellNamed, hinv.rest⟩

-- ---------------------------------------------------------------------------
-- Somebody can go on
-- ---------------------------------------------------------------------------

/-- The order in which the locks are taken. -/
def Lock.rank : Lock → Nat
  | .map _ => 0
  | .data _ => 1
  | .stderr => 2
  | .extensions _ => 3

theorem use_ordered (thread : Thread) : thread.use.Ordered Lock.rank := by
  intro wanted hw held hheld
  cases thread with
  | print | onEvent | lock =>
    cases hw
    obtain rfl := List.mem_singleton.mp hheld
    simp [Lock.rank]
  | get | entry | record | collect => cases hheld
  | _ => cases hw

theorem use_of_finished (h : thread.finished) : thread.use = {} := by
  cases thread with
  | ready | panicked => rfl
  | _ => cases h

theorem exists_advance (subscriber : Subscriber) (hinv : s.Inv)
    (hi : s.threads[i]? = some thread) (hunfinished : thread.finished = false)
    (hw : thread.use.wants = none) :
    ∃ action t, action.thread = some i ∧ step subscriber action s = some t ∧
      ¬s.HeldUp action := by
  have hfree {action : Action} (ha : ∀ j, action ≠ .acquire j) : ¬s.HeldUp action :=
    fun ⟨j, _, _, hj, _⟩ => ha j hj
  have hadvance (h : (s.advance subscriber i 0 thread).isSome) :
      ∃ action t, action.thread = some i ∧ step subscriber action s = some t ∧
        ¬s.HeldUp action := by
    obtain ⟨t, ht⟩ := Option.isSome_iff_exists.mp h
    refine ⟨.advance i 0, t, rfl, ?_, hfree fun j hj => by cases hj⟩
    rw [step, hi, Option.bind_some, ht]
  cases thread with
  | ready program =>
    cases program with
    | done => cases hunfinished
    | record handle call next =>
      refine hadvance ?_
      dsimp only [State.advance]
      split <;> rfl
    | register | collect => exact hadvance rfl
  | got | recording =>
    refine hadvance ?_
    dsimp only [State.advance]
    split <;> rfl
  | send layer handle log next =>
    refine hadvance ?_
    dsimp only [State.advance]
    split
    · rfl
    · split <;> rfl
  | visit kind rest snapshots next =>
    cases rest with
    | nil =>
      refine hadvance ?_
      dsimp only [State.advance]
      split <;> rfl
    | cons handle rest =>
      -- `collect` goes on to the next instrument
      refine ⟨.next i handle, s.put i (.lock kind (handle :: rest) ⟨handle, List.mem_cons_self⟩
        snapshots next), rfl, ?_, hfree fun j hj => by cases hj⟩
      simp only [step, hi]
      exact dif_pos List.mem_cons_self
  | visiting kind rest handle snapshots next =>
    have hlt := hinv.rest _ (List.mem_of_getElem? hi) handle.val handle.property
    refine hadvance ?_
    dsimp only [State.advance]
    rw [List.getElem?_eq_getElem hlt]
    split <;> rfl
  | inserting | printing | reading => exact hadvance rfl
  | panicked => cases hunfinished
  | get | entry | record | print | onEvent | collect | lock => cases hw

theorem exists_acquire (subscriber : Subscriber) (hi : s.threads[i]? = some thread)
    (hw : thread.use.wants = some (lock, mode)) (hg : Granted s.uses lock mode) :
    step subscriber (.acquire i) s = some (s.put i (thread.acquire s.registry)) := by
  simp [step, hi, hw, hg]

theorem reachable_inv (hr : (metricsLocks subscriber defaultMax).Reachable s) : s.Inv := by
  refine hr.invariant ?_ fun _ _ _ _ hinv ht => step_inv ht hinv
  rintro _ ⟨programs, tracing, exporter, rfl⟩
  refine ⟨MetricsRegistry.wellNamed_withMaxCardinality, fun thread hm handle hh => ?_⟩
  obtain ⟨program, -, rfl⟩ := List.mem_map.mp hm
  cases hh

/-- If everybody who is not finished waits, somebody waits for a lock that may
be had at once. -/
theorem exists_waiting (hunfinished : ∃ thread ∈ s.threads, thread.finished = false)
    (hwaits : ∀ thread ∈ s.threads, thread.finished = false → thread.use.wants ≠ none) :
    ∃ thread ∈ s.threads, ∃ lock mode, thread.use.wants = some (lock, mode) ∧
      Granted s.uses lock mode ∧ ¬Locks.HeldUp s.uses lock mode := by
  have hordered : ∀ use ∈ s.uses, use.Ordered Lock.rank := by
    rintro _ hu
    obtain ⟨thread, -, rfl⟩ := List.mem_map.mp hu
    exact use_ordered thread
  have hholders : ∀ use ∈ s.uses, use.held ≠ [] → use.wants ≠ none := by
    rintro _ hu hheld
    obtain ⟨thread, hm, rfl⟩ := List.mem_map.mp hu
    refine hwaits thread hm (Bool.eq_false_iff.mpr fun hf => hheld ?_)
    rw [use_of_finished hf]
  have hsome : ∃ use ∈ s.uses, use.wants ≠ none := by
    obtain ⟨thread, hm, hf⟩ := hunfinished
    exact ⟨thread.use, List.mem_map_of_mem hm, hwaits thread hm hf⟩
  obtain ⟨use, huse, hfree⟩ := Locks.exists_granted Lock.rank s.uses hordered hholders hsome
  obtain ⟨thread, hm, rfl⟩ := List.mem_map.mp huse
  exact ⟨thread, hm, hfree⟩

/-- Whenever a thread is not finished, some thread can take a step, and no
waiting writer can keep it from it. -/
theorem deadlock_free (hr : (metricsLocks subscriber defaultMax).Reachable s)
    (hunfinished : ∃ thread ∈ s.threads, thread.finished = false) :
    ∃ i action t, action.thread = some i ∧ step subscriber action s = some t ∧
      ¬s.HeldUp action := by
  by_cases hrunning : ∃ thread ∈ s.threads, thread.finished = false ∧ thread.use.wants = none
  · obtain ⟨thread, hm, hf, hw⟩ := hrunning
    obtain ⟨i, hi⟩ := List.getElem?_of_mem hm
    exact ⟨i, exists_advance subscriber (reachable_inv hr) hi hf hw⟩
  · -- everybody who is not finished waits
    obtain ⟨thread, hm, lock, mode, hw, hg, hup⟩ := exists_waiting hunfinished
      fun thread hm hf hw => hrunning ⟨thread, hm, hf, hw⟩
    obtain ⟨i, hi⟩ := List.getElem?_of_mem hm
    refine ⟨i, .acquire i, _, rfl, exists_acquire subscriber hi hw hg, ?_⟩
    rintro ⟨j, waiting, wanted, hj, hwaiting, hwanted, hheld⟩
    cases hj
    obtain rfl := Option.some.inj (hi.symm.trans hwaiting)
    obtain rfl := Option.some.inj (hw.symm.trans hwanted)
    exact hup hheld

end

/-- A counter that warns at the first call, a collect and two more registrations. -/
def warningPrograms : List Program :=
  let register (name : String) (next : Nat → Program) : Program :=
    .register (.counter name "" (some 0)) next
  [register "requests" fun handle =>
      .record handle ⟨.add 1, [("method", "GET")], ⟨false, none, 0⟩⟩ .done,
    .collect fun _ => .done, register "errors" fun _ => .done, register "retries" fun _ => .done]

def warningSubscriber : Subscriber where
  warns := true
  logToStderr := true
  otlpLayer := some (.new ⟨"service", "1", "test", [], true, true, F64.one⟩ "1")
  exporterConfig := ⟨none, some "/v1/logs", none, 1024, 512, 4, .drop⟩

/-- The first is about to print its warning, the second waits for its mutex, the third for the
second to leave the map, and the fourth may have to wait for the third. -/
def warningRun : List Action :=
  [.advance 0 0, .acquire 0, .advance 0 0, .acquire 0, .advance 0 0, .advance 0 0, .acquire 0,
    .advance 0 0, .advance 1 0, .acquire 1, .next 1 0, .advance 2 0, .acquire 2, .advance 2 0,
    .advance 3 0]

theorem deadlock_free_allWaiting : ∃ s,
    (∀ thread ∈ s.threads, thread.use.wants ≠ none) ∧ s.threads.length = 4 ∧
    ∃ i action t, action.thread = some i ∧ step warningSubscriber action s = some t ∧
      ¬s.HeldUp action := by
  obtain ⟨s, hs⟩ := Option.isSome_iff_exists.mp (show ((metricsLocks warningSubscriber 10).run
    warningRun (start 10 warningPrograms { entered := [[], [], [], []] }
    { pool := { permits := 4 } })).isSome by
      decide +kernel)
  have hwants := Machine.of_run hs (f := fun s => s.threads.map (·.use.wants))
    (y := [some (.stderr, .exclusive), some (.data 0, .exclusive),
      some (.map .counter, .exclusive), some (.map .counter, .shared)]) (by decide +kernel)
  have hwaits : ∀ thread ∈ s.threads, thread.use.wants ≠ none := by
    intro thread hm hnone
    have := List.mem_map_of_mem (f := fun thread => thread.use.wants) hm
    rw [hwants, hnone] at this
    exact absurd this (by decide)
  have hlength : s.threads.length = 4 := by
    simpa using congrArg List.length hwants
  have hr : (metricsLocks warningSubscriber 10).Reachable s :=
    Machine.Reachable.run (.init ⟨_, _, _, rfl⟩) hs
  refine ⟨s, hwaits, hlength, deadlock_free hr ?_⟩
  have hpos : 0 < s.threads.length := by omega
  obtain ⟨thread, hm⟩ := List.exists_mem_of_length_pos hpos
  refine ⟨thread, hm, Bool.eq_false_iff.mpr fun hf => hwaits thread hm ?_⟩
  rw [use_of_finished hf]

end Rolly.Locking
