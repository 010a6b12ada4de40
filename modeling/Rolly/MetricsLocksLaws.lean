import Rolly.MetricsLocks

/-!
# What the threads hold

What one step can do, and that no two threads are under one lock unless both
read.
-/

namespace Rolly.Locking

open Locks (Exclusive Granted Use)
open Layer (OtlpLayer)
open Metrics (MetricsRegistry)

-- ---------------------------------------------------------------------------
-- What a thread can do
-- ---------------------------------------------------------------------------

inductive Advanced (subscriber : Subscriber) (s : State) (i : Nat) (now : UInt64) :
    Thread → State → Prop
  | register : Advanced subscriber s i now (.ready (.register registration next))
      (s.put i (.get registration next))
  | record (hh : s.sections.isHandle call.measurement.kind handle) :
      Advanced subscriber s i now (.ready (.record handle call next))
        (s.put i (.record handle call next))
  | skip : Advanced subscriber s i now (.ready (.record handle call next)) (s.put i (.ready next))
  | collect : Advanced subscriber s i now (.ready (.collect next))
      (s.put i (.collect .counter [] next))
  | found (hget : s.registry.get registration.kind registration.name = some handle) :
      Advanced subscriber s i now (.got registration next)
        ((s.put i (.ready (next handle))).note (.returned i registration handle))
  | missed (hget : s.registry.get registration.kind registration.name = none) :
      Advanced subscriber s i now (.got registration next) (s.put i (.entry registration next))
  | insert : Advanced subscriber s i now (.inserting registration next)
      (s.insert i registration next)
  | recorded (hp : handle ∉ s.poisoned) :
      Advanced subscriber s i now (.recording handle call next)
        (({ s with registry := (s.registry.record handle call).1 }.put i
          (s.recorded subscriber i now handle (s.registry.record handle call).2 next)).note
          (.recorded i handle call))
  | printed : Advanced subscriber s i now (.printing handle warning next)
      (s.put i (s.event subscriber i now handle warning next))
  | read : Advanced subscriber s i now (.reading layer handle warning span next)
      (s.put i (.send layer handle
        (layer.onEvent s.tracing.spans[span]? .warn (warningFields warning) now) next))
  | unsent : Advanced subscriber s i now (.send layer handle none next) (s.put i (.ready next))
  | sent (he : layer.encode (.logs log) = some data) :
      Advanced subscriber s i now (.send layer handle (some log) next)
        ((s.sendLogs subscriber data).put i (.ready next))
  | unencoded (he : layer.encode (.logs log) = none) :
      Advanced subscriber s i now (.send layer handle (some log) next)
        ({ s with poisoned := handle :: s.poisoned }.put i .panicked)
  | next (hk : kind.next = some kind') :
      Advanced subscriber s i now (.visit kind [] snapshots next)
        (s.put i (.collect kind' snapshots next))
  | returned (hk : kind.next = none) : Advanced subscriber s i now (.visit kind [] snapshots next)
      ((s.put i (.ready (next snapshots))).note (.collected i snapshots))
  | visited (hp : handle.val ∉ s.poisoned)
      (hi : s.registry.instruments[handle.val]? = some instrument) :
      Advanced subscriber s i now (.visiting kind rest handle snapshots next)
        (({ s with registry := (s.registry.collectOne handle).2 }.put i (.visit kind
          (rest.erase handle) (snapshots ++ (s.registry.collectOne handle).1.toList) next)).note
          (.read i handle instrument))
  | recordPoisoned (hp : handle ∈ s.poisoned) :
      Advanced subscriber s i now (.recording handle call next) (s.put i .panicked)
  | visitPoisoned (hp : handle.val ∈ s.poisoned) :
      Advanced subscriber s i now (.visiting kind rest handle snapshots next) (s.put i .panicked)

inductive Stepped (subscriber : Subscriber) (s : State) : Action → State → Prop
  | advance (hi : s.threads[i]? = some thread) (h : Advanced subscriber s i now thread t) :
      Stepped subscriber s (.advance i now) t
  | acquire (hi : s.threads[i]? = some thread) (hw : thread.use.wants = some wanted)
      (hg : Granted s.uses wanted.1 wanted.2) :
      Stepped subscriber s (.acquire i) (s.put i (thread.acquire s.registry))
  | next (hi : s.threads[i]? = some (.visit kind rest snapshots next)) (hm : handle ∈ rest) :
      Stepped subscriber s (.next i handle)
        (s.put i (.lock kind rest ⟨handle, hm⟩ snapshots next))
  | exporter : Stepped subscriber s (.exporter a) { s with exporter }

section
variable {subscriber : Subscriber} {s t : State} {i : Nat} {now : UInt64} {thread : Thread}

theorem advance_advanced (h : s.advance subscriber i now thread = some t) :
    Advanced subscriber s i now thread t := by
  unfold State.advance at h
  split at h
  · cases h
    exact .register
  · split at h
    · next hh =>
      cases h
      exact .record hh
    · cases h
      exact .skip
  · cases h
    exact .collect
  · split at h
    · next hget =>
      cases h
      exact .found hget
    · next hget =>
      cases h
      exact .missed hget
  · cases h
    exact .insert
  · split at h
    · next hp =>
      cases h
      exact .recordPoisoned hp
    · next hp =>
      cases h
      exact .recorded hp
  · cases h
    exact .printed
  · cases h
    exact .read
  · split at h
    · cases h
      exact .unsent
    · split at h
      · next he =>
        cases h
        exact .sent he
      · next he =>
        cases h
        exact .unencoded he
  · split at h
    · next hk =>
      cases h
      exact .next hk
    · next hk =>
      cases h
      exact .returned hk
  · split at h
    · next hp =>
      cases h
      exact .visitPoisoned hp
    · next hp =>
      split at h
      · cases h
      · next hi =>
        cases h
        exact .visited hp hi
  · cases h

theorem step_stepped (h : step subscriber action s = some t) : Stepped subscriber s action t := by
  cases action with
  | advance i now =>
    obtain ⟨thread, hi, h⟩ := Option.bind_eq_some_iff.mp h
    exact .advance hi (advance_advanced h)
  | acquire i =>
    obtain ⟨thread, hi, h⟩ := Option.bind_eq_some_iff.mp h
    obtain ⟨wanted, hw, h⟩ := Option.bind_eq_some_iff.mp h
    obtain ⟨hg, h⟩ := Option.ite_none_right_eq_some.mp h
    cases h
    exact .acquire hi hw hg
  | next i handle =>
    dsimp only [step] at h
    split at h
    · next hi =>
      split at h
      · next hm =>
        cases h
        exact .next hi hm
      · cases h
    · cases h
  | exporter a =>
    obtain ⟨exporter, -, rfl⟩ := Option.map_eq_some_iff.mp h
    exact .exporter

-- ---------------------------------------------------------------------------
-- Who holds what
-- ---------------------------------------------------------------------------

def Thread.rest : Thread → List Nat
  | .visit _ rest _ _ => rest
  | .lock _ rest _ _ _ => rest
  | .visiting _ rest _ _ _ => rest
  | _ => []

theorem uses_set (h : t.threads = s.threads.set i moved) :
    t.uses = s.uses.set i moved.use := by
  rw [State.uses, h, List.map_set]
  rfl

theorem uses_getElem? (h : s.threads[i]? = some thread) : s.uses[i]? = some thread.use := by
  rw [State.uses, List.getElem?_map, h, Option.map_some]

theorem acquire_held (hw : thread.use.wants = some wanted) (registry : MetricsRegistry) :
    (thread.acquire registry).use.held = wanted :: thread.use.held := by
  cases thread <;> cases hw <;> rfl

/-- A thread with a warning to pass, or done with it. -/
structure Thread.Warned (handle : Nat) (thread : Thread) : Prop where
  held : thread.use.held ⊆ [(.data handle, .exclusive)]
  rest : thread.rest = []
  pc : thread.pc = .idle

theorem event_warned (handle : Nat) (warning : Metrics.OverflowWarning) (next : Program) :
    (s.event subscriber i now handle warning next).Warned handle := by
  unfold State.event
  split
  · exact ⟨List.nil_subset _, rfl, rfl⟩
  · split <;> exact ⟨List.Subset.refl _, rfl, rfl⟩

theorem recorded_warned (handle : Nat) (warning : Option Metrics.OverflowWarning)
    (next : Program) : (s.recorded subscriber i now handle warning next).Warned handle := by
  unfold State.recorded
  split
  · exact ⟨List.nil_subset _, rfl, rfl⟩
  · split
    · exact ⟨List.nil_subset _, rfl, rfl⟩
    · split
      · exact ⟨List.Subset.refl _, rfl, rfl⟩
      · exact event_warned ..

theorem insert_threads (registration : Metrics.Registration) (next : Nat → Program) :
    ∃ handle, (s.insert i registration next).threads = s.threads.set i (.ready (next handle)) := by
  unfold State.insert
  dsimp only
  split <;> exact ⟨_, rfl⟩

theorem Advanced.held (h : Advanced subscriber s i now thread t) :
    ∃ moved, t.threads = s.threads.set i moved ∧ moved.use.held ⊆ thread.use.held := by
  cases h with
  | insert =>
    obtain ⟨handle, hthreads⟩ := insert_threads (s := s) (i := i) _ _
    exact ⟨_, hthreads, List.nil_subset _⟩
  | recorded => exact ⟨_, rfl, (recorded_warned ..).held⟩
  | printed => exact ⟨_, rfl, List.Subset.trans (event_warned ..).held (List.subset_cons_self _ _)⟩
  | read => exact ⟨_, rfl, List.subset_cons_self _ _⟩
  | visited => exact ⟨_, rfl, List.subset_cons_self _ _⟩
  | _ => exact ⟨_, rfl, List.nil_subset _⟩

theorem step_exclusive (h : step subscriber action s = some t) (he : Exclusive s.uses) :
    Exclusive t.uses := by
  cases step_stepped h with
  | advance hi ha =>
    obtain ⟨moved, hthreads, hheld⟩ := ha.held
    rw [uses_set hthreads]
    exact he.set (uses_getElem? hi) fun l hl => .inl (hheld hl)
  | acquire hi hw hg =>
    rw [uses_set rfl]
    refine he.set (uses_getElem? hi) fun l hl => ?_
    rw [acquire_held hw] at hl
    obtain rfl | hl := List.mem_cons.mp hl
    · exact .inr hg
    · exact .inl hl
  | next hi hm =>
    rw [uses_set rfl]
    exact he.set (uses_getElem? hi) fun l hl => .inl hl
  | exporter => exact he

theorem start_uses (defaultMax : Nat) (programs : List Program) (tracing : Layer.State)
    (exporter : Exporter.State) : ∀ use ∈ (start defaultMax programs tracing exporter).uses,
    use = {} := by
  intro use hm
  obtain ⟨thread, hthread, rfl⟩ := List.mem_map.mp hm
  obtain ⟨program, -, rfl⟩ := List.mem_map.mp hthread
  rfl

/-- No two threads are under one lock, unless both read. -/
theorem reachable_exclusive (hr : (metricsLocks subscriber defaultMax).Reachable s) :
    Exclusive s.uses := by
  refine hr.invariant ?_ fun _ _ _ _ he ht => step_exclusive ht he
  rintro _ ⟨programs, tracing, exporter, rfl⟩ i j u v - hu - held hm
  rw [start_uses _ _ _ _ u (List.mem_of_getElem? hu)] at hm
  cases hm

end

end Rolly.Locking
