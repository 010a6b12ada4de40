import Rolly.Lib.Fairness
import Rolly.MetricsDeadlock

/-!
# The calls to the metrics return

A thread takes finitely many steps, whatever the others do and however many
instruments `collect` finds. As some thread can always go on, all of them finish
if one does whenever one can.
-/

namespace Rolly.Locking

open Metrics (Kind OverflowWarning)

-- ---------------------------------------------------------------------------
-- Where a step leads
-- ---------------------------------------------------------------------------

/-- Where one step can lead a thread, in any state and whatever the others did. -/
def Thread.Moves : Thread → Thread → Prop
  | .ready .done, _ => False
  | .ready (.register registration next), moved => moved = .get registration next
  | .ready (.record handle call next), moved =>
    moved = .record handle call next ∨ moved = .ready next
  | .ready (.collect next), moved => moved = .collect .counter [] next
  | .get registration next, moved => moved = .got registration next
  | .got registration next, moved =>
    moved = .entry registration next ∨ ∃ handle, moved = .ready (next handle)
  | .entry registration next, moved => moved = .inserting registration next
  | .inserting _ next, moved => ∃ handle, moved = .ready (next handle)
  | .record handle call next, moved => moved = .recording handle call next
  | .recording handle _ next, moved =>
    moved = .panicked ∨ moved = .ready next ∨ (∃ warning, moved = .print handle warning next) ∨
      (∃ layer warning span, moved = .onEvent layer handle warning span next) ∨
      ∃ layer log, moved = .send layer handle log next
  | .print handle warning next, moved => moved = .printing handle warning next
  | .printing handle _ next, moved =>
    moved = .ready next ∨ (∃ layer warning span, moved = .onEvent layer handle warning span next) ∨
      ∃ layer log, moved = .send layer handle log next
  | .onEvent layer handle warning span next, moved =>
    moved = .reading layer handle warning span next
  | .reading layer handle _ _ next, moved => ∃ log, moved = .send layer handle log next
  | .send _ _ _ next, moved => moved = .panicked ∨ moved = .ready next
  | .collect kind snapshots next, moved => ∃ rest, moved = .visit kind rest snapshots next
  | .visit kind rest snapshots next, moved =>
    (∃ handle, moved = .lock kind rest handle snapshots next) ∨
      (∃ kind', kind.next = some kind' ∧ moved = .collect kind' snapshots next) ∨
      moved = .ready (next snapshots)
  | .lock kind rest handle snapshots next, moved =>
    moved = .visiting kind rest handle snapshots next
  | .visiting kind rest handle _ next, moved =>
    moved = .panicked ∨ ∃ snapshots, moved = .visit kind (rest.erase handle) snapshots next
  | .panicked, _ => False

section
variable {subscriber : Subscriber} {s t : State} {i : Nat} {now : UInt64} {thread : Thread}

theorem event_moves (handle : Nat) (warning : OverflowWarning) (next : Program) :
    (Thread.printing handle warning next).Moves
      (s.event subscriber i now handle warning next) := by
  unfold State.event
  split
  · exact .inl rfl
  · split
    · exact .inr (.inl ⟨_, _, _, rfl⟩)
    · exact .inr (.inr ⟨_, _, rfl⟩)

theorem recorded_moves (handle : Nat) (call : Metrics.RecordCall)
    (warning : Option OverflowWarning) (next : Program) :
    (Thread.recording handle call next).Moves
      (s.recorded subscriber i now handle warning next) := by
  unfold State.recorded
  split
  · exact .inr (.inl rfl)
  · split
    · exact .inr (.inl rfl)
    · split
      · exact .inr (.inr (.inl ⟨_, rfl⟩))
      · next warning _ _ =>
        have hevent : (Thread.printing handle warning next).Moves
            (s.event subscriber i now handle warning next) := event_moves handle warning next
        obtain h | h | h := hevent
        · exact .inr (.inl h)
        · exact .inr (.inr (.inr (.inl h)))
        · exact .inr (.inr (.inr (.inr h)))

theorem Advanced.moves (h : Advanced subscriber s i now thread t) :
    ∃ moved, t.threads = s.threads.set i moved ∧ thread.Moves moved := by
  cases h with
  | register | collect => exact ⟨_, rfl, rfl⟩
  | record => exact ⟨_, rfl, .inl rfl⟩
  | skip => exact ⟨_, rfl, .inr rfl⟩
  | found => exact ⟨_, rfl, .inr ⟨_, rfl⟩⟩
  | missed => exact ⟨_, rfl, .inl rfl⟩
  | insert =>
    obtain ⟨handle, hthreads⟩ := insert_threads (s := s) (i := i) _ _
    exact ⟨_, hthreads, handle, rfl⟩
  | recorded => exact ⟨_, rfl, recorded_moves ..⟩
  | printed => exact ⟨_, rfl, event_moves ..⟩
  | read => exact ⟨_, rfl, _, rfl⟩
  | unsent | sent => exact ⟨_, rfl, .inr rfl⟩
  | unencoded | recordPoisoned | visitPoisoned => exact ⟨_, rfl, .inl rfl⟩
  | next hk => exact ⟨_, rfl, .inr (.inl ⟨_, hk, rfl⟩)⟩
  | returned => exact ⟨_, rfl, .inr (.inr rfl)⟩
  | visited => exact ⟨_, rfl, .inr ⟨_, rfl⟩⟩

theorem acquire_moves (hw : thread.use.wants = some wanted) (registry : Metrics.MetricsRegistry) :
    thread.Moves (thread.acquire registry) := by
  cases thread with
  | get | entry | record | print | onEvent | lock => rfl
  | collect => exact ⟨_, rfl⟩
  | _ => cases hw

theorem step_moves (h : step subscriber action s = some t) :
    (∃ i thread moved, action.thread = some i ∧ s.threads[i]? = some thread ∧
      t.threads = s.threads.set i moved ∧ thread.Moves moved) ∨
    action.thread = none ∧ t.threads = s.threads := by
  cases step_stepped h with
  | advance hi ha =>
    obtain ⟨moved, hthreads, hmoves⟩ := ha.moves
    exact .inl ⟨_, _, moved, rfl, hi, hthreads, hmoves⟩
  | acquire hi hw => exact .inl ⟨_, _, _, rfl, hi, rfl, acquire_moves hw _⟩
  | next hi hm => exact .inl ⟨_, _, _, rfl, hi, rfl, .inl ⟨⟨_, hm⟩, rfl⟩⟩
  | exporter => exact .inr ⟨rfl, rfl⟩

-- ---------------------------------------------------------------------------
-- Each call returns
-- ---------------------------------------------------------------------------

/-- Every sequence of moves from here ends. -/
def Thread.Ends (thread : Thread) : Prop := Acc (fun moved thread => thread.Moves moved) thread

theorem Thread.Ends.intro (h : ∀ moved, thread.Moves moved → moved.Ends) : thread.Ends :=
  Acc.intro thread h

theorem panicked_ends : Thread.panicked.Ends := .intro fun _ h => h.elim

-- A registration.

theorem inserting_ends (h : ∀ handle, (Thread.ready (next handle)).Ends) :
    (Thread.inserting registration next).Ends := by
  refine .intro ?_
  rintro _ ⟨handle, rfl⟩
  exact h handle

theorem entry_ends (h : ∀ handle, (Thread.ready (next handle)).Ends) :
    (Thread.entry registration next).Ends := by
  refine .intro ?_
  rintro _ rfl
  exact inserting_ends h

theorem got_ends (h : ∀ handle, (Thread.ready (next handle)).Ends) :
    (Thread.got registration next).Ends := by
  refine .intro ?_
  rintro _ (rfl | ⟨handle, rfl⟩)
  · exact entry_ends h
  · exact h handle

theorem get_ends (h : ∀ handle, (Thread.ready (next handle)).Ends) :
    (Thread.get registration next).Ends := by
  refine .intro ?_
  rintro _ rfl
  exact got_ends h

-- A recording, and the warning on its way.

theorem send_ends (h : (Thread.ready next).Ends) : (Thread.send layer handle log next).Ends := by
  refine .intro ?_
  rintro _ (rfl | rfl)
  · exact panicked_ends
  · exact h

theorem reading_ends (h : (Thread.ready next).Ends) :
    (Thread.reading layer handle warning span next).Ends := by
  refine .intro ?_
  rintro _ ⟨log, rfl⟩
  exact send_ends h

theorem onEvent_ends (h : (Thread.ready next).Ends) :
    (Thread.onEvent layer handle warning span next).Ends := by
  refine .intro ?_
  rintro _ rfl
  exact reading_ends h

theorem printing_ends (h : (Thread.ready next).Ends) :
    (Thread.printing handle warning next).Ends := by
  refine .intro ?_
  rintro _ (rfl | ⟨layer, warning, span, rfl⟩ | ⟨layer, log, rfl⟩)
  · exact h
  · exact onEvent_ends h
  · exact send_ends h

theorem print_ends (h : (Thread.ready next).Ends) : (Thread.print handle warning next).Ends := by
  refine .intro ?_
  rintro _ rfl
  exact printing_ends h

theorem recording_ends (h : (Thread.ready next).Ends) :
    (Thread.recording handle call next).Ends := by
  refine .intro ?_
  rintro _ (rfl | rfl | ⟨warning, rfl⟩ | ⟨layer, warning, span, rfl⟩ | ⟨layer, log, rfl⟩)
  · exact panicked_ends
  · exact h
  · exact print_ends h
  · exact onEvent_ends h
  · exact send_ends h

theorem record_ends (h : (Thread.ready next).Ends) : (Thread.record handle call next).Ends := by
  refine .intro ?_
  rintro _ rfl
  exact recording_ends h

-- A collection: the maps one after another, in each what is left to visit.

/-- A `collect` ends from the map of this kind on, whatever it has found so far. -/
def CollectEnds (next : List MetricSnapshot → Program) (kind : Kind) : Prop :=
  ∀ snapshots, (Thread.collect kind snapshots next).Ends

theorem visiting_ends
    (h : ∀ snapshots, (Thread.visit kind (rest.erase handle.val) snapshots next).Ends) :
    (Thread.visiting kind rest handle snapshots next).Ends := by
  refine .intro ?_
  rintro _ (rfl | ⟨snapshots, rfl⟩)
  · exact panicked_ends
  · exact h snapshots

theorem lock_ends
    (h : ∀ snapshots, (Thread.visit kind (rest.erase handle.val) snapshots next).Ends) :
    (Thread.lock kind rest handle snapshots next).Ends := by
  refine .intro ?_
  rintro _ rfl
  exact visiting_ends h

theorem visit_ends (h : ∀ snapshots, (Thread.ready (next snapshots)).Ends)
    (hkind : ∀ kind', kind.next = some kind' → CollectEnds next kind') (rest : List Nat)
    (snapshots : List MetricSnapshot) : (Thread.visit kind rest snapshots next).Ends := by
  -- by induction on the number of instruments that are left
  induction hn : rest.length generalizing rest snapshots with
  | zero =>
    obtain rfl := List.length_eq_zero_iff.mp hn
    refine .intro ?_
    rintro _ (⟨⟨handle, hm⟩, -⟩ | ⟨kind', hk, rfl⟩ | rfl)
    · cases hm
    · exact hkind kind' hk snapshots
    · exact h snapshots
  | succ n ih =>
    refine .intro ?_
    rintro _ (⟨handle, rfl⟩ | ⟨kind', hk, rfl⟩ | rfl)
    · have hlength : (rest.erase handle.val).length = n := by
        rw [List.length_erase_of_mem handle.property, hn]
        rfl
      exact lock_ends fun snapshots => ih _ snapshots hlength
    · exact hkind kind' hk snapshots
    · exact h snapshots

theorem collect_ends (h : ∀ snapshots, (Thread.ready (next snapshots)).Ends) (kind : Kind) :
    CollectEnds next kind := by
  have hcollect {kind : Kind}
      (hkind : ∀ kind', kind.next = some kind' → CollectEnds next kind') :
      CollectEnds next kind := by
    intro snapshots
    refine .intro ?_
    rintro _ ⟨rest, rfl⟩
    exact visit_ends h hkind rest snapshots
  have hhistogram : CollectEnds next .histogram := hcollect fun _ hk => by cases hk
  have hgauge : CollectEnds next .gauge := hcollect fun _ hk => by
    cases hk
    exact hhistogram
  have hcounter : CollectEnds next .counter := hcollect fun _ hk => by
    cases hk
    exact hgauge
  cases kind with
  | counter => exact hcounter
  | gauge => exact hgauge
  | histogram => exact hhistogram

theorem ready_ends (program : Program) : (Thread.ready program).Ends := by
  induction program with
  | done => exact .intro fun _ h => h.elim
  | register registration next ih =>
    refine .intro ?_
    rintro _ rfl
    exact get_ends ih
  | record handle call next ih =>
    refine .intro ?_
    rintro _ (rfl | rfl)
    · exact record_ends ih
    · exact ih
  | collect next ih =>
    refine .intro ?_
    rintro _ rfl
    exact collect_ends ih .counter []

theorem thread_ends (thread : Thread) : thread.Ends := by
  have hnext {next : List MetricSnapshot → Program} : ∀ snapshots,
      (Thread.ready (next snapshots)).Ends := fun _ => ready_ends _
  have hvisit {kind : Kind} {next : List MetricSnapshot → Program} (rest : List Nat)
      (snapshots : List MetricSnapshot) : (Thread.visit kind rest snapshots next).Ends :=
    visit_ends hnext (fun kind' _ => collect_ends hnext kind') rest snapshots
  cases thread with
  | ready program => exact ready_ends program
  | get => exact get_ends fun _ => ready_ends _
  | got => exact got_ends fun _ => ready_ends _
  | entry => exact entry_ends fun _ => ready_ends _
  | inserting => exact inserting_ends fun _ => ready_ends _
  | record => exact record_ends (ready_ends _)
  | recording => exact recording_ends (ready_ends _)
  | print => exact print_ends (ready_ends _)
  | printing => exact printing_ends (ready_ends _)
  | onEvent => exact onEvent_ends (ready_ends _)
  | reading => exact reading_ends (ready_ends _)
  | send => exact send_ends (ready_ends _)
  | collect kind snapshots => exact collect_ends hnext kind snapshots
  | visit kind rest snapshots => exact hvisit rest snapshots
  | lock => exact lock_ends (hvisit _)
  | visiting => exact visiting_ends (hvisit _)
  | panicked => exact panicked_ends

-- ---------------------------------------------------------------------------
-- All of them finish
-- ---------------------------------------------------------------------------

theorem finished_moves (h : thread.finished) : ¬ thread.Moves moved := by
  intro hm
  cases thread with
  | ready program =>
    cases program with
    | done => exact hm
    | _ => cases h
  | panicked => exact hm
  | _ => cases h

/-- Who panicked met a poisoned mutex or has left one behind. -/
def State.PanicsPoisoned (s : State) : Prop := .panicked ∈ s.threads → s.poisoned ≠ []

theorem event_ne_panicked (handle : Nat) (warning : OverflowWarning) (next : Program) :
    s.event subscriber i now handle warning next ≠ .panicked := by
  unfold State.event
  intro h
  split at h
  · cases h
  · split at h <;> cases h

theorem recorded_ne_panicked (handle : Nat) (warning : Option OverflowWarning) (next : Program) :
    s.recorded subscriber i now handle warning next ≠ .panicked := by
  unfold State.recorded
  intro h
  split at h
  · cases h
  · split at h
    · cases h
    · split at h
      · cases h
      · exact event_ne_panicked _ _ _ h

theorem insert_poisoned (registration : Metrics.Registration) (next : Nat → Program) :
    (s.insert i registration next).poisoned = s.poisoned := by
  unfold State.insert
  dsimp only
  split <;> rfl

theorem Advanced.poisoned (h : Advanced subscriber s i now thread t) :
    t.poisoned ≠ [] ∨ t.poisoned = s.poisoned ∧ ∃ moved,
      t.threads = s.threads.set i moved ∧ moved ≠ .panicked := by
  cases h with
  | insert =>
    obtain ⟨handle, hthreads⟩ := insert_threads (s := s) (i := i) _ _
    exact .inr ⟨insert_poisoned _ _, _, hthreads, fun h => by cases h⟩
  | recorded => exact .inr ⟨rfl, _, rfl, recorded_ne_panicked _ _ _⟩
  | printed => exact .inr ⟨rfl, _, rfl, event_ne_panicked _ _ _⟩
  | unencoded => exact .inl (List.cons_ne_nil _ _)
  | recordPoisoned hp | visitPoisoned hp => exact .inl (List.ne_nil_of_mem hp)
  | _ => exact .inr ⟨rfl, _, rfl, fun h => by cases h⟩

theorem step_panicsPoisoned (h : step subscriber action s = some t) (hs : s.PanicsPoisoned) :
    t.PanicsPoisoned := by
  have hset {i : Nat} {moved : Thread} (hthreads : t.threads = s.threads.set i moved)
      (hpoisoned : t.poisoned = s.poisoned) (hmoved : moved ≠ .panicked) : t.PanicsPoisoned := by
    intro hm
    rw [hthreads] at hm
    rw [hpoisoned]
    obtain hm | heq := List.mem_or_eq_of_mem_set hm
    · exact hs hm
    · exact absurd heq.symm hmoved
  cases step_stepped h with
  | advance hi ha =>
    obtain hne | ⟨hsame, moved, hthreads, hmoved⟩ := ha.poisoned
    · exact fun _ => hne
    · exact hset hthreads hsame hmoved
  | @acquire i thread wanted hi hw hg =>
    refine hset rfl rfl fun heq => ?_
    have hheld := acquire_held hw s.registry
    rw [heq] at hheld
    cases hheld
  | next => exact hset rfl rfl fun h => by cases h
  | exporter => exact hs

theorem reachable_panicsPoisoned (hr : (metricsLocks subscriber defaultMax).Reachable s) :
    s.PanicsPoisoned := by
  refine hr.invariant ?_ fun _ _ _ _ hs ht => step_panicsPoisoned ht hs
  rintro _ ⟨programs, tracing, exporter, rfl⟩ hm
  obtain ⟨program, -, h⟩ := List.mem_map.mp hm
  cases h

theorem not_enabled_of_finished (h : ∀ thread ∈ s.threads, thread.finished) :
    ¬ (metricsLocks subscriber defaultMax).Enabled (·.thread.isSome) s := by
  rintro ⟨action, hthread, hstep⟩
  obtain ⟨t, ht⟩ := Option.isSome_iff_exists.mp hstep
  obtain ⟨i, thread, moved, -, hi, -, hmoves⟩ | ⟨hnone, -⟩ := step_moves ht
  · exact finished_moves (h thread (List.mem_of_getElem? hi)) hmoves
  · dsimp only at hthread
    rw [hnone] at hthread
    cases hthread

/-- If no thread can go on without passing a waiting writer, all are finished. -/
theorem finished_of_stuck (hinv : s.Inv) (hstuck : ∀ action t, action.thread.isSome →
    step subscriber action s = some t → s.HeldUp action) :
    ∀ thread ∈ s.threads, thread.finished := by
  by_contra hnot
  have hunfinished : ∃ thread ∈ s.threads, thread.finished = false := by simpa using hnot
  have hwaits : ∀ thread ∈ s.threads, thread.finished = false → thread.use.wants ≠ none := by
    intro thread hm hf hw
    obtain ⟨i, hi⟩ := List.getElem?_of_mem hm
    obtain ⟨action, t, ha, ht, hup⟩ := exists_advance subscriber hinv hi hf hw
    exact hup (hstuck action t (by rw [ha]; rfl) ht)
  obtain ⟨thread, hm, lock, mode, hw, hg, hup⟩ := exists_waiting hunfinished hwaits
  obtain ⟨i, hi⟩ := List.getElem?_of_mem hm
  obtain ⟨j, waiting, wanted, hj, hwaiting, hwanted, hheld⟩ :=
    hstuck (.acquire i) _ rfl (exists_acquire subscriber hi hw hg)
  cases hj
  obtain rfl := Option.some.inj (hi.symm.trans hwaiting)
  obtain rfl := Option.some.inj (hw.symm.trans hwanted)
  exact hup hheld

theorem finished_done (hr : (metricsLocks subscriber defaultMax).Reachable s)
    (hm : thread ∈ s.threads) (h : thread.finished) :
    thread = .ready .done ∨ thread = .panicked ∧ s.poisoned ≠ [] := by
  cases thread with
  | ready program =>
    cases program with
    | done => exact .inl rfl
    | _ => cases h
  | panicked => exact .inr ⟨rfl, reachable_panicsPoisoned hr hm⟩
  | _ => cases h

theorem threads_cease (r : (metricsLocks subscriber defaultMax).Run) :
    ∃ n, ¬ r.Takes (·.thread.isSome) n := by
  -- all threads together descend as a multiset, whose order is well-founded
  have hwf : WellFounded (Relation.CutExpand fun moved thread : Thread => thread.Moves moved) :=
    WellFounded.cutExpand ⟨thread_ends⟩
  refine r.ceases hwf (fun s => (s.threads : Multiset Thread)) ?_ ?_
  · intro action s t ht hthread
    obtain ⟨i, thread, moved, -, hi, hthreads, hmoves⟩ | ⟨hnone, -⟩ := step_moves ht
    · rw [hthreads]
      exact Machine.cutExpand_set hi hmoves
    · rw [hnone] at hthread
      cases hthread
  · intro action s t ht hthread
    obtain ⟨i, thread, moved, hsome, -⟩ | ⟨-, hthreads⟩ := step_moves ht
    · rw [hsome] at hthread
      cases hthread
    · rw [hthreads]

end

/-- Whatever the calls of the threads are and however their steps interleave, each thread
takes finitely many of them: from some moment on only the exporter does anything. -/
theorem steps_cease (subscriber : Subscriber) (defaultMax : Nat)
    (r : (metricsLocks subscriber defaultMax).Run) :
    ∃ n, ∀ m, n ≤ m → ∀ action, r.actions m = some action → action.thread = none := by
  obtain ⟨n, hn⟩ := threads_cease r
  refine ⟨n, fun m hm action ha => ?_⟩
  by_contra hthread
  exact hn ⟨m, hm, action, ha, Option.isSome_iff_ne_none.mpr hthread⟩

/-- Some thread takes a step, if one of them always can without passing a waiting writer. -/
def Lively (r : (metricsLocks subscriber defaultMax).Run) : Prop :=
  ∀ n, (∀ m, n ≤ m → ∃ action, action.thread.isSome ∧ ¬ (r.states m).HeldUp action ∧
    (step subscriber action (r.states m)).isSome) → r.Takes (·.thread.isSome) n

/-- Less than fairness, which does not mind the waiting writers. -/
theorem lively_of_fair {r : (metricsLocks subscriber defaultMax).Run}
    (h : r.Fair (·.thread.isSome)) : Lively r := by
  intro n hen
  refine h n fun m hm => ?_
  obtain ⟨action, hthread, -, hstep⟩ := hen m hm
  exact ⟨action, hthread, hstep⟩

/-- The calls of all threads return: from some moment on every thread is done, unless it
panicked at a mutex that a warning poisoned. -/
theorem threads_finish {r : (metricsLocks subscriber defaultMax).Run} (hlively : Lively r) :
    ∃ n, ∀ m, n ≤ m → ∀ thread ∈ (r.states m).threads,
      thread = .ready .done ∨ thread = .panicked ∧ (r.states m).poisoned ≠ [] := by
  obtain ⟨n, hn⟩ := threads_cease r
  obtain ⟨m, -, hstuck⟩ : ∃ m, n ≤ m ∧ ¬ ∃ action : Action, action.thread.isSome ∧
      ¬ (r.states m).HeldUp action ∧ (step subscriber action (r.states m)).isSome := by
    by_contra hnot
    refine hn (hlively n fun m hm => ?_)
    by_contra hno
    exact hnot ⟨m, hm, hno⟩
  have hheld : ∀ action t, action.thread.isSome →
      step subscriber action (r.states m) = some t → (r.states m).HeldUp action := by
    intro action t hthread ht
    by_contra hup
    exact hstuck ⟨action, hthread, hup, by rw [ht]; rfl⟩
  have hfinished := finished_of_stuck (reachable_inv (r.reachable m)) hheld
  have hstable : (metricsLocks subscriber defaultMax).Stable
      fun s => ∀ thread ∈ s.threads, thread.finished := by
    intro action s t _ hs ht
    obtain ⟨i, thread, moved, -, hi, -, hmoves⟩ | ⟨-, hthreads⟩ := step_moves ht
    · exact absurd hmoves (finished_moves (hs thread (List.mem_of_getElem? hi)))
    · rw [hthreads]
      exact hs
  refine ⟨m, fun k hk thread hm => ?_⟩
  exact finished_done (r.reachable k) hm (hstable.later hfinished hk thread hm)

/-- After `warningRun`, one thread after another to its end. -/
def finishingRun : List Action :=
  warningRun ++ [.acquire 0, .advance 0 0, .advance 0 0, .acquire 1, .advance 1 0, .advance 1 0,
    .acquire 1, .advance 1 0, .acquire 1, .advance 1 0, .acquire 2, .advance 2 0, .acquire 3,
    .advance 3 0, .acquire 3, .advance 3 0]

theorem threads_finish_finishingRun : ∃ r : (metricsLocks warningSubscriber 10).Run,
    (r.states 0).threads = warningPrograms.map .ready ∧
    ∃ n, ∀ m, n ≤ m → ∀ thread ∈ (r.states m).threads,
      thread = .ready .done ∨ thread = .panicked ∧ (r.states m).poisoned ≠ [] := by
  let first := start 10 warningPrograms { entered := [[], [], [], []] } { pool := { permits := 4 } }
  have hinit : (metricsLocks warningSubscriber 10).init first := ⟨_, _, _, rfl⟩
  obtain ⟨t, ht, hall⟩ := Option.map_eq_some_iff.mp
    (show ((metricsLocks warningSubscriber 10).run finishingRun first).map
      (fun t => t.threads.all (·.finished)) = some true by decide +kernel)
  have hfinished : ∀ thread ∈ t.threads, thread.finished := List.all_eq_true.mp hall
  refine ⟨.resting hinit ht, ?_, threads_finish (lively_of_fair (Machine.Run.resting_fair ?_).fair)⟩
  · rfl
  · exact not_enabled_of_finished hfinished

end Rolly.Locking
