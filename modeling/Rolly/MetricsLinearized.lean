import Rolly.MetricsThreads
import Rolly.MetricsLaws

/-!
# Any interleaving is a history of whole calls

The history of an instrument is what the log says about its handle. Whatever
the threads do, the instrument is what the call that inserted it created, after
its history; and what a collect reads is that too.
-/

namespace Rolly.Metrics

-- ---------------------------------------------------------------------------
-- Histories
-- ---------------------------------------------------------------------------

/-- The critical section on `handle` that an event stands for. -/
def Event.section? (handle : Nat) : Event → Option InstrumentEvent
  | .recorded _ other call => if other = handle then some (.record call) else none
  | .read _ other _ => if other = handle then some .collect else none
  | _ => none

/-- The critical sections of one instrument, oldest first. -/
def sectionsOf (handle : Nat) (log : List Event) : List InstrumentEvent :=
  (log.filterMap (·.section? handle)).reverse

theorem sectionsOf_cons : sectionsOf handle (event :: log) =
    sectionsOf handle log ++ (event.section? handle).toList := by
  cases h : event.section? handle <;> simp [sectionsOf, h]

theorem sectionsOf_cons_none (h : event.section? handle = none) :
    sectionsOf handle (event :: log) = sectionsOf handle log := by
  simp [sectionsOf_cons, h]

-- ---------------------------------------------------------------------------
-- What a step can do
-- ---------------------------------------------------------------------------

inductive Stepped (s : State) : Action → State → Prop
  | register (hpc : s.threads[thread]? = some .idle) :
      Stepped s (.register thread registration) (s.move thread (.get registration))
  | record (hpc : s.threads[thread]? = some .idle)
      (hh : s.isHandle call.measurement.kind handle) :
      Stepped s (.record thread handle call) (s.move thread (.record handle call))
  | collect (hpc : s.threads[thread]? = some .idle) :
      Stepped s (.collect thread) (s.move thread (.collect .counter []))
  | get (hpc : s.threads[thread]? = some (.get registration)) :
      Stepped s (.acquire thread) (s.get thread registration)
  | entry (hpc : s.threads[thread]? = some (.entry registration))
      (hr : ¬ s.reading registration.kind) :
      Stepped s (.acquire thread) (s.entry thread registration)
  | recorded (hpc : s.threads[thread]? = some (.record handle call)) :
      Stepped s (.acquire thread) (s.record thread handle call)
  | lock (hpc : s.threads[thread]? = some (.collect kind snapshots)) :
      Stepped s (.acquire thread)
        (s.move thread (.visit kind ((s.registry.handles kind).map (·.2)) snapshots))
  | visit (hpc : s.threads[thread]? = some (.visit kind rest snapshots)) (hm : handle ∈ rest)
      (hi : s.registry.instruments[handle]? = some instrument) :
      Stepped s (.visit thread handle)
        (({ s with registry := (s.registry.collectOne handle).2 }.move thread
          (.visit kind (rest.erase handle) (snapshots ++ instrument.collect.1.toList))).note
          (.read thread handle instrument))
  | next (hpc : s.threads[thread]? = some (.visit kind [] snapshots))
      (hk : kind.next = some next) :
      Stepped s (.release thread) (s.move thread (.collect next snapshots))
  | returned (hpc : s.threads[thread]? = some (.visit .histogram [] snapshots)) :
      Stepped s (.release thread)
        ((s.move thread .idle).note (.collected thread snapshots))

theorem step_stepped {s t : State} (h : step action s = some t) : Stepped s action t := by
  cases action with
  | register thread registration =>
    simp only [step] at h
    split at h
    · cases h
      exact .register ‹_›
    · cases h
  | record thread handle call =>
    simp only [step] at h
    split at h
    · split at h
      · cases h
        exact .record ‹_› ‹_›
      · cases h
    · cases h
  | collect thread =>
    simp only [step] at h
    split at h
    · cases h
      exact .collect ‹_›
    · cases h
  | acquire thread =>
    simp only [step] at h
    split at h
    · cases h
      exact .get ‹_›
    · split at h
      · cases h
      · cases h
        exact .entry ‹_› ‹_›
    · cases h
      exact .recorded ‹_›
    · cases h
      exact .lock ‹_›
    · cases h
  | visit thread handle =>
    simp only [step] at h
    split at h
    · split at h
      · unfold State.visit at h
        split at h
        · cases h
        · rename_i hi
          have hc : (s.registry.collectOne handle).1 = _ := MetricsRegistry.collectOne_fst
          simp only [hc, hi, Option.bind_some, Option.some.injEq] at h
          subst h
          exact .visit ‹_› ‹_› hi
      · cases h
    · cases h
  | release thread =>
    simp only [step] at h
    split at h
    · rename_i kind snapshots hpc
      split at h
      · cases h
        exact .next hpc ‹_›
      · cases h
        cases kind with
        | histogram => exact .returned hpc
        | counter => cases ‹Kind.next .counter = none›
        | gauge => cases ‹Kind.next .gauge = none›
    · cases h

/-- What a step does to the registry and the log. -/
inductive Moved (s t : State) : Prop
  | quiet : t.registry = s.registry → t.log = s.log → Moved s t
  | found : s.registry.get registration.kind registration.name = some handle →
      t.registry = s.registry →
      t.log = .returned thread registration handle :: s.log → Moved s t
  | inserted : s.registry.get registration.kind registration.name = none →
      t.registry = s.registry.push registration.kind registration.name
        (registration.instrument s.registry.defaultMaxCardinality) →
      t.log = .returned thread registration s.registry.instruments.length ::
        .inserted thread registration s.registry.instruments.length :: s.log → Moved s t
  | recorded : .record handle call ∈ s.threads →
      t.registry = s.registry.act handle (.record call) →
      t.log = .recorded thread handle call :: s.log → Moved s t
  | read : s.registry.instruments[handle]? = some instrument →
      t.registry = s.registry.act handle .collect →
      t.log = .read thread handle instrument :: s.log → Moved s t
  | collected : t.registry = s.registry →
      t.log = .collected thread snapshots :: s.log → Moved s t

/-- A record call waits only for an instrument that it has a handle of. -/
def RecordsHandles (s t : State) : Prop :=
  ∀ handle call, .record handle call ∈ t.threads →
    .record handle call ∈ s.threads ∨ s.isHandle call.measurement.kind handle

theorem recordsHandles_move {s t : State} (h : t.threads = (s.move thread pc).threads)
    (hpc : ∀ handle call, pc = .record handle call → s.isHandle call.measurement.kind handle) :
    RecordsHandles s t := by
  intro handle call hmem
  rw [h, State.move] at hmem
  obtain hmem | heq := List.mem_or_eq_of_mem_set hmem
  · exact .inl hmem
  · exact .inr (hpc handle call heq.symm)

theorem entry_moved (s : State) : Moved s (s.entry thread registration) := by
  cases hg : s.registry.get registration.kind registration.name with
  | some handle =>
    have hlog : (s.entry thread registration).log =
        .returned thread registration handle :: s.log := by
      simp [State.entry, MetricsRegistry.entry_of_some _ _ _ hg, hg, State.note, State.move]
    refine .found hg ?_ hlog
    simp [State.entry, MetricsRegistry.entry_of_some _ _ _ hg, hg, State.note, State.move]
  | none =>
    have hlog : (s.entry thread registration).log =
        .returned thread registration s.registry.instruments.length ::
          .inserted thread registration s.registry.instruments.length :: s.log := by
      simp [State.entry, MetricsRegistry.entry_of_none _ _ _ hg, hg, State.note, State.move]
    refine .inserted hg ?_ hlog
    simp [State.entry, MetricsRegistry.entry_of_none _ _ _ hg, hg, State.note, State.move]

theorem entry_threads (s : State) :
    (s.entry thread registration).threads = (s.move thread .idle).threads := by
  unfold State.entry
  dsimp only
  split <;> rfl

theorem step_cases (h : step action s = some t) : Moved s t ∧ RecordsHandles s t := by
  cases step_stepped h with
  | register | collect | lock | next =>
    exact ⟨.quiet rfl rfl, recordsHandles_move rfl (by rintro _ _ ⟨⟩)⟩
  | record _ hh =>
    refine ⟨.quiet rfl rfl, recordsHandles_move rfl ?_⟩
    rintro _ _ ⟨⟩
    exact hh
  | get =>
    unfold State.get
    split
    · next hg => exact ⟨.found hg rfl rfl, recordsHandles_move rfl (by rintro _ _ ⟨⟩)⟩
    · exact ⟨.quiet rfl rfl, recordsHandles_move rfl (by rintro _ _ ⟨⟩)⟩
  | entry =>
    exact ⟨entry_moved s, recordsHandles_move (entry_threads s) (by rintro _ _ ⟨⟩)⟩
  | recorded hpc =>
    exact ⟨.recorded (List.mem_of_getElem? hpc) MetricsRegistry.record_fst rfl,
      recordsHandles_move rfl (by rintro _ _ ⟨⟩)⟩
  | visit _ _ hi =>
    exact ⟨.read hi MetricsRegistry.collectOne_snd rfl,
      recordsHandles_move rfl (by rintro _ _ ⟨⟩)⟩
  | returned => exact ⟨.collected rfl rfl, recordsHandles_move rfl (by rintro _ _ ⟨⟩)⟩

-- ---------------------------------------------------------------------------
-- The registry and its log
-- ---------------------------------------------------------------------------

/-- The registry is what the log tells. -/
structure Told (defaultMax : Nat) (registry : MetricsRegistry) (log : List Event) : Prop where
  limit : registry.defaultMaxCardinality = defaultMax
  wellNamed : registry.WellNamed
  returned : .returned thread registration handle ∈ log →
    registry.keys[handle]? = some registration.key
  inserted : .inserted thread registration handle ∈ log → registry.instruments[handle]? =
    some ((registration.instrument defaultMax).replay (sectionsOf handle log))
  once : .inserted thread registration handle ∈ log → .inserted thread' registration' handle ∈ log →
    registration = registration'
  origin : handle < registry.instruments.length →
    ∃ thread registration, .inserted thread registration handle ∈ log
  untouched : registry.instruments.length ≤ handle → sectionsOf handle log = []
  reads : .read thread handle instrument :: earlier <:+ log → ∃ thread' registration,
    .inserted thread' registration handle ∈ earlier ∧
      instrument = (registration.instrument defaultMax).replay (sectionsOf handle earlier)

theorem told_start : Told defaultMax (.withMaxCardinality defaultMax) [] where
  limit := rfl
  wellNamed := MetricsRegistry.wellNamed_withMaxCardinality
  returned := nofun
  inserted := nofun
  once := nofun
  origin := nofun
  untouched _ := rfl
  reads h := by simpa using h.length_le

section
variable {registry registry' : MetricsRegistry} {log : List Event}

theorem Told.cons (h : Told defaultMax registry log)
    (hlimit : registry'.defaultMaxCardinality = registry.defaultMaxCardinality)
    (hkeys : registry'.keys = registry.keys) (hnamed : registry'.WellNamed)
    (hrun : ∀ handle : Nat, registry'.instruments[handle]? = registry.instruments[handle]?.map
      fun instrument => instrument.replay (event.section? handle).toList)
    (huntouched : ∀ handle, registry.instruments.length ≤ handle → event.section? handle = none)
    (hinserted : ∀ thread registration handle, event ≠ .inserted thread registration handle)
    (hreturned : ∀ thread registration handle, event = .returned thread registration handle →
      registry.keys[handle]? = some registration.key)
    (hread : ∀ thread handle instrument, event = .read thread handle instrument →
      registry.instruments[handle]? = some instrument) :
    Told defaultMax registry' (event :: log) where
  limit := hlimit.trans h.limit
  wellNamed := hnamed
  returned hm := by
    rw [hkeys]
    obtain heq | hm := List.mem_cons.mp hm
    · exact hreturned _ _ _ heq.symm
    · exact h.returned hm
  inserted hm := by
    obtain heq | hm := List.mem_cons.mp hm
    · exact absurd heq.symm (hinserted _ _ _)
    · rw [hrun, h.inserted hm, Option.map_some, sectionsOf_cons]
      simp [Instrument.replay, List.foldl_append]
  once hm hm' := by
    obtain heq | hm := List.mem_cons.mp hm
    · exact absurd heq.symm (hinserted _ _ _)
    obtain heq | hm' := List.mem_cons.mp hm'
    · exact absurd heq.symm (hinserted _ _ _)
    exact h.once hm hm'
  origin {handle} hlt := by
    have hlen : registry'.instruments.length = registry.instruments.length := by
      simpa [MetricsRegistry.keys] using congrArg List.length hkeys
    obtain ⟨thread, registration, hm⟩ := h.origin (hlen ▸ hlt)
    exact ⟨thread, registration, List.mem_cons_of_mem _ hm⟩
  untouched {handle} hle := by
    have hlen : registry'.instruments.length = registry.instruments.length := by
      simpa [MetricsRegistry.keys] using congrArg List.length hkeys
    rw [sectionsOf_cons_none (huntouched handle (hlen ▸ hle)), h.untouched (hlen ▸ hle)]
  reads hs := by
    obtain heq | hs := List.suffix_cons_iff.mp hs
    · obtain ⟨rfl, rfl⟩ := List.cons.inj heq
      have hi := hread _ _ _ rfl
      obtain ⟨hlt, -⟩ := List.getElem?_eq_some_iff.mp hi
      obtain ⟨thread', registration, hm⟩ := h.origin hlt
      exact ⟨thread', registration, hm, Option.some.inj (hi.symm.trans (h.inserted hm))⟩
    · exact h.reads hs

theorem Told.push (h : Told defaultMax registry log)
    (hn : registry.get registration.kind registration.name = none) :
    Told defaultMax
      (registry.push registration.kind registration.name (registration.instrument defaultMax))
      (.inserted thread registration registry.instruments.length :: log) where
  limit := by rw [MetricsRegistry.push_default, h.limit]
  wellNamed := h.wellNamed.push _ _ _ hn (by simp [Registration.key])
  returned hm := by
    obtain heq | hm := List.mem_cons.mp hm
    · cases heq
    obtain ⟨hlt, -⟩ := List.getElem?_eq_some_iff.mp (h.returned hm)
    rw [MetricsRegistry.push_keys, List.getElem?_append_left hlt, h.returned hm]
  inserted {_ _ handle} hm := by
    rw [sectionsOf_cons_none rfl, MetricsRegistry.push_instruments]
    obtain heq | hm := List.mem_cons.mp hm
    · obtain ⟨rfl, rfl, rfl⟩ := Event.inserted.inj heq
      rw [h.untouched le_rfl, List.getElem?_concat_length]
      rfl
    · obtain ⟨hlt, -⟩ := List.getElem?_eq_some_iff.mp (h.inserted hm)
      rw [List.getElem?_append_left hlt, h.inserted hm]
  once := by
    have hold {thread other} : .inserted thread other registry.instruments.length ∉ log := by
      intro hm
      obtain ⟨hlt, -⟩ := List.getElem?_eq_some_iff.mp (h.inserted hm)
      exact absurd hlt (Nat.lt_irrefl _)
    intro _ _ _ _ _ hm hm'
    obtain heq | hl := List.mem_cons.mp hm
    · obtain ⟨rfl, rfl, rfl⟩ := Event.inserted.inj heq
      obtain heq | hl' := List.mem_cons.mp hm'
      · exact (Event.inserted.inj heq).2.1.symm
      · exact absurd hl' hold
    · obtain heq | hl' := List.mem_cons.mp hm'
      · obtain ⟨rfl, rfl, rfl⟩ := Event.inserted.inj heq
        exact absurd hl hold
      · exact h.once hl hl'
  origin {handle} hlt := by
    rw [MetricsRegistry.push_instruments, List.length_append, List.length_singleton] at hlt
    obtain hlt | rfl := Nat.lt_succ_iff_lt_or_eq.mp hlt
    · obtain ⟨thread, registration, hm⟩ := h.origin hlt
      exact ⟨thread, registration, List.mem_cons_of_mem _ hm⟩
    · exact ⟨_, _, List.mem_cons_self⟩
  untouched hle := by
    rw [MetricsRegistry.push_instruments, List.length_append] at hle
    rw [sectionsOf_cons_none rfl, h.untouched (Nat.le_of_add_right_le hle)]
  reads hs := by
    obtain heq | hs := List.suffix_cons_iff.mp hs
    · cases heq
    · exact h.reads hs

theorem Told.act (h : Told defaultMax registry log) (hlt : handle < registry.instruments.length)
    (hsection : ∀ other, event.section? other = if handle = other then some section' else none)
    (hinserted : ∀ thread registration handle, event ≠ .inserted thread registration handle)
    (hreturned : ∀ thread registration handle, event ≠ .returned thread registration handle)
    (hread : ∀ thread handle instrument, event = .read thread handle instrument →
      registry.instruments[handle]? = some instrument) :
    Told defaultMax (registry.act handle section') (event :: log) := by
  refine h.cons rfl MetricsRegistry.act_keys h.wellNamed.act ?_ ?_ hinserted
    (fun _ _ _ heq => absurd heq (hreturned _ _ _)) hread
  · intro other
    rw [MetricsRegistry.act_getElem?, hsection]
    split
    · rfl
    · simp [Instrument.replay]
  · intro other hle
    rw [hsection, if_neg]
    rintro rfl
    exact absurd hlt (Nat.not_lt.mpr hle)

theorem Told.neutral (h : Told defaultMax registry log)
    (hsection : ∀ other, event.section? other = none)
    (hinserted : ∀ thread registration handle, event ≠ .inserted thread registration handle)
    (hreturned : ∀ thread registration handle, event = .returned thread registration handle →
      registry.keys[handle]? = some registration.key)
    (hread : ∀ thread handle instrument, event ≠ .read thread handle instrument) :
    Told defaultMax registry (event :: log) := by
  refine h.cons rfl rfl h.wellNamed ?_ (fun _ _ => hsection _) hinserted hreturned
    (fun _ _ _ heq => absurd heq (hread _ _ _))
  intro handle
  simp [hsection, Instrument.replay]

end

-- ---------------------------------------------------------------------------
-- Runs
-- ---------------------------------------------------------------------------

structure State.Inv (defaultMax : Nat) (s : State) : Prop where
  told : Told defaultMax s.registry s.log
  threads : .record handle call ∈ s.threads → handle < s.registry.instruments.length

theorem Told.lt_of_returned (h : Told defaultMax registry log)
    (hm : .returned thread registration handle ∈ log) :
    handle < registry.instruments.length := by
  obtain ⟨hlt, -⟩ := List.getElem?_eq_some_iff.mp (h.returned hm)
  simpa [MetricsRegistry.keys] using hlt

theorem isHandle_iff {s : State} : s.isHandle kind handle ↔
    ∃ thread registration, .returned thread registration handle ∈ s.log ∧
      registration.kind = kind := by
  simp only [State.isHandle, List.any_eq_true]
  constructor
  · rintro ⟨event, hm, he⟩
    split at he
    · next thread registration returned =>
      simp only [Bool.and_eq_true, decide_eq_true_eq] at he
      obtain ⟨hk, rfl⟩ := he
      exact ⟨thread, registration, hm, hk⟩
    · cases he
  · rintro ⟨thread, registration, hm, hk⟩
    exact ⟨_, hm, by simp [hk]⟩

theorem Moved.told {s t : State} (hm : Moved s t) (hi : s.Inv defaultMax) :
    Told defaultMax t.registry t.log := by
  have h := hi.told
  cases hm with
  | quiet hr hl => rw [hr, hl]; exact h
  | found hg hr hl =>
    rw [hr, hl]
    refine h.neutral (fun _ => rfl) ?_ ?_ ?_
    · rintro _ _ _ ⟨⟩
    · rintro _ _ _ ⟨⟩
      exact (MetricsRegistry.get_eq_some h.wellNamed).mp hg
    · rintro _ _ _ ⟨⟩
  | inserted hn hr hl =>
    rw [hr, hl, h.limit]
    refine (h.push hn).neutral (fun _ => rfl) ?_ ?_ ?_
    · rintro _ _ _ ⟨⟩
    · rintro _ _ _ ⟨⟩
      rw [MetricsRegistry.push_keys, instrument_descriptor, descriptor_key]
      simp [MetricsRegistry.keys]
    · rintro _ _ _ ⟨⟩
  | recorded hpc hr hl =>
    rw [hr, hl]
    refine h.act (hi.threads hpc) (fun other => rfl) ?_ ?_ ?_ <;> rintro _ _ _ ⟨⟩
  | read hinstrument hr hl =>
    rw [hr, hl]
    obtain ⟨hlt, -⟩ := List.getElem?_eq_some_iff.mp hinstrument
    refine h.act hlt (fun _ => rfl) ?_ ?_ ?_
    · rintro _ _ _ ⟨⟩
    · rintro _ _ _ ⟨⟩
    · rintro _ _ _ ⟨⟩
      exact hinstrument
  | collected hr hl =>
    rw [hr, hl]
    refine h.neutral (fun _ => rfl) ?_ ?_ ?_ <;> rintro _ _ _ ⟨⟩

theorem Moved.length_le {s t : State} (hm : Moved s t) :
    s.registry.instruments.length ≤ t.registry.instruments.length := by
  cases hm with
  | inserted _ hr _ => simp [hr]
  | recorded _ hr _ => simp [hr, MetricsRegistry.act]
  | read _ hr _ => simp [hr, MetricsRegistry.act]
  | quiet hr _ => simp [hr]
  | found _ hr _ => simp [hr]
  | collected hr _ => simp [hr]

theorem Moved.log_suffix {s t : State} (hm : Moved s t) : s.log <:+ t.log := by
  cases hm with
  | quiet _ hl => exact hl ▸ List.suffix_rfl
  | inserted _ _ hl => rw [hl]; exact (List.suffix_cons _ _).trans (List.suffix_cons _ _)
  | found _ _ hl => rw [hl]; exact List.suffix_cons _ _
  | recorded _ _ hl => rw [hl]; exact List.suffix_cons _ _
  | read _ _ hl => rw [hl]; exact List.suffix_cons _ _
  | collected _ hl => rw [hl]; exact List.suffix_cons _ _

theorem step_inv {s t : State} (h : step action s = some t) (hi : s.Inv defaultMax) :
    t.Inv defaultMax := by
  obtain ⟨hm, hthreads⟩ := step_cases h
  refine ⟨hm.told hi, ?_⟩
  intro handle call hmem
  refine lt_of_lt_of_le ?_ hm.length_le
  obtain hold | hh := hthreads handle call hmem
  · exact hi.threads hold
  · obtain ⟨_, _, hret, _⟩ := isHandle_iff.mp hh
    exact hi.told.lt_of_returned hret

theorem inv_start : (start defaultMax threads).Inv defaultMax where
  told := told_start
  threads h := nomatch List.eq_of_mem_replicate h

theorem reachable_inv (h : (sharedRegistry defaultMax).Reachable s) : s.Inv defaultMax := by
  refine h.invariant ?_ fun action s t _ hi ht => step_inv ht hi
  rintro _ ⟨threads, rfl⟩
  exact inv_start

theorem run_log_suffix (h : (sharedRegistry defaultMax).run actions s = some t) :
    s.log <:+ t.log :=
  Machine.run_of_steps (R := fun s t => s.log <:+ t.log) (fun _ => List.suffix_rfl)
    (fun _ _ _ => List.IsSuffix.trans) (fun _ _ _ ht => (step_cases ht).1.log_suffix) h

/-- What the threads of a run see is what some order of whole calls would show
them: the order of their critical sections. -/
structure Linearized (defaultMax : Nat) (s : State) : Prop where
  /-- One kind and name is one instrument, -/
  sameHandle : .returned thread₁ r₁ handle₁ ∈ s.log → .returned thread₂ r₂ handle₂ ∈ s.log →
    r₁.key = r₂.key → handle₁ = handle₂
  /-- inserted by one call, whose description, boundaries and limit it has. -/
  inserted : .returned thread r handle ∈ s.log → ∃ thread₀ r₀ instrument,
    .inserted thread₀ r₀ handle ∈ s.log ∧
    (∀ thread' r', .inserted thread' r' handle ∈ s.log → r' = r₀) ∧
    r₀.key = r.key ∧ s.registry.instruments[handle]? = some instrument ∧
    instrument.descriptor = r₀.descriptor defaultMax
  /-- A collect reads the outcome of the sections that came before, where the
  earlier collects took exemplars and the record calls did all the rest. -/
  reads : .read thread handle instrument :: earlier <:+ s.log → ∃ thread₀ r₀,
    .inserted thread₀ r₀ handle ∈ earlier ∧
    instrument = (r₀.instrument defaultMax).replay (sectionsOf handle earlier) ∧
    instrument.values = ((r₀.instrument defaultMax).replay
      ((sectionsOf handle earlier).filter (·.isRecord))).values

theorem State.Inv.linearized {s : State} (hi : s.Inv defaultMax) : Linearized defaultMax s where
  sameHandle h₁ h₂ hkey := by
    have h₁ := hi.told.returned h₁
    have h₂ := hi.told.returned h₂
    rw [← hkey] at h₂
    obtain ⟨hlt, -⟩ := List.getElem?_eq_some_iff.mp h₁
    exact (List.getElem?_inj hlt hi.told.wellNamed.nodup).mp (h₁.trans h₂.symm)
  inserted hret := by
    obtain ⟨thread, r₀, hins⟩ := hi.told.origin (hi.told.lt_of_returned hret)
    have hinstrument := hi.told.inserted hins
    refine ⟨thread, r₀, _, hins, fun _ _ h => hi.told.once h hins, ?_, hinstrument, by simp⟩
    have hkey := hi.told.returned hret
    simpa [MetricsRegistry.keys, hinstrument] using hkey
  reads hs := by
    obtain ⟨thread, r₀, hins, rfl⟩ := hi.told.reads hs
    exact ⟨thread, r₀, hins, rfl, values_replay _ _⟩

theorem registry_linearized (h : (sharedRegistry defaultMax).Reachable s) :
    Linearized defaultMax s ∧
      ∀ actions t, (sharedRegistry defaultMax).run actions s = some t →
        ∀ (handle : Nat) instrument, s.registry.instruments[handle]? = some instrument →
          ∃ later : Instrument, t.registry.instruments[handle]? = some later ∧
            later.descriptor = instrument.descriptor := by
  have hi := reachable_inv h
  refine ⟨hi.linearized, ?_⟩
  intro actions t hrun handle instrument hinstrument
  obtain ⟨hlt, -⟩ := List.getElem?_eq_some_iff.mp hinstrument
  obtain ⟨thread, r₀, hins⟩ := hi.told.origin hlt
  have hnow := Option.some.inj (hinstrument.symm.trans (hi.told.inserted hins))
  have hlater := (reachable_inv (h.run hrun)).told.inserted ((run_log_suffix hrun).mem hins)
  exact ⟨_, hlater, by simp [hnow]⟩

/-- Two threads miss each other's registration; one collects while the other
counts. -/
def racingThreads : List Action :=
  let context : TraceContext := ⟨false, none, 0⟩
  [.register 0 (.counter "a" "first" none), .register 1 (.counter "a" "second" (some 7)),
    .acquire 0, .acquire 1, .acquire 1, .acquire 0,
    .record 0 0 ⟨.add 5, [("k", "v")], context⟩, .collect 1, .acquire 1, .acquire 0, .visit 1 0,
    .release 1]

theorem registry_linearized_run :
    ∃ s, (sharedRegistry 10).run racingThreads (start 10 2) = some s ∧ s.log.length = 5 ∧
      Linearized 10 s := by
  obtain ⟨s, hs⟩ := Option.isSome_iff_exists.mp
    (show ((sharedRegistry 10).run racingThreads (start 10 2)).isSome by decide +kernel)
  have hlog : s.log.length = 5 :=
    Machine.of_run hs (f := fun s => s.log.length) (by decide +kernel)
  exact ⟨s, hs, hlog, (registry_linearized (Machine.Reachable.run (.init ⟨2, rfl⟩) hs)).1⟩

end Rolly.Metrics
