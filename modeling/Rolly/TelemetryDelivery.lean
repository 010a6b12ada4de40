import Rolly.ExporterDelivery
import Rolly.TelemetryStream

/-!
# Every update gets through

A payload that a full channel refuses takes no update with it: what it showed
the next one shows again. Of those that the channel takes after a moment, the
second was collected after it, and shows all that was recorded until then.
-/

namespace Rolly.Metrics

/-- The maps that `collect` reads after this one. -/
def Kind.later : Kind → List Kind
  | .counter => [.gauge, .histogram]
  | .gauge => [.histogram]
  | .histogram => []

/-- A `collect` has yet to come to this instrument. -/
def Pc.Unread (kind : Kind) (handle : Nat) : Pc → Prop
  | .collect current _ => kind ∈ current :: current.later
  | .visit current rest _ => kind = current ∧ handle ∈ rest ∨ kind ∈ current.later
  | _ => False

theorem Kind.next_later {current next : Kind} (h : current.next = some next) :
    current.later = next :: next.later := by
  cases current with
  | counter | gauge =>
    cases h
    rfl
  | histogram => cases h

theorem Kind.all_later (kind : Kind) : kind ∈ Kind.counter :: Kind.counter.later := by
  cases kind <;> decide

theorem Told.mem_handles {registration : Registration} (h : Told defaultMax registry log)
    (hm : .inserted thread registration handle ∈ log) :
    handle ∈ (registry.handles registration.kind).map (·.2) := by
  have hkey : registry.keys[handle]? = some (registration.kind, registration.name) := by
    rw [MetricsRegistry.keys, List.getElem?_map, h.inserted hm, Option.map_some,
      replay_descriptor, instrument_descriptor, descriptor_key]
    rfl
  have hget := (MetricsRegistry.get_eq_some h.wellNamed).mpr hkey
  obtain ⟨front, back, heq, -⟩ := List.lookup_eq_some_iff.mp hget
  exact List.mem_map.mpr ⟨_, heq ▸ List.mem_append_right _ List.mem_cons_self, rfl⟩

section
variable {s t : State} {registration : Registration}

theorem unread_step (h : step action s = some t) (hi : s.Inv defaultMax)
    (hm : .inserted thread registration handle ∈ s.log)
    (ho : s.threads[action.thread]? = some old) (hu : old.Unread registration.kind handle) :
    (∃ new, t.threads[action.thread]? = some new ∧ new.Unread registration.kind handle) ∨
      ∃ instrument, t.log = .read action.thread handle instrument :: s.log ∧
        ∀ snapshot, instrument.collect.1 = some snapshot → snapshot ∈ t.inHand action.thread := by
  cases step_stepped h with
  | register hpc | collect hpc | record hpc | get hpc | entry hpc | recorded hpc =>
    obtain rfl := Option.some.inj (hpc.symm.trans ho)
    cases hu
  | lock hpc =>
    obtain rfl := Option.some.inj (hpc.symm.trans ho)
    refine .inl ⟨_, move_getElem? hpc _, ?_⟩
    obtain heq | hlater := List.mem_cons.mp hu
    · exact .inl ⟨heq, heq ▸ hi.told.mem_handles hm⟩
    · exact .inr hlater
  | @visit _ _ other instrument _ _ hpc hrest hinstrument =>
    obtain rfl := Option.some.inj (hpc.symm.trans ho)
    by_cases heq : handle = other
    · subst heq
      refine .inr ⟨instrument, rfl, fun snapshot hs => ?_⟩
      dsimp only [Action.thread]
      rw [inHand_note, inHand_of
        (move_getElem? (s := { s with registry := (s.registry.collectOne handle).2 }) hpc _)]
      exact List.mem_append_right _ (Option.mem_toList.mpr hs)
    · refine .inl ⟨_, move_getElem?
        (s := { s with registry := (s.registry.collectOne other).2 }) hpc _, ?_⟩
      exact hu.imp_left fun ⟨hkind, hleft⟩ =>
        ⟨hkind, (List.mem_erase_of_ne heq).mpr hleft⟩
  | next hpc hnext =>
    obtain rfl := Option.some.inj (hpc.symm.trans ho)
    refine .inl ⟨_, move_getElem? hpc _, ?_⟩
    obtain ⟨-, hnone⟩ | hlater := hu
    · cases hnone
    · rw [Kind.next_later hnext] at hlater
      exact hlater
  | returned hpc =>
    obtain rfl := Option.some.inj (hpc.symm.trans ho)
    obtain ⟨-, hnone⟩ | hlater := hu
    · cases hnone
    · cases hlater

end

end Rolly.Metrics

namespace Rolly.Telemetry

open Exporter (Post dataOf sentOf)
open Metrics (Registration)
open Machine (Run)

-- ---------------------------------------------------------------------------
-- What the loop has yet to read
-- ---------------------------------------------------------------------------

/-- The loop reads this instrument before it sends again. -/
def State.Unread (s : State) (kind : Metrics.Kind) (handle : Nat) : Prop :=
  match s.loop with
  | .collecting => ∃ pc, s.shared.threads[loopThread]? = some pc ∧ pc.Unread kind handle
  | .sending _ => False
  | _ => True

/-- These show the instrument as it was after `since` or later, unless it had
nothing to show. -/
def Shown (log since : List Metrics.Event) (handle : Nat) (snapshots : List MetricSnapshot) :
    Prop :=
  ∃ seen thread registration, seen <:+ log ∧ since <:+ seen ∧
    .inserted thread registration handle ∈ seen ∧
    ∀ snapshot, shownAfter seen handle registration = some snapshot → snapshot ∈ snapshots

/-- What the loop does not have in its hands as it was after `since`, it has yet
to read. -/
structure Catching (since : List Metrics.Event) (s : State) : Prop where
  older : since <:+ s.shared.log
  reads : .inserted thread registration handle ∈ since →
    s.Unread registration.kind handle ∨ Shown s.shared.log since handle s.inHand

section
variable {config : TelemetryConfig} {s t : State} {since : List Metrics.Event}

theorem Shown.mono (h : Shown log since handle snapshots) (hl : log <:+ log')
    (hs : snapshots ⊆ snapshots') : Shown log' since handle snapshots' := by
  obtain ⟨seen, thread, registration, hseen, hsince, hins, hshown⟩ := h
  exact ⟨seen, thread, registration, hseen.trans hl, hsince, hins,
    fun snapshot h => hs (hshown snapshot h)⟩

theorem Catching.of_waiting (h : since <:+ s.shared.log) (hl : s.loop = .waiting) :
    Catching since s :=
  ⟨h, fun _ => .inl (by simp only [State.Unread, hl])⟩

theorem log_grows (ht : step config a s = some t) : s.shared.log <:+ t.shared.log := by
  cases step_stepped ht with
  | program _ hs | tick _ hs | collect _ _ hs => exact log_suffix hs
  | _ => exact List.suffix_rfl

theorem Catching.gather (h : Catching since s) (hl : s.loop = .collecting)
    (hi : s.shared.Inv Metrics.MetricsRegistry.new.defaultMaxCardinality)
    (hs : Metrics.step a s.shared = some shared) (ha : a.thread = loopThread)
    (hno : ∀ snapshots, a = .release a.thread →
      s.shared.threads[a.thread]? ≠ some (.visit .histogram [] snapshots)) :
    Catching since { s with shared, loop := .collecting } := by
  refine ⟨h.older.trans (log_suffix hs), fun hm => ?_⟩
  have hin := Metrics.inHand_step hs hno
  obtain hunread | hshown := h.reads hm
  · simp only [State.Unread, hl] at hunread
    obtain ⟨pc, hpc, hunread⟩ := hunread
    rw [← ha] at hpc
    obtain hstill | ⟨instrument, hlog, hread⟩ :=
      Metrics.unread_step hs hi (h.older.subset hm) hpc hunread
    · rw [ha] at hstill
      exact .inl hstill
    · -- it is read now, after all that was recorded before
      obtain ⟨thread, registration, hins, rfl⟩ :=
        (Metrics.step_inv hs hi).told.reads ⟨[], hlog.symm⟩
      refine .inr ⟨s.shared.log, thread, registration, log_suffix hs, h.older, hins,
        fun snapshot hsnap => ?_⟩
      rw [ha] at hread
      exact hread snapshot hsnap
  · rw [ha] at hin
    refine .inr (hshown.mono (log_suffix hs) ?_)
    simpa only [State.inHand, hl] using hin

theorem Catching.step (h : Catching since s)
    (hi : s.shared.Inv Metrics.MetricsRegistry.new.defaultMaxCardinality)
    (ht : step config a s = some t) : Catching since t := by
  have hlog := log_grows ht
  cases step_stepped ht with
  | @program a shared hne hs =>
    have hthread := (Metrics.step_other hs hne).1
    have hhand : State.inHand { s with shared } = s.inHand := by
      simp only [State.inHand, Metrics.State.inHand, hthread]
    refine ⟨h.older.trans hlog, fun hm => ?_⟩
    refine (h.reads hm).imp (fun hunread => ?_) fun hshown => ?_
    · simpa only [State.Unread, hthread] using hunread
    · exact hshown.mono hlog (hhand ▸ List.Subset.refl _)
  | start | skip | send => exact .of_waiting h.older rfl
  | panic => exact ⟨h.older, fun _ => .inl trivial⟩
  | @tick shared hl hs =>
    refine ⟨h.older.trans hlog, fun _ => .inl ?_⟩
    cases Metrics.step_stepped hs with
    | collect hpc => exact ⟨_, Metrics.move_getElem? hpc _, Metrics.Kind.all_later _⟩
  | @collect a shared hl hthread hs =>
    obtain ⟨snapshots, thread, rfl, hpc, hafter⟩ | ⟨hafter, hno⟩ :=
      afterStep_cases s.shared.threads[loopThread]? a
    · -- with the last release there is nothing left to read
      rw [hafter]
      refine ⟨h.older.trans hlog, fun hm => .inr ?_⟩
      obtain hunread | hshown := h.reads hm
      · simp only [State.Unread, hl] at hunread
        obtain ⟨pc, hpc', hunread⟩ := hunread
        obtain rfl := Option.some.inj (hpc.symm.trans hpc')
        obtain ⟨-, hnone⟩ | hlater := hunread
        · cases hnone
        · cases hlater
      · have hhand : s.inHand = snapshots := by
          simp only [State.inHand, hl]
          exact Metrics.inHand_of hpc
        exact hshown.mono hlog (hhand ▸ List.Subset.refl _)
    · rw [hafter]
      exact h.gather hl hi hs hthread fun snapshots ha => hthread ▸ hno snapshots _ ha
  | exporter | drop | dropOnly | flush | acknowledge | shutdown | release =>
    exact ⟨h.older, h.reads⟩

-- ---------------------------------------------------------------------------
-- What the channel takes
-- ---------------------------------------------------------------------------

/-- Of the requests that the channel took, the second after the first `k` shows
every instrument as it was after `since` or later. -/
structure Resent (config : TelemetryConfig) (since : List Metrics.Event) (k : Nat) (s : State)
    (kept : List MetricsRequest) : Prop where
  taken : Kept config s kept
  older : since <:+ s.shared.log
  catching : kept.length ≤ k ∨ Catching since s
  shown : k + 2 ≤ kept.length → ∃ request ∈ kept.take (k + 2),
    ∀ thread registration handle, .inserted thread registration handle ∈ since →
      Shown s.shared.log since handle request.snapshots

theorem Resent.step (h : Resent config since k s kept) (hr : (telemetry config).Reachable s)
    (ht : step config a s = some t) : ∃ kept, Resent config since k t kept := by
  have hlog := log_grows ht
  have hshown (hle : k + 2 ≤ kept.length) : ∃ request ∈ kept.take (k + 2),
      ∀ thread registration handle, .inserted thread registration handle ∈ since →
        Shown t.shared.log since handle request.snapshots := by
    obtain ⟨request, hm, hshown⟩ := h.shown hle
    exact ⟨request, hm, fun thread registration handle hins =>
      (hshown thread registration handle hins).mono hlog (List.Subset.refl _)⟩
  obtain hk | ⟨request, hk, hl, hw⟩ := h.taken.step (reachable_exporter hr) ht
  · exact ⟨kept, hk, h.older.trans hlog,
      h.catching.imp_right fun hc => hc.step (reachable_shared hr) ht, hshown⟩
  · have holder := h.older.trans hlog
    refine ⟨_, hk, holder, .inr (.of_waiting holder hw), fun hle => ?_⟩
    rw [List.length_append, List.length_singleton] at hle
    by_cases hlong : k + 2 ≤ kept.length
    · rw [List.take_append_of_le_length hlong]
      exact hshown hlong
    · -- the loop was waiting when the one before it was taken
      have hc := h.catching.resolve_left (by omega)
      refine ⟨request, ?_, fun thread registration handle hins => ?_⟩
      · rw [List.take_of_length_le (by rw [List.length_append, List.length_singleton]; omega)]
        exact List.mem_append_right _ List.mem_cons_self
      · have hread := (hc.reads hins).resolve_left (by simp [State.Unread, hl])
        rw [State.inHand, hl] at hread
        exact hread.mono hlog (List.Subset.refl _)

theorem resent_stable (config : TelemetryConfig) (since : List Metrics.Event) (k : Nat) :
    (telemetry config).Stable fun s => ∃ kept, Resent config since k s kept :=
  fun _ _ _ hr ⟨_, h⟩ ht => h.step hr ht

def State.taken (s : State) : Nat := (dataOf .metrics s.exporter.channel.accepted).length

theorem Kept.length (h : Kept config s kept) : kept.length = s.taken := by
  simpa [State.taken] using congrArg List.length h.accepted

theorem resent_now (hr : (telemetry config).Reachable s) :
    ∃ kept, Resent config s.shared.log s.taken s kept := by
  obtain ⟨kept, hk⟩ := reachable_kept hr
  have hlength := hk.length
  exact ⟨kept, hk, List.suffix_rfl, .inl (Nat.le_of_eq hlength), fun hle => by omega⟩

-- ---------------------------------------------------------------------------
-- What is posted
-- ---------------------------------------------------------------------------

/-- One POST that is over carries requests that show every instrument as it was
after `since` or later. -/
def State.Exported (config : TelemetryConfig) (since : List Metrics.Event) (s : State) : Prop :=
  ∃ i post requests, s.exporter.pool.posts[i]? = some post ∧
    s.exporter.pool.finishedAt i = true ∧ post.signal = .metrics ∧
    Otlp.decodeExportMetricsRequest post.data =
      some ⟨requests.flatMap fun request => (request.read config).resources⟩ ∧
    ∀ thread registration handle, .inserted thread registration handle ∈ since →
      Reflected requests s.shared.log since handle

theorem mem_posted {posts : List Post} {posted : List MetricsRequest}
    (h : posted.map (·.encode config) = (posts.flatMap Post.items).map some)
    (hm : request ∈ posted) : ∃ post ∈ posts, ∃ requests, requests ⊆ posted ∧
      request ∈ requests ∧ requests.map (·.encode config) = post.items.map some := by
  induction posts generalizing posted with
  | nil =>
    obtain rfl := List.map_eq_nil_iff.mp h
    cases hm
  | cons post posts ih =>
    rw [List.flatMap_cons, List.map_append] at h
    obtain ⟨first, rest, rfl, hfirst, hrest⟩ := List.map_eq_append_iff.mp h
    obtain hm | hm := List.mem_append.mp hm
    · exact ⟨post, List.mem_cons_self, first, List.subset_append_left _ _, hm, hfirst⟩
    · obtain ⟨other, hother, requests, hsub, hin, heq⟩ := ih hrest hm
      exact ⟨other, List.mem_cons_of_mem _ hother, requests,
        List.subset_append_of_subset_right _ hsub, hin, heq⟩

theorem Resent.exported (h : Resent config since k s kept) (hr : (telemetry config).Reachable s)
    (hm : config.otlpMetricsEndpoint = some endpoint)
    (hsize : ∀ data ∈ dataOf .metrics s.exporter.channel.accepted,
      data.length ≤ Proto.vecCapacity) (hk : k + 2 ≤ kept.length)
    (hitems : k + 2 ≤ items.length) (hposted : s.exporter.Posted .metrics items) :
    s.Exported config since := by
  have hexporter := reachable_exporter hr
  obtain ⟨p, hp, hfinished⟩ := hposted
  have hp := Nat.le_trans hitems hp.length_le
  -- the payloads of the first `p` POSTs are the first that the channel took
  have hsent : sentOf .metrics (s.exporter.pool.posts.take p) <+:
      dataOf .metrics s.exporter.channel.accepted :=
    (Exporter.sentOf_grows (List.take_prefix _ _) _).trans
      (Exporter.sent_prefix hexporter (url_metrics hm))
  obtain ⟨posted, hfront, hposted⟩ := h.taken.front hsent
  have hlength : posted.length = (sentOf .metrics (s.exporter.pool.posts.take p)).length := by
    simpa using congrArg List.length hposted
  obtain ⟨request, hrequest, hshown⟩ := h.shown hk
  obtain ⟨later, rfl⟩ := hfront
  rw [List.take_append_of_le_length (by omega)] at hrequest
  obtain ⟨post, hpost, requests, hsub, hin, hitems⟩ :=
    mem_posted hposted (List.mem_of_mem_take hrequest)
  obtain ⟨htake, hsignal⟩ := List.mem_filter.mp hpost
  obtain ⟨i, hi, rfl⟩ := List.mem_iff_getElem.mp htake
  rw [List.length_take] at hi
  refine ⟨i, _, requests, ?_, hfinished i (by omega), of_decide_eq_true hsignal, ?_, ?_⟩
  · rw [List.getElem_take]
    exact List.getElem?_eq_getElem (by omega)
  · rw [((Exporter.reachable_inv hexporter).balanced.posts _ (List.mem_of_mem_take htake)).data]
    exact h.taken.decode hr hsize (List.subset_append_of_subset_left _ hsub) hitems
  · intro thread registration handle hins
    obtain ⟨seen, thread, registration, hseen, hsince, hins, hsnap⟩ :=
      hshown thread registration handle hins
    exact ⟨seen, thread, registration, hseen, hsince, hins,
      fun snapshot hs => ⟨request, hin, hsnap snapshot hs⟩⟩

-- ---------------------------------------------------------------------------
-- Fair runs
-- ---------------------------------------------------------------------------

/-- The exporter, its tasks and its timer are not left out, and the exporter
looks at its timer again and again, until it stops. -/
structure Scheduled (r : (telemetry config).Run) : Prop where
  own : r.Fair (Action.ofExporter Exporter.Action.isOwn)
  tasks : ∀ i, r.StronglyFair (Action.ofExporter (Exporter.Action.isTask i))
  timer : r.StronglyFair (Action.ofExporter Exporter.Action.isTick)
  idles : ∀ k, ∃ m, k ≤ m ∧
    ((Exporter.exporter (exporterConfig config)).Enabled Exporter.Action.isTick
        (r.states m).exporter ∨ (r.states m).exporter.pc = .terminated)

theorem Scheduled.image {r : (telemetry config).Run} (h : Scheduled r) :
    ∃ (r' : (Exporter.exporter (exporterConfig config)).Run) (k : Nat),
      (∀ n, r'.states (k + n) = (r.states n).exporter) ∧ Exporter.Scheduled r' ∧
        Exporter.Idles r' := by
  obtain ⟨r', k, himage⟩ := (follows_exporter config).image r
  refine ⟨r', k, himage.states, ?_, fun j => ?_⟩
  · exact
      { own := himage.fair ofExporter_exporter (ofExporter_enabled fun _ => rfl) h.own
        tasks := fun i => himage.stronglyFair ofExporter_exporter
          (ofExporter_enabled fun _ => rfl) (h.tasks i)
        tick := himage.stronglyFair ofExporter_exporter
          (ofExporter_enabled fun _ => rfl) h.timer }
  · obtain ⟨m, hm, hidle⟩ := h.idles j
    refine ⟨k + m, by omega, ?_⟩
    rw [himage.states]
    exact hidle

/-- Once the channel has taken two more payloads of metrics, one POST shows all
that was recorded before, and returns; unless the exporter stops first. -/
theorem updates_posted {r : (telemetry config).Run} (hfair : Scheduled r)
    (he : config.otlpMetricsEndpoint = some endpoint)
    (hsize : ∀ l, ∀ data ∈ dataOf .metrics (r.states l).exporter.channel.accepted,
      data.length ≤ Proto.vecCapacity)
    (hnm : n ≤ m) (htaken : (r.states n).taken + 2 ≤ (r.states m).taken) :
    ∃ l, m ≤ l ∧ ((r.states l).Exported config (r.states n).shared.log ∨
      (r.states l).exporter.pc = .terminated ∧
        (dataOf .metrics (r.states l).exporter.channel.received).length <
          (r.states n).taken + 2) := by
  obtain ⟨r', k, hstates, hfair', hidle⟩ := hfair.image
  have hk : ((dataOf .metrics (r'.states (k + m)).channel.accepted).take
      ((r.states n).taken + 2)).length = (r.states n).taken + 2 := by
    rw [hstates]
    exact List.length_take_of_le htaken
  obtain ⟨l', hl', hposted⟩ := Exporter.items_posted hfair' hidle (Nat.succ_pos 3)
    (url_metrics he) (List.take_prefix ((r.states n).taken + 2) _)
  rw [hk] at hposted
  obtain ⟨l, rfl⟩ := Nat.exists_eq_add_of_le (Nat.le_trans (Nat.le_add_right k m) hl')
  have hml : m ≤ l := by omega
  have haccepted := (Exporter.accepted_stable _).later
    (List.prefix_refl (r'.states (k + m)).channel.accepted) hl'
  have hgrown := (Exporter.dataOf_grows haccepted .metrics).length_le
  rw [hstates, hstates] at hgrown
  simp only [hstates] at hposted hk
  refine ⟨l, hml, hposted.imp_left fun hposted => ?_⟩
  obtain ⟨kept, hkept⟩ := (resent_stable config (r.states n).shared.log (r.states n).taken).later
    (resent_now (r.reachable n)) (Nat.le_trans hnm hml)
  refine hkept.exported (r.reachable l) he (hsize l) ?_ hk.ge hposted
  rw [hkept.taken.length]
  exact Nat.le_trans htaken hgrown

end

def twoTicks : List Action :=
  oneUpdate ++ oneTick ++ oneTick.tail ++
    dropGuard [.task 0 .acquire, .task 0 (.respond true), .join 0] ++
    [.shutdown, .exporter (.call (.push 0)), .exporter .recv, .exporter .stop, .release]

theorem updates_posted_twoTicks : ∃ r : (telemetry metricsOnly).Run, Scheduled r ∧
    (r.states 5).shared.log = onceUpdated ∧ ∃ l, twoTicks.length ≤ l ∧
      ((r.states l).Exported metricsOnly (r.states 5).shared.log ∨
        (r.states l).exporter.pc = .terminated ∧
          (dataOf .metrics (r.states l).exporter.channel.received).length <
            (r.states 5).taken + 2) := by
  obtain ⟨s, hs⟩ := Option.isSome_iff_exists.mp (show (init metricsOnly 1).isSome by decide)
  have h0 : (telemetry metricsOnly).init s := ⟨1, hs⟩
  obtain ⟨u, hu, hmiddle⟩ := Option.map_eq_some_iff.mp (Machine.of_run hs
    (f := fun s => ((telemetry metricsOnly).run oneUpdate s).map fun u =>
      (u.shared.log, u.taken)) (y := some (onceUpdated, 0)) (by decide +kernel))
  obtain ⟨t, ht, hend⟩ := Option.map_eq_some_iff.mp (Machine.of_run hs
    (f := fun s => ((telemetry metricsOnly).run twoTicks s).map fun t =>
      (t.exporter.pc, t.taken, (dataOf .metrics t.exporter.channel.accepted).all fun data =>
        data.length ≤ Proto.vecCapacity)) (y := some (.terminated, 2, true)) (by decide +kernel))
  obtain ⟨hlog, htaken⟩ := Prod.mk.inj hmiddle
  simp only [Prod.mk.injEq] at hend
  obtain ⟨hpc, htaken', hall⟩ := hend
  have hr : (telemetry metricsOnly).Reachable t := Machine.Reachable.run (.init h0) ht
  have hlast {n : Nat} (hn : twoTicks.length ≤ n) : (Run.resting h0 ht).states n = t :=
    Run.resting_states hn
  have hfifth : (Run.resting h0 ht).states 5 = u := by
    refine Option.some.inj (Eq.trans ?_ hu)
    exact Option.some_get (Machine.run_take_isSome ht 5)
  have hfair : Scheduled (Run.resting h0 ht) :=
    { own := (Run.resting_fair (terminated_rests (fun _ => rfl) hr hpc)).fair
      tasks := fun i => Run.resting_fair (terminated_rests (fun _ => rfl) hr hpc)
      timer := Run.resting_fair (terminated_rests (fun _ => rfl) hr hpc)
      idles := fun k => ⟨max k twoTicks.length, Nat.le_max_left _ _, .inr (by
        rw [hlast (Nat.le_max_right _ _)]
        exact hpc)⟩ }
  refine ⟨Run.resting h0 ht, hfair, hfifth ▸ hlog,
    updates_posted (n := 5) (m := twoTicks.length) hfair rfl (fun l data hd => ?_) (by decide) ?_⟩
  · -- it is still there at the end
    have hgrown := ((projects_exporter metricsOnly).stable
      (Exporter.accepted_stable _)).later (r := Run.resting h0 ht)
      (List.prefix_refl ((Run.resting h0 ht).states l).exporter.channel.accepted)
      (Nat.le_max_left l twoTicks.length)
    rw [hlast (Nat.le_max_right _ _)] at hgrown
    have hmem := (Exporter.dataOf_grows hgrown .metrics).subset hd
    simpa using List.all_eq_true.mp hall data hmem
  · rw [hfifth, htaken, hlast (Nat.le_refl _), htaken']

end Rolly.Telemetry
