import Rolly.MetricsCollecting
import Rolly.Telemetry

/-!
# The aggregation loop under way

Whatever the threads, the exporter and the guard do meanwhile, what the loop
has read of the registry is in its hands until it hands it over.
-/

namespace Rolly.Telemetry

open Metrics (Pc)

-- ---------------------------------------------------------------------------
-- What a step can do
-- ---------------------------------------------------------------------------

inductive Stepped (config : TelemetryConfig) (s : State) : Action → State → Prop
  | program (hne : a.thread ≠ loopThread) (h : Metrics.step a s.shared = some shared) :
      Stepped config s (.program a) { s with shared }
  | exporter (hu : unattended config a)
      (h : Exporter.step (exporterConfig config) a s.exporter = some exporter) :
      Stepped config s (.exporter a) { s with exporter }
  | start (hl : s.loop = .starting) :
      Stepped config s (.start now) { s with loop := .waiting, startTime := now }
  | tick (hl : s.loop = .waiting) (h : Metrics.step (.collect loopThread) s.shared = some shared) :
      Stepped config s .tick { s with shared, loop := .collecting }
  | collect (hl : s.loop = .collecting) (ht : a.thread = loopThread)
      (h : Metrics.step a s.shared = some shared) : Stepped config s (.collect a)
        { s with shared, loop := afterStep s.shared.threads[loopThread]? a }
  | skip (hl : s.loop = .sending []) :
      Stepped config s (.send now) { s with loop := .waiting, ticked := s.shared.log }
  | send (hl : s.loop = .sending snapshots)
      (he : MetricsRequest.encode config ⟨snapshots, s.startTime, now⟩ = some data)
      (h : Exporter.step (exporterConfig config) (.call (.sendMetrics data)) s.exporter =
        some exporter) : Stepped config s (.send now)
        { s with
          exporter, loop := .waiting
          handed := s.handed ++ [⟨snapshots, s.startTime, now⟩], ticked := s.shared.log }
  | panic (hl : s.loop = .sending snapshots)
      (h : Exporter.step (exporterConfig config) (.call .drop) s.exporter = some exporter) :
      Stepped config s (.send now) { s with exporter, loop := .gone }
  | drop (hg : s.guard = .held) : Stepped config s (.drop true false)
      { s with guard := .dropping, dropped := s.shared.log }
  | dropOnly (hg : s.guard = .held) (hn : (runtime && !inside) = false)
      (h : Exporter.step (exporterConfig config) (.call .drop) s.exporter = some exporter) :
      Stepped config s (.drop runtime inside)
        { s with exporter, guard := .gone, panicked := runtime }
  | flush (hg : s.guard = .dropping)
      (h : Exporter.step (exporterConfig config) (.call .flush) s.exporter = some exporter) :
      Stepped config s .flush
        { s with exporter, guard := .flushing s.exporter.channel.nextDone }
  | acknowledge (hg : s.guard = .flushing done) (hd : done ∈ s.exporter.replies) :
      Stepped config s .acknowledge { s with guard := .acknowledged done }
  | shutdown (hg : s.guard = .acknowledged done)
      (h : Exporter.step (exporterConfig config) (.call .shutdown) s.exporter = some exporter) :
      Stepped config s .shutdown { s with exporter, guard := .stopping }
  | release (hg : s.guard = .stopping)
      (h : Exporter.step (exporterConfig config) (.call .drop) s.exporter = some exporter) :
      Stepped config s .release { s with exporter, guard := .gone }

section
variable {config : TelemetryConfig} {s t : State}

theorem onRegistry_eq (h : s.onRegistry a = some t) :
    ∃ shared, Metrics.step a s.shared = some shared ∧ t = { s with shared } := by
  obtain ⟨shared, hs, rfl⟩ := Option.map_eq_some_iff.mp h
  exact ⟨shared, hs, rfl⟩

theorem onExporter_eq (h : s.onExporter config a = some t) : ∃ exporter,
    Exporter.step (exporterConfig config) a s.exporter = some exporter ∧
      t = { s with exporter } := by
  obtain ⟨exporter, hs, rfl⟩ := Option.map_eq_some_iff.mp h
  exact ⟨exporter, hs, rfl⟩

theorem onExporter_map {f : State → State} (h : (s.onExporter config a).map f = some t) :
    ∃ exporter, Exporter.step (exporterConfig config) a s.exporter = some exporter ∧
      t = f { s with exporter } := by
  obtain ⟨u, hu, rfl⟩ := Option.map_eq_some_iff.mp h
  obtain ⟨exporter, hs, rfl⟩ := onExporter_eq hu
  exact ⟨exporter, hs, rfl⟩

theorem send_stepped (hl : s.loop = .sending snapshots)
    (h : s.send config ⟨snapshots, s.startTime, now⟩ = some t) :
    Stepped config s (.send now) t := by
  unfold State.send at h
  split at h
  · obtain ⟨exporter, hs, rfl⟩ := onExporter_map h
    exact .send hl ‹_› hs
  · obtain ⟨exporter, hs, rfl⟩ := onExporter_map h
    exact .panic hl hs

theorem step_stepped (h : step config a s = some t) : Stepped config s a t := by
  cases a with
  | program a =>
    obtain ⟨hne, h⟩ := Option.ite_none_left_eq_some.mp h
    obtain ⟨shared, hs, rfl⟩ := onRegistry_eq h
    exact .program hne hs
  | exporter a =>
    obtain ⟨hu, h⟩ := Option.ite_none_right_eq_some.mp h
    obtain ⟨exporter, hs, rfl⟩ := onExporter_eq h
    exact .exporter hu hs
  | start now =>
    simp only [step] at h
    split at h
    · cases h
      exact .start ‹_›
    · cases h
  | tick =>
    simp only [step] at h
    split at h
    · obtain ⟨u, hu, rfl⟩ := Option.map_eq_some_iff.mp h
      obtain ⟨shared, hs, rfl⟩ := onRegistry_eq hu
      exact .tick ‹_› hs
    · cases h
  | collect a =>
    simp only [step] at h
    split at h
    · obtain ⟨ht, h⟩ := Option.ite_none_right_eq_some.mp h
      obtain ⟨u, hu, rfl⟩ := Option.map_eq_some_iff.mp h
      obtain ⟨shared, hs, rfl⟩ := onRegistry_eq hu
      exact .collect ‹_› ht hs
    · cases h
  | send now =>
    simp only [step] at h
    split at h
    · rename_i snapshots hl
      split at h
      · rename_i he
        cases h
        obtain rfl := List.isEmpty_iff.mp he
        exact .skip hl
      · exact send_stepped hl h
    · cases h
  | drop runtime inside =>
    simp only [step] at h
    split at h
    · rename_i hg
      split at h
      · rename_i hwaits
        cases h
        obtain ⟨rfl, rfl⟩ : runtime = true ∧ inside = false := by simpa using hwaits
        exact .drop hg
      · rename_i hwaits
        obtain ⟨exporter, hs, rfl⟩ := onExporter_map h
        exact .dropOnly hg (Bool.eq_false_iff.mpr hwaits) hs
    · cases h
  | flush =>
    simp only [step] at h
    split at h
    · obtain ⟨exporter, hs, rfl⟩ := onExporter_map h
      exact .flush ‹_› hs
    · cases h
  | acknowledge =>
    simp only [step] at h
    split at h
    · obtain ⟨hd, h⟩ := Option.ite_none_right_eq_some.mp h
      cases h
      exact .acknowledge ‹_› hd
    · cases h
  | shutdown =>
    simp only [step] at h
    split at h
    · obtain ⟨exporter, hs, rfl⟩ := onExporter_map h
      exact .shutdown ‹_› hs
    · cases h
  | release =>
    simp only [step] at h
    split at h
    · obtain ⟨-, h⟩ := Option.ite_none_left_eq_some.mp h
      obtain ⟨exporter, hs, rfl⟩ := onExporter_map h
      exact .release ‹_› hs
    · cases h

-- ---------------------------------------------------------------------------
-- The aggregation loop
-- ---------------------------------------------------------------------------

/-- What the loop has collected and not sent yet. -/
def State.inHand (s : State) : List MetricSnapshot :=
  match s.loop with
  | .collecting => s.shared.inHand loopThread
  | .sending snapshots => snapshots
  | _ => []

/-- `P` holds of what the loop saw of each instrument that it read. -/
def Seen (P : MetricSnapshot → Prop) (log : List Metrics.Event) : Prop :=
  ∀ handle instrument, .read loopThread handle instrument ∈ log →
    ∀ snapshot, instrument.collect.1 = some snapshot → P snapshot

def Handed (requests : List MetricsRequest) (snapshot : MetricSnapshot) : Prop :=
  ∃ request ∈ requests, snapshot ∈ request.snapshots

/-- What the loop has read is in its hands or was handed over, and after a tick
nothing is in its hands. -/
structure Aggregated (s : State) : Prop where
  reads : s.loop ≠ .gone →
    Seen (fun snapshot => snapshot ∈ s.inHand ∨ Handed s.handed snapshot) s.shared.log
  ticked : s.ticked <:+ s.shared.log
  shipped : Seen (Handed s.handed) s.ticked

theorem Seen.mono {P Q : MetricSnapshot → Prop} (h : Seen P log)
    (hpq : ∀ snapshot, P snapshot → Q snapshot) : Seen Q log :=
  fun handle instrument hm snapshot hs => hpq snapshot (h handle instrument hm snapshot hs)

theorem Handed.append (h : Handed requests snapshot) (added : List MetricsRequest) :
    Handed (requests ++ added) snapshot := by
  obtain ⟨request, hm, hs⟩ := h
  exact ⟨request, List.mem_append_left _ hm, hs⟩

theorem log_suffix (h : Metrics.step a r = some r') : r.log <:+ r'.log :=
  (Metrics.step_cases h).1.log_suffix

/-- `collect()` returns with the last release, and no sooner. -/
theorem afterStep_cases (pc : Option Pc) (a : Metrics.Action) :
    (∃ snapshots thread, a = .release thread ∧ pc = some (.visit .histogram [] snapshots) ∧
      afterStep pc a = .sending snapshots) ∨
    (afterStep pc a = .collecting ∧
      ∀ snapshots thread, a = .release thread → pc ≠ some (.visit .histogram [] snapshots)) := by
  unfold afterStep
  split
  · exact .inl ⟨_, _, rfl, rfl, rfl⟩
  · rename_i hno
    exact .inr ⟨rfl, fun snapshots thread ha hpc => hno snapshots thread hpc ha⟩

theorem afterStep_ne_gone (pc : Option Pc) (a : Metrics.Action) : afterStep pc a ≠ .gone := by
  unfold afterStep
  split <;> simp

theorem Aggregated.gather (h : Aggregated s) (hl : s.loop ≠ .gone)
    (hs : Metrics.step a s.shared = some shared)
    (hkeep : s.inHand ⊆ shared.inHand loopThread) :
    Aggregated { s with shared, loop := .collecting } := by
  refine { h with reads := fun _ => ?_, ticked := h.ticked.trans (log_suffix hs) }
  intro handle instrument hm snapshot hsnap
  obtain hold | hnew := Metrics.read_step hs hm
  · exact (h.reads hl handle instrument hold snapshot hsnap).imp_left fun hin => hkeep hin
  · exact .inl (hnew snapshot hsnap)

theorem Aggregated.step (h : Aggregated s) (ht : step config a s = some t) : Aggregated t := by
  cases step_stepped ht with
  | @program a shared hne hs =>
    obtain ⟨hthread, hlog⟩ := Metrics.step_other hs hne
    refine { h with reads := fun hl => ?_, ticked := h.ticked.trans (log_suffix hs) }
    have hhand : State.inHand { s with shared } = s.inHand := by
      simp only [State.inHand, Metrics.State.inHand, hthread]
    rw [hhand]
    exact fun handle instrument hm => h.reads hl handle instrument (hlog _ hm rfl)
  | exporter => exact { h with }
  | start hl =>
    have hr := h.reads (by simp [hl])
    simp only [State.inHand, hl] at hr
    exact { h with reads := fun _ => hr }
  | tick hl hs => exact h.gather (by simp [hl]) hs (by simp [State.inHand, hl])
  | @collect a shared hl hthread hs =>
    have hhand : s.inHand = s.shared.inHand loopThread := by simp only [State.inHand, hl]
    obtain ⟨snapshots, thread, rfl, hpc, hafter⟩ | ⟨hafter, hno⟩ :=
      afterStep_cases s.shared.threads[loopThread]? a
    · -- what was in its hands is what `collect()` returned
      rw [hafter]
      obtain rfl : thread = loopThread := hthread
      have hr := h.reads (by simp [hl])
      rw [hhand, Metrics.inHand_of hpc] at hr
      refine { h with reads := fun _ handle instrument hm => ?_
                      ticked := h.ticked.trans (log_suffix hs) }
      rw [Metrics.release_returns hpc hs] at hm
      exact hr handle instrument (by simpa [Metrics.State.note, Metrics.State.move] using hm)
    · rw [hafter]
      refine h.gather (by simp [hl]) hs ?_
      rw [hhand, ← hthread]
      exact Metrics.inHand_step hs fun snapshots ha => hthread ▸ hno snapshots _ ha
  | skip hl =>
    have hr := h.reads (by simp [hl])
    simp only [State.inHand, hl] at hr
    exact { reads := fun _ => hr, ticked := List.suffix_rfl
            shipped := hr.mono (by simp) }
  | @send snapshots now data exporter hl he hs =>
    have hr := h.reads (by simp [hl])
    have hall : Seen (Handed (s.handed ++ [⟨snapshots, s.startTime, now⟩])) s.shared.log := by
      refine hr.mono fun snapshot hs => ?_
      obtain hin | hold := hs
      · rw [State.inHand, hl] at hin
        exact ⟨_, List.mem_append_right _ (List.mem_singleton.mpr rfl), hin⟩
      · exact hold.append _
    exact { reads := fun _ => hall.mono fun _ => .inr, ticked := List.suffix_rfl
            shipped := hall }
  | panic => exact { h with reads := fun hl => absurd rfl hl }
  | drop | dropOnly | flush | acknowledge | shutdown | release => exact { h with }

end

end Rolly.Telemetry
