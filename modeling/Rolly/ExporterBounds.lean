import Mathlib.Algebra.Order.BigOperators.Group.List
import Mathlib.Algebra.Order.Ring.Nat
import Rolly.ExporterLaws

/-!
# How much the exporter holds

The channel and the batches are bounded, but a batch is taken out of the
channel whether or not a permit is free to send it. What is held is bounded
only as long as each batch dispatched finds a free permit.
-/

namespace Rolly.Exporter

open Proto3 (Bytes)
open Machine (of_run)

/-- Accepted data messages in the channel, in the batches or in tasks that have
not returned. -/
def held (s : State) : Nat :=
  dataCount s.channel.queue +
    (s.traceBatch.length + s.logBatch.length + s.metricsBatch.length) +
    (s.pool.unfinished.map fun t => t.post.items.length).sum

def heldBound (config : ExporterConfig) : Nat :=
  config.channelCapacity + 3 * max config.batchSize 1 +
    config.maxConcurrentExports * max config.batchSize 1

def owed (config : ExporterConfig) (s : State) (signal : Signal) : Nat :=
  if s.batch signal ≠ [] ∧ (config.url signal).isSome then 1 else 0

def owedAll (config : ExporterConfig) (s : State) : Nat :=
  owed config s .traces + owed config s .logs + owed config s .metrics

def dispatches (config : ExporterConfig) : Action → State → Nat
  | .recv, s =>
    match s.channel.queue.head? with
    | none => owedAll config s
    | some msg =>
      match msg.data? with
      | none => owedAll config s
      | some (signal, _) =>
        if (s.batch signal).length + 1 ≥ config.batchSize ∧ (config.url signal).isSome then 1 else 0
  | .tick, s => owedAll config s
  | _, _ => 0

/-- Every batch about to be dispatched finds a free permit, beyond those that
the unfinished tasks use or wait for. -/
def PermitsFree (config : ExporterConfig) (a : Action) (s : State) : Prop :=
  dispatches config a s = 0 ∨
    s.pool.unfinished.length + dispatches config a s ≤ config.maxConcurrentExports

instance (config : ExporterConfig) (a : Action) (s : State) : Decidable (PermitsFree config a s) :=
  inferInstanceAs (Decidable (_ ∨ _))

section
variable {config : ExporterConfig} {s s' : State} {signal : Signal}

-- ---------------------------------------------------------------------------
-- Unfinished tasks
-- ---------------------------------------------------------------------------

@[simp] theorem Pool.unfinished_spawn {p : Pool} :
    (p.spawn post).unfinished.length = p.unfinished.length + 1 := by
  simp [Pool.unfinished, Pool.spawn, Phase.isFinished]

theorem Pool.unfinished_join {p p' : Pool} (h : p.join i = some p') :
    p'.unfinished = p.unfinished := by
  simp only [Pool.join, Option.ite_none_right_eq_some, Option.some.injEq] at h
  obtain ⟨-, rfl⟩ := h
  rfl

theorem Pool.unfinished_event {p p' : Pool} (h : p.event i e = some p') :
    p'.unfinished.length ≤ p.unfinished.length := by
  obtain ⟨t, phase, ht, hp, rfl⟩ := Pool.event_eq h
  obtain ⟨hlt, rfl⟩ := List.getElem?_eq_some_iff.mp ht
  have hnf := (Phase.next_some hp).1
  have hl : p.tasks = p.tasks.take i ++ p.tasks[i] :: p.tasks.drop (i + 1) := by simp
  rw [Pool.unfinished, Pool.unfinished, List.set_eq_take_append_cons_drop, if_pos hlt]
  conv_rhs => rw [hl]
  simp only [List.filter_append, List.filter_cons, hnf, List.length_append]
  split <;> simp

theorem unfinished_flushBatch (signal : Signal) (s : State) :
    (flushBatch signal (config.url signal) s).pool.unfinished.length =
      s.pool.unfinished.length + owed config s signal := by
  obtain ⟨hb, h⟩ | ⟨hb, hu, h⟩ | ⟨u, hb, hu, h⟩ := flushBatch_cases signal (config.url signal) s
  · rw [h]
    simp [owed, hb]
  · rw [h]
    simp [owed, hu]
  · rw [h]
    simp [owed, hb, hu]

theorem owed_flushBatch {signal' : Signal} (hne : signal' ≠ signal) (url : Option String) :
    owed config (flushBatch signal url s) signal' = owed config s signal' := by
  simp [owed, flushBatch_batch, hne]

theorem unfinished_flushAll (s : State) :
    (flushAll config s).pool.unfinished.length = s.pool.unfinished.length + owedAll config s := by
  simp only [flushAll, unfinished_flushBatch, owedAll]
  rw [owed_flushBatch (by decide), owed_flushBatch (by decide), owed_flushBatch (by decide)]
  omega

theorem unfinished_receiveData (signal : Signal) (data : Bytes) (s : State) :
    (receiveData config signal data s).pool.unfinished.length = s.pool.unfinished.length +
      if (s.batch signal).length + 1 ≥ config.batchSize ∧ (config.url signal).isSome then 1
      else 0 := by
  have hb : (s.setBatch signal (s.batch signal ++ [data])).batch signal =
      s.batch signal ++ [data] := by
    rw [batch_setBatch, if_pos rfl]
  have hr (t : State) : (reap t).pool.unfinished = t.pool.unfinished := rfl
  simp only [receiveData, hr, hb, List.length_append, List.length_singleton]
  split
  · rename_i hge
    simp [unfinished_flushBatch, owed, hb, hge]
  · rename_i hlt
    simp [hlt]

theorem unfinished_step (ht : step config a s = some s') :
    s'.pool.unfinished.length ≤ s.pool.unfinished.length + dispatches config a s := by
  cases step_stepped ht with
  | call => simp
  | @data msg c signal data hpc hp hm =>
    obtain ⟨rest, hq, rfl⟩ := pop_eq hp
    rw [unfinished_receiveData]
    simp [dispatches, hq, hm, State.batch]
  | @flush c done hpc hp =>
    obtain ⟨rest, hq, rfl⟩ := pop_eq hp
    have hd : dispatches config .recv s = owedAll config s := by
      simp [dispatches, hq, ExportMessage.data?]
    rw [hd]
    exact Nat.le_of_eq (unfinished_flushAll _)
  | @shutdown c hpc hp =>
    obtain ⟨rest, hq, rfl⟩ := pop_eq hp
    have hd : dispatches config .recv s = owedAll config s := by
      simp [dispatches, hq, ExportMessage.data?]
    rw [hd]
    exact Nat.le_of_eq (unfinished_flushAll _)
  | closed hpc hq hh =>
    have hd : dispatches config .recv s = owedAll config s := by simp [dispatches, hq]
    rw [hd]
    exact Nat.le_of_eq (unfinished_flushAll _)
  | tick hpc hq hh => exact Nat.le_of_eq (unfinished_flushAll _)
  | join hh hnt hj => simp [Pool.unfinished_join hj]
  | reply => simp [reply, reap, Pool.reap, Pool.unfinished]
  | stop => simp [stop]
  | task h => exact Nat.le_add_right_of_le (Pool.unfinished_event h)

theorem unfinished_bounded (h : (exporter config).ReachableBy (PermitsFree config) s) :
    s.pool.unfinished.length ≤ config.maxConcurrentExports := by
  refine h.invariant (I := fun s => s.pool.unfinished.length ≤ config.maxConcurrentExports)
    (fun s h0 => ?_) fun a s t _ hu hp ht => ?_
  · simp only [Exporter.exporter, start, Option.ite_none_left_eq_some, Option.some.injEq] at h0
    obtain ⟨-, rfl⟩ := h0
    simp [Pool.unfinished]
  · have hs := unfinished_step ht
    rcases hp with hz | hle <;> omega

-- ---------------------------------------------------------------------------
-- The bound
-- ---------------------------------------------------------------------------

theorem sum_le_of_le {l : List Nat} (h : ∀ x ∈ l, x ≤ b) : l.sum ≤ l.length * b := by
  have := List.sum_le_card_nsmul l b h
  simpa using this

/-- If every batch dispatched finds a free permit, then what is held is
bounded by the channel, the three batches and one payload for each permit. -/
theorem held_bounded (h : (exporter config).ReachableBy (PermitsFree config) s) :
    held s ≤ heldBound config := by
  have hi := reachable_inv h.reachable
  have hq : dataCount s.channel.queue ≤ s.channel.queue.length := List.countP_le_length
  have hc := hi.channel.bounded
  have ht : s.traceBatch.length < _ := hi.short .traces
  have hl : s.logBatch.length < _ := hi.short .logs
  have hm : s.metricsBatch.length < _ := hi.short .metrics
  have hsum : (s.pool.unfinished.map fun t => t.post.items.length).sum ≤
      s.pool.unfinished.length * max config.batchSize 1 := by
    have := sum_le_of_le (l := s.pool.unfinished.map fun t => t.post.items.length)
      (b := max config.batchSize 1) fun x hx => by
        obtain ⟨t, hm, rfl⟩ := List.mem_map.mp hx
        have hp : t.post ∈ s.pool.posts :=
          List.mem_map_of_mem (List.mem_filter.mp hm).1
        exact (hi.balanced.posts t.post hp).size
    simpa using this
  have hmul := Nat.mul_le_mul_right (max config.batchSize 1) (unfinished_bounded h)
  unfold held heldBound
  omega

end

def oneOfEach : ExporterConfig where
  tracesUrl := some "/v1/traces"
  logsUrl := none
  metricsUrl := none
  channelCapacity := 1
  batchSize := 1
  maxConcurrentExports := 1

/-- Six traces sent and received while no task gets anywhere: six payloads are
held where five would be the bound. -/
theorem held_unbounded :
    ¬ ∀ config s, (exporter config).Reachable s → held s ≤ heldBound config := by
  intro h
  obtain ⟨s, hs⟩ := Option.isSome_iff_exists.mp (show (runFrom oneOfEach
    (List.replicate 6 [.call (.sendTraces [1]), .recv]).flatten).isSome by decide)
  have hle := h oneOfEach s (reachable_of_run hs)
  have hh : held s = 6 := of_run hs (by decide)
  rw [hh] at hle
  exact absurd hle (by decide)

theorem held_bounded_run : ∃ s,
    runBy oneOfEach (PermitsFree oneOfEach) [.call (.sendTraces [1]), .recv,
      .call (.sendTraces [2]), .task 0 .acquire, .task 0 (.respond true), .recv] = some s ∧
    held s ≤ heldBound oneOfEach := by
  obtain ⟨s, hs⟩ := Option.isSome_iff_exists.mp (show (runBy oneOfEach (PermitsFree oneOfEach)
    [.call (.sendTraces [1]), .recv, .call (.sendTraces [2]), .task 0 .acquire,
      .task 0 (.respond true), .recv]).isSome by decide)
  exact ⟨s, hs, held_bounded (reachableBy_of_run hs)⟩

end Rolly.Exporter
