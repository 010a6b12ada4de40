import Rolly.ExporterLaws

/-!
# Nothing is lost on the way

Until the loop terminates every accepted message is in exactly one place, and
in order. When a flush is answered, what was accepted before it has left the
process. What is queued behind a shutdown is neither sent nor counted.
-/

namespace Rolly.Exporter

open Proto3 (Bytes)
open Machine (of_run)

/-- While the loop runs: calls are counted, the stream of each signal with a
URL is cut into payloads, batch and queue, payloads are well formed and no
batch is full at the head of the loop. -/
theorem exporter_conserves (h : (exporter config).Reachable s) (hpc : s.pc ≠ .terminated) :
    s.channel.sends = dataCount s.channel.accepted + s.channel.droppedTotal ∧
    (∀ signal url, config.url signal = some url →
      sentOf signal s.pool.posts ++ s.batch signal ++ dataOf signal s.channel.queue =
        dataOf signal s.channel.accepted) ∧
    (∀ post ∈ s.pool.posts, config.url post.signal = some post.url ∧
      post.data = post.items.flatten ∧ 1 ≤ post.items.length ∧
      post.items.length ≤ max config.batchSize 1) ∧
    (s.pc = .head → ∀ signal, (s.batch signal).length < max config.batchSize 1) := by
  have hi := reachable_inv h
  refine ⟨hi.channel.counted, ?_, ?_, fun _ => hi.short⟩
  · intro signal url hu
    have hopen : s.channel.closed = false := by
      have := hi.closed
      simpa [hpc] using this
    have hs := hi.balanced.streams signal
    rw [hi.balanced.kept signal url hu, List.append_nil] at hs
    rw [hi.channel.order, hi.channel.openLost hopen, List.append_nil, dataOf_append, hs]
  · intro post hm
    obtain ⟨hu, hd, hne, hsz⟩ := hi.balanced.posts post hm
    exact ⟨hu, hd, hne, hsz⟩

def tracesAndLogs : ExporterConfig where
  tracesUrl := some "/v1/traces"
  logsUrl := some "/v1/logs"
  metricsUrl := none
  channelCapacity := 4
  batchSize := 2
  maxConcurrentExports := 1

/-- One message of each kind under way: two traces sent, the log in its batch,
the metric in the channel. -/
theorem exporter_conserves_run : ∃ s,
    runFrom tracesAndLogs [.call (.sendTraces [1]), .call (.sendLogs [2]), .call (.sendTraces [3]),
      .recv, .recv, .recv, .call (.sendMetrics [4])] = some s ∧
    s.channel.sends = dataCount s.channel.accepted + s.channel.droppedTotal ∧
    (∀ signal url, tracesAndLogs.url signal = some url →
      sentOf signal s.pool.posts ++ s.batch signal ++ dataOf signal s.channel.queue =
        dataOf signal s.channel.accepted) ∧
    (∀ post ∈ s.pool.posts, tracesAndLogs.url post.signal = some post.url ∧
      post.data = post.items.flatten ∧ 1 ≤ post.items.length ∧
      post.items.length ≤ max tracesAndLogs.batchSize 1) ∧
    (s.pc = .head → ∀ signal, (s.batch signal).length < max tracesAndLogs.batchSize 1) := by
  obtain ⟨s, hs⟩ := Option.isSome_iff_exists.mp (show (runFrom tracesAndLogs
    [.call (.sendTraces [1]), .call (.sendLogs [2]), .call (.sendTraces [3]),
      .recv, .recv, .recv, .call (.sendMetrics [4])]).isSome by decide)
  have hpc : s.pc = .head := of_run hs (by decide)
  exact ⟨s, hs, exporter_conserves (reachable_of_run hs) (by simp [hpc])⟩

-- ---------------------------------------------------------------------------
-- Flush
-- ---------------------------------------------------------------------------

def finishedOf (signal : Signal) (p : Pool) : List Bytes :=
  sentOf signal ((p.tasks.filter fun t => t.phase.isFinished).map Task.post)

theorem finishedOf_eq {p : Pool} (h : ∀ t ∈ p.tasks, t.phase.isFinished) (signal : Signal) :
    finishedOf signal p = sentOf signal p.posts := by
  rw [finishedOf, List.filter_eq_self.mpr h]
  rfl

theorem prefix_unique [DecidableEq α] {a : α} {l pre post pre' post' : List α}
    (hl : l.count a ≤ 1) (h : l = pre ++ a :: post) (h' : l = pre' ++ a :: post') :
    pre = pre' := by
  have hmem {pre post : List α} (h : l = pre ++ a :: post) : a ∉ pre := by
    intro hm
    have := List.count_pos_iff.mpr hm
    rw [h, List.count_append, List.count_cons_self] at hl
    omega
  have hn := hmem h
  have hn' := hmem h'
  rw [h] at h'
  obtain ⟨as, rfl, hr⟩ | ⟨bs, rfl, hr⟩ := List.append_eq_append_iff.mp h'
  · cases as with
    | nil => simp
    | cons b as =>
      obtain ⟨rfl, -⟩ := by simpa using hr
      exact absurd (by simp) hn'
  · cases bs with
    | nil => simp
    | cons b bs =>
      obtain ⟨rfl, -⟩ := by simpa using hr
      exact absurd (by simp) hn

theorem flushing_accounts (h : (exporter config).Reachable s) (hpc : s.pc = .flushing done)
    (hj : s.pool.joinSet = []) : .flush done ∈ s.channel.accepted ∧
      ∀ pre post, s.channel.accepted = pre ++ .flush done :: post → ∀ signal,
        dataOf signal pre = finishedOf signal s.pool ++ discardedOf signal s.discarded := by
  have hi := reachable_inv h
  have hfin (task : Task) (hm : task ∈ s.pool.tasks) := hi.balanced.pool.all_finished hj hm
  obtain ⟨received, hr⟩ := hi.flushing done hpc
  have ha : s.channel.accepted =
      received ++ .flush done :: (s.channel.queue ++ s.channel.lost) := by
    simp [hi.channel.order, hr]
  refine ⟨by simp [ha], fun pre post hpre signal => ?_⟩
  have honce : s.channel.accepted.count (.flush done) ≤ 1 := by
    have := hi.channel.once done
    rw [List.count_append] at this
    omega
  obtain rfl := prefix_unique honce ha hpre
  have hst := hi.balanced.streams signal
  rw [hi.drained (by simp [hpc]) signal, List.append_nil, hr, dataOf_append] at hst
  rw [finishedOf_eq hfin, hst]
  simp [dataOf, ExportMessage.data?]

theorem flush_complete (h : (exporter config).Reachable s) (hs : step config .reply s = some t) :
    ∃ done, s.pc = .flushing done ∧ t.replies = s.replies ++ [done] ∧
      .flush done ∈ s.channel.accepted ∧
      (∀ pre post, s.channel.accepted = pre ++ .flush done :: post → ∀ signal,
        dataOf signal pre = finishedOf signal s.pool ++ discardedOf signal s.discarded) ∧
      (∀ signal, discardedOf signal s.discarded ≠ [] → config.url signal = none) ∧
      (∀ task ∈ s.pool.tasks, task.phase.isFinished) ∧ ∀ signal, s.batch signal = [] := by
  have hi := reachable_inv h
  cases step_stepped hs with
  | @reply done hpc hj =>
    obtain ⟨ha, haccounts⟩ := flushing_accounts h hpc hj
    refine ⟨done, hpc, rfl, ha, haccounts, fun signal hne => ?_,
      fun task hm => hi.balanced.pool.all_finished hj hm, hi.drained (by simp [hpc])⟩
    cases hu : config.url signal with
    | none => rfl
    | some url => exact absurd (hi.balanced.kept signal url hu) hne

theorem flush_complete_run : ∃ s t,
    runFrom tracesAndLogs [.call (.sendTraces [1]), .call (.sendMetrics [2]), .call .flush,
      .call (.push 0), .recv, .recv, .recv, .task 0 .acquire, .task 0 (.respond true), .join 0] =
      some s ∧
    step tracesAndLogs .reply s = some t ∧
    ∃ done, s.pc = .flushing done ∧ t.replies = s.replies ++ [done] ∧
      .flush done ∈ s.channel.accepted ∧
      (∀ pre post, s.channel.accepted = pre ++ .flush done :: post → ∀ signal,
        dataOf signal pre = finishedOf signal s.pool ++ discardedOf signal s.discarded) ∧
      (∀ signal, discardedOf signal s.discarded ≠ [] → tracesAndLogs.url signal = none) ∧
      (∀ task ∈ s.pool.tasks, task.phase.isFinished) ∧ ∀ signal, s.batch signal = [] := by
  obtain ⟨s, hs⟩ := Option.isSome_iff_exists.mp (show (runFrom tracesAndLogs
    [.call (.sendTraces [1]), .call (.sendMetrics [2]), .call .flush, .call (.push 0), .recv, .recv,
      .recv, .task 0 .acquire, .task 0 (.respond true), .join 0]).isSome by decide)
  obtain ⟨t, ht⟩ := Option.isSome_iff_exists.mp
    (of_run hs (f := fun s => (step tracesAndLogs .reply s).isSome) (by decide))
  exact ⟨s, t, hs, ht, flush_complete (reachable_of_run hs) ht⟩

-- ---------------------------------------------------------------------------
-- Shutdown
-- ---------------------------------------------------------------------------

/-- Every message a `send_*` call was made for was posted until success or the
last failure, had no URL, or was counted as dropped. -/
def Settled (config : ExporterConfig) (s : State) : Prop :=
  s.channel.sends = dataCount s.channel.accepted + s.channel.droppedTotal ∧
  ∀ signal, dataOf signal s.channel.accepted =
      finishedOf signal s.pool ++ discardedOf signal s.discarded ∧
    (discardedOf signal s.discarded ≠ [] → config.url signal = none)

def ShutdownAhead (s : State) : Prop := .shutdown ∈ s.channel.queue ∨ s.pc = .stopping

/-- A data message is not accepted behind a shutdown: none is ahead, or the
channel has no slot. -/
def BeforeShutdown (config : ExporterConfig) : Action → State → Prop
  | .call k, s => k.isSend → ShutdownAhead s → ¬ s.channel.hasSlot config
  | _, _ => True

instance (s : State) : Decidable (ShutdownAhead s) := inferInstanceAs (Decidable (_ ∨ _))

instance (config : ExporterConfig) (a : Action) (s : State) :
    Decidable (BeforeShutdown config a s) := by
  cases a <;> unfold BeforeShutdown <;> infer_instance

structure NoneBehind (s : State) : Prop where
  queue : ∀ pre post, s.channel.queue = pre ++ .shutdown :: post → ∀ msg ∈ post, msg.data? = none
  stopping : s.pc = .stopping → ∀ msg ∈ s.channel.queue, msg.data? = none
  lost : ∀ msg ∈ s.channel.lost, msg.data? = none

theorem NoneBehind.call {k : Call} {c : Channel} (hn : NoneBehind s) (hi : s.Inv config)
    (hb : BeforeShutdown config (.call k) s) (h : s.channel.call config k = some c) :
    NoneBehind { s with channel := c } := by
  obtain ⟨⟨-, -, hl⟩, hq | ⟨msg, hq, hm⟩⟩ := Channel.call_frame h
  · exact ⟨hq ▸ hn.queue, hq ▸ hn.stopping, hl ▸ hn.lost⟩
  · -- a message behind a shutdown is one that was pending
    have hmsg (ha : ShutdownAhead s) : msg.data? = none := by
      rcases hm with hm | ⟨hk, -, hs⟩
      · exact hi.channel.control msg hm
      · exact absurd hs (hb hk ha)
    refine ⟨fun pre post hp m hm' => ?_, fun hpc m hm' => ?_, hl ▸ hn.lost⟩
    · change c.queue = _ at hp
      rw [hq] at hp
      rcases List.eq_nil_or_concat post with rfl | ⟨post, x, rfl⟩
      · cases hm'
      · obtain ⟨hp', hx⟩ := List.append_inj'
          (show s.channel.queue ++ [msg] = (pre ++ .shutdown :: post) ++ [x] by simpa using hp) rfl
        obtain rfl := List.singleton_inj.mp hx
        rw [List.concat_eq_append, List.mem_append, List.mem_singleton] at hm'
        rcases hm' with hm' | rfl
        · exact hn.queue pre post hp' m hm'
        · exact hmsg (.inl (by simp [hp']))
    · change m ∈ c.queue at hm'
      rw [hq, List.mem_append, List.mem_singleton] at hm'
      rcases hm' with hm' | rfl
      · exact hn.stopping hpc m hm'
      · exact hmsg (.inr hpc)

theorem NoneBehind.pop {c : Channel} (hn : NoneBehind s) (h : s.channel.pop = some (msg, c)) :
    (∀ pre post, c.queue = pre ++ .shutdown :: post → ∀ m ∈ post, m.data? = none) ∧
      ∀ m ∈ c.lost, m.data? = none := by
  obtain ⟨rest, hq, rfl⟩ := pop_eq h
  refine ⟨fun pre post hp => hn.queue (msg :: pre) post ?_, hn.lost⟩
  rw [hq, List.cons_append]
  exact congrArg _ hp

theorem NoneBehind.step (hn : NoneBehind s) (hi : s.Inv config) (hb : BeforeShutdown config a s)
    (ht : step config a s = some t) : NoneBehind t := by
  cases step_stepped ht with
  | call h => exact hn.call hi hb h
  | @data msg c signal data hpc hp hm =>
    obtain ⟨hq, hl⟩ := hn.pop hp
    exact ⟨by simpa using hq, by simp [hpc], by simpa using hl⟩
  | flush hpc hp =>
    obtain ⟨hq, hl⟩ := hn.pop hp
    exact ⟨by simpa using hq, nofun, by simpa using hl⟩
  | shutdown hpc hp =>
    obtain ⟨hq, hl⟩ := hn.pop hp
    obtain ⟨rest, hr, rfl⟩ := pop_eq hp
    exact ⟨by simpa using hq, fun _ => by simpa using hn.queue [] rest hr, by simpa using hl⟩
  | closed hpc hq hh => exact ⟨by simp [hq], by simp [hq], by simpa using hn.lost⟩
  | tick hpc hq hh =>
    have hr : (reap (flushAll config s)).channel = s.channel := flushAll_channel
    have hp : (reap (flushAll config s)).pc = .head := flushAll_pc.trans hpc
    exact ⟨hr ▸ hn.queue, by simp [hp], hr ▸ hn.lost⟩
  | join hh hnt hj => exact ⟨hn.queue, hn.stopping, hn.lost⟩
  | reply => exact ⟨hn.queue, nofun, hn.lost⟩
  | stop hpc => exact ⟨by simp [Exporter.stop, Channel.close], nofun, hn.stopping hpc⟩
  | task => exact ⟨hn.queue, hn.stopping, hn.lost⟩

theorem NoneBehind.init (h : start config = some s) : NoneBehind s := by
  simp only [start, Option.ite_none_left_eq_some, Option.some.injEq] at h
  obtain ⟨-, rfl⟩ := h
  exact ⟨by simp, by simp, by simp⟩

theorem shutdown_settles (h : (exporter config).ReachableBy (BeforeShutdown config) s)
    (hpc : s.pc = .terminated) : Settled config s := by
  have hi := reachable_inv h.reachable
  have hn : NoneBehind s := h.invariant (fun _ h0 => .init h0) fun _ _ _ hr hn hb ht =>
    hn.step (reachable_inv hr.reachable) hb ht
  have hq := (hi.channel.closedQueue (hi.closed.mpr hpc)).1
  have hfin (t : Task) (hm : t ∈ s.pool.tasks) :=
    hi.balanced.pool.all_finished (hi.joined hpc) hm
  refine ⟨hi.channel.counted, fun signal => ⟨?_, fun hne => ?_⟩⟩
  · have hl : dataOf signal s.channel.lost = [] := by
      rw [dataOf, List.filterMap_eq_nil_iff]
      intro msg hm
      rw [hn.lost msg hm]
      rfl
    have hs := hi.balanced.streams signal
    rw [hi.drained (by simp [hpc]) signal, List.append_nil] at hs
    rw [hi.channel.order, hq, List.append_nil, dataOf_append, hl, List.append_nil, ← hs,
      finishedOf_eq hfin]
  · cases hu : config.url signal with
    | none => rfl
    | some url => exact absurd (hi.balanced.kept signal url hu) hne

/-- A message sent once the shutdown is queued is accepted, and gone. -/
theorem shutdown_loses_data : ¬ ∀ config s, (exporter config).Reachable s → s.pc = .terminated →
    Settled config s := by
  intro h
  obtain ⟨s, hs⟩ := Option.isSome_iff_exists.mp (show (runFrom tracesAndLogs
    [.call .shutdown, .call (.push 0), .call (.sendTraces [1]), .recv, .stop]).isSome by decide)
  have hpc : s.pc = .terminated := of_run hs (by decide)
  have hd := ((h tracesAndLogs s (reachable_of_run hs) hpc).2 .traces).1
  have ha : dataOf .traces s.channel.accepted = [[1]] :=
    of_run hs (f := fun s => dataOf .traces s.channel.accepted) (by decide)
  have hf : finishedOf .traces s.pool ++ discardedOf .traces s.discarded = [] :=
    of_run hs (f := fun s => finishedOf .traces s.pool ++ discardedOf .traces s.discarded)
      (by decide)
  rw [ha, hf] at hd
  cases hd

/-- A trace ahead of the shutdown is posted; one sent after the loop has gone is
counted. -/
theorem shutdown_settles_run : ∃ s,
    runBy tracesAndLogs (BeforeShutdown tracesAndLogs) [.call (.sendTraces [1]), .call .shutdown,
      .call (.push 0), .recv, .recv, .task 0 .acquire, .task 0 (.respond true), .join 0, .stop,
      .call (.sendTraces [2])] = some s ∧ Settled tracesAndLogs s := by
  obtain ⟨s, hs⟩ := Option.isSome_iff_exists.mp (show (runBy tracesAndLogs
    (BeforeShutdown tracesAndLogs) [.call (.sendTraces [1]), .call .shutdown,
      .call (.push 0), .recv, .recv, .task 0 .acquire, .task 0 (.respond true), .join 0, .stop,
      .call (.sendTraces [2])]).isSome by decide)
  have hpc : s.pc = .terminated := of_run hs (by decide)
  exact ⟨s, hs, shutdown_settles (reachableBy_of_run hs) hpc⟩

end Rolly.Exporter
