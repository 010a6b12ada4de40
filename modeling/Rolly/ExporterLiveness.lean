import Rolly.ExporterWork

/-!
# What the exporter always finishes

A message that was accepted comes nearer to the loop, and a flush or a shutdown
that was received nearer to its end, whatever the callers do meanwhile. Only
tasks that never get a permit can keep them waiting.
-/

namespace Rolly.Exporter

open Machine (Run Stable)

section
variable {config : ExporterConfig} {s t : State}

-- ---------------------------------------------------------------------------
-- Waiting for a message
-- ---------------------------------------------------------------------------

def Pc.after : Option ExportMessage → Pc
  | some (.flush done) => .flushing done
  | some .shutdown => .stopping
  | none => .stopping
  | some _ => .head

/-- The loop takes what is first in the queue, or the end of the channel. -/
structure Took (s t : State) : Prop where
  head : s.pc = .head
  pc : t.pc = Pc.after s.channel.queue.head?
  received : t.channel.received = s.channel.received ++ s.channel.queue.head?.toList
  accepted : t.channel.accepted = s.channel.accepted
  handles : t.channel.handles = s.channel.handles
  closed : t.channel.closed = s.channel.closed
  last : s.channel.queue = [] → s.channel.handles = 0

theorem recv_took (ht : step config .recv s = some t) : Took s t := by
  cases step_stepped ht with
  | @data msg c signal data hpc hp hm =>
    obtain ⟨rest, hq, rfl⟩ := pop_eq hp
    have hafter : Pc.head = Pc.after (some msg) := by
      cases msg with
      | flush | shutdown => cases hm
      | _ => rfl
    refine { head := hpc, pc := ?_, received := ?_, accepted := ?_, handles := ?_, closed := ?_,
             last := ?_ }
    · rw [receiveData_pc, hq, List.head?_cons, ← hafter, hpc]
    all_goals simp [hq]
  | flush hpc hp =>
    obtain ⟨rest, hq, rfl⟩ := pop_eq hp
    constructor <;> simp [hq, hpc, Pc.after]
  | shutdown hpc hp =>
    obtain ⟨rest, hq, rfl⟩ := pop_eq hp
    constructor <;> simp [hq, hpc, Pc.after]
  | closed hpc hq hh => constructor <;> simp [hq, hh, hpc, Pc.after]

/-- The message at `k` has been accepted and not been dealt with; without a
message it is the end of the channel, once the handles are gone. -/
structure Awaits (k : Nat) (target : Option ExportMessage) (s : State) : Prop where
  running : s.channel.closed = false
  there : s.channel.accepted[k]? = target
  last : target = none → s.channel.handles = 0 ∧ s.channel.accepted.length = k
  ahead : s.channel.received.length ≤ k ∨ s.pc = Pc.after target ∧ s.pc ≠ .head

/-- It was left behind by a loop that is gone, or dealt with: a flush is
answered, a shutdown ends the loop, data is received. -/
def Served (k : Nat) (target : Option ExportMessage) (s : State) : Prop :=
  s.channel.closed = true ∧ s.channel.received.length ≤ k ∨
    k < s.channel.received.length ∧ match target with
      | some (.flush done) => done ∈ s.replies
      | some .shutdown => s.channel.closed = true
      | none => s.channel.closed = true
      | some _ => True

theorem Awaits.step (hi : s.Inv config) (hw : Awaits k target s) (ht : step config a s = some t) :
    a ≠ .tick ∧ (Served k target t ∨ Awaits k target t) := by
  have hopen := hi.channel.openLost hw.running
  have horder : s.channel.accepted = s.channel.received ++ s.channel.queue := by
    rw [hi.channel.order, hopen, List.append_nil]
  -- what is first in the queue when the loop comes to `k`
  have hfirst (hk : s.channel.received.length = k) : s.channel.queue.head? = target := by
    rw [← hw.there, horder, List.getElem?_append_right (Nat.le_of_eq hk), ← hk, Nat.sub_self,
      List.head?_eq_getElem?]
  have hkeep {p : Pool} : Awaits k target { s with pool := p } :=
    { running := hw.running, there := hw.there, last := hw.last, ahead := hw.ahead }
  have hhead (hpc : s.pc = .head) : s.channel.received.length ≤ k :=
    hw.ahead.resolve_right fun h => h.2 hpc
  have hrecv (hr : Exporter.step config .recv s = some t) :
      Served k target t ∨ Awaits k target t := by
    have hk := hhead (recv_took hr).head
    obtain ⟨-, hpc, hrec, hacc, hhan, hclosed, hend⟩ := recv_took hr
    obtain hlt | heq := Nat.lt_or_eq_of_le hk
    · refine .inr { running := hclosed ▸ hw.running, there := hacc ▸ hw.there
                    last := hacc ▸ hhan ▸ hw.last, ahead := .inl ?_ }
      rw [hrec, List.length_append]
      have : s.channel.queue.head?.toList.length ≤ 1 := by
        cases s.channel.queue.head? <;> simp
      omega
    · rw [hfirst heq] at hpc hrec
      by_cases hh : Pc.after target = .head
      · -- data
        cases target with
        | none => cases hh
        | some msg =>
          refine .inl (.inr ⟨by simp [hrec, heq], ?_⟩)
          cases msg with
          | flush | shutdown => cases hh
          | _ => trivial
      · exact .inr { running := hclosed ▸ hw.running, there := hacc ▸ hw.there
                     last := hacc ▸ hhan ▸ hw.last, ahead := .inr ⟨hpc, hpc ▸ hh⟩ }
  cases step_stepped ht with
  | @call k' c h =>
    refine ⟨fun h => (by cases h), .inr ?_⟩
    obtain ⟨⟨hrec, hcl, -⟩, -⟩ := Channel.call_frame h
    obtain ⟨added, hacc, -⟩ := call_accepted h
    cases target with
    | none =>
      -- there is no handle to call
      have hh := (hw.last rfl).1
      simp [Channel.call, hh] at h
    | some msg =>
      refine { running := hcl.trans hw.running, there := ?_, ahead := ?_
               last := fun h => (by cases h) }
      · show c.accepted[k]? = some msg
        rw [hacc, List.getElem?_append_left (List.getElem?_eq_some_iff.mp hw.there).1, hw.there]
      · show c.received.length ≤ k ∨ _
        rw [hrec]
        exact hw.ahead
  | data | flush | shutdown | closed => exact ⟨fun h => (by cases h), hrecv ht⟩
  | tick hpc hq hh =>
    have hk := hhead hpc
    have hnone : target = none := by
      rw [← hw.there, horder, hq, List.append_nil, List.getElem?_eq_none hk]
    have := (hw.last hnone).1
    omega
  | join | task => exact ⟨fun h => (by cases h), .inr hkeep⟩
  | @reply done hpc hj =>
    refine ⟨fun h => (by cases h), ?_⟩
    by_cases hk : s.channel.received.length ≤ k
    · exact .inr { running := hw.running, there := hw.there, last := hw.last, ahead := .inl hk }
    · obtain ⟨hafter, -⟩ := hw.ahead.resolve_left hk
      rw [hpc] at hafter
      refine .inl (.inr ⟨Nat.lt_of_not_le hk, ?_⟩)
      cases target with
      | none => cases hafter
      | some msg =>
        cases msg with
        | flush done' =>
          cases hafter
          simp [Exporter.reply, reap]
        | _ => cases hafter
  | stop hpc hj =>
    refine ⟨fun h => (by cases h), .inl ?_⟩
    by_cases hk : s.channel.received.length ≤ k
    · exact .inl ⟨rfl, hk⟩
    · obtain ⟨hafter, -⟩ := hw.ahead.resolve_left hk
      rw [hpc] at hafter
      refine .inr ⟨Nat.lt_of_not_le hk, ?_⟩
      cases target with
      | none => rfl
      | some msg =>
        cases msg with
        | shutdown => rfl
        | _ => cases hafter

/-- What was received, answered or closed stays so, and a loop that is gone
receives nothing. -/
theorem settled_step (hi : s.Inv config) (ht : step config a s = some t) :
    s.channel.received.length ≤ t.channel.received.length ∧ s.replies ⊆ t.replies ∧
      (s.channel.closed = true →
        t.channel.closed = true ∧ t.channel.received = s.channel.received) := by
  have hreplies : s.replies ⊆ t.replies := by
    obtain he | ⟨_, -, -, he⟩ := replies_step ht
    · exact he ▸ List.Subset.refl _
    · exact he ▸ List.subset_append_left _ _
  have hrecv (hr : Exporter.step config .recv s = some t) :
      s.channel.received.length ≤ t.channel.received.length ∧ s.replies ⊆ t.replies ∧
        (s.channel.closed = true →
          t.channel.closed = true ∧ t.channel.received = s.channel.received) := by
    have htook := recv_took hr
    refine ⟨by simp [htook.received], hreplies, fun hc => ?_⟩
    have := hi.closed.mp hc
    rw [htook.head] at this
    cases this
  cases step_stepped ht with
  | call h =>
    obtain ⟨⟨hrec, hcl, -⟩, -⟩ := Channel.call_frame h
    exact ⟨Nat.le_of_eq (by rw [hrec]), hreplies, fun hc => ⟨hcl.trans hc, hrec⟩⟩
  | data | flush | shutdown | closed => exact hrecv ht
  | tick =>
    have hc : (reap (flushAll config s)).channel = s.channel := flushAll_channel
    exact ⟨Nat.le_of_eq (by rw [hc]), hreplies, fun h => ⟨hc ▸ h, by rw [hc]⟩⟩
  | stop => exact ⟨Nat.le_refl _, hreplies, fun _ => ⟨rfl, rfl⟩⟩
  | _ => exact ⟨Nat.le_refl _, hreplies, fun h => ⟨h, rfl⟩⟩

theorem Served.step (hi : s.Inv config) (h : Served k target s) (ht : step config a s = some t) :
    Served k target t := by
  obtain ⟨hrec, hreplies, hclosed⟩ := settled_step hi ht
  obtain ⟨hc, hk⟩ | h := h
  · obtain ⟨hc', he⟩ := hclosed hc
    exact .inl ⟨hc', by rw [he]; exact hk⟩
  · refine .inr ⟨Nat.lt_of_lt_of_le h.1 hrec, ?_⟩
    cases target with
    | none => exact (hclosed h.2).1
    | some msg =>
      cases msg with
      | flush done => exact hreplies h.2
      | shutdown => exact (hclosed h.2).1
      | _ => trivial

theorem served_stable (k : Nat) (target : Option ExportMessage) :
    (exporter config).Stable (Served k target) :=
  fun _ _ _ hr h ht => h.step (reachable_inv hr) ht

/-- Whatever the exporter does by itself brings it nearer to every message. -/
theorem awaits_descends (k : Nat) (target : Option ExportMessage) :
    (exporter config).Descends Action.isOwn (Awaits k target) (Served k target)
      (fun s => s.distance k) where
  step a s t hr hw ht := by
    obtain ⟨ha, hnext⟩ := hw.step (reachable_inv hr) ht
    refine hnext.imp_right fun hwt => ⟨hwt, distance_step hr ht ha fun hpc => ?_⟩
    exact hw.ahead.resolve_right fun h => h.2 hpc

theorem awaits_progress (hs : config.Servable) (k : Nat) (target : Option ExportMessage) :
    (exporter config).Progress Action.isOwn (Awaits k target) (Served k target)
      (fun s => s.distance k) where
  toDescends := awaits_descends k target
  enabled s hr hw := by
    have hi := reachable_inv hr
    by_cases hpc : s.pc = .head
    · refine recv_enabled hpc ?_
      -- an empty queue means that the message is the end of the channel
      by_contra hidle
      obtain ⟨hq, hh⟩ := not_or.mp hidle
      have hk := hw.ahead.resolve_right fun h => h.2 hpc
      have hnone : target = none := by
        rw [← hw.there, hi.channel.order, hi.channel.openLost hw.running, not_not.mp hq,
          List.append_nil, List.append_nil, List.getElem?_eq_none hk]
      exact hh (hw.last hnone).1
    · refine joining_enabled hr hs hpc fun ht => ?_
      have := hi.closed.mpr ht
      rw [hw.running] at this
      cases this

-- ---------------------------------------------------------------------------
-- Accepted messages
-- ---------------------------------------------------------------------------

theorem accepted_stands (hr : (exporter config).Reachable s)
    (hk : s.channel.accepted[k]? = some msg) : Served k (some msg) s ∨ Awaits k (some msg) s := by
  refine hr.invariant (I := fun s => ∀ k msg, s.channel.accepted[k]? = some msg →
    Served k (some msg) s ∨ Awaits k (some msg) s) (fun s h0 => ?_) (fun a s t hr ih ht => ?_) k msg
    hk
  · obtain ⟨-, h0⟩ := Option.ite_none_left_eq_some.mp h0
    obtain rfl := Option.some.inj h0
    exact fun k msg hk => absurd hk nofun
  · have hi := reachable_inv hr
    intro k msg hk
    by_cases hlt : k < s.channel.accepted.length
    · obtain ⟨added, hacc, -⟩ := accepted_step ht
      rw [hacc, List.getElem?_append_left hlt] at hk
      obtain h | h := ih k msg hk
      · exact .inl (h.step hi ht)
      · exact (h.step hi ht).2
    · -- just accepted, and so not received yet
      have hrec : t.channel.received.length ≤ k := by
        obtain ⟨k', c, -, hc, rfl⟩ | ⟨hacc, -⟩ := channel_step ht
        · have hle : s.channel.received.length ≤ s.channel.accepted.length := by
            rw [hi.channel.order, List.append_assoc, List.length_append]
            omega
          show c.received.length ≤ k
          rw [(Channel.call_frame hc).1.1]
          omega
        · have := (List.getElem?_eq_some_iff.mp hk).1
          rw [hacc] at this
          omega
      cases hc : t.channel.closed with
      | true => exact .inl (.inl ⟨hc, hrec⟩)
      | false => exact .inr { running := hc, there := hk, last := nofun, ahead := .inl hrec }

theorem left_lost (hr : (exporter config).Reachable s) (hc : s.channel.closed = true)
    (hle : s.channel.received.length ≤ k) (hk : s.channel.accepted[k]? = some msg) :
    msg ∈ s.channel.lost := by
  have hi := reachable_inv hr
  rw [hi.channel.order, (hi.channel.closedQueue hc).1, List.append_nil,
    List.getElem?_append_right hle] at hk
  exact List.mem_of_getElem? hk

theorem Phase.steps_le (phase : Phase) : phase.steps ≤ 7 := by
  cases phase <;> simp [Phase.steps, Phase.remaining, Phase.acquired, retryDelays] <;> omega

/-- Tasks outside the join set have nothing left to do. -/
theorem steps_listed {tasks : List Task} {joinSet : List Nat}
    (h : ∀ i task, tasks[i]? = some task → i ∉ joinSet → task.phase.isFinished) :
    (tasks.map fun t => t.phase.steps).sum ≤ 7 * joinSet.length := by
  induction tasks generalizing joinSet with
  | nil => exact Nat.zero_le _
  | cons task tasks ih =>
    -- the join set of the tail, renumbered
    have htail := @ih ((joinSet.filter (0 < ·)).map (· - 1)) fun i t ht hm => by
      refine h (i + 1) t ht fun hj => hm (List.mem_map.mpr ⟨i + 1, ?_, rfl⟩)
      exact List.mem_filter.mpr ⟨hj, by simp⟩
    rw [List.length_map] at htail
    rw [List.map_cons, List.sum_cons]
    by_cases h0 : 0 ∈ joinSet
    · have := task.phase.steps_le
      have : (joinSet.filter (0 < ·)).length < joinSet.length :=
        List.length_filter_lt_length_iff_exists.mpr ⟨0, h0, by simp⟩
      omega
    · have hfin := h 0 task rfl h0
      have hzero : task.phase.steps = 0 := by
        cases hp : task.phase with
        | finished => rfl
        | _ =>
          rw [hp] at hfin
          cases hfin
      have := List.length_filter_le (fun i => decide (0 < i)) joinSet
      omega

/-- The own steps until the loop has dealt with all that it has accepted. -/
def State.load (s : State) : Nat := 26 * s.channel.queue.length + 8 * s.pool.joinSet.length + 1

theorem distance_le (hr : (exporter config).Reachable s)
    (hk : k < s.channel.received.length + s.channel.queue.length + n) :
    s.distance k ≤ s.load + 26 * n := by
  have hwork := steps_listed (reachable_inv hr).balanced.pool.reaped
  have hunreceived : s.unreceived k ≤ s.channel.queue.length + n := by
    unfold State.unreceived
    split <;> omega
  have hjoining : s.pc.isJoining.toNat ≤ 1 := Bool.toNat_le _
  simp only [State.distance, State.load, Pool.work]
  omega

/-- After more own steps than the load there was, whatever the callers and the
timer did in between, everything that had been accepted is dealt with. -/
theorem accepted_within (hr : (exporter config).Reachable s)
    (hk : s.channel.accepted[k]? = some msg) (hrun : (exporter config).run as s = some t)
    (hlt : s.load < as.countP Action.isOwn) : Served k (some msg) t := by
  obtain h | hw := accepted_stands hr hk
  · exact (served_stable k _).run hr h hrun
  · have hi := reachable_inv hr
    have hlen := (List.getElem?_eq_some_iff.mp hk).1
    rw [hi.channel.order, hi.channel.openLost hw.running, List.append_nil,
      List.length_append] at hlen
    have hle : s.distance k ≤ s.load := distance_le (n := 0) hr hlen
    exact (awaits_descends k (some msg)).bounded (served_stable k _) hr hw hrun
      (Nat.lt_of_le_of_lt hle hlt)

/-- One metric, and then 28 others that the loop receives one by one. -/
def stream : List Action :=
  .recv :: (List.replicate 28 [.call (.sendMetrics [2]), .recv]).flatten

theorem accepted_within_stream : ∃ s t,
    runFrom tracesAndLogs [.call (.sendMetrics [1])] = some s ∧
    (exporter tracesAndLogs).run stream s = some t ∧ Served 0 (some (.metrics [1])) t := by
  obtain ⟨s, hs⟩ := Option.isSome_iff_exists.mp
    (show (runFrom tracesAndLogs [.call (.sendMetrics [1])]).isSome by decide)
  obtain ⟨t, ht⟩ := Option.isSome_iff_exists.mp (Machine.of_run hs
    (f := fun s => ((exporter tracesAndLogs).run stream s).isSome) (by decide +kernel))
  have hload : s.load = 27 := Machine.of_run hs (by decide)
  have hk : s.channel.accepted[0]? = some (.metrics [1]) :=
    Machine.of_run hs (f := fun s => s.channel.accepted[0]?) (by decide)
  refine ⟨s, t, hs, ht, accepted_within (reachable_of_run hs) hk ht ?_⟩
  rw [hload]
  decide

-- ---------------------------------------------------------------------------
-- Fair runs
-- ---------------------------------------------------------------------------

theorem flush_answered (hs : config.Servable) {r : (exporter config).Run}
    (hfair : r.Fair Action.isOwn) (h : .flush done ∈ (r.states n).channel.accepted) :
    ∃ m, n ≤ m ∧
      (done ∈ (r.states m).replies ∨ .flush done ∈ (r.states m).channel.lost) := by
  obtain ⟨k, hk⟩ := List.mem_iff_getElem?.mp h
  have hend : ∃ m, n ≤ m ∧ Served k (some (.flush done)) (r.states m) := by
    obtain hd | hw := accepted_stands (r.reachable n) hk
    · exact ⟨n, Nat.le_refl n, hd⟩
    · exact (awaits_progress hs k _).fair hfair hw
  obtain ⟨m, hm, hd⟩ := hend
  have hkm : (r.states m).channel.accepted[k]? = some (.flush done) := by
    refine Stable.later (I := fun s : State => s.channel.accepted[k]? = some (.flush done)) ?_ hk hm
    intro a s t _ hs ht
    obtain ⟨added, hacc, -⟩ := accepted_step ht
    rw [hacc, List.getElem?_append_left (List.getElem?_eq_some_iff.mp hs).1, hs]
  refine ⟨m, hm, hd.symm.imp (fun h => h.2) fun hleft => ?_⟩
  exact left_lost (r.reachable m) hleft.1 hleft.2 hkm

theorem loop_stops (hs : config.Servable) {r : (exporter config).Run}
    (hfair : r.Fair Action.isOwn)
    (h : .shutdown ∈ (r.states n).channel.accepted ∨ (r.states n).channel.handles = 0) :
    ∃ m, n ≤ m ∧ (r.states m).pc = .terminated := by
  have hi := reachable_inv (r.reachable n)
  have hclosed {m : Nat} : (r.states m).channel.closed = true ↔ (r.states m).pc = .terminated :=
    (reachable_inv (r.reachable m)).closed
  obtain h | h := h
  · obtain ⟨k, hk⟩ := List.mem_iff_getElem?.mp h
    obtain hd | hw := accepted_stands (r.reachable n) hk
    · exact ⟨n, Nat.le_refl n, hclosed.mp (hd.elim (fun h => h.1) fun h => h.2)⟩
    · obtain ⟨m, hm, hd⟩ := (awaits_progress hs k _).fair hfair hw
      exact ⟨m, hm, hclosed.mp (hd.elim (fun h => h.1) fun h => h.2)⟩
  · cases hc : (r.states n).channel.closed with
    | true => exact ⟨n, Nat.le_refl n, hclosed.mp hc⟩
    | false =>
      have hw : Awaits (r.states n).channel.accepted.length none (r.states n) := by
        refine { running := hc, there := List.getElem?_eq_none (Nat.le_refl _)
                 last := fun _ => ⟨h, rfl⟩, ahead := .inl ?_ }
        rw [hi.channel.order, List.append_assoc, List.length_append]
        omega
      obtain ⟨m, hm, hd⟩ := (awaits_progress hs _ none).fair hfair hw
      exact ⟨m, hm, hclosed.mp (hd.elim (fun h => h.1) fun h => h.2)⟩

-- ---------------------------------------------------------------------------
-- Without permits
-- ---------------------------------------------------------------------------

theorem waiting_forever (hr : (exporter config).Reachable s)
    (hmax : config.maxConcurrentExports = 0) (i : Nat) :
    s.pool.phase i = none ∨ s.pool.phase i = some .waiting := by
  refine hr.invariant (I := fun s => s.pool.phase i = none ∨ s.pool.phase i = some .waiting)
    (fun s h0 => ?_) fun a s t hr ih ht => ?_
  · obtain ⟨-, h0⟩ := Option.ite_none_left_eq_some.mp h0
    obtain rfl := Option.some.inj h0
    exact .inl rfl
  · obtain ⟨e, phase, phase', rfl, hphase, hn, -⟩ | ⟨-, hsame | ⟨-, hwait⟩⟩ := step_phase ht i
    · rw [hphase] at ih
      obtain rfl : phase = .waiting := by simpa using ih
      have hpermits := (reachable_inv hr).balanced.pool.permits
      cases e with
      | acquire =>
        have := (Option.ite_none_right_eq_some.mp hn).1
        omega
      | respond | wake => cases hn
    · rw [hsame]
      exact ih
    · exact .inr hwait

theorem joining_stuck (hr : (exporter config).Reachable s)
    (hmax : config.maxConcurrentExports = 0) (hpc : s.pc.isJoining) (hj : s.pool.joinSet ≠ []) :
    ¬ (exporter config).Enabled Action.isOwn s := by
  rintro ⟨a, hown, hen⟩
  obtain ⟨t, ht⟩ := Option.isSome_iff_exists.mp hen
  have hwait := waiting_forever hr hmax
  have hnothead : s.pc ≠ .head := by
    intro h
    rw [h] at hpc
    cases hpc
  cases step_stepped ht with
  | call | tick => cases hown
  | data h | flush h | shutdown h | closed h => exact hnothead h
  | @join i p _ _ hp =>
    obtain ⟨⟨-, hf⟩, -⟩ := Option.ite_none_right_eq_some.mp hp
    obtain ⟨task, htask, hf⟩ := Pool.finishedAt_iff.mp hf
    have := hwait i
    rw [Pool.phase, htask] at this
    obtain hp : task.phase = .waiting := by simpa using this
    rw [hp] at hf
    cases hf
  | reply _ h | stop _ h => exact hj h
  | @task i e p he =>
    obtain ⟨task, phase, htask, hn, -⟩ := Pool.event_eq he
    have := hwait i
    rw [Pool.phase, htask] at this
    obtain hp : task.phase = .waiting := by simpa using this
    have hpermits := (reachable_inv hr).balanced.pool.permits
    rw [hp] at hn
    cases e with
    | acquire =>
      have := (Option.ite_none_right_eq_some.mp hn).1
      omega
    | respond | wake => cases hn

theorem recv_pop (config : ExporterConfig) (hpc : s.pc = .head)
    (hp : s.channel.pop = some (msg, c)) : ∃ t, step config .recv s = some t ∧ t.channel = c ∧
      t.replies = s.replies ∧ t.pc = Pc.after (some msg) := by
  have hstep : step config .recv s = some (receive config msg { s with channel := c }) := by
    simp [step, hpc, recv, hp]
  refine ⟨_, hstep, ?_, ?_, ?_⟩
  · cases hm : msg.data? with
    | some d => rw [receive_data hm, receiveData_channel]
    | none =>
      cases msg with
      | flush done => rw [receive_flush, flushAll_channel]
      | shutdown => rw [receive_shutdown, flushAll_channel]
      | _ => cases hm
  · refine (replies_step hstep).resolve_right fun h => ?_
    obtain ⟨done, hflushing, -⟩ := h
    rw [hpc] at hflushing
    cases hflushing
  · have := (recv_took hstep).pc
    obtain ⟨rest, hq, -⟩ := pop_eq hp
    rwa [hq, List.head?_cons] at this

def Call.send (signal : Signal) (data : Proto3.Bytes) : Call :=
  match signal with
  | .traces => .sendTraces data
  | .logs => .sendLogs data
  | .metrics => .sendMetrics data

/-- A message is sent and received, and then what the call `k` has put into the
channel. -/
def sendThen (signal : Signal) (k : Call) : List Action :=
  [.call (.send signal []), .recv, .call k, .call (.push 0), .recv]

theorem send_empty (hcap : 0 < config.channelCapacity) (signal : Signal) :
    ∃ msg, msg.data? = some (signal, []) ∧ Channel.call config (.send signal []) {} =
      some { queue := [msg], sends := 1, accepted := [msg] } := by
  cases signal with
  | traces => exact ⟨.traces [], rfl, by
      simp [Channel.call, Call.send, sendTraces, sendData, trySend, Channel.hasSlot, hcap]⟩
  | logs => exact ⟨.logs [], rfl, by
      simp [Channel.call, Call.send, sendLogs, sendData, trySend, Channel.hasSlot, hcap]⟩
  | metrics => exact ⟨.metrics [], rfl, by
      simp [Channel.call, Call.send, sendMetrics, sendData, trySend, Channel.hasSlot, hcap]⟩

theorem sendThen_run (h0 : start config = some s) (signal : Signal)
    (hk : k = .flush ∧ target = .flush 0 ∨ k = .shutdown ∧ target = .shutdown) :
    ∃ t, (exporter config).run (sendThen signal k) s = some t ∧ t.pc = Pc.after (some target) ∧
      t.replies = [] ∧ target ∈ t.channel.accepted ∧ dataOf signal t.channel.received ≠ [] := by
  obtain ⟨hcap, h0⟩ := Option.ite_none_left_eq_some.mp h0
  have hcap : 0 < config.channelCapacity := Nat.pos_of_ne_zero hcap
  have hc : s.channel = {} := by rw [← Option.some.inj h0]
  have hpc : s.pc = .head := by rw [← Option.some.inj h0]
  have hnone : s.replies = [] := by rw [← Option.some.inj h0]
  obtain ⟨msg, hm, h₁⟩ := send_empty hcap signal
  have hafter : Pc.after (some msg) = .head := by
    cases msg with
    | flush | shutdown => cases hm
    | _ => rfl
  obtain ⟨s₂, h₂, hc₂, hr₂, hpc₂⟩ := recv_pop config
    (s := { s with channel := { queue := [msg], sends := 1, accepted := [msg] } }) hpc rfl
  rw [hafter] at hpc₂
  obtain ⟨done, h₃⟩ : ∃ done, s₂.channel.call config k =
      some { s₂.channel with pending := [target], nextDone := done } := by
    rw [hc₂]
    obtain ⟨rfl, rfl⟩ | ⟨rfl, rfl⟩ := hk
    · exact ⟨1, by simp [Channel.call, Exporter.flush, Channel.hasSlot, hcap]⟩
    · exact ⟨0, by simp [Channel.call, Exporter.shutdown, Channel.hasSlot, hcap]⟩
  obtain ⟨t, h₅, hc₅, hr₅, hpc₅⟩ := recv_pop config
    (s := { s₂ with channel := { s₂.channel with
      pending := [], queue := [target], nextDone := done, accepted := [msg, target] } }) hpc₂ rfl
  refine ⟨t, ?_, hpc₅, hr₅.trans (hr₂.trans hnone), by simp [hc₅], by simp [hc₅, hc₂, dataOf, hm]⟩
  refine Machine.run_cons_some.mpr ⟨_, by rw [← hc] at h₁; exact congrArg (Option.map _) h₁, ?_⟩
  refine Machine.run_cons_some.mpr ⟨s₂, h₂, ?_⟩
  refine Machine.run_cons_some.mpr ⟨_, congrArg (Option.map _) h₃, ?_⟩
  refine Machine.run_cons_some.mpr ⟨_, ?_, Machine.run_cons_some.mpr ⟨t, h₅, rfl⟩⟩
  simp [exporter, step, Channel.call, push, hc₂]

theorem joinSet_ne_nil (hr : (exporter config).Reachable s)
    (hmax : config.maxConcurrentExports = 0) (hu : config.url signal = some url)
    (hpc : s.pc ≠ .head) (hd : dataOf signal s.channel.received ≠ []) : s.pool.joinSet ≠ [] := by
  intro hj
  have hi := reachable_inv hr
  have htasks : s.pool.tasks = [] := by
    refine List.eq_nil_iff_forall_not_mem.mpr fun task hm => ?_
    have hf := hi.balanced.pool.all_finished hj hm
    obtain ⟨i, htask⟩ := List.mem_iff_getElem?.mp hm
    have := waiting_forever hr hmax i
    rw [Pool.phase, htask] at this
    obtain hp : task.phase = .waiting := by simpa using this
    rw [hp] at hf
    cases hf
  refine hd ?_
  rw [← hi.balanced.streams signal, hi.balanced.kept signal url hu, hi.drained hpc signal,
    Pool.posts, htasks]
  rfl

/-- Without permits a flush or a shutdown can hang: the run ends in a join loop
for a task that cannot move. -/
theorem unservable_hangs {k : Call} (hs : ¬ config.Servable) (hcap : config.channelCapacity ≠ 0)
    (hk : k = .flush ∧ target = .flush 0 ∨ k = .shutdown ∧ target = .shutdown) :
    ∃ (r : (exporter config).Run) (t : State), r.Fair Action.isOwn ∧
      (∀ n, 5 ≤ n → r.states n = t) ∧ t.pc = Pc.after (some target) ∧ t.replies = [] ∧
      target ∈ t.channel.accepted := by
  obtain ⟨hmax, hurl⟩ := not_or.mp hs
  obtain ⟨signal, hu⟩ := not_forall.mp hurl
  obtain ⟨url, hu⟩ := Option.ne_none_iff_exists'.mp hu
  have h0 : start config = some { pool := { permits := config.maxConcurrentExports } } :=
    if_neg hcap
  have hjoining : (Pc.after (some target)).isJoining ∧ Pc.after (some target) ≠ .head := by
    obtain ⟨-, rfl⟩ | ⟨-, rfl⟩ := hk <;> exact ⟨rfl, nofun⟩
  obtain ⟨t, hrun, hpc, hreplies, hacc, hd⟩ := sendThen_run h0 signal hk
  have hr : (exporter config).Reachable t := Machine.Reachable.run (.init h0) hrun
  have hj := joinSet_ne_nil hr (Nat.eq_zero_of_not_pos hmax) hu (hpc ▸ hjoining.2) hd
  have hstuck := joining_stuck hr (Nat.eq_zero_of_not_pos hmax) (hpc ▸ hjoining.1) hj
  exact ⟨Run.resting h0 hrun, t, (Run.resting_fair hstuck).fair,
    fun n hn => Run.resting_states hn, hpc, hreplies, hacc⟩

end

/-- Every flush that was accepted is answered, or lost with the loop, in every
fair run of an exporter exactly if its tasks can get a permit or have no URL to
post to. (Without a slot in the channel there is no exporter.) -/
theorem flushes_answered_iff (config : ExporterConfig) :
    (∀ r : (exporter config).Run, r.Fair Action.isOwn → ∀ n done,
      .flush done ∈ (r.states n).channel.accepted → ∃ m, n ≤ m ∧
        (done ∈ (r.states m).replies ∨ .flush done ∈ (r.states m).channel.lost)) ↔
      config.Servable ∨ config.channelCapacity = 0 := by
  constructor
  · intro h
    by_contra hnot
    obtain ⟨hs, hcap⟩ := not_or.mp hnot
    obtain ⟨r, t, hfair, hrest, hpc, hreplies, hacc⟩ := unservable_hangs hs hcap (.inl ⟨rfl, rfl⟩)
    obtain ⟨m, hm, hd⟩ := h r hfair 5 0 (by rwa [hrest 5 (Nat.le_refl 5)])
    rw [hrest m hm, hreplies] at hd
    have hi := reachable_inv (hrest m hm ▸ r.reachable m)
    have hopen : t.channel.closed = false := by
      simpa [hpc, Pc.after] using hi.closed
    rw [hi.channel.openLost hopen] at hd
    simp at hd
  · rintro (hs | hcap) r hfair n done hacc
    · exact flush_answered hs hfair hacc
    · have := r.init
      simp [exporter, start, hcap] at this

/-- The loop stops after every shutdown that was accepted, and once the handles
are gone, under the same condition. -/
theorem loop_stops_iff (config : ExporterConfig) :
    (∀ r : (exporter config).Run, r.Fair Action.isOwn → ∀ n,
      .shutdown ∈ (r.states n).channel.accepted ∨ (r.states n).channel.handles = 0 →
        ∃ m, n ≤ m ∧ (r.states m).pc = .terminated) ↔
      config.Servable ∨ config.channelCapacity = 0 := by
  constructor
  · intro h
    by_contra hnot
    obtain ⟨hs, hcap⟩ := not_or.mp hnot
    obtain ⟨r, t, hfair, hrest, hpc, -, hacc⟩ := unservable_hangs hs hcap (.inr ⟨rfl, rfl⟩)
    obtain ⟨m, hm, hd⟩ := h r hfair 5 (.inl (by rwa [hrest 5 (Nat.le_refl 5)]))
    rw [hrest m hm, hpc] at hd
    cases hd
  · rintro (hs | hcap) r hfair n hend
    · exact loop_stops hs hfair hend
    · have := r.init
      simp [exporter, start, hcap] at this

end Rolly.Exporter
