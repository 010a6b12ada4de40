import Rolly.ExporterLiveness

/-!
# What was accepted is posted

A batch that is not full leaves with the timer, and the timer is only looked at
while the channel is empty. If it is again and again, and the scheduler and the
semaphore leave no task out, every accepted message with a URL is posted.
-/

namespace Rolly.Exporter

open Machine (Progress Run Stable)

def Action.isTick : Action → Bool
  | .tick => true
  | _ => false

/-- The scheduler, the semaphore and the timer leave nobody out. -/
structure Scheduled {config : ExporterConfig} (r : (exporter config).Run) : Prop where
  own : r.Fair Action.isOwn
  tasks : ∀ i, r.StronglyFair (Action.isTask i)
  tick : r.StronglyFair Action.isTick

section
variable {config : ExporterConfig} {s t : State} {r : (exporter config).Run}

-- ---------------------------------------------------------------------------
-- The tasks return
-- ---------------------------------------------------------------------------

theorem finishedAt_phase {p : Pool} : p.finishedAt i = (p.phase i).any Phase.isFinished := by
  rw [Pool.finishedAt, Pool.phase, Option.any_map]

theorem finishedAt_stable (i : Nat) :
    (exporter config).Stable fun s => s.pool.finishedAt i = true := by
  intro a s t _ hs ht
  rw [finishedAt_phase] at hs ⊢
  obtain ⟨e, phase, phase', -, hphase, hn, -⟩ | ⟨-, hsame | ⟨hnone, -⟩⟩ := step_phase ht i
  · rw [hphase, Option.any_some, (Phase.next_some hn).1] at hs
    cases hs
  · rwa [hsame]
  · rw [hnone] at hs
    cases hs

theorem posts_step (ht : step config a s = some t) : s.pool.posts <+: t.pool.posts := by
  obtain ⟨i, e, p, -, he, rfl⟩ | ⟨-, posts, htasks⟩ := step_tasks ht
  · exact Pool.event_posts he ▸ List.prefix_refl _
  · rw [Pool.posts, Pool.posts, htasks, List.map_append]
    exact List.prefix_append _ _

theorem posts_stable (front : List Post) :
    (exporter config).Stable fun s => front <+: s.pool.posts :=
  fun _ _ _ _ hs ht => hs.trans (posts_step ht)

/-- A task that holds a permit gives it back. -/
theorem held_progress (i : Nat) : (exporter config).Progress (Action.isTask i)
    (fun s => s.pool.holds i = true) (fun s => 0 < s.pool.permits ∧ s.pool.finishedAt i = true)
    (fun s => s.remaining i) where
  step a s t hr hw ht := by
    have hle := reachable_attempts hr i
    obtain ⟨hless, hacq⟩ := acquired_step ht hle (Pool.acquired_iff.mpr (.inl hw))
    obtain hheld | hf := Pool.acquired_iff.mp hacq
    · exact .inr ⟨hheld, hless⟩
    · obtain ⟨e, -, -, rfl, -⟩ | ⟨-, hsame⟩ := step_phase ht i
      · have hreturns : Returns config s i := returns hle hw
        have := hreturns.freed e t ht hf
        exact .inl ⟨by omega, hf⟩
      · -- the task was not moved
        obtain hsame | ⟨hnone, -⟩ := hsame
        · refine .inr ⟨?_, hless⟩
          rw [Pool.holds, hsame]
          exact hw
        · rw [Pool.holds, hnone] at hw
          cases hw
  enabled s hr hw := by
    obtain ⟨phase, hphase, hheld⟩ := (Option.any_eq_true _ _).mp hw
    cases phase with
    | posting attempt =>
      exact ⟨.task i (.respond true), decide_eq_true rfl, task_possible hphase rfl⟩
    | sleeping attempt => exact ⟨.task i .wake, decide_eq_true rfl, task_possible hphase rfl⟩
    | _ => cases hheld

/-- Every task that was spawned returns: the permits it may be waiting for are
given back. -/
theorem task_returns (hpos : 0 < config.maxConcurrentExports)
    (hfair : ∀ i, r.StronglyFair (Action.isTask i)) (hn : i < (r.states n).pool.tasks.length) :
    ∃ m, n ≤ m ∧ (r.states m).pool.finishedAt i = true := by
  by_cases hacq : ∃ m, n ≤ m ∧ (r.states m).pool.acquired i = true
  · obtain ⟨m, hm, hacq⟩ := hacq
    obtain hheld | hf := Pool.acquired_iff.mp hacq
    · obtain ⟨l, hl, -, hf⟩ := (held_progress i).fair (hfair i).fair hheld
      exact ⟨l, Nat.le_trans hm hl, hf⟩
    · exact ⟨m, hm, hf⟩
  · exfalso
    have hwaiting (m : Nat) (hm : n ≤ m) : (r.states m).pool.phase i = some .waiting := by
      have hlt : i < (r.states m).pool.posts.length := by
        have := ((posts_stable _).later (List.prefix_refl (r.states n).pool.posts) hm).length_le
        simp only [Pool.posts, List.length_map] at this ⊢
        omega
      rw [Pool.posts, List.length_map] at hlt
      have hphase : (r.states m).pool.phase i = some ((r.states m).pool.tasks[i].phase) := by
        rw [Pool.phase, List.getElem?_eq_getElem hlt, Option.map_some]
      rw [hphase]
      cases hp : (r.states m).pool.tasks[i].phase with
      | waiting => rfl
      | _ =>
        refine absurd ⟨m, hm, ?_⟩ hacq
        rw [Pool.acquired, hphase, hp]
        rfl
    by_cases hfree : ∀ k, ∃ m, k ≤ m ∧ 0 < (r.states m).pool.permits
    · -- then the semaphore has its turn for this task
      obtain ⟨m, hm, a, ha, hown⟩ := hfair i n fun k => by
        obtain ⟨m, hm, hpermits⟩ := hfree (max k n)
        refine ⟨m, by omega, .task i .acquire, decide_eq_true rfl, ?_⟩
        exact task_possible (hwaiting m (by omega)) (by simp [Phase.next, hpermits])
      obtain ⟨e, phase, phase', rfl, hphase, hnext, hphase'⟩ | ⟨hne, -⟩ :=
        step_phase (Run.next_some ha) i
      · obtain rfl := Option.some.inj ((hwaiting m hm).symm.trans hphase)
        obtain rfl := Option.some.inj ((hwaiting (m + 1) (by omega)).symm.trans hphase')
        cases e with
        | acquire => cases (Option.ite_none_right_eq_some.mp hnext).2
        | respond | wake => cases hnext
      · rw [isTask_eq_false hne] at hown
        cases hown
    · -- then somebody keeps the permits for good
      obtain ⟨k, hk⟩ := not_forall.mp hfree
      have hnone (m : Nat) (hm : k ≤ m) : (r.states m).pool.permits = 0 :=
        Nat.eq_zero_of_not_pos fun h => hk ⟨m, hm, h⟩
      have hpermits := (reachable_inv (r.reachable k)).balanced.pool.permits
      have := hnone k (Nat.le_refl k)
      have hrunning : 0 < (r.states k).pool.running := by omega
      obtain ⟨task, hmem, hheld⟩ := List.countP_pos_iff.mp hrunning
      obtain ⟨j, hj⟩ := List.mem_iff_getElem?.mp hmem
      have hholds : (r.states k).pool.holds j = true := by
        rw [Pool.holds, Pool.phase, hj]
        exact hheld
      obtain ⟨l, hl, hfreed, -⟩ := (held_progress j).fair (hfair j).fair hholds
      have := hnone l hl
      omega

-- ---------------------------------------------------------------------------
-- From the channel to the tasks
-- ---------------------------------------------------------------------------

theorem received_step (ht : step config a s = some t) :
    s.channel.received <+: t.channel.received := by
  have hrecv (hr : step config .recv s = some t) : s.channel.received <+: t.channel.received :=
    (recv_took hr).received ▸ List.prefix_append _ _
  cases step_stepped ht with
  | call h => exact (Channel.call_frame h).1.1 ▸ List.prefix_refl _
  | data | flush | shutdown | closed => exact hrecv ht
  | tick =>
    have hc : (reap (flushAll config s)).channel = s.channel := flushAll_channel
    exact hc ▸ List.prefix_refl _
  | _ => exact List.prefix_refl _

theorem received_stable (front : List ExportMessage) :
    (exporter config).Stable fun s => front <+: s.channel.received :=
  fun _ _ _ _ hs ht => hs.trans (received_step ht)

theorem accepted_stable (front : List ExportMessage) :
    (exporter config).Stable fun s => front <+: s.channel.accepted := by
  intro a s t _ hs ht
  obtain ⟨added, hacc, -⟩ := accepted_step ht
  exact hs.trans (hacc ▸ List.prefix_append _ _)

theorem dataOf_grows (h : a <+: b) (signal : Signal) : dataOf signal a <+: dataOf signal b := by
  obtain ⟨c, rfl⟩ := h
  rw [dataOf_append]
  exact List.prefix_append _ _

theorem sent_of_drained (hr : (exporter config).Reachable s) (hu : config.url signal = some url)
    (hb : s.batch signal = []) : sentOf signal s.pool.posts = dataOf signal s.channel.received := by
  have hi := reachable_inv hr
  rw [← hi.balanced.streams signal, hi.balanced.kept signal url hu, hb, List.append_nil,
    List.append_nil]

/-- The loop looks at its timer again and again, until it stops. -/
def Idles (r : (exporter config).Run) : Prop :=
  ∀ k, ∃ m, k ≤ m ∧
    ((exporter config).Enabled Action.isTick (r.states m) ∨ (r.states m).pc = .terminated)

theorem received_sent (htick : r.StronglyFair Action.isTick) (hidle : Idles r)
    (hu : config.url signal = some url)
    (hitems : items <+: dataOf signal (r.states n).channel.received) :
    ∃ m, n ≤ m ∧ items <+: sentOf signal (r.states m).pool.posts := by
  have hlater (m : Nat) (hm : n ≤ m) (hb : (r.states m).batch signal = []) :
      items <+: sentOf signal (r.states m).pool.posts := by
    rw [sent_of_drained (r.reachable m) hu hb]
    have := (received_stable (r.states n).channel.received).later (List.prefix_refl _) hm
    exact hitems.trans (dataOf_grows this signal)
  by_cases hhead : ∀ m, n ≤ m → (r.states m).pc = .head
  · obtain ⟨m, hm, a, ha, htaken⟩ := htick n fun k => by
      obtain ⟨m, hm, hen | hterm⟩ := hidle (max k n)
      · exact ⟨m, by omega, hen⟩
      · rw [hhead m (by omega)] at hterm
        cases hterm
    cases a with
    | tick =>
      refine ⟨m + 1, by omega, hlater _ (by omega) ?_⟩
      generalize hnext : r.states (m + 1) = t
      have ht := Run.next_some ha
      rw [hnext] at ht
      cases step_stepped ht with
      | tick =>
        have := flushAll_batch config (r.states m) signal
        cases signal <;> exact this
    | _ => cases htaken
  · obtain ⟨m, hm⟩ := not_forall.mp hhead
    obtain ⟨hm, hpc⟩ := Classical.not_imp.mp hm
    exact ⟨m, hm, hlater m hm ((reachable_inv (r.reachable m)).drained hpc signal)⟩

-- ---------------------------------------------------------------------------
-- Posted
-- ---------------------------------------------------------------------------

/-- The messages are the first of the signal in payloads that were posted until
success or the last failure. -/
def State.Posted (signal : Signal) (items : List Proto3.Bytes) (s : State) : Prop :=
  ∃ p, items <+: sentOf signal (s.pool.posts.take p) ∧ ∀ i, i < p → s.pool.finishedAt i = true

theorem sentOf_grows {posts posts' : List Post} (h : posts <+: posts') (signal : Signal) :
    sentOf signal posts <+: sentOf signal posts' := (h.filter _).flatMap _

theorem posted_stable (signal : Signal) (items : List Proto3.Bytes) :
    (exporter config).Stable (State.Posted signal items) := by
  rintro a s t hr ⟨p, hitems, hfinished⟩ ht
  refine ⟨p, hitems.trans (sentOf_grows ((posts_step ht).take p) signal), fun i hi => ?_⟩
  exact finishedAt_stable i a s t hr (hfinished i hi) ht

theorem all_return (hpos : 0 < config.maxConcurrentExports)
    (hfair : ∀ i, r.StronglyFair (Action.isTask i)) {p : Nat}
    (hp : p ≤ (r.states n).pool.tasks.length) :
    ∃ m, n ≤ m ∧ ∀ i, i < p → (r.states m).pool.finishedAt i = true := by
  induction p with
  | zero => exact ⟨n, Nat.le_refl n, fun i hi => absurd hi (Nat.not_lt_zero i)⟩
  | succ p ih =>
    obtain ⟨m, hm, hall⟩ := ih (by omega)
    obtain ⟨l, hl, hf⟩ := task_returns hpos hfair (show p < (r.states n).pool.tasks.length by omega)
    refine ⟨max m l, by omega, fun i hi => ?_⟩
    obtain hlt | rfl := Nat.lt_or_eq_of_le (Nat.le_of_lt_succ hi)
    · exact (finishedAt_stable i).later (hall i hlt) (Nat.le_max_left m l)
    · exact (finishedAt_stable i).later hf (Nat.le_max_right m l)

theorem sent_posted (hpos : 0 < config.maxConcurrentExports)
    (hfair : ∀ i, r.StronglyFair (Action.isTask i))
    (hitems : items <+: sentOf signal (r.states n).pool.posts) :
    ∃ m, n ≤ m ∧ (r.states m).Posted signal items := by
  obtain ⟨m, hm, hall⟩ := all_return hpos hfair (Nat.le_refl (r.states n).pool.tasks.length)
  refine ⟨m, hm, (r.states n).pool.tasks.length, ?_, hall⟩
  obtain ⟨more, hposts⟩ := (posts_stable _).later (List.prefix_refl (r.states n).pool.posts) hm
  have hlen : (r.states n).pool.tasks.length = (r.states n).pool.posts.length :=
    (List.length_map _).symm
  rw [← hposts, hlen, List.take_left]
  exact hitems

/-- The messages of a signal that the loop left in the channel when it stopped
do not count: it receives them, or stops before. -/
theorem accepted_received (hs : config.Servable) (hfair : r.Fair Action.isOwn)
    (hitems : items <+: dataOf signal (r.states n).channel.accepted) : ∃ m, n ≤ m ∧
      (items <+: dataOf signal (r.states m).channel.received ∨ (r.states m).pc = .terminated) := by
  by_cases hnil : (r.states n).channel.accepted = []
  · rw [hnil] at hitems
    exact ⟨n, Nat.le_refl n, .inl (hitems.trans (List.nil_prefix))⟩
  · -- the last message brings all others with it
    have hlast : (r.states n).channel.accepted[(r.states n).channel.accepted.length - 1]? =
        some ((r.states n).channel.accepted.getLast hnil) := by
      rw [← List.getLast?_eq_getElem?, List.getLast?_eq_some_getLast hnil]
    have hpos := List.length_pos_iff.mpr hnil
    obtain ⟨m, hm, hd⟩ : ∃ m, n ≤ m ∧
        Served ((r.states n).channel.accepted.length - 1) (some _) (r.states m) := by
      obtain hd | hw := accepted_stands (r.reachable n) hlast
      · exact ⟨n, Nat.le_refl n, hd⟩
      · exact (awaits_progress hs _ _).fair hfair hw
    have hi := reachable_inv (r.reachable m)
    refine ⟨m, hm, ?_⟩
    obtain ⟨hc, -⟩ | ⟨hlt, -⟩ := hd
    · exact .inr (hi.closed.mp hc)
    · have hacc := (accepted_stable _).later (List.prefix_refl (r.states n).channel.accepted) hm
      have hrec : (r.states m).channel.received <+: (r.states m).channel.accepted := by
        rw [hi.channel.order, List.append_assoc]
        exact List.prefix_append _ _
      have hprefix := List.prefix_of_prefix_length_le hacc hrec (by omega)
      exact .inl (hitems.trans (dataOf_grows hprefix signal))

theorem items_posted (hfair : Scheduled r) (hidle : Idles r)
    (hpos : 0 < config.maxConcurrentExports) (hu : config.url signal = some url)
    (hitems : items <+: dataOf signal (r.states n).channel.accepted) : ∃ m, n ≤ m ∧
      ((r.states m).Posted signal items ∨ (r.states m).pc = .terminated ∧
        (dataOf signal (r.states m).channel.received).length < items.length) := by
  obtain ⟨m, hm, hrec⟩ := accepted_received (.inl hpos) hfair.own hitems
  by_cases hle : items.length ≤ (dataOf signal (r.states m).channel.received).length
  · -- both are the first that the channel took
    have hi := reachable_inv (r.reachable m)
    have hrec : (r.states m).channel.received <+: (r.states m).channel.accepted := by
      rw [hi.channel.order, List.append_assoc]
      exact List.prefix_append _ _
    have hacc := (accepted_stable _).later (List.prefix_refl (r.states n).channel.accepted) hm
    have hreceived := List.prefix_of_prefix_length_le (hitems.trans (dataOf_grows hacc signal))
      (dataOf_grows hrec signal) hle
    obtain ⟨l, hl, hsent⟩ := received_sent hfair.tick hidle hu hreceived
    obtain ⟨o, ho, hposted⟩ := sent_posted hpos hfair.tasks hsent
    exact ⟨o, by omega, .inl hposted⟩
  · refine ⟨m, hm, .inr ⟨hrec.resolve_left fun h => hle h.length_le, Nat.lt_of_not_le hle⟩⟩

end

/-- In a run that leaves nobody out, and whose loop finds its channel empty
again and again until it stops, all that was accepted for a URL is posted from
some moment on, unless the loop stopped before it had received it all. -/
theorem accepted_posted {config : ExporterConfig} {r : (exporter config).Run} {signal : Signal}
    {url : String} {n : Nat} (hfair : Scheduled r) (hidle : Idles r)
    (hpos : 0 < config.maxConcurrentExports) (hu : config.url signal = some url) : ∃ m, n ≤ m ∧
      ((∀ l, m ≤ l → (r.states l).Posted signal (dataOf signal (r.states n).channel.accepted)) ∨
        (r.states m).pc = .terminated ∧ (dataOf signal (r.states m).channel.received).length <
          (dataOf signal (r.states n).channel.accepted).length) := by
  obtain ⟨m, hm, h⟩ := items_posted (n := n) hfair hidle hpos hu (List.prefix_refl _)
  exact ⟨m, hm, h.imp_left fun hposted l hl => (posted_stable signal _).later hposted hl⟩

/-- Once the loop is gone only its callers move. -/
theorem terminated_rests {config : ExporterConfig} {s t : State}
    (hr : (exporter config).Reachable s) (hpc : s.pc = .terminated)
    (ht : step config a s = some t) : ∃ k, a = .call k := by
  have hi := reachable_inv hr
  cases step_stepped ht with
  | @call k => exact ⟨k, rfl⟩
  | join _ hnt => exact absurd hpc hnt
  | task he =>
    obtain ⟨task, phase, htask, hn, -⟩ := Pool.event_eq he
    have hf := hi.balanced.pool.all_finished (hi.joined hpc) (List.mem_of_getElem? htask)
    rw [(Phase.next_some hn).1] at hf
    cases hf
  | data h | flush h | shutdown h | closed h | tick h | reply h | stop h =>
    rw [h] at hpc
    cases hpc

def shipped : List Action :=
  [.call (.sendTraces [1]), .recv, .call .shutdown, .call (.push 0), .recv, .task 0 .acquire,
    .task 0 (.respond true), .join 0, .stop]

theorem accepted_posted_shipped : ∃ r : (exporter tracesAndLogs).Run, Scheduled r ∧
    dataOf .traces (r.states 9).channel.accepted = [[1]] ∧ ∃ m, 9 ≤ m ∧
      ((∀ l, m ≤ l → (r.states l).Posted .traces (dataOf .traces (r.states 9).channel.accepted)) ∨
        (r.states m).pc = .terminated ∧ (dataOf .traces (r.states m).channel.received).length <
          (dataOf .traces (r.states 9).channel.accepted).length) := by
  have h0 : start tracesAndLogs = some { pool := { permits := 1 } } := rfl
  obtain ⟨t, ht, hend⟩ := Option.map_eq_some_iff.mp (show
    ((exporter tracesAndLogs).run shipped { pool := { permits := 1 } }).map
      (fun s => (s.pc, dataOf .traces s.channel.accepted)) = some (.terminated, [[1]]) by decide)
  obtain ⟨hpc, hacc⟩ := Prod.mk.inj hend
  have hrest {n : Nat} (hn : 9 ≤ n) : (Run.resting h0 ht).states n = t := Run.resting_states hn
  have hdisabled (P : Action → Bool) (hcalls : ∀ k, P (.call k) = false) :
      ¬ (exporter tracesAndLogs).Enabled P t := by
    rintro ⟨a, ha, hen⟩
    obtain ⟨u, hu⟩ := Option.isSome_iff_exists.mp hen
    obtain ⟨k, rfl⟩ := terminated_rests (Machine.Reachable.run (.init h0) ht) hpc hu
    rw [hcalls k] at ha
    cases ha
  have hfair : Scheduled (Run.resting h0 ht) :=
    { own := (Run.resting_fair (hdisabled _ fun _ => rfl)).fair
      tasks := fun i => Run.resting_fair (hdisabled _ fun _ => rfl)
      tick := Run.resting_fair (hdisabled _ fun _ => rfl) }
  have hacc9 : dataOf .traces ((Run.resting h0 ht).states 9).channel.accepted = [[1]] := by
    rw [hrest (Nat.le_refl 9), hacc]
  refine ⟨Run.resting h0 ht, hfair, hacc9, accepted_posted hfair (fun k => ?_) (by decide) rfl⟩
  refine ⟨max k 9, Nat.le_max_left k 9, .inr ?_⟩
  rw [hrest (Nat.le_max_right k 9), hpc]

end Rolly.Exporter
