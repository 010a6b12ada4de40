import Rolly.ExporterReplies

/-!
# Permits and attempts

A permit belongs to its task from `acquire` until `post_with_retry` returns,
and a task returns after at most three attempts, whatever is answered.
-/

namespace Rolly.Exporter

-- ---------------------------------------------------------------------------
-- The phases of a task
-- ---------------------------------------------------------------------------

/-- The attempts begun. A task that has returned begins no other. -/
def Phase.attempts : Phase → Nat
  | .waiting => 0
  | .posting attempt => attempt + 1
  | .sleeping attempt => attempt + 1
  | .finished _ => retryDelays.length

def Phase.isPosting : Phase → Bool
  | .posting _ => true
  | _ => false

/-- The events that a task still needs at most, its acquisition aside. -/
def Phase.remaining : Phase → Nat
  | .waiting => 2 * retryDelays.length
  | .posting attempt => 2 * (retryDelays.length - attempt)
  | .sleeping attempt => 2 * (retryDelays.length - attempt) - 1
  | .finished _ => 0

section
variable {phase phase' : Phase}

theorem Phase.next_attempts (h : Phase.next permits e phase = some phase')
    (hle : phase.attempts ≤ retryDelays.length) :
    phase.attempts + phase'.isPosting.toNat ≤ phase'.attempts ∧
      phase'.attempts ≤ retryDelays.length := by
  cases e <;> cases phase <;> simp [Phase.next] at h
  · obtain ⟨-, rfl⟩ := h
    exact ⟨Nat.le_refl _, by decide⟩
  · rename_i success attempt
    cases success with
    | true =>
      obtain rfl : phase' = .finished true := by simpa using h.symm
      exact ⟨hle, Nat.le_refl _⟩
    | false =>
      obtain rfl : phase' = .sleeping attempt := by simpa using h.symm
      exact ⟨Nat.le_refl _, hle⟩
  · rename_i attempt
    split at h
    · next hlt =>
      obtain rfl := h
      exact ⟨Nat.le_refl _, hlt⟩
    · obtain rfl := h
      exact ⟨hle, Nat.le_refl _⟩

def Phase.acquired : Phase → Bool
  | .waiting => false
  | _ => true

theorem Phase.next_remaining (h : Phase.next permits e phase = some phase')
    (hacq : phase.acquired) (hle : phase.attempts ≤ retryDelays.length) :
    phase'.remaining + 1 ≤ phase.remaining ∧ phase'.acquired := by
  cases e <;> cases phase <;> simp [Phase.next, Phase.acquired] at h hacq
  · rename_i success attempt
    simp only [Phase.attempts] at hle
    cases success with
    | true =>
      obtain rfl : phase' = .finished true := by simpa using h.symm
      exact ⟨by simp only [Phase.remaining]; omega, rfl⟩
    | false =>
      obtain rfl : phase' = .sleeping attempt := by simpa using h.symm
      exact ⟨by simp only [Phase.remaining]; omega, rfl⟩
  · rename_i attempt
    simp only [Phase.attempts] at hle
    split at h
    · next hlt =>
      obtain rfl := h
      exact ⟨by simp only [Phase.remaining]; omega, rfl⟩
    · obtain rfl := h
      exact ⟨by simp only [Phase.remaining]; omega, rfl⟩

end

-- ---------------------------------------------------------------------------
-- The tasks in a step
-- ---------------------------------------------------------------------------

section
variable {config : ExporterConfig} {s t : State}

def Pool.phase (p : Pool) (i : Nat) : Option Phase := p.tasks[i]?.map (·.phase)

theorem Pool.Extends.phase {p p' : Pool} (h : p.Extends p') (i : Nat) :
    p'.phase i = p.phase i ∨ p.phase i = none ∧ p'.phase i = some .waiting := by
  obtain ⟨posts, hp⟩ := h
  by_cases hlt : i < p.tasks.length
  · exact .inl (by rw [Pool.phase, hp, List.getElem?_append_left hlt, Pool.phase])
  · have hnone : p.phase i = none := by
      rw [Pool.phase, List.getElem?_eq_none (Nat.le_of_not_lt hlt), Option.map_none]
    rw [hnone, Pool.phase, hp, List.getElem?_append_right (Nat.le_of_not_lt hlt),
      List.getElem?_map]
    cases posts[i - p.tasks.length]? with
    | none => exact .inl rfl
    | some post => exact .inr ⟨rfl, rfl⟩

theorem Pool.event_phase {p p' : Pool} (h : p.event i e = some p') (j : Nat) :
    if j = i then ∃ phase phase', p.phase i = some phase ∧ phase.next p.permits e = some phase' ∧
      p'.phase i = some phase'
    else p'.phase j = p.phase j := by
  obtain ⟨task, phase, ht, hp, rfl⟩ := Pool.event_eq h
  obtain ⟨hlt, -⟩ := List.getElem?_eq_some_iff.mp ht
  split
  · refine ⟨task.phase, phase, by rw [Pool.phase, ht, Option.map_some], hp, ?_⟩
    simp [Pool.phase, hlt]
  · next hne => rw [Pool.phase, List.getElem?_set_ne (Ne.symm hne), Pool.phase]

/-- A step either is an event of task `i` or spawns it at most. -/
theorem step_phase (ht : step config a s = some t) (i : Nat) :
    (∃ e phase phase', a = .task i e ∧ s.pool.phase i = some phase ∧
        phase.next s.pool.permits e = some phase' ∧ t.pool.phase i = some phase') ∨
      (∀ e, a ≠ .task i e) ∧ (t.pool.phase i = s.pool.phase i ∨
        s.pool.phase i = none ∧ t.pool.phase i = some .waiting) := by
  obtain ⟨j, e, p, rfl, hev, rfl⟩ | ⟨hne, hext⟩ := step_tasks ht
  · have hphase := Pool.event_phase hev i
    by_cases hij : i = j
    · subst hij
      rw [if_pos rfl] at hphase
      obtain ⟨phase, phase', hs, hn, hp⟩ := hphase
      exact .inl ⟨e, phase, phase', rfl, hs, hn, hp⟩
    · rw [if_neg hij] at hphase
      exact .inr ⟨fun e he => hij (Action.task.inj he).1.symm, .inl hphase⟩
  · exact .inr ⟨hne i, hext.phase i⟩

-- ---------------------------------------------------------------------------
-- Attempts
-- ---------------------------------------------------------------------------

def State.attempts (s : State) (i : Nat) : Nat := (s.pool.phase i).elim 0 Phase.attempts

def Action.isTask (i : Nat) : Action → Bool
  | .task j _ => j = i
  | _ => false

def Action.posts (i : Nat) (a : Action) (t : State) : Bool :=
  a.isTask i && (t.pool.phase i).any Phase.isPosting

/-- The POSTs that task `i` sends in the course of a run: one for each `send()`,
whatever redirects the client follows inside it. -/
def postsIn (config : ExporterConfig) (i : Nat) : List Action → State → Nat
  | [], _ => 0
  | a :: as, s => (step config a s).elim 0 fun t => (a.posts i t).toNat + postsIn config i as t

theorem isTask_eq_false {a : Action} (h : ∀ e, a ≠ .task i e) : a.isTask i = false := by
  cases a with
  | task j e =>
    refine decide_eq_false ?_
    rintro rfl
    exact h e rfl
  | _ => rfl

theorem attempts_step (ht : step config a s = some t) (hle : s.attempts i ≤ 3) :
    s.attempts i + (a.posts i t).toNat ≤ t.attempts i ∧ t.attempts i ≤ 3 := by
  obtain ⟨e, phase, phase', rfl, hs, hn, hp⟩ | ⟨hne, hsame⟩ := step_phase ht i
  · have hattempts : s.attempts i = phase.attempts := by rw [State.attempts, hs]; rfl
    have hposts : (Action.task i e).posts i t = phase'.isPosting := by
      simp [Action.posts, Action.isTask, hp]
    have hnext : t.attempts i = phase'.attempts := by rw [State.attempts, hp]; rfl
    rw [hattempts, hposts, hnext]
    exact Phase.next_attempts hn (hattempts ▸ hle)
  · have hattempts : t.attempts i = s.attempts i := by
      obtain hsame | ⟨hnone, hwait⟩ := hsame
      · rw [State.attempts, hsame, State.attempts]
      · rw [State.attempts, hwait, State.attempts, hnone]
        rfl
    rw [Action.posts, isTask_eq_false hne, hattempts]
    exact ⟨Nat.le_refl _, hle⟩

/-- What a run sends for a task counts as attempts at its end. -/
theorem attempts_run (h : (exporter config).run as s = some t) (hle : s.attempts i ≤ 3) :
    s.attempts i + postsIn config i as s ≤ t.attempts i ∧ t.attempts i ≤ 3 := by
  induction as generalizing s with
  | nil =>
    rw [Machine.run_nil] at h
    cases h
    exact ⟨Nat.le_refl _, hle⟩
  | cons a as ih =>
    obtain ⟨u, hu, hr⟩ := Machine.run_cons_some.mp h
    have hu : step config a s = some u := hu
    obtain ⟨hstep, hule⟩ := attempts_step (i := i) hu hle
    obtain ⟨hrun, htle⟩ := ih hr hule
    have hposts : postsIn config i (a :: as) s = (a.posts i u).toNat + postsIn config i as u := by
      rw [postsIn, hu]
      rfl
    exact ⟨by omega, htle⟩

theorem attempts_success (ht : step config (.task i (.respond true)) s = some t) :
    t.attempts i = 3 := by
  obtain ⟨e, phase, phase', ha, hs, hn, hp⟩ | ⟨hne, -⟩ := step_phase ht i
  · obtain rfl := (Action.task.inj ha).2
    cases phase with
    | posting attempt =>
      obtain rfl : phase' = .finished true := by simpa [Phase.next] using hn.symm
      rw [State.attempts, hp]
      rfl
    | _ => cases hn
  · exact absurd rfl (hne _)

-- ---------------------------------------------------------------------------
-- Returning the permit
-- ---------------------------------------------------------------------------

def Pool.holds (p : Pool) (i : Nat) : Bool := (p.phase i).any Phase.holdsPermit

def Pool.acquired (p : Pool) (i : Nat) : Bool := (p.phase i).any Phase.acquired

def State.remaining (s : State) (i : Nat) : Nat := (s.pool.phase i).elim 0 Phase.remaining

theorem Pool.acquired_iff {p : Pool} : p.acquired i ↔ p.holds i ∨ p.finishedAt i := by
  cases h : p.tasks[i]? with
  | none => simp [Pool.acquired, Pool.holds, Pool.finishedAt, Pool.phase, h]
  | some task =>
    obtain ⟨post, phase⟩ := task
    cases phase <;>
      simp [Pool.acquired, Pool.holds, Pool.finishedAt, Pool.phase, h, Phase.acquired,
        Phase.holdsPermit, Phase.isFinished]

theorem acquired_step (ht : step config a s = some t) (hle : s.attempts i ≤ 3)
    (hacq : s.pool.acquired i) :
    t.remaining i + (a.isTask i).toNat ≤ s.remaining i ∧ t.pool.acquired i := by
  obtain ⟨e, phase, phase', rfl, hs, hn, hp⟩ | ⟨hne, hsame⟩ := step_phase ht i
  · rw [Pool.acquired, hs] at hacq
    rw [State.attempts, hs] at hle
    obtain ⟨hless, hacq'⟩ := Phase.next_remaining hn hacq hle
    simp only [State.remaining, Pool.acquired, hs, hp, Action.isTask, decide_true]
    exact ⟨hless, hacq'⟩
  · have hsame : t.pool.phase i = s.pool.phase i := by
      obtain hsame | ⟨hnone, -⟩ := hsame
      · exact hsame
      · rw [Pool.acquired, hnone] at hacq
        cases hacq
    rw [State.remaining, State.remaining, Pool.acquired, hsame, isTask_eq_false hne]
    exact ⟨Nat.le_refl _, hacq⟩

theorem acquired_run (h : (exporter config).run as s = some t) (hle : s.attempts i ≤ 3)
    (hacq : s.pool.acquired i) :
    t.remaining i + as.countP (·.isTask i) ≤ s.remaining i ∧ t.pool.acquired i := by
  induction as generalizing s with
  | nil =>
    rw [Machine.run_nil] at h
    cases h
    exact ⟨Nat.le_refl _, hacq⟩
  | cons a as ih =>
    obtain ⟨u, hu, hr⟩ := Machine.run_cons_some.mp h
    have hu : step config a s = some u := hu
    obtain ⟨hstep, hacq⟩ := acquired_step hu hle hacq
    obtain ⟨hrun, hacq⟩ := ih hr (attempts_step hu hle).2 hacq
    have hown : (if a.isTask i then 1 else 0) = (a.isTask i).toNat := by
      cases a.isTask i <;> rfl
    rw [List.countP_cons, hown]
    exact ⟨by omega, hacq⟩

/-- Whatever is answered, the task goes on until it has given its permit back:
only the answer or its delay is waited for, six events are enough, and the
last of them frees one permit. -/
structure Returns (config : ExporterConfig) (s : State) (i : Nat) : Prop where
  answered : ∀ attempt, s.pool.phase i = some (.posting attempt) →
    ∀ success, (step config (.task i (.respond success)) s).isSome
  woken : ∀ attempt, s.pool.phase i = some (.sleeping attempt) →
    (step config (.task i .wake) s).isSome
  soon : ∀ as t, (exporter config).run as s = some t →
    as.countP (·.isTask i) ≤ 6 ∧ (t.pool.holds i ∨ t.pool.finishedAt i)
  freed : ∀ e t, step config (.task i e) s = some t → t.pool.finishedAt i →
    t.pool.permits = s.pool.permits + 1

theorem event_isSome (hs : s.pool.phase i = some phase)
    (hn : (phase.next s.pool.permits e).isSome) : (step config (.task i e) s).isSome := by
  obtain ⟨task, htask, rfl⟩ := Option.map_eq_some_iff.mp hs
  obtain ⟨phase', hn⟩ := Option.isSome_iff_exists.mp hn
  simp [step, Pool.event, htask, hn]

theorem returns (hle : s.attempts i ≤ 3) (hheld : s.pool.holds i) : Returns config s i := by
  refine { answered := ?_, woken := ?_, soon := ?_, freed := ?_ }
  · intro attempt hs success
    exact event_isSome hs rfl
  · intro attempt hs
    exact event_isSome hs rfl
  · intro as t h
    obtain ⟨hcount, hacq⟩ := acquired_run h hle (Pool.acquired_iff.mpr (.inl hheld))
    have hbound : s.remaining i ≤ 6 := by
      rw [State.remaining]
      cases s.pool.phase i with
      | none => exact Nat.zero_le _
      | some phase => cases phase <;> simp [Phase.remaining, retryDelays] <;> omega
    exact ⟨by omega, Pool.acquired_iff.mp hacq⟩
  · intro e t ht hf
    cases step_stepped ht with
    | task h =>
      obtain ⟨task, phase, htask, hn, rfl⟩ := Pool.event_eq h
      obtain ⟨hlt, -⟩ := List.getElem?_eq_some_iff.mp htask
      simp only [Pool.holds, Pool.phase, htask, Option.map_some, Option.any_some] at hheld
      simp only [Pool.finishedAt, List.getElem?_set_self hlt, Option.any_some] at hf
      cases phase with
      | finished success =>
        show s.pool.permits + task.phase.holdsPermit.toNat - 0 = s.pool.permits + 1
        rw [hheld]
        rfl
      | _ => cases hf

end

/-- In every run at most `max_concurrent_exports` tasks hold a permit, each
payload is sent at most three times and never after a success, and a task that
has a permit returns it. -/
theorem exporter_permits (h0 : start config = some s₀)
    (h : (exporter config).run as s₀ = some s) :
    s.pool.running ≤ config.maxConcurrentExports ∧
      s.pool.permits + s.pool.running = config.maxConcurrentExports ∧
      ∀ i, postsIn config i as s₀ ≤ 3 ∧
        (∀ front back, as = front ++ .task i (.respond true) :: back →
          ∃ u, (exporter config).run (front ++ [.task i (.respond true)]) s₀ = some u ∧
            postsIn config i back u = 0) ∧
        (s.pool.holds i → Returns config s i) := by
  have hpermits := (reachable_inv (Machine.Reachable.run (.init h0) h)).balanced.pool.permits
  have hnew : ∀ i, s₀.attempts i = 0 := by
    intro i
    obtain ⟨-, h0⟩ := Option.ite_none_left_eq_some.mp h0
    obtain rfl := Option.some.inj h0
    rfl
  refine ⟨by omega, hpermits, fun i => ?_⟩
  have hle : s₀.attempts i ≤ 3 := by
    rw [hnew]
    exact Nat.zero_le _
  obtain ⟨hsent, hend⟩ := attempts_run h hle
  refine ⟨by omega, fun front back has => ?_, fun hheld => returns hend hheld⟩
  subst has
  obtain ⟨v, hfront, h⟩ := Machine.run_append_some.mp h
  obtain ⟨u, hu, hback⟩ := Machine.run_cons_some.mp h
  have hsuccess : step config (.task i (.respond true)) v = some u := hu
  have hdone : u.attempts i = 3 := attempts_success hsuccess
  refine ⟨u, ?_, ?_⟩
  · rw [Machine.run_append, hfront, Option.bind_some, Machine.run_cons, hu]
    rfl
  · obtain ⟨hrest, hend⟩ := attempts_run hback (Nat.le_of_eq hdone)
    omega

/-- The first payload is refused twice and then taken; the second one waits for
the permit and is being sent at the end. -/
def refusedTwice : List Action :=
  [.call (.sendTraces [1]), .call (.sendTraces [2]), .recv, .recv, .call (.sendLogs [3]),
    .call (.sendLogs [4]), .recv, .recv, .task 0 .acquire, .task 0 (.respond false), .task 0 .wake,
    .task 0 (.respond false), .task 0 .wake, .task 0 (.respond true), .task 1 .acquire]

theorem exporter_permits_refusedTwice : ∃ s₀ s, start tracesAndLogs = some s₀ ∧
    (exporter tracesAndLogs).run refusedTwice s₀ = some s ∧
    s.pool.running ≤ tracesAndLogs.maxConcurrentExports ∧
      s.pool.permits + s.pool.running = tracesAndLogs.maxConcurrentExports ∧
      ∀ i, postsIn tracesAndLogs i refusedTwice s₀ ≤ 3 ∧
        (∀ front back, refusedTwice = front ++ .task i (.respond true) :: back →
          ∃ u, (exporter tracesAndLogs).run (front ++ [.task i (.respond true)]) s₀ = some u ∧
            postsIn tracesAndLogs i back u = 0) ∧
        (s.pool.holds i → Returns tracesAndLogs s i) := by
  obtain ⟨s, hs⟩ := Option.isSome_iff_exists.mp (show ((exporter tracesAndLogs).run refusedTwice
    { pool := { permits := 1 } }).isSome by decide)
  exact ⟨_, s, rfl, hs, exporter_permits rfl hs⟩

end Rolly.Exporter
