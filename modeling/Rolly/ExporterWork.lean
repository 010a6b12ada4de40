import Mathlib.Algebra.GroupWithZero.Nat
import Rolly.ExporterPermits
import Rolly.Lib.Fairness

/-!
# The work ahead of the exporter

Each step of the loop and of its tasks makes what is ahead of them less, and no
call makes it more: a message that is received starts at most three tasks, and
a task returns after seven events.
-/

namespace Rolly.Exporter

-- ---------------------------------------------------------------------------
-- The work of the tasks
-- ---------------------------------------------------------------------------

def Phase.steps (phase : Phase) : Nat := phase.remaining + (!phase.acquired).toNat

/-- The events of all tasks, and then the joins. -/
def Pool.work (p : Pool) : Nat := (p.tasks.map fun t => t.phase.steps).sum + p.joinSet.length

def Pool.Listed (p : Pool) : Prop := ∀ i ∈ p.joinSet, i < p.tasks.length

section
variable {config : ExporterConfig} {p p' : Pool} {s t : State}

theorem Phase.next_steps (h : Phase.next permits e phase = some phase')
    (hle : phase.attempts ≤ retryDelays.length) : phase'.steps + 1 ≤ phase.steps := by
  by_cases hacq : phase.acquired
  · obtain ⟨hless, hacq'⟩ := Phase.next_remaining h hacq hle
    simpa [Phase.steps, hacq, hacq'] using hless
  · cases phase with
    | waiting =>
      cases e with
      | acquire =>
        obtain ⟨-, h⟩ := Option.ite_none_right_eq_some.mp h
        obtain rfl := Option.some.inj h
        decide
      | respond | wake => cases h
    | _ => exact absurd rfl hacq

theorem sum_map_set {f : β → Nat} {l : List β} (h : l[i]? = some x) (y : β) :
    ((l.set i y).map f).sum + f x = (l.map f).sum + f y := by
  induction l generalizing i with
  | nil => cases h
  | cons z l ih =>
    cases i with
    | zero =>
      obtain rfl : z = x := by simpa using h
      simp only [List.set_cons_zero, List.map_cons, List.sum_cons]
      omega
    | succ i =>
      have := ih (by simpa using h)
      simp only [List.set_cons_succ, List.map_cons, List.sum_cons]
      omega

theorem Pool.work_spawn (p : Pool) (post : Post) : (p.spawn post).work = p.work + 8 := by
  simp only [Pool.work, Pool.spawn, List.map_append, List.sum_append, List.length_append]
  simp only [List.map_cons, List.map_nil, List.sum_cons, List.sum_nil, List.length_singleton,
    show Phase.waiting.steps = 7 by decide]
  omega

theorem Pool.work_reap (p : Pool) : p.reap.work ≤ p.work :=
  Nat.add_le_add_left (List.length_filter_le _ _) _

theorem Pool.work_join (h : p.join i = some p') : p'.work + 1 = p.work := by
  simp only [Pool.join, Option.ite_none_right_eq_some, Option.some.injEq] at h
  obtain ⟨⟨hm, -⟩, rfl⟩ := h
  have := List.length_erase_of_mem hm
  have := List.length_pos_of_mem hm
  simp only [Pool.work]
  omega

theorem Pool.work_event (h : p.event i e = some p')
    (hle : ∀ phase, p.phase i = some phase → phase.attempts ≤ retryDelays.length) :
    p'.work + 1 ≤ p.work := by
  obtain ⟨task, phase, htask, hn, rfl⟩ := Pool.event_eq h
  have hless := Phase.next_steps hn (hle _ (by rw [Pool.phase, htask, Option.map_some]))
  have hsum := sum_map_set (f := fun t => t.phase.steps) htask { task with phase }
  simp only [Pool.work] at hsum ⊢
  omega

theorem Pool.Listed.spawn (h : p.Listed) (post : Post) : (p.spawn post).Listed := by
  intro i hi
  simp only [Pool.spawn, List.mem_append, List.mem_singleton, List.length_append,
    List.length_singleton] at hi ⊢
  obtain hi | rfl := hi
  · exact Nat.lt_succ_of_lt (h i hi)
  · exact Nat.lt_succ_self _

theorem Pool.Listed.reap (h : p.Listed) : p.reap.Listed :=
  fun i hi => h i (List.mem_filter.mp hi).1

theorem Pool.Listed.join (h : p.Listed) (hj : p.join i = some p') : p'.Listed := by
  simp only [Pool.join, Option.ite_none_right_eq_some, Option.some.injEq] at hj
  obtain ⟨-, rfl⟩ := hj
  exact fun j hm => h j (List.mem_of_mem_erase hm)

theorem Pool.Listed.event (h : p.Listed) (he : p.event i e = some p') : p'.Listed := by
  obtain ⟨task, phase, -, -, rfl⟩ := Pool.event_eq he
  intro j hm
  simpa using h j hm

-- ---------------------------------------------------------------------------
-- The arms of the loop
-- ---------------------------------------------------------------------------

/-- What spawning at most `n` tasks does to the pool. -/
structure Spawns (n : Nat) (p p' : Pool) : Prop where
  work : p'.work ≤ p.work + 8 * n
  listed : p.Listed → p'.Listed

theorem Spawns.trans (h : Spawns n p q) (h' : Spawns m q r) : Spawns (n + m) p r := by
  refine ⟨?_, fun hl => h'.listed (h.listed hl)⟩
  have := h.work
  have := h'.work
  omega

theorem Spawns.refl (n : Nat) (p : Pool) : Spawns n p p := ⟨Nat.le_add_right _ _, fun h => h⟩

theorem Spawns.reap (h : Spawns n p q) : Spawns n p q.reap :=
  ⟨Nat.le_trans q.work_reap h.work, fun hl => (h.listed hl).reap⟩

theorem flushBatch_spawns (signal : Signal) (url : Option String) (s : State) :
    Spawns 1 s.pool (flushBatch signal url s).pool := by
  obtain ⟨-, h⟩ | ⟨-, -, h⟩ | ⟨u, -, -, h⟩ := flushBatch_cases signal url s
  · rw [h]
    exact .refl 1 _
  · rw [h, setBatch_pool]
    exact .refl 1 _
  · rw [h]
    exact ⟨Nat.le_of_eq (Pool.work_spawn _ _), fun hl => hl.spawn _⟩

theorem flushAll_spawns (config : ExporterConfig) (s : State) :
    Spawns 3 s.pool (flushAll config s).pool :=
  ((flushBatch_spawns _ _ s).trans (flushBatch_spawns _ _ _)).trans (flushBatch_spawns _ _ _)

theorem receiveData_spawns (config : ExporterConfig) (signal : Signal) (data : Proto3.Bytes)
    (s : State) :
    Spawns 1 s.pool (receiveData config signal data s).pool := by
  unfold receiveData
  dsimp only
  split
  · have := flushBatch_spawns signal (config.url signal)
      (s.setBatch signal (s.batch signal ++ [data]))
    rw [setBatch_pool] at this
    exact this.reap
  · rw [reap, setBatch_pool]
    exact (Spawns.refl 1 _).reap

theorem listed_step (h : s.pool.Listed) (ht : step config a s = some t) : t.pool.Listed := by
  cases step_stepped ht with
  | call => exact h
  | data => exact (receiveData_spawns config _ _ _).listed h
  | flush => exact (flushAll_spawns config { s with channel := _ }).listed h
  | shutdown => exact (flushAll_spawns config { s with channel := _ }).listed h
  | closed => exact (flushAll_spawns config s).listed h
  | tick => exact ((flushAll_spawns config s).listed h).reap
  | join _ _ hj => exact h.join hj
  | reply => exact h.reap
  | stop => exact h
  | task he => exact h.event he

-- ---------------------------------------------------------------------------
-- The next step
-- ---------------------------------------------------------------------------

/-- Done by the loop or by one of its tasks, the timer aside. -/
def Action.isOwn : Action → Bool
  | .call _ => false
  | .tick => false
  | _ => true

/-- A task that is spawned can get a permit, or none ever is. -/
def ExporterConfig.Servable (config : ExporterConfig) : Prop :=
  0 < config.maxConcurrentExports ∨ ∀ signal, config.url signal = none

theorem reachable_listed (h : (exporter config).Reachable s) : s.pool.Listed := by
  refine h.invariant (fun s h0 => ?_) fun a s t _ hi ht => listed_step hi ht
  obtain ⟨-, h0⟩ := Option.ite_none_left_eq_some.mp h0
  obtain rfl := Option.some.inj h0
  exact fun i hi => absurd hi List.not_mem_nil

theorem reachable_attempts (h : (exporter config).Reachable s) (i : Nat) : s.attempts i ≤ 3 := by
  refine h.invariant (I := fun s => s.attempts i ≤ 3) (fun s h0 => ?_)
    fun a s t _ hi ht => (attempts_step ht hi).2
  obtain ⟨-, h0⟩ := Option.ite_none_left_eq_some.mp h0
  obtain rfl := Option.some.inj h0
  exact Nat.zero_le _

theorem task_possible (hphase : s.pool.phase i = some phase)
    (hn : (phase.next s.pool.permits e).isSome) : ((exporter config).step (.task i e) s).isSome :=
  show (step config (.task i e) s).isSome from event_isSome hphase hn

theorem task_enabled {i : Nat} {task : Task} (htask : s.pool.tasks[i]? = some task)
    (hn : (task.phase.next s.pool.permits e).isSome) :
    (exporter config).Enabled Action.isOwn s :=
  ⟨.task i e, rfl, task_possible (by rw [Pool.phase, htask, Option.map_some]) hn⟩

theorem held_enabled {i : Nat} {task : Task} (htask : s.pool.tasks[i]? = some task)
    (hheld : task.phase.holdsPermit) : (exporter config).Enabled Action.isOwn s := by
  cases hp : task.phase with
  | posting attempt => exact task_enabled (e := .respond true) htask (by rw [hp]; rfl)
  | sleeping attempt => exact task_enabled (e := .wake) htask (by rw [hp]; rfl)
  | _ =>
    rw [hp] at hheld
    cases hheld

/-- While a task has not returned, one of the tasks can go on. -/
theorem unfinished_enabled {i : Nat} {task : Task} (hr : (exporter config).Reachable s)
    (hpos : 0 < config.maxConcurrentExports) (htask : s.pool.tasks[i]? = some task)
    (hf : task.phase.isFinished = false) : (exporter config).Enabled Action.isOwn s := by
  cases hp : task.phase with
  | finished success =>
    rw [hp] at hf
    cases hf
  | posting attempt | sleeping attempt => exact held_enabled htask (by rw [hp]; rfl)
  | waiting =>
    by_cases hfree : 0 < s.pool.permits
    · exact task_enabled (e := .acquire) htask (by rw [hp]; simp [Phase.next, hfree])
    · -- whoever has the permits can go on
      have hpermits := (reachable_inv hr).balanced.pool.permits
      have hrunning : 0 < s.pool.running := by omega
      obtain ⟨other, hmem, hheld⟩ := List.countP_pos_iff.mp hrunning
      obtain ⟨j, hj⟩ := List.mem_iff_getElem?.mp hmem
      exact held_enabled hj hheld

theorem tasks_nil (hr : (exporter config).Reachable s) (h : ∀ signal, config.url signal = none) :
    s.pool.tasks = [] := by
  refine List.eq_nil_iff_forall_not_mem.mpr fun task hm => ?_
  have hok := (reachable_inv hr).balanced.posts task.post (List.mem_map_of_mem hm)
  have := hok.url
  rw [h] at this
  cases this

theorem joining_enabled (hr : (exporter config).Reachable s) (hs : config.Servable)
    (hpc : s.pc ≠ .head) (hnt : s.pc ≠ .terminated) :
    (exporter config).Enabled Action.isOwn s := by
  cases hj : s.pool.joinSet with
  | nil =>
    cases hp : s.pc with
    | flushing done => exact ⟨.reply, rfl, by simp [exporter, step, hp, hj]⟩
    | stopping => exact ⟨.stop, rfl, by simp [exporter, step, hp, hj]⟩
    | head => exact absurd hp hpc
    | terminated => exact absurd hp hnt
  | cons i rest =>
    have hlt := reachable_listed hr i (by rw [hj]; exact List.mem_cons_self)
    have htask : s.pool.tasks[i]? = some s.pool.tasks[i] := List.getElem?_eq_getElem hlt
    have hpos : 0 < config.maxConcurrentExports := by
      refine hs.resolve_right fun hnone => ?_
      simp [tasks_nil hr hnone] at hlt
    by_cases hf : s.pool.tasks[i].phase.isFinished
    · have hjoin : (s.pool.join i).isSome := by
        simp [Pool.join, hj, Pool.finishedAt, htask, hf]
      cases hp : s.pc with
      | flushing done => exact ⟨.join i, rfl, by simpa [exporter, step, hp] using hjoin⟩
      | stopping => exact ⟨.join i, rfl, by simpa [exporter, step, hp] using hjoin⟩
      | head => exact absurd hp hpc
      | terminated => exact absurd hp hnt
    · exact unfinished_enabled hr hpos htask (by simpa using hf)

theorem recv_enabled (hpc : s.pc = .head) (h : s.channel.queue ≠ [] ∨ s.channel.handles = 0) :
    (exporter config).Enabled Action.isOwn s := by
  refine ⟨.recv, rfl, ?_⟩
  cases hq : s.channel.queue with
  | cons msg rest => simp [exporter, step, hpc, recv, Channel.pop, hq]
  | nil => simp [exporter, step, hpc, recv, Channel.pop, hq, h.resolve_left (absurd hq)]

-- ---------------------------------------------------------------------------
-- The distance
-- ---------------------------------------------------------------------------

/-- The turns until the loop has received the message at `k`. A loop that stops
receives no more. -/
def State.unreceived (s : State) (k : Nat) : Nat :=
  match s.pc with
  | .stopping | .terminated => 0
  | _ => k + 1 - s.channel.received.length

def Pc.isJoining : Pc → Bool
  | .flushing _ => true
  | .stopping => true
  | _ => false

/-- The own steps until then at most: a turn of the loop is one, its join loop
ends with another, and three tasks take eight each. -/
def State.distance (s : State) (k : Nat) : Nat :=
  26 * s.unreceived k + s.pc.isJoining.toNat + s.pool.work

theorem distance_step (hr : (exporter config).Reachable s) (ht : step config a s = some t)
    (ha : a ≠ .tick) (hk : s.pc = .head → s.channel.received.length ≤ k) :
    t.distance k + a.isOwn.toNat ≤ s.distance k := by
  cases step_stepped ht with
  | call h =>
    obtain ⟨⟨hrec, -⟩, -⟩ := Channel.call_frame h
    simp [State.distance, State.unreceived, hrec, Action.isOwn]
  | @data msg c signal data hpc hp hm =>
    obtain ⟨rest, hq, rfl⟩ := pop_eq hp
    have hw := (receiveData_spawns config signal data
      { s with channel := { s.channel with
        queue := rest, received := s.channel.received ++ [msg] } }).work
    have := hk hpc
    simp only [State.distance, State.unreceived, Pc.isJoining, receiveData_pc,
      receiveData_channel, hpc, Action.isOwn, List.length_append, List.length_singleton,
      Bool.toNat_true, Bool.toNat_false] at hw ⊢
    omega
  | @flush c done hpc hp =>
    obtain ⟨rest, hq, rfl⟩ := pop_eq hp
    have hw := (flushAll_spawns config { s with channel := { s.channel with
        queue := rest, received := s.channel.received ++ [.flush done] } }).work
    have := hk hpc
    simp only [State.distance, State.unreceived, Pc.isJoining, flushAll_channel, hpc, Action.isOwn,
      List.length_append, List.length_singleton, Bool.toNat_true, Bool.toNat_false] at hw ⊢
    omega
  | @shutdown c hpc hp =>
    have hw := (flushAll_spawns config { s with channel := c }).work
    have := hk hpc
    simp only [State.distance, State.unreceived, Pc.isJoining, hpc, Action.isOwn, Bool.toNat_true,
      Bool.toNat_false] at hw ⊢
    omega
  | closed hpc hq hh =>
    have hw := (flushAll_spawns config s).work
    have := hk hpc
    simp only [State.distance, State.unreceived, Pc.isJoining, hpc, Action.isOwn, Bool.toNat_true,
      Bool.toNat_false] at hw ⊢
    omega
  | tick => exact absurd rfl ha
  | join hh hnt hj =>
    have := Pool.work_join hj
    simp only [State.distance, State.unreceived, Action.isOwn, Bool.toNat_true]
    omega
  | @reply done hpc hj =>
    have := s.pool.work_reap
    simp only [State.distance, State.unreceived, Pc.isJoining, Exporter.reply, reap, hpc,
      Action.isOwn, Bool.toNat_true, Bool.toNat_false]
    omega
  | stop hpc hj =>
    simp [State.distance, State.unreceived, Pc.isJoining, Exporter.stop, hpc, Action.isOwn,
      Nat.add_comm]
  | @task i e p h =>
    have := Pool.work_event h fun phase hp => by
      have := reachable_attempts hr i
      rwa [State.attempts, hp] at this
    simp only [State.distance, State.unreceived, Action.isOwn, Bool.toNat_true]
    omega

end

end Rolly.Exporter
