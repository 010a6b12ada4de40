import Rolly.ExporterChannel

/-!
# The exporter's tasks

One task for each POST, the semaphore they share and the join set through
which the loop learns that they returned.
-/

namespace Rolly.Exporter

open Proto3 (Bytes)

/-- The body of one export. `signal` and `items` record where it came from. -/
structure Post where
  url : String
  data : Bytes
  signal : Signal
  items : List Bytes
  deriving DecidableEq, Repr

/-- The delays between the attempts, in milliseconds. -/
def retryDelays : List Nat := [100, 400, 1600]

/-- Where a spawned task stands: before its permit, sending an attempt, in the
sleep after a failed one, or returned. -/
inductive Phase
  | waiting
  | posting (attempt : Nat)
  | sleeping (attempt : Nat)
  | finished (success : Bool)
  deriving DecidableEq, Repr

structure Task where
  post : Post
  phase : Phase
  deriving DecidableEq, Repr

def Phase.isFinished : Phase → Bool
  | .finished _ => true
  | _ => false

/-- Between acquiring a permit and returning. -/
def Phase.holdsPermit : Phase → Bool
  | .posting _ => true
  | .sleeping _ => true
  | _ => false

/-- The tasks in spawn order, the indices of those not reaped yet, and the free
permits of the semaphore. -/
structure Pool where
  tasks : List Task := []
  joinSet : List Nat := []
  permits : Nat
  deriving DecidableEq, Repr

/-- `join_set.spawn(..)`: the task runs before it holds a permit. -/
def Pool.spawn (p : Pool) (post : Post) : Pool :=
  { p with tasks := p.tasks ++ [{ post, phase := .waiting }]
           joinSet := p.joinSet ++ [p.tasks.length] }

def Pool.finishedAt (p : Pool) (i : Nat) : Bool := p.tasks[i]?.any fun t => t.phase.isFinished

/-- `while let Some(result) = join_set.try_join_next()`. -/
def Pool.reap (p : Pool) : Pool :=
  { p with joinSet := p.joinSet.filter fun i => !p.finishedAt i }

/-- `join_set.join_next().await` yields task `i`. -/
def Pool.join (i : Nat) (p : Pool) : Option Pool :=
  if i ∈ p.joinSet ∧ p.finishedAt i then some { p with joinSet := p.joinSet.erase i } else none

-- ---------------------------------------------------------------------------
-- The life of a task
-- ---------------------------------------------------------------------------

inductive TaskEvent
  | acquire
  | respond (success : Bool)
  | wake
  deriving DecidableEq, Repr

/-- `semaphore.acquire()` and then `post_with_retry`: a failed attempt sleeps,
also after the last one. -/
def Phase.next (permits : Nat) : TaskEvent → Phase → Option Phase
  | .acquire, .waiting => if 0 < permits then some (.posting 0) else none
  | .respond success, .posting attempt =>
    some (if success then .finished true else .sleeping attempt)
  | .wake, .sleeping attempt =>
    some (if attempt + 1 < retryDelays.length then .posting (attempt + 1) else .finished false)
  | _, _ => none

/-- One event of task `i`. The permit is taken by `acquire` and dropped when
the task returns. -/
def Pool.event (i : Nat) (e : TaskEvent) (p : Pool) : Option Pool := do
  let t ← p.tasks[i]?
  let phase ← t.phase.next p.permits e
  return { p with
    tasks := p.tasks.set i { t with phase }
    permits := p.permits + t.phase.holdsPermit.toNat - phase.holdsPermit.toNat }

-- ---------------------------------------------------------------------------
-- Invariants
-- ---------------------------------------------------------------------------

def Pool.posts (p : Pool) : List Post := p.tasks.map Task.post

def Pool.running (p : Pool) : Nat := p.tasks.countP fun t => t.phase.holdsPermit

def Pool.unfinished (p : Pool) : List Task := p.tasks.filter fun t => !t.phase.isFinished

structure Pool.Inv (maxConcurrent : Nat) (p : Pool) : Prop where
  reaped : ∀ i t, p.tasks[i]? = some t → i ∉ p.joinSet → t.phase.isFinished
  permits : p.permits + p.running = maxConcurrent

section
variable {maxConcurrent : Nat} {p p' : Pool}

theorem Pool.Inv.init : ({ permits := maxConcurrent } : Pool).Inv maxConcurrent := by
  constructor <;> simp [Pool.running]

theorem Pool.Inv.spawn (hi : p.Inv maxConcurrent) (post : Post) :
    (p.spawn post).Inv maxConcurrent := by
  refine { reaped := fun i t ht hj => ?_, permits := ?_ }
  · simp only [Pool.spawn, List.mem_append, List.mem_singleton, not_or] at ht hj
    by_cases hlt : i < p.tasks.length
    · rw [List.getElem?_append_left hlt] at ht
      exact hi.reaped i t ht hj.1
    · -- the new task is in the join set
      rw [List.getElem?_append_right (by omega), List.getElem?_singleton] at ht
      split at ht
      · omega
      · cases ht
  · simpa [Pool.spawn, Pool.running, Phase.holdsPermit] using hi.permits

theorem Pool.finishedAt_iff : p.finishedAt i ↔ ∃ t, p.tasks[i]? = some t ∧ t.phase.isFinished := by
  simp [Pool.finishedAt, Option.any_eq_true]

theorem Pool.Inv.reap (hi : p.Inv maxConcurrent) : p.reap.Inv maxConcurrent := by
  refine { hi with reaped := fun i t ht hj => ?_ }
  by_cases hm : i ∈ p.joinSet
  · simp only [Pool.reap, List.mem_filter, hm, true_and, Bool.not_eq_true', Bool.not_eq_false] at hj
    obtain ⟨t', ht', hf⟩ := Pool.finishedAt_iff.mp hj
    rw [show p.reap.tasks = p.tasks from rfl, ht'] at ht
    exact Option.some.inj ht ▸ hf
  · exact hi.reaped i t ht hm

theorem Pool.Inv.join (hi : p.Inv maxConcurrent) (h : p.join i = some p') :
    p'.Inv maxConcurrent := by
  simp only [Pool.join, Option.ite_none_right_eq_some, Option.some.injEq] at h
  obtain ⟨⟨-, hf⟩, rfl⟩ := h
  refine { hi with reaped := fun j t ht hj => ?_ }
  by_cases hij : j = i
  · obtain ⟨t', ht', hf⟩ := Pool.finishedAt_iff.mp hf
    rw [hij, ht'] at ht
    exact Option.some.inj ht ▸ hf
  · exact hi.reaped j t ht fun hm => hj ((List.mem_erase_of_ne hij).mpr hm)

/-- What an event can do to the task and the permits. -/
theorem Pool.event_eq (h : p.event i e = some p') : ∃ t phase, p.tasks[i]? = some t ∧
    t.phase.next p.permits e = some phase ∧ p' = { p with
      tasks := p.tasks.set i { t with phase }
      permits := p.permits + t.phase.holdsPermit.toNat - phase.holdsPermit.toNat } := by
  obtain ⟨t, ht, h⟩ := Option.bind_eq_some_iff.mp h
  obtain ⟨phase, hp, h⟩ := Option.bind_eq_some_iff.mp h
  exact ⟨t, phase, ht, hp, (Option.some.inj h).symm⟩

theorem Pool.running_set {t u : Task} (h : p.tasks[i]? = some t) :
    (p.tasks.set i u).countP (fun t => t.phase.holdsPermit) + t.phase.holdsPermit.toNat =
      p.running + u.phase.holdsPermit.toNat := by
  obtain ⟨hlt, rfl⟩ := List.getElem?_eq_some_iff.mp h
  have hl : p.tasks = p.tasks.take i ++ p.tasks[i] :: p.tasks.drop (i + 1) := by simp
  rw [Pool.running, List.set_eq_take_append_cons_drop, if_pos hlt]
  conv_rhs => rw [hl]
  simp only [List.countP_append, List.countP_cons]
  cases p.tasks[i].phase.holdsPermit <;> cases u.phase.holdsPermit <;> simp <;> omega

theorem Phase.next_some (h : Phase.next permits e phase = some phase') :
    phase.isFinished = false ∧
      phase'.holdsPermit.toNat ≤ permits + phase.holdsPermit.toNat := by
  cases e <;> cases phase <;> simp [Phase.next] at h
  · obtain ⟨hp, rfl⟩ := h
    exact ⟨rfl, hp⟩
  · subst h
    split <;> simp [Phase.isFinished, Phase.holdsPermit]
  · subst h
    split <;> simp [Phase.isFinished, Phase.holdsPermit]

theorem Pool.Inv.event (hi : p.Inv maxConcurrent) (h : p.event i e = some p') :
    p'.Inv maxConcurrent := by
  obtain ⟨t, phase, ht, hp, rfl⟩ := Pool.event_eq h
  obtain ⟨hnf, hle⟩ := Phase.next_some hp
  obtain ⟨hlt, rfl⟩ := List.getElem?_eq_some_iff.mp ht
  refine { reaped := fun j u hu hj => ?_, permits := ?_ }
  · by_cases hij : i = j
    · -- a task that is still running has not been reaped
      subst hij
      have := hi.reaped i _ ht hj
      rw [hnf] at this
      cases this
    · rw [List.getElem?_set_ne hij] at hu
      exact hi.reaped j u hu hj
  · have hpm := hi.permits
    have hr := Pool.running_set (u := { p.tasks[i] with phase }) ht
    simp only [Pool.running] at hr hpm ⊢
    omega

theorem Pool.event_posts (h : p.event i e = some p') : p'.posts = p.posts := by
  obtain ⟨t, phase, ht, -, rfl⟩ := Pool.event_eq h
  obtain ⟨hlt, rfl⟩ := List.getElem?_eq_some_iff.mp ht
  have hs : (p.tasks.map Task.post).set i p.tasks[i].post = p.tasks.map Task.post := by
    rw [← List.getElem_map Task.post (h := by simpa using hlt), List.set_getElem_self]
  simpa [Pool.posts, List.map_set] using hs

@[simp] theorem Pool.posts_spawn : (p.spawn post).posts = p.posts ++ [post] := by
  simp [Pool.posts, Pool.spawn]

theorem Pool.posts_join (h : p.join i = some p') : p'.posts = p.posts := by
  simp only [Pool.join, Option.ite_none_right_eq_some, Option.some.injEq] at h
  obtain ⟨-, rfl⟩ := h
  rfl

theorem Pool.Inv.all_finished (hi : p.Inv maxConcurrent) (h : p.joinSet = []) (ht : t ∈ p.tasks) :
    t.phase.isFinished := by
  obtain ⟨i, hi'⟩ := List.mem_iff_getElem?.mp ht
  exact hi.reaped i t hi' (by simp [h])

end

end Rolly.Exporter
