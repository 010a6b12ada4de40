import Mathlib.Data.List.Basic

/-!
# Labelled transition systems

A machine has initial states and partial steps, one for each action. A
reachable state is the end of some interleaving of actions; `ReachableBy P`
admits only interleavings each of whose steps satisfies `P`.
-/

structure Machine (σ α : Type) where
  init : σ → Prop
  step : α → σ → Option σ

namespace Machine

variable {σ α : Type} {M : Machine σ α} {P Q : α → σ → Prop} {I : σ → Prop}

inductive ReachableBy (M : Machine σ α) (P : α → σ → Prop) : σ → Prop
  | init : M.init s → ReachableBy M P s
  | step : ReachableBy M P s → P a s → M.step a s = some t → ReachableBy M P t

def Reachable (M : Machine σ α) : σ → Prop := M.ReachableBy fun _ _ => True

theorem ReachableBy.mono (h : M.ReachableBy P s) (hpq : ∀ a s, P a s → Q a s) :
    M.ReachableBy Q s := by
  induction h with
  | init hs => exact .init hs
  | step _ hp ht ih => exact .step ih (hpq _ _ hp) ht

theorem ReachableBy.reachable (h : M.ReachableBy P s) : M.Reachable s :=
  h.mono fun _ _ _ => trivial

theorem Reachable.step (h : M.Reachable s) (ht : M.step a s = some t) : M.Reachable t :=
  ReachableBy.step h trivial ht

/-- What holds initially and is kept by every admitted step holds wherever
these lead. The step may use that its source is reachable. -/
theorem ReachableBy.invariant (h : M.ReachableBy P s) (h0 : ∀ s, M.init s → I s)
    (hstep : ∀ a s t, M.ReachableBy P s → I s → P a s → M.step a s = some t → I t) :
    I s := by
  induction h with
  | init hs => exact h0 _ hs
  | step hr hp ht ih => exact hstep _ _ _ hr ih hp ht

theorem Reachable.invariant (h : M.Reachable s) (h0 : ∀ s, M.init s → I s)
    (hstep : ∀ a s t, M.Reachable s → I s → M.step a s = some t → I t) : I s :=
  ReachableBy.invariant h h0 fun a s t hr hi _ ht => hstep a s t hr hi ht

-- ---------------------------------------------------------------------------
-- Runs
-- ---------------------------------------------------------------------------

/-- The state after a list of actions, if each of them was enabled. -/
def run (M : Machine σ α) (as : List α) (s : σ) : Option σ := as.foldlM (fun s a => M.step a s) s

theorem run_nil : M.run [] s = some s := rfl

theorem run_cons : M.run (a :: as) s = (M.step a s).bind (M.run as) := rfl

theorem run_append : M.run (as ++ bs) s = (M.run as s).bind (M.run bs) := List.foldlM_append

theorem run_cons_some :
    M.run (a :: as) s = some t ↔ ∃ u, M.step a s = some u ∧ M.run as u = some t := by
  rw [run_cons, Option.bind_eq_some_iff]

theorem run_append_some :
    M.run (as ++ bs) s = some t ↔ ∃ u, M.run as s = some u ∧ M.run bs u = some t := by
  rw [run_append, Option.bind_eq_some_iff]

theorem of_run {o : Option σ} {f : σ → β} (h : o = some s) (hf : o.map f = some y) : f s = y := by
  rw [h] at hf
  exact Option.some.inj hf

/-- A reflexive and transitive relation that every step keeps holds between
the ends of a run. -/
theorem run_of_steps {R : σ → σ → Prop} (hrefl : ∀ s, R s s)
    (htrans : ∀ s t u, R s t → R t u → R s u) (hstep : ∀ a s t, M.step a s = some t → R s t)
    (h : M.run as s = some t) : R s t := by
  induction as generalizing s with
  | nil =>
    rw [run_nil] at h
    cases h
    exact hrefl _
  | cons a as ih =>
    obtain ⟨u, hu, hr⟩ := run_cons_some.mp h
    exact htrans s u t (hstep a s u hu) (ih hr)

theorem Reachable.run (h : M.Reachable s) (hr : M.run as s = some t) : M.Reachable t :=
  run_of_steps (R := fun s t => M.Reachable s → M.Reachable t) (fun _ h => h)
    (fun _ _ _ hst htu h => htu (hst h)) (fun _ _ _ ht h => h.step ht) hr h

def guard (M : Machine σ α) (P : α → σ → Prop) [∀ a s, Decidable (P a s)] : Machine σ α where
  init := M.init
  step a s := if P a s then M.step a s else none

theorem Reachable.of_guard [∀ a s, Decidable (P a s)] (h : (M.guard P).Reachable s) :
    M.ReachableBy P s := by
  induction h with
  | init hs => exact .init hs
  | step _ _ ht ih =>
    obtain ⟨hp, ht⟩ := Option.ite_none_right_eq_some.mp ht
    exact .step ih hp ht

theorem ReachableBy.of_run [∀ a s, Decidable (P a s)] (h0 : M.init s)
    (h : (M.guard P).run as s = some t) : M.ReachableBy P t :=
  Reachable.of_guard (Reachable.run (.init h0) h)

theorem run_of_guard [∀ a s, Decidable (P a s)] (h : (M.guard P).run as s = some t) :
    M.run as s = some t := by
  induction as generalizing s with
  | nil => exact h
  | cons a as ih =>
    obtain ⟨u, hu, hr⟩ := run_cons_some.mp h
    exact run_cons_some.mpr ⟨u, (Option.ite_none_right_eq_some.mp hu).2, ih hr⟩

-- ---------------------------------------------------------------------------
-- Refinement
-- ---------------------------------------------------------------------------

/-- Seen through `proj`, each step of `M` is a run of `N`. -/
structure Refines (M : Machine σ α) (N : Machine τ β) (proj : σ → τ) : Prop where
  init : ∀ s, M.init s → N.Reachable (proj s)
  step : ∀ a s t, M.Reachable s → M.step a s = some t → ∃ bs, N.run bs (proj s) = some (proj t)

theorem Refines.reachable {N : Machine τ β} {proj : σ → τ} (h : M.Refines N proj)
    (hs : M.Reachable s) : N.Reachable (proj s) := by
  refine hs.invariant h.init fun a s t hr hi ht => ?_
  obtain ⟨bs, hbs⟩ := h.step a s t hr ht
  exact hi.run hbs

theorem Refines.run {N : Machine τ β} {proj : σ → τ} (h : M.Refines N proj) (hs : M.Reachable s)
    (ht : M.run as s = some t) : ∃ bs, N.run bs (proj s) = some (proj t) := by
  induction as generalizing s with
  | nil =>
    cases ht
    exact ⟨[], rfl⟩
  | cons a as ih =>
    obtain ⟨u, hu, hrun⟩ := run_cons_some.mp ht
    obtain ⟨bs, hbs⟩ := h.step a s u hs hu
    obtain ⟨cs, hcs⟩ := ih (hs.step hu) hrun
    exact ⟨bs ++ cs, run_append_some.mpr ⟨_, hbs, hcs⟩⟩

end Machine
