import Mathlib.Algebra.BigOperators.Group.List.Lemmas
import Mathlib.Algebra.GroupWithZero.Nat
import Mathlib.Data.List.Induction
import Mathlib.Order.Lattice

/-!
# Tallies

What is kept of a list that is read once: how many of its values fall into each
bucket, and which is the most extreme of those that can be compared.
-/

namespace Tally

variable {α κ : Type}

theorem sum_range_eq (k n : Nat) :
    ((List.range n).map fun i => if k = i then 1 else 0).sum = if k < n then 1 else 0 := by
  induction n with
  | zero => rfl
  | succ n ih =>
    rw [List.range_succ, List.map_append, List.sum_append, ih, List.map_singleton,
      List.sum_singleton]
    split <;> split <;> split <;> omega

/-- Every value falls into one bucket, so all buckets together hold all values. -/
theorem sum_countP_range (bucket : α → Nat) {n : Nat} {values : List α}
    (h : ∀ v ∈ values, bucket v < n) :
    ((List.range n).map fun i => values.countP (bucket · = i)).sum = values.length := by
  induction values with
  | nil => simp
  | cons v values ih =>
    obtain ⟨hv, hvalues⟩ := List.forall_mem_cons.mp h
    have hone := sum_range_eq (bucket v) n
    rw [if_pos hv] at hone
    simp only [List.countP_cons, decide_eq_true_eq, List.sum_map_add, ih hvalues, hone,
      List.length_cons]

section
variable [LinearOrder κ] (key : α → κ) (comparable : α → Bool)

/-- `if better(v, m) { m = v }` for each value, where only comparable values are
better than others. -/
def extreme (better : α → α → Bool) (start : α) (values : List α) : α :=
  values.foldl (fun m v => if better v m then v else m) start

theorem extreme_spec (better : α → α → Bool) (start : α)
    (hbetter : ∀ v m, better v m ↔ comparable v ∧ comparable m ∧ key v < key m)
    (hstart : comparable start) (values : List α) :
    comparable (extreme better start values) ∧
      (extreme better start values = start ∨ extreme better start values ∈ values) ∧
      key (extreme better start values) ≤ key start ∧
      ∀ v ∈ values, comparable v → key (extreme better start values) ≤ key v := by
  induction values using List.reverseRecOn with
  | nil => exact ⟨hstart, .inl rfl, le_refl _, fun v hv => absurd hv List.not_mem_nil⟩
  | append_singleton values v ih =>
    obtain ⟨hm, hfrom, hle, hall⟩ := ih
    have hconcat : extreme better start (values ++ [v]) =
        if better v (extreme better start values) then v else extreme better start values := by
      rw [extreme, List.foldl_append]
      rfl
    rw [hconcat]
    split
    · next hbest =>
      obtain ⟨hv, -, hlt⟩ := (hbetter _ _).mp hbest
      refine ⟨hv, .inr (by simp), hlt.le.trans hle, fun w hw hc => ?_⟩
      obtain hw | hw := List.mem_append.mp hw
      · exact hlt.le.trans (hall w hw hc)
      · rw [List.mem_singleton.mp hw]
    · next hworse =>
      refine ⟨hm, ?_, hle, fun w hw hc => ?_⟩
      · exact hfrom.imp_right (List.mem_append_left _)
      · obtain hw | hw := List.mem_append.mp hw
        · exact hall w hw hc
        · obtain rfl := List.mem_singleton.mp hw
          rw [hbetter] at hworse
          exact not_lt.mp fun hlt => hworse ⟨hc, hm, hlt⟩

end

end Tally
