import Mathlib.Data.List.Dedup
import Mathlib.Data.List.Destutter
import Mathlib.Data.List.Sort

/-!
# Dropping repetitions

`dedup` of a vector keeps an element unless it equals the one kept before it.
After a sort that leaves each value once.
-/

namespace Dedup

variable {α κ : Type}

theorem eraseRepsBy_eq_destutter (r : α → α → Bool) (l : List α) :
    l.eraseRepsBy r = l.destutter (fun a b => r a b = false) := by
  cases l with
  | nil => rfl
  | cons a l =>
    suffices ∀ acc, List.eraseRepsBy.loop r a l acc =
        acc.reverse ++ l.destutter' (fun a b => r a b = false) a from this []
    induction l generalizing a with
    | nil => exact fun acc => List.reverse_cons
    | cons b l ih =>
      intro acc
      rw [List.eraseRepsBy.loop, List.destutter'_cons]
      cases h : r a b with
      | true => exact ih a acc
      | false =>
        rw [if_pos rfl, ih b (a :: acc), List.reverse_cons, List.append_assoc]
        rfl

section
variable {R : α → α → Prop} [DecidableRel R]

/-- What is dropped is not related to an element that is kept. -/
theorem exists_kept {l : List α} (h : b ∈ l) : ∃ c ∈ l.destutter R, c = b ∨ ¬R c b := by
  cases l with
  | nil => cases h
  | cons a l =>
    rw [List.destutter_cons']
    induction l generalizing a with
    | nil =>
      obtain rfl := List.mem_singleton.mp h
      exact ⟨b, List.mem_singleton_self b, .inl rfl⟩
    | cons a' l ih =>
      rw [List.destutter'_cons]
      by_cases hr : R a a'
      · rw [if_pos hr]
        obtain rfl | h := List.mem_cons.mp h
        · exact ⟨b, List.mem_cons_self, .inl rfl⟩
        · obtain ⟨c, hc, hrel⟩ := ih a' h
          exact ⟨c, List.mem_cons_of_mem _ hc, hrel⟩
      · rw [if_neg hr]
        have hkept := List.mem_destutter' R a (l := l)
        obtain rfl | h := List.mem_cons.mp h
        · exact ⟨b, hkept, .inl rfl⟩
        · obtain rfl | h := List.mem_cons.mp h
          · exact ⟨a, hkept, .inr hr⟩
          · exact ih a (List.mem_cons_of_mem _ h)

end

section
variable [LinearOrder κ] {l : List κ}

theorem mem_destutter_ne {k : κ} (h : l.Pairwise (· ≤ ·)) :
    k ∈ l.destutter (· ≠ ·) ↔ k ∈ l := by
  rw [h.destutter_eq_dedup, List.mem_dedup]

theorem pairwise_lt_destutter (h : l.Pairwise (· ≤ ·)) :
    (l.destutter (· ≠ ·)).Pairwise (· < ·) := by
  have hle := h.sublist (l.destutter_sublist (· ≠ ·))
  have hne : (l.destutter (· ≠ ·)).Pairwise (· ≠ ·) := by
    rw [h.destutter_eq_dedup]
    exact l.nodup_dedup
  exact (hle.and hne).imp fun h => lt_of_le_of_ne h.1 h.2

end

end Dedup
