import Mathlib.Data.List.Basic

/-!
# Words and numbers in a text

Splitting a list at separators or at the last occurrence of one, and the
decimal numbers below a bound. A text is a list of characters.
-/

namespace Words

-- ---------------------------------------------------------------------------
-- Splitting
-- ---------------------------------------------------------------------------

section
variable {α : Type} {p : α → Bool} {xs before after : List α}

/-- The pieces between separators that are not empty. -/
def words (p : α → Bool) (xs : List α) : List (List α) := (xs.splitOnP p).filter (!·.isEmpty)

theorem words_separated {sep : α} (hsep : p sep) (fields : List (List α))
    (h : ∀ w ∈ fields, w ≠ [] ∧ ∀ x ∈ w, p x = false) :
    words p (fields.flatMap fun w => sep :: w) = fields := by
  have hpieces : ∀ fields : List (List α), (∀ w ∈ fields, w ≠ [] ∧ ∀ x ∈ w, p x = false) →
      ∀ front : List α, (∀ x ∈ front, p x = false) →
        (front ++ fields.flatMap fun w => sep :: w).splitOnP p = front :: fields := by
    intro fields
    induction fields with
    | nil =>
      intro _ front hfront
      simpa using List.splitOnP_eq_singleton hfront
    | cons w fields ih =>
      intro h front hfront
      have hw := h w List.mem_cons_self
      rw [List.flatMap_cons, List.cons_append,
        List.splitOnP_append_cons_of_forall_mem hfront sep hsep,
        ih (fun w hw => h w (List.mem_cons_of_mem _ hw)) w hw.2]
  have hall := hpieces fields h [] (by simp)
  rw [List.nil_append] at hall
  rw [words, hall, List.filter_cons, if_neg (by simp)]
  refine List.filter_eq_self.mpr ?_
  intro w hw
  simpa using (h w hw).1

theorem words_append_sep {sep : α} (hsep : p sep) (xs : List α) :
    words p (xs ++ [sep]) = words p xs := by
  rw [words, List.splitOnP_append_cons xs [] hsep, List.filter_append]
  simp [words]

variable [DecidableEq α] {c : α}

/-- What is before and after the last `c`. -/
def rsplitOnce (c : α) : List α → Option (List α × List α)
  | [] => none
  | x :: xs =>
    match rsplitOnce c xs with
    | some (before, after) => some (x :: before, after)
    | none => if x = c then some ([], xs) else none

theorem rsplitOnce_eq_none : rsplitOnce c xs = none ↔ c ∉ xs := by
  induction xs with
  | nil => simp [rsplitOnce]
  | cons x xs ih =>
    cases h : rsplitOnce c xs with
    | none => simp [rsplitOnce, h, ih.mp h, eq_comm]
    | some split =>
      have hmem : c ∈ xs := by
        by_contra hc
        rw [ih.mpr hc] at h
        cases h
      simp [rsplitOnce, h, hmem]

theorem rsplitOnce_eq_some :
    rsplitOnce c xs = some (before, after) ↔ xs = before ++ c :: after ∧ c ∉ after := by
  induction xs generalizing before with
  | nil => simp [rsplitOnce]
  | cons x xs ih =>
    cases h : rsplitOnce c xs with
    | none =>
      have hc := rsplitOnce_eq_none.mp h
      simp only [rsplitOnce, h, Option.ite_none_right_eq_some, Option.some.injEq, Prod.mk.injEq]
      constructor
      · rintro ⟨rfl, rfl, rfl⟩
        exact ⟨rfl, hc⟩
      · rintro ⟨hx, -⟩
        cases before with
        | nil =>
          obtain ⟨rfl, rfl⟩ := List.cons.inj hx
          exact ⟨rfl, rfl, rfl⟩
        | cons b before =>
          obtain ⟨-, rfl⟩ := List.cons.inj hx
          simp at hc
    | some split =>
      obtain ⟨front, back⟩ := split
      simp only [rsplitOnce, h, Option.some.injEq, Prod.mk.injEq]
      constructor
      · rintro ⟨rfl, rfl⟩
        obtain ⟨rfl, hc⟩ := ih.mp h
        exact ⟨rfl, hc⟩
      · rintro ⟨hx, hc⟩
        cases before with
        | nil =>
          obtain ⟨-, rfl⟩ := List.cons.inj hx
          rw [rsplitOnce_eq_none.mpr hc] at h
          cases h
        | cons b before =>
          obtain ⟨rfl, hxs⟩ := List.cons.inj hx
          have heq := h.symm.trans (ih.mpr ⟨hxs, hc⟩)
          obtain ⟨rfl, rfl⟩ := Prod.mk.inj (Option.some.inj heq)
          exact ⟨rfl, rfl⟩

end

-- ---------------------------------------------------------------------------
-- Decimal numbers
-- ---------------------------------------------------------------------------

/-- One digit more, as long as the number is below the bound. -/
def pushDigit (bound n : Nat) (c : Char) : Option Nat :=
  if c.isDigit then
    let n := 10 * n + (c.toNat - '0'.toNat)
    if n < bound then some n else none
  else none

/-- A number in decimal, maybe after a plus sign. -/
def parseNat (bound : Nat) (text : List Char) : Option Nat :=
  let digits := if text.head? = some '+' then text.tail else text
  if digits = [] then none else digits.foldlM (pushDigit bound) 0

section
variable {bound n m : Nat} {text digits : List Char}

theorem le_ofDigitChars (digits : List Char) (n : Nat) : n ≤ Nat.ofDigitChars 10 digits n := by
  induction digits generalizing n with
  | nil => simp
  | cons c digits ih =>
    rw [Nat.ofDigitChars_cons]
    exact Nat.le_trans (by omega) (ih _)

theorem foldlM_pushDigit (hn : n < bound) : digits.foldlM (pushDigit bound) n = some m ↔
    (∀ c ∈ digits, c.isDigit) ∧ Nat.ofDigitChars 10 digits n = m ∧ m < bound := by
  induction digits generalizing n with
  | nil =>
    simp only [List.foldlM_nil, Option.pure_def, Option.some.injEq, Nat.ofDigitChars_nil]
    constructor
    · rintro rfl
      exact ⟨by simp, rfl, hn⟩
    · rintro ⟨-, rfl, -⟩
      rfl
  | cons c digits ih =>
    rw [List.foldlM_cons, Option.bind_eq_bind, Option.bind_eq_some_iff, Nat.ofDigitChars_cons]
    constructor
    · rintro ⟨k, hk, hfold⟩
      simp only [pushDigit, Option.ite_none_right_eq_some, Option.some.injEq] at hk
      obtain ⟨hc, hlt, rfl⟩ := hk
      obtain ⟨hall, rfl, hm⟩ := (ih hlt).mp hfold
      exact ⟨by simpa [hc] using hall, rfl, hm⟩
    · rintro ⟨hall, rfl, hm⟩
      obtain ⟨hc, hall⟩ := List.forall_mem_cons.mp hall
      have hlt : 10 * n + (c.toNat - '0'.toNat) < bound :=
        Nat.lt_of_le_of_lt (le_ofDigitChars digits _) hm
      refine ⟨10 * n + (c.toNat - '0'.toNat), ?_, (ih hlt).mpr ⟨hall, rfl, hm⟩⟩
      rw [pushDigit, if_pos hc]
      exact if_pos hlt

theorem parseNat_digits (h : ∀ c ∈ digits, c.isDigit) (hne : digits ≠ []) (hbound : 0 < bound) :
    parseNat bound digits = some n ↔ Nat.ofDigitChars 10 digits 0 = n ∧ n < bound := by
  have hplus : digits.head? ≠ some '+' := by
    intro hhead
    have := h '+' (List.mem_of_mem_head? hhead)
    simp at this
  rw [parseNat, if_neg hplus]
  simp only [hne, if_false, foldlM_pushDigit hbound]
  exact ⟨fun hn => hn.2, fun hn => ⟨h, hn⟩⟩

theorem parseNat_toDigits (hbound : 0 < bound) :
    parseNat bound (Nat.toDigits 10 m) = some n ↔ m = n ∧ n < bound := by
  rw [parseNat_digits (fun c hc => Nat.isDigit_of_mem_toDigits (by decide) (by decide) hc)
    Nat.toDigits_ne_nil hbound, Nat.ofDigitChars_ten_toDigits]

end

end Words
