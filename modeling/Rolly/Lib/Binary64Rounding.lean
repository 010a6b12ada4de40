import Mathlib.Algebra.Order.Field.Rat
import Mathlib.Order.Monotone.Basic
import Mathlib.Tactic.Linarith
import Mathlib.Tactic.Ring
import Rolly.Lib.Binary64

/-!
# Rounding to binary64

The value of a magnitude grows with its bits, rounding keeps the order, errs by
at most half a unit in the last place, and gives back what is representable.
-/

namespace F64

-- ---------------------------------------------------------------------------
-- Values
-- ---------------------------------------------------------------------------

/-- A mantissa and the exponent of its unit. Smaller mantissas go with the least
unit only; `2 ^ 53` is the same as `2 ^ 52` of the next unit. -/
theorem scaledMagnitude_unit (hk : k = 0 ∨ 2 ^ 52 ≤ m) (hm : m ≤ 2 ^ 53) :
    scaledMagnitude (k * 2 ^ 52 + m) = m * 2 ^ k := by
  unfold scaledMagnitude
  simp only
  by_cases hsub : m < 2 ^ 52
  · obtain rfl : k = 0 := by omega
    rw [if_pos (by omega)]
    omega
  · by_cases hcarry : m = 2 ^ 53
    · subst hcarry
      rw [if_neg (by omega), show (k * 2 ^ 52 + 2 ^ 53) % 2 ^ 52 = 0 by omega,
        show (k * 2 ^ 52 + 2 ^ 53) / 2 ^ 52 - 1 = k + 1 by omega, Nat.pow_succ]
      omega
    · rw [if_neg (by omega), show (k * 2 ^ 52 + m) / 2 ^ 52 - 1 = k by omega]
      congr 1
      omega

theorem exists_unit (n : Nat) :
    ∃ k m, n = k * 2 ^ 52 + m ∧ (k = 0 ∨ 2 ^ 52 ≤ m) ∧ m < 2 ^ 53 :=
  ⟨n / 2 ^ 52 - 1, n - (n / 2 ^ 52 - 1) * 2 ^ 52, by omega, by omega, by omega⟩

theorem scaledMagnitude_strictMono : StrictMono scaledMagnitude := by
  refine strictMono_nat_of_lt_succ fun n => ?_
  obtain ⟨k, m, rfl, hk, hm⟩ := exists_unit n
  rw [Nat.add_assoc, scaledMagnitude_unit hk (by omega), scaledMagnitude_unit (by omega) (by omega)]
  exact Nat.mul_lt_mul_of_pos_right (Nat.lt_succ_self m) (Nat.two_pow_pos k)

/-- Moving the exponent alone scales the value, as long as the number stays normal. -/
theorem scaledMagnitude_sub {j n : Nat} (h : (j + 1) * 2 ^ 52 ≤ n) :
    scaledMagnitude (n - j * 2 ^ 52) * 2 ^ j = scaledMagnitude n := by
  obtain ⟨k, m, rfl, hk, hm⟩ := exists_unit n
  have hj : j ≤ k := by omega
  rw [show k * 2 ^ 52 + m - j * 2 ^ 52 = (k - j) * 2 ^ 52 + m by omega,
    scaledMagnitude_unit hk (by omega), scaledMagnitude_unit (by omega) (by omega), Nat.mul_assoc,
    ← Nat.pow_add, Nat.sub_add_cancel hj]

-- ---------------------------------------------------------------------------
-- Division to the nearest integer
-- ---------------------------------------------------------------------------

/-- `p / u` to the nearest integer, ties to even. -/
def roundDiv (p u : Nat) : Nat :=
  let m := p / u
  let r := p % u
  if u < 2 * r ∨ (u = 2 * r ∧ m % 2 = 1) then m + 1 else m

theorem roundDiv_error (p : Nat) (hu : 0 < u) :
    2 * (roundDiv p u * u) ≤ 2 * p + u ∧ 2 * p ≤ 2 * (roundDiv p u * u) + u := by
  have hp := Nat.div_add_mod p u
  have hr := Nat.mod_lt p hu
  rw [Nat.mul_comm] at hp
  unfold roundDiv
  simp only
  split
  · rw [Nat.add_mul]
    omega
  · omega

theorem roundDiv_exact (m : Nat) (hu : 0 < u) : roundDiv (m * u) u = m := by
  simp [roundDiv, Nat.mul_div_cancel m hu]
  omega

theorem roundDiv_mono (u : Nat) (h : p ≤ p') : roundDiv p u ≤ roundDiv p' u := by
  have hp := Nat.div_add_mod p u
  have hp' := Nat.div_add_mod p' u
  have hle : p / u ≤ p' / u := Nat.div_le_div_right h
  unfold roundDiv
  simp only
  rcases Nat.lt_or_eq_of_le hle with hlt | heq
  · split <;> split <;> omega
  · -- the same floor, so the remainders are in order
    rw [heq] at hp ⊢
    split <;> split <;> omega

-- ---------------------------------------------------------------------------
-- Rounding
-- ---------------------------------------------------------------------------

/-- The exponent of the unit that `p / q` is rounded to. -/
def unitExponent (p q : Nat) : Nat := Nat.log2 (p / q) - 52

section
variable {p q : Nat}

theorem roundQuotient_eq (p q : Nat) : roundQuotient p q =
    min (unitExponent p q * 2 ^ 52 + roundDiv p (q * 2 ^ unitExponent p q)) infMagnitude := rfl

/-- The unit leaves 53 bits before the point. -/
theorem lt_unitExponent (hq : 0 < q) : p < 2 ^ 53 * (q * 2 ^ unitExponent p q) := by
  have hlog : p / q < 2 ^ (unitExponent p q + 53) :=
    Nat.lt_of_lt_of_le Nat.lt_log2_self (Nat.pow_le_pow_right (by decide)
      (by rw [unitExponent]; omega))
  rw [Nat.div_lt_iff_lt_mul hq] at hlog
  calc p < 2 ^ (unitExponent p q + 53) * q := hlog
    _ = 2 ^ 53 * (q * 2 ^ unitExponent p q) := by ring

theorem unitExponent_le (hq : 0 < q) :
    unitExponent p q = 0 ∨ 2 ^ 52 * (q * 2 ^ unitExponent p q) ≤ p := by
  by_cases hk : unitExponent p q = 0
  · exact .inl hk
  · right
    have hlog : unitExponent p q + 52 = Nat.log2 (p / q) := by
      rw [unitExponent] at hk ⊢
      omega
    have hne : p / q ≠ 0 := by
      intro hzero
      rw [hzero] at hlog
      simp at hlog
    have hself := Nat.log2_self_le hne
    rw [← hlog, Nat.le_div_iff_mul_le hq] at hself
    calc 2 ^ 52 * (q * 2 ^ unitExponent p q) = 2 ^ (unitExponent p q + 52) * q := by ring
      _ ≤ p := hself

theorem unitExponent_mono (h : p ≤ p') : unitExponent p q ≤ unitExponent p' q := by
  have hdiv : p / q ≤ p' / q := Nat.div_le_div_right h
  rw [unitExponent, unitExponent, Nat.log2_eq_log_two, Nat.log2_eq_log_two]
  exact Nat.sub_le_sub_right (Nat.log_mono_right hdiv) 52

theorem unitExponent_le_of_lt (hp : p < 2 ^ (53 + k) * q) : unitExponent p q ≤ k := by
  have hdiv : p / q < 2 ^ (53 + k) := Nat.div_lt_of_lt_mul (by rwa [Nat.mul_comm])
  rw [unitExponent]
  by_cases hzero : p / q = 0
  · rw [hzero]
    simp
  · have := (Nat.log2_lt hzero).mpr hdiv
    omega

/-- The rounded mantissa is one of its unit. -/
theorem roundDiv_unit (hq : 0 < q) :
    (unitExponent p q = 0 ∨ 2 ^ 52 ≤ roundDiv p (q * 2 ^ unitExponent p q)) ∧
      roundDiv p (q * 2 ^ unitExponent p q) ≤ 2 ^ 53 := by
  have hu : 0 < q * 2 ^ unitExponent p q := Nat.mul_pos hq (Nat.two_pow_pos _)
  constructor
  · refine (unitExponent_le hq).imp_right fun hle => ?_
    rw [← roundDiv_exact (2 ^ 52) hu]
    exact roundDiv_mono _ hle
  · rw [← roundDiv_exact (2 ^ 53) hu]
    exact roundDiv_mono _ (lt_unitExponent hq).le

theorem roundQuotient_mono (hq : 0 < q) (h : p ≤ p') : roundQuotient p q ≤ roundQuotient p' q := by
  obtain ⟨-, hm⟩ := roundDiv_unit (p := p) hq
  obtain ⟨hm', -⟩ := roundDiv_unit (p := p') hq
  rw [roundQuotient_eq, roundQuotient_eq]
  refine min_le_min_right _ ?_
  rcases Nat.lt_or_eq_of_le (unitExponent_mono (q := q) h) with hlt | heq
  · omega
  · rw [heq]
    exact Nat.add_le_add_left (roundDiv_mono _ h) _

/-- The value of the result, if the number is at most `2 ^ (53 + k)` and so far from overflow. -/
theorem scaledMagnitude_roundQuotient (hq : 0 < q) (hp : p < 2 ^ (53 + k) * q) (hk : k ≤ 2000) :
    roundQuotient p q < infMagnitude ∧
      2 * (scaledMagnitude (roundQuotient p q) * q) ≤ 2 * p + q * 2 ^ k ∧
      2 * p ≤ 2 * (scaledMagnitude (roundQuotient p q) * q) + q * 2 ^ k := by
  have hunit := unitExponent_le_of_lt hp
  obtain ⟨hlow, hhigh⟩ := roundDiv_unit (p := p) hq
  have herror := roundDiv_error p (u := q * 2 ^ unitExponent p q)
    (Nat.mul_pos hq (Nat.two_pow_pos _))
  have hle : q * 2 ^ unitExponent p q ≤ q * 2 ^ k :=
    Nat.mul_le_mul_left q (Nat.pow_le_pow_right (by decide) hunit)
  have hlt : unitExponent p q * 2 ^ 52 + roundDiv p (q * 2 ^ unitExponent p q) < infMagnitude := by
    rw [infMagnitude]
    omega
  rw [roundQuotient_eq, min_eq_left hlt.le, scaledMagnitude_unit hlow hhigh, Nat.mul_assoc,
    Nat.mul_comm (2 ^ _) q]
  exact ⟨hlt, by omega, by omega⟩

/-- A natural number of `53 + j` bits, in units of `2 ^ e`. -/
theorem roundQuotient_two_pow (hn : n < 2 ^ (53 + j)) (he : j + e ≤ 2000) :
    roundQuotient (n * 2 ^ e) 1 < infMagnitude ∧
      2 * scaledMagnitude (roundQuotient (n * 2 ^ e) 1) ≤ (2 * n + 2 ^ j) * 2 ^ e ∧
      2 * n * 2 ^ e ≤ 2 * scaledMagnitude (roundQuotient (n * 2 ^ e) 1) + 2 ^ j * 2 ^ e := by
  have hp : n * 2 ^ e < 2 ^ (53 + (j + e)) * 1 := by
    rw [Nat.mul_one, ← Nat.add_assoc, Nat.pow_add]
    exact Nat.mul_lt_mul_of_pos_right hn (Nat.two_pow_pos e)
  obtain ⟨hfinite, habove, hbelow⟩ := scaledMagnitude_roundQuotient Nat.one_pos hp he
  rw [Nat.mul_one, Nat.one_mul, Nat.pow_add] at habove hbelow
  exact ⟨hfinite, by linarith, by linarith⟩

theorem roundQuotient_exact (hq : 0 < q) (hn : n < infMagnitude) :
    roundQuotient (scaledMagnitude n * q) q = n := by
  obtain ⟨k, m, rfl, hk, hm⟩ := exists_unit n
  rw [scaledMagnitude_unit hk hm.le]
  have hunit : unitExponent (m * 2 ^ k * q) q = k := by
    rw [unitExponent, Nat.mul_div_cancel _ hq]
    rcases hk with rfl | hk
    · by_cases hzero : m = 0
      · rw [hzero]
        rfl
      · have := (Nat.log2_lt hzero).mpr hm
        simp
        omega
    · have hne : m * 2 ^ k ≠ 0 := Nat.mul_ne_zero (by omega) (Nat.two_pow_pos k).ne'
      have hlog : (m * 2 ^ k).log2 = 52 + k := by
        rw [Nat.log2_eq_iff hne, Nat.add_right_comm, Nat.pow_add, Nat.pow_add]
        exact ⟨Nat.mul_le_mul_right _ hk, Nat.mul_lt_mul_of_pos_right hm (Nat.two_pow_pos k)⟩
      rw [hlog, Nat.add_sub_cancel_left]
  rw [roundQuotient_eq, hunit, Nat.mul_assoc, Nat.mul_comm (2 ^ k) q,
    roundDiv_exact m (Nat.mul_pos hq (Nat.two_pow_pos k)), min_eq_left hn.le]

end

-- ---------------------------------------------------------------------------
-- The number that a double stands for
-- ---------------------------------------------------------------------------

/-- Meant for finite doubles only. -/
def toRat (x : F64) : ℚ := x.scaled / 2 ^ 1074

theorem sign_ofParts (hm : m < 2 ^ 63) : (ofParts false m).sign = false := by
  simp [ofParts, sign, UInt64.toNat_ofNat']
  omega

theorem magnitude_ofParts (hm : m < 2 ^ 63) : (ofParts false m).magnitude = m := by
  simp [ofParts, magnitude, UInt64.toNat_ofNat']
  omega

theorem natAbs_scaled (x : F64) : x.scaled.natAbs = scaledMagnitude x.magnitude := by
  rw [scaled]
  split <;> simp

theorem div_eq {x y : F64} (hx : x.isFinite) (hy : y.isFinite) (hzero : y.magnitude ≠ 0) :
    x.div y = ofParts (x.sign != y.sign)
      (roundQuotient (scaledMagnitude x.magnitude * 2 ^ 1074) (scaledMagnitude y.magnitude)) := by
  have hxi : x.isInfinite = false := by
    simp only [isFinite, isInfinite, decide_eq_true_eq, decide_eq_false_iff_not] at hx ⊢
    omega
  have hyi : y.isInfinite = false := by
    simp only [isFinite, isInfinite, decide_eq_true_eq, decide_eq_false_iff_not] at hy ⊢
    omega
  simp only [div, isNaN_of_isFinite hx, isNaN_of_isFinite hy, hxi, hyi, hzero, natAbs_scaled,
    Bool.or_self, Bool.false_eq_true, if_false]

section
variable {x y z : F64}

theorem le_trans (h : x.le y) (h' : y.le z) : x.le z := by
  simp only [le, Bool.and_eq_true, Bool.not_eq_true', decide_eq_true_eq] at *
  exact ⟨⟨h.1.1, h'.1.2⟩, h.2.trans h'.2⟩

theorem lt_of_lt_of_le (h : x.lt y) (h' : y.le z) : x.lt z := by
  simp only [lt, le, Bool.and_eq_true, Bool.not_eq_true', decide_eq_true_eq] at *
  exact ⟨⟨h.1.1, h'.1.2⟩, h.2.trans_le h'.2⟩

theorem scaled_lt_iff : x.scaled < y.scaled ↔ x.key < y.key := by
  have hlt (m n : Nat) : scaledMagnitude m < scaledMagnitude n ↔ m < n :=
    scaledMagnitude_strictMono.lt_iff_lt
  have hpos (n : Nat) : 0 < scaledMagnitude n ↔ 0 < n := hlt 0 n
  have hxy := hlt x.magnitude y.magnitude
  have hyx := hlt y.magnitude x.magnitude
  have hx := hpos x.magnitude
  have hy := hpos y.magnitude
  rw [scaled, scaled, key, key]
  split <;> split <;> omega

theorem le_eq_false_of_lt (h : x.lt y) : y.le x = false := by
  simp only [lt, Bool.and_eq_true, Bool.not_eq_true', decide_eq_true_eq] at h
  simp only [le, h.1.1, h.1.2, Bool.not_false, Bool.and_self, Bool.true_and,
    decide_eq_false_iff_not]
  omega

theorem lt_iff_scaled (hx : x.isNaN = false) (hy : y.isNaN = false) :
    x.lt y ↔ x.scaled < y.scaled := by
  rw [lt_iff hx hy, scaled_lt_iff]

end

end F64
