import Mathlib.Algebra.Order.Field.Basic
import Mathlib.Data.Set.Card
import Rolly.Lib.Binary64Rounding
import Rolly.TraceId

/-!
# The sampled share

A rate between 0 and 1 samples the trace IDs whose first half, as a number, is
below a threshold. The threshold is off by what rounding the number costs.
-/

namespace Rolly

open Proto3 (Bytes fixed64 fixed64_length ofLeBytes ofLeBytes_fixed64)

/-- The first half of the ID. -/
def sampleHash (traceId : TraceId) : UInt64 := u64FromLeBytes (traceId.toList.take 8)

/-- The hash as a number from 0 to 1; the largest ones are 1. -/
def normalized (hash : UInt64) : F64 := (F64.ofNat hash.toNat).div (F64.ofNat (2 ^ 64 - 1))

/-- `n as f64`, in units of `2 ^ -1074`. -/
def rounded (n : Nat) : Nat := F64.scaledMagnitude (F64.roundQuotient (n * 2 ^ 1074) 1)

-- ---------------------------------------------------------------------------
-- The normalized hash
-- ---------------------------------------------------------------------------

theorem rounded_mono (h : m ≤ n) : rounded m ≤ rounded n :=
  F64.scaledMagnitude_strictMono.monotone
    (F64.roundQuotient_mono Nat.one_pos (Nat.mul_le_mul_right _ h))

/-- At most the last eleven bits are rounded off. -/
theorem rounded_error (hn : n < 2 ^ 64) :
    rounded n ≤ (n + 2 ^ 10) * 2 ^ 1074 ∧ n * 2 ^ 1074 ≤ rounded n + 2 ^ 10 * 2 ^ 1074 := by
  obtain ⟨-, habove, hbelow⟩ := F64.roundQuotient_two_pow (j := 11) (e := 1074) hn (by decide)
  rw [← rounded] at habove hbelow
  generalize 2 ^ 1074 = u at habove hbelow ⊢
  constructor <;> linarith

theorem rounded_max : rounded (2 ^ 64 - 1) = 2 ^ 64 * 2 ^ 1074 := by
  decide +kernel

theorem ofNat_spec (hn : n < 2 ^ 64) : (F64.ofNat n).isFinite ∧ (F64.ofNat n).sign = false ∧
    F64.scaledMagnitude (F64.ofNat n).magnitude = rounded n := by
  obtain ⟨hfinite, -, -⟩ := F64.roundQuotient_two_pow (j := 11) (e := 1074) hn (by decide)
  have hlt : F64.roundQuotient (n * 2 ^ 1074) 1 < 2 ^ 63 := Nat.lt_trans hfinite (by decide)
  rw [F64.ofNat, F64.isFinite, F64.sign_ofParts hlt, F64.magnitude_ofParts hlt]
  exact ⟨decide_eq_true hfinite, rfl, rfl⟩

theorem exists_quotient (hn : n < 2 ^ 64) :
    ∃ m < F64.infMagnitude, F64.scaledMagnitude m * 2 ^ 64 = rounded n := by
  obtain ⟨hfinite, -, -⟩ := F64.roundQuotient_two_pow (j := 11) (e := 1074) hn (by decide)
  by_cases hzero : n = 0
  · subst hzero
    exact ⟨0, by decide, by decide +kernel⟩
  · have hone : F64.roundQuotient (1 * 2 ^ 1074) 1 = 1023 * 2 ^ 52 := by decide +kernel
    have hle := F64.roundQuotient_mono Nat.one_pos
      (Nat.mul_le_mul_right (2 ^ 1074) (show 1 ≤ n by omega))
    rw [hone] at hle
    exact ⟨_, Nat.lt_of_le_of_lt (Nat.sub_le _ _) hfinite,
      F64.scaledMagnitude_sub (j := 64) (Nat.le_trans (by decide) hle)⟩

theorem normalized_spec (hash : UInt64) :
    (normalized hash).isFinite ∧ (normalized hash).sign = false ∧
      F64.scaledMagnitude (normalized hash).magnitude * 2 ^ 64 = rounded hash.toNat := by
  obtain ⟨hx, hxs, hxm⟩ := ofNat_spec hash.toNat_lt
  obtain ⟨hy, hys, hym⟩ := ofNat_spec (n := 2 ^ 64 - 1) (by decide)
  obtain ⟨m, hm, hquot⟩ := exists_quotient hash.toNat_lt
  have hlt : m < 2 ^ 63 := Nat.lt_trans hm (by decide)
  have hdiv : normalized hash = F64.ofParts false m := by
    rw [normalized, F64.div_eq hx hy (by decide +kernel), hxs, hys, hxm, hym, rounded_max, ← hquot,
      Nat.mul_assoc, F64.roundQuotient_exact (Nat.mul_pos (by decide) (Nat.two_pow_pos 1074)) hm]
    rfl
  rw [hdiv, F64.isFinite, F64.sign_ofParts hlt, F64.magnitude_ofParts hlt]
  exact ⟨decide_eq_true hm, rfl, hquot⟩

-- ---------------------------------------------------------------------------
-- The threshold
-- ---------------------------------------------------------------------------

/-- What a monotone function takes below `c` is what is below one number. -/
theorem exists_first {f : Nat → Nat} (hf : Monotone f) (htop : c ≤ f top) :
    ∃ N ≤ top, ∀ n, f n < c ↔ n < N := by
  have hex : ∃ n, c ≤ f n := ⟨top, htop⟩
  refine ⟨Nat.find hex, Nat.find_min' hex htop, fun n => ?_⟩
  constructor
  · intro h
    by_contra hle
    have hmono := hf (Nat.le_of_not_lt hle)
    exact absurd h (Nat.not_lt.mpr ((Nat.find_spec hex).trans hmono))
  · exact fun h => Nat.lt_of_not_le (Nat.find_min hex h)

section
variable {rate : F64} (h0 : F64.zero.lt rate) (h1 : rate.lt F64.one)
include h0 h1

theorem rate_spec : rate.isFinite ∧ rate.sign = false ∧
    F64.scaledMagnitude rate.magnitude < 2 ^ 1074 := by
  have hnan : rate.isNaN = false := by
    simp only [F64.lt, Bool.and_eq_true, Bool.not_eq_true'] at h0
    exact h0.1.2
  have hzero : F64.zero.key = 0 := rfl
  have hone : F64.one.key = 1023 * 2 ^ 52 := by decide
  have hvalue : F64.scaledMagnitude (1023 * 2 ^ 52) = 2 ^ 1074 := by decide +kernel
  rw [F64.lt_iff (by decide) hnan, hzero, F64.key] at h0
  rw [F64.lt_iff hnan (by decide), hone, F64.key] at h1
  cases hsign : rate.sign with
  | true =>
    rw [if_pos hsign] at h0
    omega
  | false =>
    rw [if_neg (by rw [hsign]; decide)] at h1
    have hlt : rate.magnitude < 1023 * 2 ^ 52 := by omega
    refine ⟨?_, rfl, ?_⟩
    · rw [F64.isFinite, F64.infMagnitude]
      exact decide_eq_true (by omega)
    · rw [← hvalue]
      exact F64.scaledMagnitude_strictMono hlt

/-- The two early returns aside, the rounded hash decides. -/
theorem shouldSample_iff (traceId : TraceId) : shouldSample traceId rate ↔
    rounded (sampleHash traceId).toNat < F64.scaledMagnitude rate.magnitude * 2 ^ 64 := by
  obtain ⟨hrate, hsign, -⟩ := rate_spec h0 h1
  obtain ⟨hfinite, hsign', hvalue⟩ := normalized_spec (sampleHash traceId)
  have hlt : shouldSample traceId rate = (normalized (sampleHash traceId)).lt rate := by
    rw [shouldSample, F64.le_eq_false_of_lt h1, F64.le_eq_false_of_lt h0]
    rfl
  rw [hlt, F64.lt_iff_scaled (F64.isNaN_of_isFinite hfinite) (F64.isNaN_of_isFinite hrate),
    F64.scaled, F64.scaled, hsign, hsign', ← hvalue]
  simp

/-- What is below the rate is what is below one number. -/
theorem exists_threshold : ∃ N < 2 ^ 64,
    (∀ n, rounded n < F64.scaledMagnitude rate.magnitude * 2 ^ 64 ↔ n < N) ∧
      N * 2 ^ 1074 ≤ F64.scaledMagnitude rate.magnitude * 2 ^ 64 + 2 ^ 11 * 2 ^ 1074 ∧
      F64.scaledMagnitude rate.magnitude * 2 ^ 64 ≤ N * 2 ^ 1074 + 2 ^ 11 * 2 ^ 1074 := by
  obtain ⟨-, -, hlt⟩ := rate_spec h0 h1
  generalize F64.scaledMagnitude rate.magnitude = r at hlt ⊢
  have htop : r * 2 ^ 64 ≤ rounded (2 ^ 64 - 1) := by
    rw [rounded_max, Nat.mul_comm]
    exact Nat.mul_le_mul_left _ hlt.le
  obtain ⟨N, hmax, hbelow⟩ := exists_first (fun _ _ h => rounded_mono h) htop
  refine ⟨N, by omega, hbelow, ?_, ?_⟩
  · -- the last hash below
    cases N with
    | zero =>
      rw [Nat.zero_mul]
      exact Nat.zero_le _
    | succ n =>
      have hlast := (hbelow n).mpr (Nat.lt_succ_self n)
      obtain ⟨-, herror⟩ := rounded_error (n := n) (by omega)
      generalize 2 ^ 1074 = u at herror ⊢
      linarith
  · -- the first one that is not
    have hfirst := Nat.le_of_not_lt (mt (hbelow N).mp (Nat.lt_irrefl N))
    obtain ⟨herror, -⟩ := rounded_error (n := N) (by omega)
    generalize 2 ^ 1074 = u at herror ⊢
    linarith

end

-- ---------------------------------------------------------------------------
-- The share
-- ---------------------------------------------------------------------------

theorem sampleHash_surjective (hash : UInt64) : ∃ traceId, sampleHash traceId = hash := by
  have hfold (bytes : Bytes) : u64FromLeBytes bytes = UInt64.ofNat (ofLeBytes bytes) := by
    rw [u64FromLeBytes]
    congr 1
    induction bytes with
    | nil => rfl
    | cons b bytes ih => rw [List.foldr_cons, ofLeBytes, ih]
  refine ⟨⟨(fixed64 hash ++ List.replicate 8 0).toArray, by simp⟩, ?_⟩
  have htake : (fixed64 hash ++ List.replicate 8 0).take 8 = fixed64 hash :=
    List.take_left' (fixed64_length hash)
  rw [sampleHash, Vector.toList, htake, hfold, ofLeBytes_fixed64, UInt64.ofNat_toNat]

def sampledHashes (rate : F64) : Set UInt64 :=
  {hash | ∃ traceId, sampleHash traceId = hash ∧ shouldSample traceId rate}

theorem sampledHashes_eq
    (h : ∀ traceId, shouldSample traceId rate ↔ (sampleHash traceId).toNat < N) :
    sampledHashes rate = {hash | hash.toNat < N} := by
  ext hash
  constructor
  · rintro ⟨traceId, rfl, hsampled⟩
    exact (h traceId).mp hsampled
  · intro hlt
    obtain ⟨traceId, rfl⟩ := sampleHash_surjective hash
    exact ⟨traceId, rfl, (h traceId).mpr hlt⟩

theorem ncard_lt {N : Nat} (hN : N < 2 ^ 64) : {hash : UInt64 | hash.toNat < N}.ncard = N := by
  have hnat : ∀ n < N, (UInt64.ofNat n).toNat = n := fun n hn => by
    rw [UInt64.toNat_ofNat', Nat.mod_eq_of_lt (by omega)]
  have himage : {hash : UInt64 | hash.toNat < N} = UInt64.ofNat '' (Finset.range N : Set Nat) := by
    ext hash
    constructor
    · exact fun h => ⟨hash.toNat, Finset.mem_coe.mpr (Finset.mem_range.mpr h), UInt64.ofNat_toNat⟩
    · rintro ⟨n, hn, rfl⟩
      have hn := Finset.mem_range.mp (Finset.mem_coe.mp hn)
      show (UInt64.ofNat n).toNat < N
      rwa [hnat n hn]
  have hinj : Set.InjOn UInt64.ofNat (Finset.range N : Set Nat) := by
    intro m hm n hn heq
    rw [Finset.mem_coe, Finset.mem_range] at hm hn
    rw [← hnat m hm, ← hnat n hn, heq]
  rw [himage, hinj.ncard_image, Set.ncard_coe_finset, Finset.card_range]

theorem abs_sub_le {N r u : Nat} (hu : 0 < u) (habove : N * u ≤ r * 2 ^ 64 + 2 ^ 11 * u)
    (hbelow : r * 2 ^ 64 ≤ N * u + 2 ^ 11 * u) :
    |(N : ℚ) - r / u * 2 ^ 64| ≤ 2 ^ 11 := by
  have hu : (0 : ℚ) < u := by exact_mod_cast hu
  have habove : (N : ℚ) * u ≤ r * 2 ^ 64 + 2 ^ 11 * u := by exact_mod_cast habove
  have hbelow : (r : ℚ) * 2 ^ 64 ≤ N * u + 2 ^ 11 * u := by exact_mod_cast hbelow
  have hle : (r : ℚ) * 2 ^ 64 / u ≤ N + 2 ^ 11 := by
    rw [div_le_iff₀ hu]
    linarith
  have hge : (N : ℚ) - 2 ^ 11 ≤ r * 2 ^ 64 / u := by
    rw [le_div_iff₀ hu]
    linarith
  rw [div_mul_eq_mul_div, abs_le]
  constructor <;> linarith

/-- Of all the hashes, `2 ^ 11` are a share of `2 ^ -53`. -/
theorem share_error {N : Nat} {r : ℚ} (h : |N - r * 2 ^ 64| ≤ 2 ^ 11) :
    |N / 2 ^ 64 - r| ≤ 1 / 2 ^ 53 := by
  have hshare : (N : ℚ) / 2 ^ 64 - r = (N - r * 2 ^ 64) / 2 ^ 64 := by
    rw [sub_div, mul_div_cancel_right₀ _ (by norm_num)]
  rw [hshare, abs_div, abs_of_pos (show (0 : ℚ) < 2 ^ 64 by norm_num), div_le_iff₀ (by norm_num)]
  calc |(N : ℚ) - r * 2 ^ 64| ≤ 2 ^ 11 := h
    _ = 1 / 2 ^ 53 * 2 ^ 64 := by norm_num

theorem shouldSample_mono (hle : r₁.le r₂) (h : shouldSample traceId r₁) :
    shouldSample traceId r₂ := by
  rw [shouldSample] at h ⊢
  by_cases htop : F64.one.le r₂
  · rw [if_pos htop]
  · rw [if_neg fun hone => htop (F64.le_trans hone hle)] at h
    by_cases hzero : r₁.le F64.zero
    · rw [if_pos hzero] at h
      cases h
    · rw [if_neg hzero] at h
      rw [if_neg htop, if_neg fun hle' => hzero (F64.le_trans hle hle')]
      exact F64.lt_of_lt_of_le h hle

/-- A rate between 0 and 1 samples the hashes below a number that is the rate of
all of them up to rounding, and a higher rate samples whatever a lower one does. -/
theorem sampled_share :
    (∀ rate, F64.zero.lt rate → rate.lt F64.one → ∃ N < 2 ^ 64,
      sampledHashes rate = {hash | hash.toNat < N} ∧
      (∀ traceId, shouldSample traceId rate ↔ (sampleHash traceId).toNat < N) ∧
      |(N : ℚ) - rate.toRat * 2 ^ 64| ≤ 2 ^ 11 ∧
      |((sampledHashes rate).ncard : ℚ) / 2 ^ 64 - rate.toRat| ≤ 1 / 2 ^ 53) ∧
    ∀ r₁ r₂ traceId, r₁.le r₂ → shouldSample traceId r₁ → shouldSample traceId r₂ := by
  refine ⟨fun rate h0 h1 => ?_, fun r₁ r₂ traceId hle h => shouldSample_mono hle h⟩
  obtain ⟨N, hN, hiff, habove, hbelow⟩ := exists_threshold h0 h1
  have hshould (traceId : TraceId) : shouldSample traceId rate ↔ (sampleHash traceId).toNat < N :=
    (shouldSample_iff h0 h1 traceId).trans (hiff _)
  have hset := sampledHashes_eq hshould
  have herror : |(N : ℚ) - rate.toRat * 2 ^ 64| ≤ 2 ^ 11 := by
    obtain ⟨-, hsign, -⟩ := rate_spec h0 h1
    have hunit : 0 < 2 ^ 1074 := by positivity
    generalize hu : 2 ^ 1074 = u at habove hbelow hunit
    have h := abs_sub_le hunit habove hbelow
    rw [← hu, Nat.cast_pow, Nat.cast_ofNat] at h
    rwa [F64.toRat, F64.scaled, hsign, if_neg Bool.false_ne_true, Int.cast_natCast]
  refine ⟨N, hN, hset, hshould, herror, ?_⟩
  rw [hset, ncard_lt hN]
  exact share_error herror

def halfRate : F64 := .ofParts false (1022 * 2 ^ 52)

theorem sampled_share_half :
    (∃ N < 2 ^ 64, sampledHashes halfRate = {hash | hash.toNat < N} ∧
      (∀ traceId, shouldSample traceId halfRate ↔ (sampleHash traceId).toNat < N) ∧
      |(N : ℚ) - halfRate.toRat * 2 ^ 64| ≤ 2 ^ 11 ∧
      |((sampledHashes halfRate).ncard : ℚ) / 2 ^ 64 - halfRate.toRat| ≤ 1 / 2 ^ 53) ∧
    shouldSample zeroTraceId F64.one :=
  ⟨sampled_share.1 halfRate (by decide) (by decide),
    sampled_share.2 halfRate F64.one zeroTraceId (by decide) (by decide +kernel)⟩

end Rolly
