import Mathlib.Algebra.Group.Nat.Defs
import Mathlib.Data.Nat.Log

/-!
# IEEE 754 binary64

A double is its bit pattern. Comparison orders the non-NaN patterns by their
sign and magnitude, and arithmetic is exact on integers scaled by `2 ^ 1074`,
then rounded to nearest, ties to even. Every NaN result is the one quiet NaN.
-/

structure F64 where
  bits : UInt64
  deriving DecidableEq, Repr

namespace F64

-- ---------------------------------------------------------------------------
-- Patterns and order
-- ---------------------------------------------------------------------------

def sign (x : F64) : Bool := 2 ^ 63 ≤ x.bits.toNat

/-- The exponent and mantissa fields as one number. -/
def magnitude (x : F64) : Nat := x.bits.toNat % 2 ^ 63

def infMagnitude : Nat := 2047 * 2 ^ 52

def isNaN (x : F64) : Bool := infMagnitude < x.magnitude

def isFinite (x : F64) : Bool := x.magnitude < infMagnitude

def isInfinite (x : F64) : Bool := x.magnitude = infMagnitude

def ofParts (sign : Bool) (magnitude : Nat) : F64 :=
  ⟨UInt64.ofNat ((if sign then 2 ^ 63 else 0) + magnitude)⟩

def nan : F64 := ofParts false (infMagnitude + 2 ^ 51)
def infinity : F64 := ofParts false infMagnitude
def negInfinity : F64 := ofParts true infMagnitude
def zero : F64 := ofParts false 0
def one : F64 := ofParts false (1023 * 2 ^ 52)

/-- Orders the patterns that are not NaN; both zeros have key `0`. -/
def key (x : F64) : Int := if x.sign then -x.magnitude else x.magnitude

def lt (x y : F64) : Bool := !x.isNaN && !y.isNaN && x.key < y.key
def le (x y : F64) : Bool := !x.isNaN && !y.isNaN && x.key ≤ y.key

/-- IEEE equality: no NaN equals anything, and the zeros are equal. -/
def feq (x y : F64) : Bool := !x.isNaN && !y.isNaN && x.key = y.key

def partialCmp (x y : F64) : Option Ordering :=
  if x.isNaN || y.isNaN then none else some (compare x.key y.key)

theorem isNaN_of_isFinite {x : F64} (h : x.isFinite) : x.isNaN = false := by
  simp only [isFinite, decide_eq_true_eq] at h
  simp only [isNaN, decide_eq_false_iff_not]
  omega

section
variable {x y : F64} (hx : x.isNaN = false) (hy : y.isNaN = false)
include hx hy

theorem le_iff : x.le y ↔ x.key ≤ y.key := by
  simp [le, hx, hy]

theorem lt_iff : x.lt y ↔ x.key < y.key := by
  simp [lt, hx, hy]

theorem feq_iff : x.feq y ↔ x.key = y.key := by
  simp [feq, hx, hy]

end

theorem eq_infinity {x : F64} (hx : x.isNaN = false) (h : infinity.key ≤ x.key) :
    x = infinity := by
  obtain ⟨bits⟩ := x
  have hbits := bits.toNat_lt
  have hkey : infinity.key = 2047 * 2 ^ 52 := by decide
  have hmagnitude : ¬2047 * 2 ^ 52 < bits.toNat % 2 ^ 63 := of_decide_eq_false hx
  rw [hkey] at h
  simp only [key, sign, magnitude, decide_eq_true_eq] at h
  have hn : bits.toNat = infinity.bits.toNat := by
    have : infinity.bits.toNat = 2047 * 2 ^ 52 := by decide
    split at h <;> omega
  exact congrArg mk (UInt64.toNat_inj.mp hn)

theorem eq_negInfinity {x : F64} (hx : x.isNaN = false) (h : x.key ≤ negInfinity.key) :
    x = negInfinity := by
  obtain ⟨bits⟩ := x
  have hbits := bits.toNat_lt
  have hkey : negInfinity.key = -(2047 * 2 ^ 52) := by decide
  have hmagnitude : ¬2047 * 2 ^ 52 < bits.toNat % 2 ^ 63 := of_decide_eq_false hx
  rw [hkey] at h
  simp only [key, sign, magnitude, decide_eq_true_eq] at h
  have hn : bits.toNat = negInfinity.bits.toNat := by
    have : negInfinity.bits.toNat = 2 ^ 63 + 2047 * 2 ^ 52 := by decide
    split at h <;> omega
  exact congrArg mk (UInt64.toNat_inj.mp hn)

-- ---------------------------------------------------------------------------
-- Arithmetic
-- ---------------------------------------------------------------------------

/-- The value of a finite magnitude, in units of `2 ^ -1074`. -/
def scaledMagnitude (m : Nat) : Nat :=
  let exponent := m / 2 ^ 52
  let mantissa := m % 2 ^ 52
  if exponent = 0 then mantissa else (2 ^ 52 + mantissa) * 2 ^ (exponent - 1)

def scaled (x : F64) : Int :=
  if x.sign then -scaledMagnitude x.magnitude else scaledMagnitude x.magnitude

/-- The magnitude nearest to `p / q` units, ties to even. -/
def roundQuotient (p q : Nat) : Nat :=
  let k := Nat.log2 (p / q) - 52
  let unit := q * 2 ^ k
  let m := p / unit
  let r := p % unit
  let m := if unit < 2 * r ∨ (unit = 2 * r ∧ m % 2 = 1) then m + 1 else m
  -- a carry out of the mantissa moves into the exponent by itself
  min (k * 2 ^ 52 + m) infMagnitude

/-- `n as f64`. -/
def ofNat (n : Nat) : F64 := ofParts false (roundQuotient (n * 2 ^ 1074) 1)

def add (x y : F64) : F64 :=
  if x.isNaN || y.isNaN then nan
  else if x.isInfinite then
    if y.isInfinite && x.sign != y.sign then nan else x
  else if y.isInfinite then y
  else
    let s := x.scaled + y.scaled
    if s = 0 then ofParts (x.sign && y.sign) 0
    else ofParts (s < 0) (roundQuotient s.natAbs 1)

def div (x y : F64) : F64 :=
  let sign := x.sign != y.sign
  if x.isNaN || y.isNaN then nan
  else if x.isInfinite then
    if y.isInfinite then nan else ofParts sign infMagnitude
  else if y.isInfinite then ofParts sign 0
  else if y.magnitude = 0 then
    if x.magnitude = 0 then nan else ofParts sign infMagnitude
  else ofParts sign (roundQuotient (x.scaled.natAbs * 2 ^ 1074) y.scaled.natAbs)

end F64
