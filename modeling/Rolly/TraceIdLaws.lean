import Rolly.TraceId

/-!
# The text form of a trace ID reads back
-/

namespace Rolly

open Proto3 (Bytes utf8)

def hexByte (n : Nat) : UInt8 := (hexDigits.getD n '0').val.toUInt8

/-- Sixteen digits, each checked against the three ranges of `hexNibble`. -/
theorem hexByte_digit (n : Fin 16) :
    String.utf8EncodeChar (hexDigits.getD n '0') = [hexByte n] ∧
      hexNibble (hexByte n) = some (UInt8.ofNat n) := by
  revert n
  decide +kernel

theorem byte_halves (b : UInt8) : (b >>> 4).toNat = b.toNat / 16 ∧
    (b &&& 0x0f).toNat = b.toNat % 16 ∧
    (UInt8.ofNat (b.toNat / 16) <<< 4) ||| UInt8.ofNat (b.toNat % 16) = b := by
  have h : ∀ i : Fin 256, (UInt8.ofNat i >>> 4).toNat = i / 16 ∧
      (UInt8.ofNat i &&& 0x0f).toNat = i % 16 ∧
      (UInt8.ofNat (i / 16) <<< 4) ||| UInt8.ofNat (i % 16) = UInt8.ofNat i := by
    decide +kernel
  have hb := h ⟨b.toNat, b.toNat_lt⟩
  simpa using hb

def hexPair (b : UInt8) : Bytes := [hexByte (b.toNat / 16), hexByte (b.toNat % 16)]

theorem utf8_ofList (cs : List Char) :
    utf8 (String.ofList cs) = cs.flatMap String.utf8EncodeChar := by
  simp [utf8, List.utf8Encode]

theorem utf8_hexEncode (bytes : Bytes) : utf8 (hexEncode bytes) = bytes.flatMap hexPair := by
  rw [hexEncode, utf8_ofList, List.flatMap_assoc]
  refine List.flatMap_congr fun b _ => ?_
  obtain ⟨hhi, hlo, -⟩ := byte_halves b
  have hb := b.toNat_lt
  have h1 := (hexByte_digit ⟨b.toNat / 16, by omega⟩).1
  have h2 := (hexByte_digit ⟨b.toNat % 16, by omega⟩).1
  rw [hhi, hlo, List.flatMap_cons, List.flatMap_singleton, h1, h2]
  rfl

theorem hexPairs_hexPair (bytes : Bytes) : hexPairs (bytes.flatMap hexPair) = some bytes := by
  induction bytes with
  | nil => rfl
  | cons b bytes ih =>
    have hb := b.toNat_lt
    obtain ⟨-, -, hor⟩ := byte_halves b
    have h1 := (hexByte_digit ⟨b.toNat / 16, by omega⟩).2
    have h2 := (hexByte_digit ⟨b.toNat % 16, by omega⟩).2
    rw [List.flatMap_cons, hexPair, List.cons_append, List.cons_append, List.nil_append, hexPairs,
      h1, h2, ih]
    simp [hor]

theorem length_hexPairs (bytes : Bytes) : (bytes.flatMap hexPair).length = 2 * bytes.length := by
  induction bytes with
  | nil => rfl
  | cons b bytes ih =>
    rw [List.flatMap_cons, List.length_append, ih, List.length_cons, hexPair]
    simp
    omega

theorem hexToBytes16_hexEncode (traceId : TraceId) :
    hexToBytes16 (hexEncode traceId.toList) = some traceId := by
  rw [hexToBytes16, utf8_hexEncode, if_neg (by rw [length_hexPairs]; simp), hexPairs_hexPair,
    Option.map_some]
  congr 1
  ext i hi
  simp

end Rolly
