import Rolly.TraceIdLaws

/-!
# Hex text is read exactly

`hex_to_bytes_16` reads 32 hex digits and nothing else, never panics, and is
inverse to `hex_encode` up to the case of the digits.
-/

namespace Rolly

open Proto3 (Bytes utf8)

-- ---------------------------------------------------------------------------
-- The loop over the chunks
-- ---------------------------------------------------------------------------

/-- No access of the loop is out of bounds if there is a chunk of two for each
byte that is left to write. -/
theorem hexToBytes16Loop_eq {bytes : Bytes} {i n : Nat} (out : TraceId)
    (hlen : bytes.length = 2 * n) (hi : i + n = 16) :
    ∃ r, hexToBytes16Loop out i (chunksOfTwo bytes) = some r ∧
      r.map Vector.toList = (hexPairs bytes).map (out.toList.take i ++ ·) := by
  induction n generalizing bytes i out with
  | zero =>
    obtain rfl := List.length_eq_zero_iff.mp hlen
    refine ⟨some out, rfl, ?_⟩
    rw [show hexPairs [] = some [] from rfl, Option.map_some, Option.map_some, List.append_nil,
      List.take_of_length_le (by simp; omega)]
  | succ n ih =>
    obtain ⟨hi', lo, rest, rfl⟩ : ∃ hi' lo rest, bytes = hi' :: lo :: rest := by
      match bytes with
      | [] => simp at hlen
      | [_] => simp at hlen; omega
      | hi' :: lo :: rest => exact ⟨hi', lo, rest, rfl⟩
    have hrest : rest.length = 2 * n := by
      simp only [List.length_cons] at hlen
      omega
    have hlt : i < 16 := by omega
    rw [chunksOfTwo, hexToBytes16Loop, hexPairs]
    cases hh : hexNibble hi' with
    | none => exact ⟨none, by simp [hh], by simp⟩
    | some h =>
      cases hl : hexNibble lo with
      | none => exact ⟨none, by simp [hh, hl], by simp⟩
      | some l =>
        obtain ⟨r, hr, hmap⟩ := ih (i := i + 1) (out.set i ((h <<< 4) ||| l)) hrest (by omega)
        refine ⟨r, by simp [hh, hl, hlt, hr], ?_⟩
        rw [hmap]
        cases hexPairs rest with
        | none => rfl
        | some pairs => simp [Vector.toList, List.take_add_one, List.take_set_of_le, hlt]

/-- The function does not panic, and gives what its model without panics gives. -/
theorem runHexToBytes16_eq (s : String) : runHexToBytes16 s = some (hexToBytes16 s) := by
  rw [runHexToBytes16, hexToBytes16]
  split
  · rfl
  · rename_i hlen
    obtain ⟨r, hr, hmap⟩ := hexToBytes16Loop_eq (Vector.replicate 16 0) (i := 0) (n := 16)
      (not_not.mp hlen) rfl
    rw [hr, Option.some_inj]
    simp only [List.take_zero, List.nil_append, Option.map_id'] at hmap
    rw [← hmap]
    cases r with
    | none => rfl
    | some out =>
      simp only [Option.map_some, Option.some_inj]
      ext i hi
      simp

-- ---------------------------------------------------------------------------
-- Digits
-- ---------------------------------------------------------------------------

/-- `char::is_ascii_hexdigit`. -/
def isAsciiHexdigit (c : Char) : Bool :=
  ('0' ≤ c && c ≤ '9') || ('a' ≤ c && c ≤ 'f') || ('A' ≤ c && c ≤ 'F')

/-- All ASCII characters: the digits are those whose byte has a nibble, and the
digit of that nibble is the character in lowercase. -/
theorem ascii_digit (n : Fin 128) :
    String.utf8EncodeChar (Char.ofNat n) = [UInt8.ofNat n] ∧
      isAsciiHexdigit (Char.ofNat n) = (hexNibble (UInt8.ofNat n)).isSome ∧
      (hexNibble (UInt8.ofNat n)).all fun v =>
        v < 16 && hexDigits.getD v.toNat '0' = (Char.ofNat n).toLower := by
  revert n
  decide +kernel

theorem nibble_halves (hi lo : Fin 16) :
    let b := (UInt8.ofNat hi <<< 4) ||| UInt8.ofNat lo
    b >>> 4 = UInt8.ofNat hi ∧ b &&& 0x0f = UInt8.ofNat lo := by
  revert hi lo
  decide +kernel

theorem hexNibble_of_multibyte {c : Char} (hc : 128 ≤ c.toNat) (hb : b ∈ String.utf8EncodeChar c) :
    hexNibble b = none := by
  have hhigh : 128 ≤ b.toNat := by
    have hc : ¬c.val.toNat ≤ 127 := by
      rw [Char.toNat] at hc
      omega
    simp only [String.utf8EncodeChar, if_neg hc] at hb
    split at hb
    · simp only [List.mem_cons, List.not_mem_nil, or_false] at hb
      rcases hb with rfl | rfl <;> rw [UInt8.toNat_ofNat'] <;> omega
    · split at hb
      · simp only [List.mem_cons, List.not_mem_nil, or_false] at hb
        rcases hb with rfl | rfl | rfl <;> rw [UInt8.toNat_ofNat'] <;> omega
      · simp only [List.mem_cons, List.not_mem_nil, or_false] at hb
        rcases hb with rfl | rfl | rfl | rfl <;> rw [UInt8.toNat_ofNat'] <;> omega
  simp only [hexNibble, UInt8.le_iff_toNat_le, UInt8.reduceToNat]
  rw [if_neg (by omega), if_neg (by omega), if_neg (by omega)]

theorem isAsciiHexdigit_lt (h : isAsciiHexdigit c) : c.toNat < 128 := by
  simp only [isAsciiHexdigit, Bool.or_eq_true, Bool.and_eq_true, decide_eq_true_eq, Char.le_def,
    UInt32.le_iff_toNat_le] at h
  have h9 : '9'.val.toNat = 57 := rfl
  have hf : 'f'.val.toNat = 102 := rfl
  have hF : 'F'.val.toNat = 70 := rfl
  rw [Char.toNat]
  omega

theorem isAsciiHexdigit_iff {c : Char} :
    isAsciiHexdigit c ↔ ∀ b ∈ String.utf8EncodeChar c, (hexNibble b).isSome := by
  by_cases hc : c.toNat < 128
  · obtain ⟨henc, hdigit, -⟩ := ascii_digit ⟨c.toNat, hc⟩
    simp only [Char.ofNat_toNat] at henc hdigit
    rw [henc, hdigit]
    simp
  · constructor
    · exact fun h => absurd (isAsciiHexdigit_lt h) hc
    · intro h
      obtain ⟨b, hb⟩ := List.exists_mem_of_ne_nil _ (String.utf8EncodeChar_ne_nil (c := c))
      have hsome := h b hb
      rw [hexNibble_of_multibyte (by omega) hb] at hsome
      cases hsome

theorem digit_byte {c : Char} (h : isAsciiHexdigit c) : ∃ b v, String.utf8EncodeChar c = [b] ∧
    hexNibble b = some v ∧ v < 16 ∧ hexDigits.getD v.toNat '0' = c.toLower := by
  obtain ⟨henc, hdigit, hlower⟩ := ascii_digit ⟨c.toNat, isAsciiHexdigit_lt h⟩
  simp only [Char.ofNat_toNat] at henc hdigit hlower
  rw [h] at hdigit
  obtain ⟨v, hv⟩ := Option.isSome_iff_exists.mp hdigit.symm
  rw [hv, Option.all_some, Bool.and_eq_true, decide_eq_true_eq, decide_eq_true_eq] at hlower
  exact ⟨_, v, henc, hv, hlower⟩

-- ---------------------------------------------------------------------------
-- Texts
-- ---------------------------------------------------------------------------

theorem utf8_eq (s : String) : utf8 s = s.toList.flatMap String.utf8EncodeChar := by
  have h := utf8_ofList s.toList
  rwa [String.ofList_toList] at h

theorem isAsciiHexdigit_all (s : String) :
    (∀ c ∈ s.toList, isAsciiHexdigit c) ↔ ∀ b ∈ utf8 s, (hexNibble b).isSome := by
  simp only [utf8_eq, List.mem_flatMap, isAsciiHexdigit_iff]
  exact ⟨fun h b ⟨c, hc, hb⟩ => h c hc b hb, fun h c hc b hb => h b ⟨c, hc, hb⟩⟩

theorem length_digits {cs : List Char} (h : ∀ c ∈ cs, isAsciiHexdigit c) :
    (cs.flatMap String.utf8EncodeChar).length = cs.length := by
  induction cs with
  | nil => rfl
  | cons c cs ih =>
    obtain ⟨b, -, henc, -⟩ := digit_byte (h c (List.mem_cons_self ..))
    rw [List.flatMap_cons, List.length_append, henc, ih fun d hd => h d (List.mem_cons_of_mem _ hd)]
    simp
    omega

theorem hexDigits_nibbles {hi lo : UInt8} (hhi : hi < 16) (hlo : lo < 16) :
    let b := (hi <<< 4) ||| lo
    hexDigits.getD (b >>> 4).toNat '0' = hexDigits.getD hi.toNat '0' ∧
      hexDigits.getD (b &&& 0x0f).toNat '0' = hexDigits.getD lo.toNat '0' := by
  obtain ⟨h1, h2⟩ := nibble_halves ⟨hi.toNat, by simpa using UInt8.lt_iff_toNat_lt.mp hhi⟩
    ⟨lo.toNat, by simpa using UInt8.lt_iff_toNat_lt.mp hlo⟩
  simp only [UInt8.ofNat_toNat] at h1 h2
  simp only [h1, h2, and_self]

/-- Pairs of digits are read, and written back in lowercase. -/
theorem hexPairs_digits : {n : Nat} → {cs : List Char} → cs.length = 2 * n →
    (∀ c ∈ cs, isAsciiHexdigit c) →
    ∃ out, hexPairs (cs.flatMap String.utf8EncodeChar) = some out ∧ out.length = n ∧
      hexEncode out = String.ofList (cs.map Char.toLower)
  | n, [], hn, _ => ⟨[], rfl, by simp at hn ⊢; omega, rfl⟩
  | n, [_], hn, _ => by
    simp at hn
    omega
  | 0, c :: d :: cs, hn, _ => by
    simp at hn
  | n + 1, c :: d :: cs, hn, h => by
    obtain ⟨b, hi, hc, hhi, hhi16, hctext⟩ := digit_byte (h c (by simp))
    obtain ⟨b', lo, hd, hlo, hlo16, hdtext⟩ := digit_byte (h d (by simp))
    have hcs : ∀ c ∈ cs, isAsciiHexdigit c := fun c hc => h c (by simp [hc])
    obtain ⟨out, hread, hlen, htext⟩ := hexPairs_digits (n := n) (by simp at hn; omega) hcs
    refine ⟨((hi <<< 4) ||| lo) :: out, ?_, by simp [hlen], ?_⟩
    · rw [List.flatMap_cons, List.flatMap_cons, hc, hd, List.singleton_append,
        List.singleton_append, hexPairs, hhi, hlo, hread]
      rfl
    · obtain ⟨h1, h2⟩ := hexDigits_nibbles hhi16 hlo16
      rw [hexEncode, List.flatMap_cons, h1, h2, hctext, hdtext, List.map_cons, List.map_cons]
      have := congrArg String.toList htext
      rw [hexEncode, String.toList_ofList, String.toList_ofList] at this
      rw [this]
      rfl

theorem hexNibble_of_hexPairs {bytes out : Bytes} (hlen : bytes.length = 2 * n)
    (h : hexPairs bytes = some out) : ∀ b ∈ bytes, (hexNibble b).isSome := by
  fun_induction hexPairs bytes generalizing out n with
  | case1 b b' rest ih =>
    obtain ⟨hi, hhi, h⟩ := Option.bind_eq_some_iff.mp h
    obtain ⟨lo, hlo, h⟩ := Option.bind_eq_some_iff.mp h
    obtain ⟨pairs, hpairs, -⟩ := Option.bind_eq_some_iff.mp h
    have hrest := ih (n := n - 1) (by simp at hlen; omega) hpairs
    intro c hc
    rcases List.mem_cons.mp hc with rfl | hc
    · rw [hhi]
      rfl
    · rcases List.mem_cons.mp hc with rfl | hc
      · rw [hlo]
        rfl
      · exact hrest c hc
  | case2 bytes hne =>
    match bytes with
    | [] => exact fun b hb => (by cases hb)
    | [_] =>
      simp at hlen
      omega
    | hi :: lo :: rest => exact absurd rfl (hne hi lo rest)

/-- What is read is 32 digits, and its bytes are written as the same text in
lowercase. -/
theorem hexToBytes16_isSome (s : String) :
    (hexToBytes16 s).isSome ↔ s.length = 32 ∧ ∀ c ∈ s.toList, isAsciiHexdigit c := by
  rw [← String.length_toList]
  constructor
  · intro h
    obtain ⟨traceId, h⟩ := Option.isSome_iff_exists.mp h
    obtain ⟨hlen, h⟩ := Option.ite_none_left_eq_some.mp h
    obtain ⟨out, hread, -⟩ := Option.map_eq_some_iff.mp h
    have hlen := not_not.mp hlen
    have hall := (isAsciiHexdigit_all s).mpr (hexNibble_of_hexPairs (n := 16) hlen hread)
    refine ⟨?_, hall⟩
    rw [← length_digits hall, ← utf8_eq, hlen]
  · rintro ⟨hlen, hall⟩
    obtain ⟨out, hread, -⟩ := hexPairs_digits (n := 16) hlen hall
    have hbytes : (utf8 s).length = 32 := by rw [utf8_eq, length_digits hall, hlen]
    rw [hexToBytes16, if_neg (not_not.mpr hbytes), utf8_eq, hread]
    rfl

theorem hexEncode_hexToBytes16 (h : hexToBytes16 s = some traceId) :
    hexEncode traceId.toList = s.toLower := by
  obtain ⟨hlen, hall⟩ := (hexToBytes16_isSome s).mp (by rw [h]; rfl)
  rw [← String.length_toList] at hlen
  obtain ⟨out, hread, hout, htext⟩ := hexPairs_digits (n := 16) hlen hall
  obtain ⟨-, h⟩ := Option.ite_none_left_eq_some.mp h
  rw [utf8_eq, hread, Option.map_some, Option.some_inj] at h
  have hbytes : traceId.toList = out := by
    rw [← h]
    refine List.ext_getElem (by simp [hout]) fun i hi hi' => ?_
    simp [hi']
  rw [hbytes, htext, ← String.toList_map, String.ofList_toList]
  rfl

/-- 32 hex digits of either case are read and any other text is refused, in
neither case with a panic; what was read is written as the same text in
lowercase, and what is written is read. -/
theorem hexToBytes16_codec :
    (∀ s, ∃ r, runHexToBytes16 s = some r ∧
      (r.isSome ↔ s.length = 32 ∧ ∀ c ∈ s.toList, isAsciiHexdigit c) ∧
      ∀ b, r = some b → hexEncode b.toList = s.toLower) ∧
    ∀ b : TraceId, runHexToBytes16 (hexEncode b.toList) = some (some b) := by
  refine ⟨fun s => ⟨hexToBytes16 s, runHexToBytes16_eq s, hexToBytes16_isSome s,
    fun b hb => hexEncode_hexToBytes16 hb⟩, fun b => ?_⟩
  rw [runHexToBytes16_eq, hexToBytes16_hexEncode]

theorem hexToBytes16_codec_mixed : ∃ b,
    runHexToBytes16 "00112233445566778899AaBbCcDdEeFf" = some (some b) ∧
      hexEncode b.toList = "00112233445566778899aabbccddeeff" := by
  obtain ⟨r, hr, hsome, htext⟩ := hexToBytes16_codec.1 "00112233445566778899AaBbCcDdEeFf"
  obtain ⟨b, rfl⟩ := Option.isSome_iff_exists.mp
    (hsome.mpr ⟨by decide +kernel, List.all_eq_true.mp (by decide +kernel)⟩)
  exact ⟨b, hr, (htext b rfl).trans (by decide +kernel)⟩

end Rolly
