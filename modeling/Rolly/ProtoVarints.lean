import Rolly.ProtoLaws

/-!
# Varints and tags read back

Three loops write or count groups of seven bits: into a buffer, into a slice of
five bytes, and for the length of a tag only. All of them follow the one varint
that the reader takes back.
-/

namespace Rolly.Proto

open Proto3 (Bytes Canonical canonical_varint decodeTag decodeTag_tagBytes decodeVarint
  decodeVarint_varint varint varint_length_le varint_length_pos)

theorem encodeVarint_nil (v : UInt64) : encodeVarint [] v = varint v.toNat := by
  rw [encodeVarint_eq, List.nil_append]

theorem length_encodeVarint (v : UInt64) :
    1 ≤ (encodeVarint [] v).length ∧ (encodeVarint [] v).length ≤ 10 := by
  rw [encodeVarint_nil]
  have hv := v.toNat_lt
  exact ⟨varint_length_pos _, varint_length_le (by omega)⟩

theorem encodeVarintToSliceLoop_drop (h : encodeVarintToSliceLoop out i v = some (out', n)) :
    out'.toList.drop n = out.toList.drop n := by
  fun_induction encodeVarintToSliceLoop out i v with
  | case1 out i v hi hv ih =>
    obtain ⟨hn, -⟩ := encodeVarintToSliceLoop_some h
    rw [ih h]
    simp [Vector.toList, List.drop_set_of_lt (show i < n by omega)]
  | case2 out i v hi hv =>
    obtain ⟨rfl, rfl⟩ := by simpa using h
    simp [Vector.toList, List.drop_set_of_lt]
  | case3 out i v hi => cases h

theorem encodeVarintToSlice_encodeVarint (out : Vector UInt8 5) (hv : v.toNat < 2 ^ 35) :
    ∃ out', encodeVarintToSlice out v = some (out', (encodeVarint [] v).length) ∧
      out'.toList = encodeVarint [] v ++ out.toList.drop (encodeVarint [] v).length := by
  obtain ⟨out', hout, htake⟩ := encodeVarintToSlice_eq out hv
  rw [UInt64.ofNat_toNat] at hout
  rw [encodeVarint_nil]
  refine ⟨out', hout, ?_⟩
  calc out'.toList
      = out'.toList.take (varint v.toNat).length ++ out'.toList.drop (varint v.toNat).length :=
        (List.take_append_drop ..).symm
    _ = varint v.toNat ++ out.toList.drop (varint v.toNat).length := by
        rw [htake, encodeVarintToSliceLoop_drop hout]

/-- The three loops agree, and what they write reads back: a varint whatever
follows it, with no group too many; the same bytes in a slice of five for any
length that fits one, the rest of it untouched; and a tag, whose length is
computed apart. -/
theorem varints_read_back :
    (∀ (v : UInt64) (buf t : Bytes), encodeVarint buf v = buf ++ encodeVarint [] v ∧
      decodeVarint (encodeVarint [] v ++ t) = some (v, t) ∧
      1 ≤ (encodeVarint [] v).length ∧ (encodeVarint [] v).length ≤ 10 ∧
      Canonical (encodeVarint [] v)) ∧
    (∀ (v : UInt64) (out : Vector UInt8 5), v.toNat < 2 ^ 35 →
      ∃ out', encodeVarintToSlice out v = some (out', (encodeVarint [] v).length) ∧
        out'.toList = encodeVarint [] v ++ out.toList.drop (encodeVarint [] v).length) ∧
    (∀ (field : UInt32) (wireType : UInt8) (buf t : Bytes), wireType.toNat < 8 →
      encodeTag buf field wireType = buf ++ encodeTag [] field wireType ∧
      decodeTag (encodeTag [] field wireType ++ t) = some ((field.toNat, wireType.toNat), t)) ∧
    ∀ field : UInt32,
      varintTagLen field = (encodeTag [] field wireTypeLengthDelimited).length := by
  refine ⟨fun v buf t => ⟨?_, ?_, (length_encodeVarint v).1, (length_encodeVarint v).2, ?_⟩,
    fun v out hv => encodeVarintToSlice_encodeVarint out hv,
    fun field wireType buf t hw => ⟨?_, ?_⟩, fun field => ?_⟩
  · rw [encodeVarint_nil, encodeVarint_eq]
  · rw [encodeVarint_nil, decodeVarint_varint]
  · rw [encodeVarint_nil]
    exact canonical_varint v.toNat
  · rw [encodeTag_eq buf field hw, encodeTag_eq [] field hw, List.nil_append]
  · rw [encodeTag_eq [] field hw, List.nil_append]
    exact decodeTag_tagBytes field.toNat_lt hw
  · rw [varintTagLen_eq, encodeTag_eq [] field (by decide), List.nil_append]
    rfl

/-- The largest numbers: ten groups, all five bytes, and a tag of five. -/
theorem varints_read_back_largest :
    (∃ out', encodeVarintToSlice (Vector.replicate 5 7) 0x7ffffffff =
        some (out', (encodeVarint [] 0x7ffffffff).length) ∧
      out'.toList = encodeVarint [] 0x7ffffffff ++
        (Vector.replicate 5 (7 : UInt8)).toList.drop (encodeVarint [] 0x7ffffffff).length) ∧
    decodeTag (encodeTag [] 0xffffffff 7 ++ [1, 2]) = some ((0xffffffff, 7), [1, 2]) :=
  ⟨varints_read_back.2.1 0x7ffffffff (Vector.replicate 5 7) (by decide),
    (varints_read_back.2.2.1 0xffffffff 7 [] [1, 2] (by decide)).2⟩

end Rolly.Proto
