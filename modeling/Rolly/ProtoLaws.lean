import Rolly.Proto

/-!
# What the encoders write

Every encoder appends the bytes of the fields it stands for. A message
written in place leaves the same bytes as one built beforehand, so a tree of
nested in-place calls is the bottom-up encoding of the tree.
-/

namespace Rolly.Proto

open Proto3

-- ---------------------------------------------------------------------------
-- Base-128 loops
-- ---------------------------------------------------------------------------

section
variable {v : UInt64}

theorem shiftRight_seven : (v >>> 7).toNat = v.toNat / 128 := by
  simp [Nat.shiftRight_eq_div_pow]

theorem ge_128_iff : v ≥ 0x80 ↔ 128 ≤ v.toNat := by
  simp [UInt64.le_iff_toNat_le]

theorem last_group : v.toUInt8 = v.toNat.toUInt8 := by
  apply UInt8.toNat_inj.mp
  simp

theorem toNat_or_128 (b : UInt8) : (b ||| 0x80).toNat = b.toNat % 128 + 128 := by
  have h : ∀ i : Fin 256, i.val ||| 128 = i.val % 128 + 128 := by decide +kernel
  rw [UInt8.toNat_or]
  exact h ⟨b.toNat, b.toNat_lt⟩

theorem next_group : v.toUInt8 ||| 0x80 = (v.toNat % 128 + 128).toUInt8 := by
  apply UInt8.toNat_inj.mp
  rw [toNat_or_128, toNat_toUInt8_of_lt (by omega), UInt64.toNat_toUInt8]
  omega

theorem encodeVarint_eq (buf : Bytes) (v : UInt64) :
    encodeVarint buf v = buf ++ varint v.toNat := by
  fun_induction encodeVarint buf v with
  | case1 buf v h ih =>
    rw [ih, shiftRight_seven, next_group, varint_of_le (ge_128_iff.mp h), List.append_assoc]
    rfl
  | case2 buf v h =>
    have hv : v.toNat < 128 := by have := mt ge_128_iff.mpr h; omega
    rw [last_group, varint_of_lt hv]

theorem varintTagLenLoop_eq (v : UInt64) (n : Nat) :
    varintTagLenLoop v n + 1 = n + (varint v.toNat).length := by
  fun_induction varintTagLenLoop v n with
  | case1 v n h ih =>
    rw [varint_of_le (ge_128_iff.mp h), List.length_cons, ih, shiftRight_seven]
    omega
  | case2 v n h =>
    have hv : v.toNat < 128 := by have := mt ge_128_iff.mpr h; omega
    rw [varint_of_lt hv]
    simp

/-- From index `i` on, the loop writes the varint of `v` if it fits the slice,
and nothing before `i`. -/
theorem encodeVarintToSliceLoop_eq (out : Vector UInt8 5) (i : Nat) (v : UInt64)
    (h : i + (varint v.toNat).length ≤ 5) :
    ∃ out', encodeVarintToSliceLoop out i v = some (out', i + (varint v.toNat).length) ∧
      out'.toList.take (i + (varint v.toNat).length) = out.toList.take i ++ varint v.toNat := by
  fun_induction encodeVarintToSliceLoop out i v with
  | case1 out i v hi hv ih =>
    have hg := ge_128_iff.mp hv
    rw [varint_of_le hg, List.length_cons] at h ⊢
    rw [shiftRight_seven] at ih
    obtain ⟨out', ho, ht⟩ := ih (by omega)
    refine ⟨out', by rw [ho]; congr 2; omega, ?_⟩
    rw [show i + ((varint (v.toNat / 128)).length + 1) =
      i + 1 + (varint (v.toNat / 128)).length by omega, ht, next_group]
    simp [Vector.toList, List.take_add_one, List.take_set_of_le, hi]
  | case2 out i v hi hv =>
    have hg : v.toNat < 128 := by have := mt ge_128_iff.mpr hv; omega
    rw [varint_of_lt hg, last_group]
    refine ⟨_, rfl, ?_⟩
    simp [Vector.toList, List.take_add_one, List.take_set_of_le, hi]
  | case3 out i v hi =>
    have := varint_length_pos v.toNat
    omega

theorem encodeVarintToSliceLoop_some (h : encodeVarintToSliceLoop out i v = some (out', n)) :
    n = i + (varint v.toNat).length ∧ n ≤ 5 := by
  fun_induction encodeVarintToSliceLoop out i v with
  | case1 out i v hi hv ih =>
    obtain ⟨rfl, hn⟩ := ih h
    rw [shiftRight_seven] at hn ⊢
    rw [varint_of_le (ge_128_iff.mp hv), List.length_cons]
    omega
  | case2 out i v hi hv =>
    have hg : v.toNat < 128 := by have := mt ge_128_iff.mpr hv; omega
    obtain ⟨-, rfl⟩ := by simpa using h
    rw [varint_of_lt hg]
    exact ⟨rfl, hi⟩
  | case3 out i v hi => cases h

end

-- ---------------------------------------------------------------------------
-- Scalar fields
-- ---------------------------------------------------------------------------

theorem encodeTag_eq (buf : Bytes) (field : UInt32) {w : UInt8} (hw : w.toNat < 8) :
    encodeTag buf field w = buf ++ tagBytes field.toNat w.toNat := by
  have hf := field.toNat_lt
  have hor := Nat.two_pow_add_eq_or_of_lt (i := 3) (b := w.toNat) (by omega) field.toNat
  rw [encodeTag, encodeVarint_eq, tagBytes, UInt64.toNat_or, UInt64.toNat_shiftLeft,
    UInt32.toNat_toUInt64, UInt8.toNat_toUInt64, Nat.shiftLeft_eq]
  simp only [UInt64.reduceToNat, Nat.reduceMod, Nat.reducePow] at hor ⊢
  rw [Nat.mod_eq_of_lt (by omega), Nat.mul_comm field.toNat, ← hor]

theorem varintTagLen_eq (field : UInt32) :
    varintTagLen field = (tagBytes field.toNat 2).length := by
  have ht := encodeTag_eq [] field (w := wireTypeLengthDelimited) (by decide)
  rw [encodeTag, encodeVarint_eq] at ht
  have hl := varintTagLenLoop_eq
    ((field.toUInt64 <<< 3) ||| wireTypeLengthDelimited.toUInt64) 1
  rw [show tagBytes field.toNat 2 = _ from ht.symm]
  simp only [List.nil_append]
  rw [varintTagLen]
  omega

theorem encodeVarintField_eq (buf : Bytes) (field : UInt32) (val : UInt64) :
    encodeVarintField buf field val = buf ++ fieldsBytes (varintField field.toNat val) := by
  unfold encodeVarintField varintField
  split
  · simp
  · rw [encodeVarint_eq, encodeTag_eq _ _ (by decide)]
    simp [Field.bytes, Payload.bytes, Payload.wireType, wireTypeVarint]

theorem encodeVarintFieldAlways_eq (buf : Bytes) (field : UInt32) (val : UInt64) :
    encodeVarintFieldAlways buf field val =
      buf ++ fieldsBytes [⟨field.toNat, .varint val⟩] := by
  rw [encodeVarintFieldAlways, encodeVarint_eq, encodeTag_eq _ _ (by decide)]
  simp [Field.bytes, Payload.bytes, Payload.wireType, wireTypeVarint]

theorem encodeFixed64Field_eq (buf : Bytes) (field : UInt32) (val : UInt64) :
    encodeFixed64Field buf field val = buf ++ fieldsBytes (fixed64Field field.toNat val) := by
  unfold encodeFixed64Field fixed64Field
  split
  · simp
  · rw [encodeTag_eq _ _ (by decide)]
    simp [Field.bytes, Payload.bytes, Payload.wireType, wireTypeFixed64]

theorem encodeFixed64FieldAlways_eq (buf : Bytes) (field : UInt32) (val : UInt64) :
    encodeFixed64FieldAlways buf field val =
      buf ++ fieldsBytes [⟨field.toNat, .fixed64 val⟩] := by
  rw [encodeFixed64FieldAlways, encodeTag_eq _ _ (by decide)]
  simp [Field.bytes, Payload.bytes, Payload.wireType, wireTypeFixed64]

/-- The tag, length and payload of a length-delimited field. The length is
cast to 64 bits, so it has to fit. -/
theorem encodeLen_eq (buf : Bytes) (field : UInt32) (hb : body ≠ []) (hl : body.length < 2 ^ 64) :
    encodeVarint (encodeTag buf field wireTypeLengthDelimited) (UInt64.ofNat body.length) ++ body =
      buf ++ fieldsBytes (lenField field.toNat body) := by
  have hn : (UInt64.ofNat body.length).toNat = body.length := by
    simpa [UInt64.toNat_ofNat'] using Nat.mod_eq_of_lt hl
  rw [encodeVarint_eq, encodeTag_eq _ _ (by decide), hn, lenField_of_ne hb]
  simp [Field.bytes, Payload.bytes, Payload.wireType, wireTypeLengthDelimited]

theorem encodeBytesField_eq (buf : Bytes) (field : UInt32) (hl : data.length < 2 ^ 64) :
    encodeBytesField buf field data = buf ++ fieldsBytes (lenField field.toNat data) := by
  unfold encodeBytesField
  split
  · rename_i h
    simp [List.isEmpty_iff.mp h]
  · rename_i h
    exact encodeLen_eq buf field (mt List.isEmpty_iff.mpr h) hl

theorem encodeMessageField_eq (buf : Bytes) (field : UInt32) (hl : msg.length < 2 ^ 64) :
    encodeMessageField buf field msg = buf ++ fieldsBytes (lenField field.toNat msg) :=
  encodeBytesField_eq buf field hl

-- ---------------------------------------------------------------------------
-- Nested messages
-- ---------------------------------------------------------------------------

theorem copyWithin_eq (a b body : Bytes) :
    copyWithin (a ++ b ++ body) (a.length + b.length) body.length a.length =
      a ++ body ++ (b ++ body).drop body.length := by
  have htake : (a ++ b ++ body).take a.length = a := by simp
  have hsrc : (a ++ b ++ body).drop (a.length + b.length) = body := by
    rw [← List.length_append, List.drop_left]
  have hrest : (a ++ b ++ body).drop (a.length + body.length) = (b ++ body).drop body.length := by
    rw [List.append_assoc, ← List.drop_drop, List.drop_left]
  rw [copyWithin, htake, hsrc, hrest, List.take_length]

theorem copyFromSlice_eq (a z c data : Bytes) (hz : z.length = data.length) :
    copyFromSlice (a ++ z ++ c) a.length data = a ++ data ++ c := by
  have hrest : (a ++ z ++ c).drop (a.length + data.length) = c := by
    rw [← hz, ← List.length_append, List.drop_left]
  rw [copyFromSlice, hrest]
  simp

theorem copyWithin_length (hs : src + count ≤ buf.length) (hd : dest ≤ src) :
    (copyWithin buf src count dest).length = buf.length := by
  simp [copyWithin]
  omega

theorem copyFromSlice_length (h : start + data.length ≤ buf.length) :
    (copyFromSlice buf start data).length = buf.length := by
  simp [copyFromSlice]
  omega

/-- The short-length branch: of the five reserved bytes only the first ones
are used, the body moves down over the others, and the tail is cut off. -/
theorem patchLength_eq (a body : Bytes) (hl : len.length < maxLenBytes) :
    (copyFromSlice (copyWithin (a ++ List.replicate maxLenBytes 0 ++ body)
      (a ++ List.replicate maxLenBytes (0 : UInt8)).length body.length (a.length + len.length))
      a.length len).take (a.length + len.length + body.length) = a ++ len ++ body := by
  have hslot : List.replicate maxLenBytes (0 : UInt8) =
      List.replicate len.length 0 ++ List.replicate (maxLenBytes - len.length) 0 := by
    rw [List.replicate_append_replicate]
    congr 1
    omega
  generalize hu : List.replicate len.length (0 : UInt8) = used at hslot
  generalize List.replicate (maxLenBytes - len.length) (0 : UInt8) = spare at hslot
  have hul : used.length = len.length := by simp [← hu]
  have hlen : (a ++ (used ++ spare)).length = (a ++ used).length + spare.length := by
    simp [Nat.add_assoc]
  have hcopy := copyWithin_eq (a ++ used) spare body
  have hpatch := copyFromSlice_eq a used (body ++ (spare ++ body).drop body.length) len hul
  rw [hslot, ← hul, hlen, ← List.length_append, ← List.append_assoc, hcopy,
    List.append_assoc _ body, hpatch, ← List.append_assoc]
  have htake : (a ++ used).length + body.length = (a ++ len ++ body).length := by
    simp [hul, Nat.add_assoc]
  rw [htake, List.take_left]

/-- The slice holds the varint of any length below `2 ^ 35`. -/
theorem encodeVarintToSlice_eq (out : Vector UInt8 5) (h : n < 2 ^ 35) :
    ∃ out', encodeVarintToSlice out (UInt64.ofNat n) = some (out', (varint n).length) ∧
      out'.toList.take (varint n).length = varint n := by
  have hn : (UInt64.ofNat n).toNat = n := by
    simp [UInt64.toNat_ofNat']
    omega
  have hl : (varint n).length ≤ 5 := varint_length_le (by omega)
  obtain ⟨out', ho, ht⟩ := encodeVarintToSliceLoop_eq out 0 (UInt64.ofNat n) (by rw [hn]; omega)
  rw [hn, Nat.zero_add] at ho ht
  exact ⟨out', ho, by simpa using ht⟩

/-- Patching the length in place leaves what the bottom-up encoder writes. -/
theorem encodeMessageFieldInPlace_eq {f : Bytes → Option Bytes} (buf : Bytes) (field : UInt32)
    (hf : ∀ b, f b = some (b ++ body)) (hb : body.length < 2 ^ 35) :
    encodeMessageFieldInPlace buf field f = some (encodeMessageField buf field body) := by
  have ht := encodeTag_eq buf field (w := wireTypeLengthDelimited) (by decide)
  simp only [encodeMessageFieldInPlace, ht, hf, Option.bind_eq_bind, Option.bind_some]
  generalize htag : tagBytes field.toNat wireTypeLengthDelimited.toNat = tag
  have hlen : (buf ++ tag ++ List.replicate maxLenBytes 0 ++ body).length -
      (buf ++ tag ++ List.replicate maxLenBytes (0 : UInt8)).length = body.length := by
    simp only [List.length_append]
    omega
  rw [hlen]
  by_cases hz : body = []
  · -- an empty body: the tag goes too, and its length is computed anew
    subst hz
    have htl : varintTagLen field = tag.length := by rw [varintTagLen_eq, ← htag]; rfl
    simp [encodeMessageField, htl]
  · obtain ⟨out, ho, htake⟩ := encodeVarintToSlice_eq (Vector.replicate 5 0) hb
    rw [if_neg (by simpa using hz), ho, encodeMessageField_eq _ _ (by omega), lenField_of_ne hz]
    have hl : (varint body.length).length ≤ 5 := varint_length_le (by omega)
    have hres : fieldsBytes [⟨field.toNat, .len body⟩] = tag ++ varint body.length ++ body := by
      simp [Field.bytes, Payload.bytes, Payload.wireType, ← htag, wireTypeLengthDelimited]
    rw [hres]
    simp only [Option.bind_some]
    split
    · rename_i hlt
      rw [htake, ← List.append_assoc, ← List.append_assoc]
      exact congrArg some (patchLength_eq (buf ++ tag) body hlt)
    · rename_i hge
      have h5 : (varint body.length).length = 5 := by simp only [maxLenBytes] at hge; omega
      have hout : out.toList = varint body.length := by
        rw [← htake, h5, List.take_of_length_le (by simp)]
      rw [hout, copyFromSlice_eq _ _ _ _ (by simp [h5, maxLenBytes])]
      simp

/-- What a nested message that did not panic has written: at least its body,
the length of which, as 64 bits, fits the five bytes. -/
theorem encodeMessageFieldInPlace_some (h : encodeMessageFieldInPlace buf field f = some out) :
    ∃ tag mid, f (buf ++ tag ++ List.replicate maxLenBytes 0) = some mid ∧
      let start := buf.length + tag.length + maxLenBytes
      (start ≤ mid.length → buf.length + (mid.length - start) ≤ out.length) ∧
      (varint ((mid.length - start) % 2 ^ 64)).length ≤ maxLenBytes := by
  rw [encodeMessageFieldInPlace, encodeTag_eq _ _ (by decide), varintTagLen_eq] at h
  have hw : wireTypeLengthDelimited.toNat = 2 := rfl
  generalize htag : tagBytes field.toNat 2 = tag at h
  simp only [hw, htag, Option.bind_eq_bind, List.length_append, List.length_replicate,
    Nat.add_sub_cancel] at h
  obtain ⟨mid, hm, h⟩ := Option.bind_eq_some_iff.mp h
  refine ⟨tag, mid, hm, ?_⟩
  intro start
  split at h
  · -- nothing was written, and the tag goes too
    rename_i hz
    obtain rfl := by simpa using h
    rw [show mid.length - start = 0 from hz]
    refine ⟨fun hle => ?_, by rw [varint_of_lt (by decide)]; decide⟩
    rw [List.length_take]
    omega
  · obtain ⟨⟨lenBuf, varintLen⟩, hv, h⟩ := Option.bind_eq_some_iff.mp h
    obtain ⟨hn, hn5⟩ := encodeVarintToSliceLoop_some hv
    rw [Nat.zero_add, UInt64.toNat_ofNat'] at hn
    refine ⟨fun hle => ?_, hn ▸ hn5⟩
    split at h
    · obtain rfl := by simpa using h
      have hc : (lenBuf.toList.take varintLen).length = varintLen := by
        simp
        omega
      have hw : (copyWithin mid start (mid.length - start)
          (buf.length + tag.length + varintLen)).length = mid.length :=
        copyWithin_length (by omega) (by omega)
      rw [List.length_take, copyFromSlice_length (by rw [hw, hc]; omega), hw]
      omega
    · obtain rfl := by simpa using h
      have h5 : maxLenBytes = 5 := rfl
      rw [copyFromSlice_length (by simp; omega)]
      omega

-- ---------------------------------------------------------------------------
-- Writing to a buffer is appending to it
-- ---------------------------------------------------------------------------

theorem encodeVarintField_append (buf : Bytes) (field : UInt32) (val : UInt64) :
    encodeVarintField buf field val = buf ++ encodeVarintField [] field val := by
  simp [encodeVarintField_eq]

theorem encodeVarintFieldAlways_append (buf : Bytes) (field : UInt32) (val : UInt64) :
    encodeVarintFieldAlways buf field val = buf ++ encodeVarintFieldAlways [] field val := by
  simp [encodeVarintFieldAlways_eq]

theorem encodeFixed64Field_append (buf : Bytes) (field : UInt32) (val : UInt64) :
    encodeFixed64Field buf field val = buf ++ encodeFixed64Field [] field val := by
  simp [encodeFixed64Field_eq]

theorem encodeFixed64FieldAlways_append (buf : Bytes) (field : UInt32) (val : UInt64) :
    encodeFixed64FieldAlways buf field val = buf ++ encodeFixed64FieldAlways [] field val := by
  simp [encodeFixed64FieldAlways_eq]

theorem encodeMessageField_append (buf : Bytes) (field : UInt32) (msg : Bytes) :
    encodeMessageField buf field msg = buf ++ encodeMessageField [] field msg := by
  unfold encodeMessageField
  split
  · simp
  · simp [encodeVarint_eq, encodeTag_eq _ field (w := wireTypeLengthDelimited) (by decide)]

theorem encodeBytesField_append (buf : Bytes) (field : UInt32) (data : Bytes) :
    encodeBytesField buf field data = buf ++ encodeBytesField [] field data :=
  encodeMessageField_append buf field data

theorem encodeStringField_eq (buf : Bytes) (field : UInt32) (s : String) :
    encodeStringField buf field s = encodeBytesField buf field (utf8 s) := by
  unfold encodeStringField
  split
  · rename_i h
    simp [String.isEmpty_iff.mp h, encodeBytesField, utf8]
  · rfl

theorem encodeStringField_append (buf : Bytes) (field : UInt32) (s : String) :
    encodeStringField buf field s = buf ++ encodeStringField [] field s := by
  rw [encodeStringField_eq, encodeStringField_eq, encodeBytesField_append]

theorem foldl_append_fixed64 (buf : Bytes) (g : α → UInt64) (l : List α) :
    l.foldl (fun buf v => buf ++ fixed64 (g v)) buf =
      buf ++ l.flatMap (fun v => fixed64 (g v)) := by
  induction l generalizing buf with
  | nil => simp
  | cons v l ih => simp [ih]

theorem length_flatMap_fixed64 (g : α → UInt64) (l : List α) :
    (l.flatMap fun v => fixed64 (g v)).length = l.length * 8 := by
  induction l with
  | nil => rfl
  | cons v l ih =>
    simp [ih]
    omega

theorem encodePackedFixed64Field_eq (buf : Bytes) (field : UInt32) (values : List UInt64) :
    encodePackedFixed64Field buf field values =
      encodeBytesField buf field (values.flatMap fixed64) := by
  cases values with
  | nil => rfl
  | cons v vs =>
    have hl := length_flatMap_fixed64 id (v :: vs)
    have hf := foldl_append_fixed64
      (encodeVarint (encodeTag buf field wireTypeLengthDelimited)
        (UInt64.ofNat ((v :: vs).length * 8))) id (v :: vs)
    have hne : ((v :: vs).flatMap fixed64).isEmpty = false := by
      simp [fixed64, leBytes]
    simp only [id] at hl hf
    rw [encodePackedFixed64Field, encodeBytesField, hne, hl]
    exact hf

theorem encodePackedDoubleField_eq (buf : Bytes) (field : UInt32) (values : List F64) :
    encodePackedDoubleField buf field values =
      encodePackedFixed64Field buf field (values.map F64.bits) := by
  simp [encodePackedDoubleField, encodePackedFixed64Field, List.foldl_map]

-- ---------------------------------------------------------------------------
-- Trees of nested messages
-- ---------------------------------------------------------------------------

/-- A piece of a message body: bytes written directly, or a nested message. -/
inductive Node
  | raw (bs : Bytes)
  | message (field : UInt32) (body : List Node)

mutual
/-- Bottom up: every submessage is built before it is written. -/
def Node.bytes : Node → Bytes
  | .raw bs => bs
  | .message field body => encodeMessageField [] field (nodesBytes body)
def nodesBytes : List Node → Bytes
  | [] => []
  | n :: ns => n.bytes ++ nodesBytes ns
end

mutual
/-- In place: every submessage is written straight into the buffer. -/
def Node.encode : Node → Bytes → Option Bytes
  | .raw bs, buf => some (buf ++ bs)
  | .message field body, buf => encodeMessageFieldInPlace buf field (encodeNodes body)
def encodeNodes : List Node → Bytes → Option Bytes
  | [], buf => some buf
  | n :: ns, buf => n.encode buf >>= encodeNodes ns
end

mutual
def Node.bodies : Node → List Bytes
  | .raw _ => []
  | .message _ body => nodesBytes body :: nestedBodies body
/-- The body of every message nested in `ns`, at any depth. -/
def nestedBodies : List Node → List Bytes
  | [] => []
  | n :: ns => n.bodies ++ nestedBodies ns
end

def BodiesShort (ns : List Node) : Prop := ∀ body ∈ nestedBodies ns, body.length < 2 ^ 35

instance (ns : List Node) : Decidable (BodiesShort ns) :=
  inferInstanceAs (Decidable (∀ body ∈ nestedBodies ns, body.length < 2 ^ 35))

mutual
theorem Node.encode_eq : (n : Node) → (∀ body ∈ n.bodies, body.length < 2 ^ 35) → (buf : Bytes) →
    n.encode buf = some (buf ++ n.bytes)
  | .raw bs, _, buf => rfl
  | .message field body, h, buf => by
    have hb : (nodesBytes body).length < 2 ^ 35 := h _ (by simp [Node.bodies])
    have hn : BodiesShort body := fun b hm => h b (by simp [Node.bodies, hm])
    rw [Node.encode, encodeMessageFieldInPlace_eq buf field (encodeNodes_eq body hn) hb,
      encodeMessageField_append, Node.bytes]

/-- Encoding a tree in place appends the bytes of the tree built bottom up. -/
theorem encodeNodes_eq : (ns : List Node) → BodiesShort ns → (buf : Bytes) →
    encodeNodes ns buf = some (buf ++ nodesBytes ns)
  | [], _, buf => by simp [encodeNodes, nodesBytes]
  | n :: ns, h, buf => by
    have hn := n.encode_eq (fun b hm => h b (by simp [nestedBodies, hm])) buf
    have hns : BodiesShort ns := fun b hm => h b (by simp [nestedBodies, hm])
    simp [encodeNodes, nodesBytes, hn, encodeNodes_eq ns hns]
end

mutual
theorem Node.le_of_encode : (n : Node) → n.encode buf = some out → buf.length ≤ out.length
  | .raw bs, h => by
    obtain rfl := by simpa [Node.encode] using h
    simp
  | .message field body, h => by
    obtain ⟨tag, mid, hm, hl, -⟩ := encodeMessageFieldInPlace_some h
    have hb := le_of_encodeNodes body hm
    have := hl (by simpa [Nat.add_assoc] using hb)
    omega
theorem le_of_encodeNodes : (ns : List Node) → encodeNodes ns buf = some out →
    buf.length ≤ out.length
  | [], h => by
    obtain rfl := by simpa [encodeNodes] using h
    exact Nat.le_refl _
  | n :: ns, h => by
    obtain ⟨mid, hn, hns⟩ := Option.bind_eq_some_iff.mp (by rwa [encodeNodes] at h)
    exact Nat.le_trans (n.le_of_encode hn) (le_of_encodeNodes ns hns)
end

mutual
theorem Node.short_of_encode : (n : Node) → n.encode buf = some out →
    out.length - buf.length < 2 ^ 64 → ∀ body ∈ n.bodies, body.length < 2 ^ 35
  | .raw bs, _, _ => by simp [Node.bodies]
  | .message field body, h, hl => by
    obtain ⟨tag, mid, hm, hadd, hv⟩ := encodeMessageFieldInPlace_some h
    have hs : (buf ++ tag ++ List.replicate maxLenBytes 0).length =
        buf.length + tag.length + maxLenBytes := by
      simp [Nat.add_assoc]
    have hle := le_of_encodeNodes body hm
    have hlen := hadd (hs ▸ hle)
    have hbody := short_of_encodeNodes body hm (by omega)
    rw [encodeNodes_eq body hbody] at hm
    obtain rfl := Option.some.inj hm
    rw [List.length_append, hs, Nat.add_sub_cancel_left] at hv hlen
    rw [Nat.mod_eq_of_lt (by omega)] at hv
    have hshort := lt_of_varint_length_le hv
    intro b hb
    obtain rfl | hb := List.mem_cons.mp (by simpa [Node.bodies] using hb)
    · exact hshort
    · exact hbody b hb
/-- A request that was written without a panic has short bodies, unless it is
longer than any buffer can be. -/
theorem short_of_encodeNodes : (ns : List Node) → encodeNodes ns buf = some out →
    out.length - buf.length < 2 ^ 64 → BodiesShort ns
  | [], _, _ => by simp [BodiesShort, nestedBodies]
  | n :: ns, h, hl => by
    obtain ⟨mid, hn, hns⟩ := Option.bind_eq_some_iff.mp (by rwa [encodeNodes] at h)
    have h1 := n.le_of_encode hn
    have h2 := le_of_encodeNodes ns hns
    have hb := n.short_of_encode hn (by omega)
    have hbs := short_of_encodeNodes ns hns (by omega)
    intro body hm
    obtain hm | hm := List.mem_append.mp (by simpa [nestedBodies] using hm)
    · exact hb body hm
    · exact hbs body hm
end

/-- What the closure of a nested message is given: the buffer, the tag and the
five bytes reserved for the length. -/
def reserved (buf : Bytes) (field : UInt32) : Bytes :=
  encodeTag buf field wireTypeLengthDelimited ++ List.replicate maxLenBytes 0

/-- In place is bottom up, for one field after any buffer and for whole trees. -/
theorem inPlace_eq_bottomUp :
    (∀ (p b : Bytes) (field : UInt32) (f : Bytes → Option Bytes), b.length < 2 ^ 35 →
      f (reserved p field) = some (reserved p field ++ b) →
      encodeMessageFieldInPlace p field f = some (p ++ encodeMessageField [] field b) ∧
        encodeMessageField p field b = p ++ encodeMessageField [] field b ∧
        (b = [] → encodeMessageField [] field b = [])) ∧
    ∀ ns, BodiesShort ns → ∀ p, encodeNodes ns p = some (p ++ nodesBytes ns) := by
  refine ⟨fun p b field f hb hf => ⟨?_, encodeMessageField_append p field b, ?_⟩, encodeNodes_eq⟩
  · have happ : encodeMessageFieldInPlace p field f =
        encodeMessageFieldInPlace p field fun q => some (q ++ b) := by
      rw [reserved] at hf
      simp only [encodeMessageFieldInPlace, hf]
    rw [happ, encodeMessageFieldInPlace_eq p field (fun _ => rfl) hb, encodeMessageField_append]
  · rintro rfl
    rfl

/-- A message that holds an empty one, and an empty one beside it. -/
def emptyInside : List Node := [.message 1 [.raw [7], .message 2 []], .message 3 [.message 4 []]]

theorem inPlace_eq_bottomUp_emptyInside :
    encodeMessageFieldInPlace [1, 2] 3 (encodeNodes [.raw [7]]) =
        some ([1, 2] ++ encodeMessageField [] 3 [7]) ∧
      encodeNodes emptyInside [1, 2] = some ([1, 2] ++ nodesBytes emptyInside) :=
  ⟨(inPlace_eq_bottomUp.1 [1, 2] [7] 3 (encodeNodes [.raw [7]]) (by decide)
      (by simp [encodeNodes, Node.encode])).1,
    inPlace_eq_bottomUp.2 emptyInside (by decide +kernel) [1, 2]⟩

@[simp] theorem encodeNodes_nil : encodeNodes [] = some := by
  funext buf
  rw [encodeNodes]

@[simp] theorem encodeNodes_raw (bs : Bytes) (ns : List Node) :
    encodeNodes (.raw bs :: ns) = fun buf => encodeNodes ns (buf ++ bs) := by
  funext buf
  simp [encodeNodes, Node.encode]

@[simp] theorem encodeNodes_message (field : UInt32) (body ns : List Node) :
    encodeNodes (.message field body :: ns) = fun buf =>
      encodeMessageFieldInPlace buf field (encodeNodes body) >>= encodeNodes ns := by
  funext buf
  simp [encodeNodes, Node.encode]

theorem encodeNodes_append (ms ns : List Node) :
    encodeNodes (ms ++ ns) = fun buf => encodeNodes ms buf >>= encodeNodes ns := by
  funext buf
  induction ms generalizing buf with
  | nil => simp
  | cons m ms ih => simp [encodeNodes, Option.bind_assoc, funext ih]

/-- A loop that writes each item as one nested message is a list of message nodes. -/
theorem foldlM_message {item : Bytes → α → Option Bytes} {nodes : α → List Node}
    (h : ∀ x buf, item buf x = encodeNodes (nodes x) buf) (field : UInt32) (l : List α)
    (buf : Bytes) :
    l.foldlM (fun buf x => encodeMessageFieldInPlace buf field fun buf => item buf x) buf =
      encodeNodes (l.map fun x => .message field (nodes x)) buf := by
  induction l generalizing buf with
  | nil => simp
  | cons x xs ih =>
    have hx : (fun buf => item buf x) = encodeNodes (nodes x) := funext (h x)
    simp [List.foldlM_cons, hx, ih]

@[simp] theorem nodesBytes_nil : nodesBytes [] = [] := by
  rw [nodesBytes]

@[simp] theorem nodesBytes_cons (n : Node) (ns : List Node) :
    nodesBytes (n :: ns) = n.bytes ++ nodesBytes ns := by
  rw [nodesBytes]

theorem nodesBytes_append (ms ns : List Node) :
    nodesBytes (ms ++ ns) = nodesBytes ms ++ nodesBytes ns := by
  induction ms with
  | nil => simp
  | cons m ms ih => simp [ih]

theorem nodesBytes_eq_flatMap (ns : List Node) : nodesBytes ns = ns.flatMap Node.bytes := by
  induction ns with
  | nil => simp
  | cons n ns ih => simp [ih]

end Rolly.Proto
