import Rolly.ProtoLaws

/-!
# Reading back what was written

One rule for each encoder: what a decoder, given as the merge of one field
into the message read so far, makes of the bytes written. The rules compose
along the list of pieces of a message.
-/

namespace Rolly.Proto

open Proto3

-- ---------------------------------------------------------------------------
-- Fields
-- ---------------------------------------------------------------------------

/-- `bs` parses as `fs` unless it is so long that its lengths do not fit 64
bits. -/
def ParsesShort (bs : Bytes) (fs : List Field) : Prop := bs.length < 2 ^ 64 → Parses bs fs

section
variable {field : UInt32}

theorem parsesShort_varint (hf : 0 < field.toNat ∧ field.toNat < 2 ^ 29) (val : UInt64) :
    ParsesShort (encodeVarintField [] field val) (varintField field.toNat val) := by
  intro _
  rw [encodeVarintField_eq, List.nil_append]
  refine parses_fieldsBytes fun f hm => ?_
  obtain rfl : f = ⟨field.toNat, .varint val⟩ := by
    unfold varintField at hm
    split at hm <;> simp_all
  exact ⟨hf, nofun⟩

theorem parsesShort_varintAlways (hf : 0 < field.toNat ∧ field.toNat < 2 ^ 29) (val : UInt64) :
    ParsesShort (encodeVarintFieldAlways [] field val) [⟨field.toNat, .varint val⟩] := by
  intro _
  rw [encodeVarintFieldAlways_eq, List.nil_append]
  exact parses_fieldsBytes fun f hm => by
    obtain rfl := List.mem_singleton.mp hm
    exact ⟨hf, nofun⟩

theorem parsesShort_fixed64 (hf : 0 < field.toNat ∧ field.toNat < 2 ^ 29) (val : UInt64) :
    ParsesShort (encodeFixed64Field [] field val) (fixed64Field field.toNat val) := by
  intro _
  rw [encodeFixed64Field_eq, List.nil_append]
  refine parses_fieldsBytes fun f hm => ?_
  obtain rfl : f = ⟨field.toNat, .fixed64 val⟩ := by
    unfold fixed64Field at hm
    split at hm <;> simp_all
  exact ⟨hf, nofun⟩

theorem parsesShort_fixed64Always (hf : 0 < field.toNat ∧ field.toNat < 2 ^ 29) (val : UInt64) :
    ParsesShort (encodeFixed64FieldAlways [] field val) [⟨field.toNat, .fixed64 val⟩] := by
  intro _
  rw [encodeFixed64FieldAlways_eq, List.nil_append]
  exact parses_fieldsBytes fun f hm => by
    obtain rfl := List.mem_singleton.mp hm
    exact ⟨hf, nofun⟩

theorem length_le_encodeMessageField (field : UInt32) (msg : Bytes) :
    msg.length ≤ (encodeMessageField [] field msg).length := by
  unfold encodeMessageField
  split
  · simp_all
  · simp

theorem encodeMessageField_length_le (field : UInt32) (msg : Bytes) (hm : msg.length < 2 ^ 64) :
    (encodeMessageField [] field msg).length ≤ msg.length + 15 := by
  have hf := field.toNat_lt
  rw [encodeMessageField_eq _ _ hm, List.nil_append]
  by_cases hz : msg = []
  · simp [hz]
  · have ht : (tagBytes field.toNat 2).length ≤ 5 := varint_length_le (by omega)
    have hl : (varint msg.length).length ≤ 10 := varint_length_le (by omega)
    simp only [lenField_of_ne hz, fieldsBytes_singleton, Field.bytes, Payload.bytes,
      Payload.wireType, List.length_append]
    omega

theorem parsesShort_message (hf : 0 < field.toNat ∧ field.toNat < 2 ^ 29) (msg : Bytes) :
    ParsesShort (encodeMessageField [] field msg) (lenField field.toNat msg) := by
  intro h
  have hl := length_le_encodeMessageField field msg
  rw [encodeMessageField_eq _ _ (by omega), List.nil_append]
  refine parses_fieldsBytes fun f hm => ?_
  by_cases hz : msg = []
  · simp [hz] at hm
  · rw [lenField_of_ne hz, List.mem_singleton] at hm
    subst hm
    refine ⟨hf, fun body hb => ?_⟩
    cases hb
    omega

theorem parsesShort_bytes (hf : 0 < field.toNat ∧ field.toNat < 2 ^ 29) (data : Bytes) :
    ParsesShort (encodeBytesField [] field data) (lenField field.toNat data) :=
  parsesShort_message hf data

theorem parsesShort_string (hf : 0 < field.toNat ∧ field.toNat < 2 ^ 29) (s : String) :
    ParsesShort (encodeStringField [] field s) (lenField field.toNat (utf8 s)) := by
  rw [encodeStringField_eq]
  exact parsesShort_bytes hf _

end

-- ---------------------------------------------------------------------------
-- What is written as nothing
-- ---------------------------------------------------------------------------

@[simp] theorem encodeVarintField_eq_nil : encodeVarintField [] field val = [] ↔ val = 0 := by
  simp [encodeVarintField_eq, varintField]

@[simp] theorem encodeVarintFieldAlways_ne_nil : encodeVarintFieldAlways [] field val ≠ [] := by
  simp [encodeVarintFieldAlways_eq]

@[simp] theorem encodeFixed64FieldAlways_ne_nil : encodeFixed64FieldAlways [] field val ≠ [] := by
  simp [encodeFixed64FieldAlways_eq]

@[simp] theorem encodeMessageField_eq_nil : encodeMessageField [] field msg = [] ↔ msg = [] := by
  refine ⟨fun h => ?_, fun h => by simp [h, encodeMessageField]⟩
  have := length_le_encodeMessageField field msg
  exact List.length_eq_zero_iff.mp (by simp [h] at this; simp [this])

@[simp] theorem encodeBytesField_eq_nil : encodeBytesField [] field data = [] ↔ data = [] :=
  encodeMessageField_eq_nil

@[simp] theorem encodeStringField_eq_nil : encodeStringField [] field s = [] ↔ s = "" := by
  rw [encodeStringField_eq, encodeBytesField_eq_nil, utf8_eq_nil]

-- ---------------------------------------------------------------------------
-- Messages
-- ---------------------------------------------------------------------------

/-- Merging the fields of `ns`, if their lengths fit 64 bits, takes `s` to
`t`. -/
def Reads (merge : σ → Field → Option σ) (ns : List Node) (s t : σ) : Prop :=
  (nodesBytes ns).length < 2 ^ 64 →
    ∃ fs, Parses (nodesBytes ns) fs ∧ fs.foldlM merge s = some t

section
variable {merge : σ → Field → Option σ} {s t u : σ} {field : UInt32}

theorem Reads.decodeMessage (h : Reads merge ns s t) (hl : (nodesBytes ns).length < 2 ^ 64) :
    decodeMessage merge s (nodesBytes ns) = some t := by
  obtain ⟨fs, hp, hm⟩ := h hl
  rw [hp.decodeMessage, hm]

theorem Reads.nil : Reads merge [] s s := fun _ => ⟨[], by simpa using Parses.nil, rfl⟩

theorem Reads.append (hm : Reads merge ms s t) (hn : Reads merge ns t u) :
    Reads merge (ms ++ ns) s u := by
  intro h
  rw [nodesBytes_append] at h ⊢
  rw [List.length_append] at h
  obtain ⟨fs, hf, hfs⟩ := hm (by omega)
  obtain ⟨gs, hg, hgs⟩ := hn (by omega)
  exact ⟨fs ++ gs, hf.append hg, by simp [List.foldlM_append, hfs, hgs]⟩

theorem Reads.cons (hm : Reads merge [n] s t) (hn : Reads merge ns t u) :
    Reads merge (n :: ns) s u :=
  hm.append hn

theorem Reads.raw (h : ParsesShort bs fs) (hm : fs.foldlM merge s = some t) :
    Reads merge [.raw bs] s t := by
  intro hl
  have hb : nodesBytes [.raw bs] = bs := by simp [Node.bytes]
  rw [hb] at hl ⊢
  exact ⟨fs, h hl, hm⟩

/-- A request is one message: its own bytes may exceed what is nested. -/
theorem Reads.decodeRequest (h : Reads merge [.message field body] s t)
    (hb : BodiesShort [.message field body]) :
    Proto3.decodeMessage merge s (nodesBytes [.message field body]) = some t := by
  have hl : (nodesBytes body).length < 2 ^ 35 := hb _ (by simp [nestedBodies, Node.bodies])
  refine h.decodeMessage ?_
  have := encodeMessageField_length_le field (nodesBytes body) (by omega)
  simp [Node.bytes]
  omega

theorem foldlM_lenField (h0 : body = [] → t = s)
    (h : body ≠ [] → merge s ⟨number, .len body⟩ = some t) :
    (lenField number body).foldlM merge s = some t := by
  by_cases hb : body = []
  · simp [hb, h0 hb]
  · simp [lenField_of_ne hb, h hb]

section
variable (hf : 0 < field.toNat ∧ field.toNat < 2 ^ 29)
include hf

/-- A skipped field has to be one whose value `s` already holds. -/
theorem Reads.varint (h0 : val = 0 → t = s)
    (h : merge s ⟨field.toNat, .varint val⟩ = some t) :
    Reads merge [.raw (encodeVarintField [] field val)] s t := by
  refine .raw (parsesShort_varint hf val) ?_
  unfold varintField
  split
  · rename_i hz
    rw [h0 hz]
    rfl
  · simp [h]

theorem Reads.varintAlways (h : merge s ⟨field.toNat, .varint val⟩ = some t) :
    Reads merge [.raw (encodeVarintFieldAlways [] field val)] s t :=
  .raw (parsesShort_varintAlways hf val) (by simp [h])

theorem Reads.fixed64 (h0 : val = 0 → t = s)
    (h : merge s ⟨field.toNat, .fixed64 val⟩ = some t) :
    Reads merge [.raw (encodeFixed64Field [] field val)] s t := by
  refine .raw (parsesShort_fixed64 hf val) ?_
  unfold fixed64Field
  split
  · rename_i hz
    rw [h0 hz]
    rfl
  · simp [h]

theorem Reads.fixed64Always (h : merge s ⟨field.toNat, .fixed64 val⟩ = some t) :
    Reads merge [.raw (encodeFixed64FieldAlways [] field val)] s t :=
  .raw (parsesShort_fixed64Always hf val) (by simp [h])

theorem Reads.bytes (h0 : data = [] → t = s)
    (h : data ≠ [] → merge s ⟨field.toNat, .len data⟩ = some t) :
    Reads merge [.raw (encodeBytesField [] field data)] s t :=
  .raw (parsesShort_bytes hf data) (foldlM_lenField h0 h)

theorem Reads.string (h0 : str = "" → t = s)
    (h : str ≠ "" → merge s ⟨field.toNat, .len (utf8 str)⟩ = some t) :
    Reads merge [.raw (encodeStringField [] field str)] s t :=
  .raw (parsesShort_string hf str)
    (foldlM_lenField (fun hz => h0 (utf8_eq_nil.mp hz)) fun hz => h (mt utf8_eq_nil.mpr hz))

/-- A nested message reads as its own decoder says; an empty one is absent. -/
theorem Reads.message {mergeBody : τ → Field → Option τ} (hb : Reads mergeBody body init v)
    (h0 : nodesBytes body = [] → t = s)
    (h : nodesBytes body ≠ [] → ∀ b, Proto3.decodeMessage mergeBody init b = some v →
      merge s ⟨field.toNat, .len b⟩ = some t) :
    Reads merge [.message field body] s t := by
  intro hl
  have hn : nodesBytes [.message field body] = encodeMessageField [] field (nodesBytes body) := by
    simp [Node.bytes]
  rw [hn] at hl ⊢
  have hs := length_le_encodeMessageField field (nodesBytes body)
  refine ⟨_, parsesShort_message hf _ hl, foldlM_lenField h0 fun hz => h hz _ ?_⟩
  exact hb.decodeMessage (by omega)

end

/-- Field `field` is a repeated message: each occurrence is decoded by
`mergeBody`, and `push s ys` is `s` with `ys` appended to the field. -/
structure Repeats (merge : σ → Field → Option σ) (field : UInt32)
    (mergeBody : τ → Field → Option τ) (init : τ) (push : σ → List τ → σ) : Prop where
  number : 0 < field.toNat ∧ field.toNat < 2 ^ 29
  nil : ∀ s, push s [] = s
  append : ∀ s ys zs, push (push s ys) zs = push s (ys ++ zs)
  item : ∀ s b y, Proto3.decodeMessage mergeBody init b = some y →
    merge s ⟨field.toNat, .len b⟩ = some (push s [y])

variable {mergeBody : τ → Field → Option τ} {init : τ} {push : σ → List τ → σ}

/-- `val x` is absent exactly where `x` is written as nothing. -/
theorem Reads.messages {nodes : α → List Node} {val : α → Option τ} {v : α → τ}
    (h : Repeats merge field mergeBody init push)
    (hv : ∀ x, val x = if nodesBytes (nodes x) = [] then none else some (v x))
    (l : List α) (hb : ∀ x ∈ l, Reads mergeBody (nodes x) init (v x)) (s : σ) :
    Reads merge (l.map fun x => .message field (nodes x)) s (push s (l.filterMap val)) := by
  induction l generalizing s with
  | nil =>
    rw [List.filterMap_nil, h.nil]
    exact .nil
  | cons x xs ih =>
    have hx : push s ((x :: xs).filterMap val) =
        push (push s (val x).toList) (xs.filterMap val) := by
      rw [h.append]
      cases hvx : val x <;> simp [hvx]
    rw [hx, List.map_cons]
    refine .cons ?_ (ih (fun y hy => hb y (List.mem_cons_of_mem _ hy)) _)
    rw [hv]
    refine .message h.number (hb x (by simp)) (fun hz => ?_) fun hz b hd => ?_
    · simp [hz, h.nil]
    · simpa [hz] using h.item s b (v x) hd

/-- A repeated message none of whose items is written as nothing. -/
theorem Reads.messages_all {nodes : α → List Node} {v : α → τ}
    (h : Repeats merge field mergeBody init push)
    (l : List α) (hne : ∀ x ∈ l, nodesBytes (nodes x) ≠ [])
    (hb : ∀ x ∈ l, Reads mergeBody (nodes x) init (v x)) (s : σ) :
    Reads merge (l.map fun x => .message field (nodes x)) s (push s (l.map v)) := by
  have hv : l.map v =
      l.filterMap fun x => if nodesBytes (nodes x) = [] then none else some (v x) := by
    rw [← List.filterMap_eq_map]
    exact List.filterMap_congr fun x hx => by simp [hne x hx]
  rw [hv]
  exact .messages h (fun _ => rfl) l hb s

end

end Rolly.Proto
