import Mathlib.Algebra.Group.Nat.Defs
import Mathlib.Data.List.Basic

/-!
# The proto3 wire format

Base-128 varints, little-endian fixed-width words and length-delimited
payloads, and a reader of whole messages as lists of fields. Nothing here
knows a schema; a decoder for one message folds its fields.

The reader is strict: a varint has at most ten groups and fits 64 bits, a
field number lies in `1 .. 2^29 - 1`, groups (wire types 3 and 4) are
refused, and every byte has to belong to a field.
-/

namespace Proto3

abbrev Bytes := List UInt8

abbrev Reader := StateT Bytes Option

/-- What `r` reads, it reads from a prefix of the input, whatever follows. -/
structure Local (r : Reader α) : Prop where
  used : r a = some (x, rest) → ∃ used, a = used ++ rest ∧ ∀ t, r (used ++ t) = some (x, t)

section
variable {r : Reader α} {k : α → Reader β}

theorem Local.append (hr : Local r) (h : r a = some (x, rest)) (b : Bytes) :
    r (a ++ b) = some (x, rest ++ b) := by
  obtain ⟨used, rfl, ht⟩ := hr.used h
  rw [List.append_assoc]
  exact ht _

theorem Local.length_le (hr : Local r) (h : r a = some (x, rest)) : rest.length ≤ a.length := by
  obtain ⟨used, rfl, -⟩ := hr.used h
  simp

theorem local_pure (x : α) : Local (pure x : Reader α) := by
  refine ⟨fun h => ?_⟩
  cases h
  exact ⟨[], rfl, fun t => rfl⟩

theorem local_failure : Local (failure : Reader α) := ⟨fun h => nomatch h⟩

theorem bind_some : (r >>= k) a = some (y, rest) ↔
    ∃ x mid, r a = some (x, mid) ∧ k x mid = some (y, rest) := by
  simp [bind, StateT.bind, Option.bind_eq_some_iff]

theorem local_bind (hr : Local r) (hk : ∀ x, Local (k x)) : Local (r >>= k) := by
  refine ⟨fun h => ?_⟩
  obtain ⟨x, mid, hx, hy⟩ := bind_some.mp h
  obtain ⟨used, rfl, hu⟩ := hr.used hx
  obtain ⟨used', rfl, hu'⟩ := (hk x).used hy
  refine ⟨used ++ used', by simp, fun t => ?_⟩
  exact bind_some.mpr ⟨x, used' ++ t, by simpa using hu (used' ++ t), hu' t⟩

end

-- ---------------------------------------------------------------------------
-- Varints
-- ---------------------------------------------------------------------------

/-- The shortest base-128 form of `n`, lowest seven bits first. -/
def varint (n : Nat) : Bytes :=
  if n < 128 then [n.toUInt8] else (n % 128 + 128).toUInt8 :: varint (n / 128)
termination_by n

def decodeGroups : Nat → Reader Nat
  | 0, _ => none
  | _ + 1, [] => none
  | k + 1, b :: rest =>
    if b.toNat < 128 then some (b.toNat, rest)
    else do
      let (n, rest) ← decodeGroups k rest
      some (b.toNat - 128 + 128 * n, rest)

def decodeVarint : Reader UInt64 := do
  let n ← decodeGroups 10
  if n < 2 ^ 64 then pure (UInt64.ofNat n) else failure

theorem varint_of_lt (h : n < 128) : varint n = [n.toUInt8] := by
  rw [varint, if_pos h]

theorem varint_of_le (h : 128 ≤ n) :
    varint n = (n % 128 + 128).toUInt8 :: varint (n / 128) := by
  rw [varint, if_neg (by omega)]

theorem toNat_toUInt8_of_lt {n : Nat} (h : n < 256) : n.toUInt8.toNat = n := by
  simp [Nat.mod_eq_of_lt h]

theorem varint_ne_nil (n : Nat) : varint n ≠ [] := by
  rw [varint]
  split <;> simp

theorem varint_length_pos (n : Nat) : 0 < (varint n).length :=
  List.length_pos_iff.mpr (varint_ne_nil n)

theorem varint_length_le (h : n < 128 ^ (k + 1)) : (varint n).length ≤ k + 1 := by
  induction k generalizing n with
  | zero => rw [varint_of_lt (by simpa using h)]; simp
  | succ k ih =>
    by_cases hn : n < 128
    · rw [varint_of_lt hn]; simp
    · rw [varint_of_le (by omega), List.length_cons]
      have := ih (n := n / 128) (by rw [Nat.div_lt_iff_lt_mul (by decide)]; rwa [← Nat.pow_succ])
      omega

theorem lt_of_varint_length_le (h : (varint n).length ≤ k) : n < 128 ^ k := by
  induction k generalizing n with
  | zero =>
    have := varint_length_pos n
    omega
  | succ k ih =>
    by_cases hn : n < 128
    · exact Nat.lt_of_lt_of_le hn (Nat.le_self_pow (by omega) 128)
    · rw [varint_of_le (by omega), List.length_cons] at h
      have := ih (n := n / 128) (by omega)
      rw [Nat.pow_succ]
      omega

/-- Every group but the last says that another one follows, and the last is
zero only if it is the only one. -/
def Canonical (bytes : Bytes) : Prop :=
  ∃ front last, bytes = front ++ [last] ∧ (∀ b ∈ front, 128 ≤ b.toNat) ∧ last.toNat < 128 ∧
    (front ≠ [] → last ≠ 0)

theorem canonical_varint (n : Nat) : Canonical (varint n) := by
  fun_induction varint n with
  | case1 n h =>
    exact ⟨[], _, rfl, by simp, by rwa [toNat_toUInt8_of_lt (by omega)], fun h => absurd rfl h⟩
  | case2 n h ih =>
    obtain ⟨front, last, heq, hfront, hlast, hzero⟩ := ih
    refine ⟨(n % 128 + 128).toUInt8 :: front, last, by rw [heq]; rfl, ?_, hlast, fun _ => ?_⟩
    · intro b hb
      rcases List.mem_cons.mp hb with rfl | hb
      · rw [toNat_toUInt8_of_lt (by omega)]
        omega
      · exact hfront b hb
    · cases front with
      | cons b front => exact hzero (List.cons_ne_nil b front)
      | nil =>
        -- the group left of a number that has one more is not zero
        rintro rfl
        have hone : varint (n / 128) = [0] := heq
        by_cases hlt : n / 128 < 128
        · rw [varint_of_lt hlt] at hone
          have := congrArg UInt8.toNat (List.singleton_inj.mp hone)
          rw [toNat_toUInt8_of_lt (by omega)] at this
          have : n / 128 = 0 := this
          omega
        · rw [varint_of_le (by omega)] at hone
          exact varint_ne_nil _ (List.cons.inj hone).2

theorem decodeGroups_varint (h : n < 128 ^ (k + 1)) :
    decodeGroups (k + 1) (varint n ++ t) = some (n, t) := by
  induction k generalizing n with
  | zero =>
    have hn : n < 128 := by simpa using h
    rw [varint_of_lt hn, List.cons_append, decodeGroups, toNat_toUInt8_of_lt (by omega), if_pos hn]
    rfl
  | succ k ih =>
    rw [decodeGroups.eq_def]
    by_cases hn : n < 128
    · rw [varint_of_lt hn, List.cons_append]
      simp [toNat_toUInt8_of_lt (show n < 256 by omega), hn]
    · have hb : (n % 128 + 128).toUInt8.toNat = n % 128 + 128 := toNat_toUInt8_of_lt (by omega)
      have hq : n / 128 < 128 ^ (k + 1) := by
        rw [Nat.div_lt_iff_lt_mul (by decide)]; rwa [← Nat.pow_succ]
      rw [varint_of_le (by omega), List.cons_append]
      simp only [hb, ih hq, if_neg (show ¬ n % 128 + 128 < 128 by omega)]
      simp
      omega

theorem decodeVarint_ofNat (h : n < 2 ^ 64) :
    decodeVarint (varint n ++ t) = some (UInt64.ofNat n, t) := by
  refine bind_some.mpr ⟨_, _, decodeGroups_varint (by omega), ?_⟩
  rw [if_pos h]
  rfl

theorem decodeVarint_varint (v : UInt64) (t : Bytes) :
    decodeVarint (varint v.toNat ++ t) = some (v, t) := by
  rw [decodeVarint_ofNat v.toNat_lt, UInt64.ofNat_toNat]

/-- `decodeGroups` is local and consumes at least one byte. -/
theorem decodeGroups_used (h : decodeGroups k a = some (n, rest)) :
    ∃ used, used ≠ [] ∧ a = used ++ rest ∧ ∀ t, decodeGroups k (used ++ t) = some (n, t) := by
  induction k generalizing a n rest with
  | zero => simp [decodeGroups] at h
  | succ k ih =>
    cases a with
    | nil => simp [decodeGroups] at h
    | cons b bs =>
      rw [decodeGroups] at h
      split at h
      · rename_i hb
        obtain ⟨rfl, rfl⟩ := by simpa using h
        exact ⟨[b], by simp, rfl, fun t => by simp [decodeGroups, hb]⟩
      · rename_i hb
        cases hg : decodeGroups k bs with
        | none => simp [hg] at h
        | some p =>
          obtain ⟨m, r⟩ := p
          obtain ⟨rfl, rfl⟩ := by simpa [hg] using h
          obtain ⟨used, -, rfl, ht⟩ := ih hg
          exact ⟨b :: used, by simp, rfl, fun t => by simp [decodeGroups, hb, ht]⟩

theorem local_decodeGroups : Local (decodeGroups k) where
  used h :=
    have ⟨used, _, ha, ht⟩ := decodeGroups_used h
    ⟨used, ha, ht⟩

theorem local_decodeVarint : Local decodeVarint := by
  refine local_bind local_decodeGroups fun n => ?_
  split
  · exact local_pure _
  · exact local_failure

theorem decodeVarint_shorter (h : decodeVarint a = some (v, rest)) : rest.length < a.length := by
  obtain ⟨n, mid, hg, hv⟩ := bind_some.mp h
  obtain ⟨used, hne, ha, -⟩ := decodeGroups_used hg
  have hmid : mid = rest := by
    split at hv
    · exact congrArg Prod.snd (Option.some.inj hv)
    · cases hv
  have := List.length_pos_iff.mpr hne
  simp [ha, hmid]
  omega

-- ---------------------------------------------------------------------------
-- Fixed-width words
-- ---------------------------------------------------------------------------

def leBytes : Nat → Nat → Bytes
  | 0, _ => []
  | k + 1, n => (n % 256).toUInt8 :: leBytes k (n / 256)

def ofLeBytes : Bytes → Nat
  | [] => 0
  | b :: bs => b.toNat + 256 * ofLeBytes bs

def fixed64 (v : UInt64) : Bytes := leBytes 8 v.toNat

def takeBytes (n : Nat) : Reader Bytes := fun bs =>
  if n ≤ bs.length then some (bs.take n, bs.drop n) else none

def decodeFixed64 : Reader UInt64 := do
  let word ← takeBytes 8
  return UInt64.ofNat (ofLeBytes word)

def decodeFixed32 : Reader UInt32 := do
  let word ← takeBytes 4
  return UInt32.ofNat (ofLeBytes word)

@[simp] theorem leBytes_length : (leBytes k n).length = k := by
  induction k generalizing n with
  | zero => rfl
  | succ k ih => simp [leBytes, ih]

@[simp] theorem fixed64_length (v : UInt64) : (fixed64 v).length = 8 := leBytes_length

theorem ofLeBytes_leBytes (h : n < 256 ^ k) : ofLeBytes (leBytes k n) = n := by
  induction k generalizing n with
  | zero => simp at h; simp [leBytes, ofLeBytes, h]
  | succ k ih =>
    have hq : n / 256 < 256 ^ k := by
      rw [Nat.div_lt_iff_lt_mul (by decide)]; rwa [← Nat.pow_succ]
    rw [leBytes, ofLeBytes, ih hq, toNat_toUInt8_of_lt (by omega)]
    omega

theorem takeBytes_append (a t : Bytes) : takeBytes a.length (a ++ t) = some (a, t) := by
  simp [takeBytes]

theorem local_takeBytes : Local (takeBytes n) := by
  refine ⟨fun {a w rest} h => ?_⟩
  unfold takeBytes at h
  split at h
  · rename_i hn
    obtain ⟨rfl, rfl⟩ := by simpa using h
    refine ⟨a.take n, (List.take_append_drop n a).symm, fun t => ?_⟩
    have ht := takeBytes_append (a.take n) t
    rwa [List.length_take_of_le hn] at ht
  · cases h

theorem ofLeBytes_fixed64 (v : UInt64) : ofLeBytes (fixed64 v) = v.toNat :=
  ofLeBytes_leBytes v.toNat_lt

theorem decodeFixed64_fixed64 (v : UInt64) (t : Bytes) :
    decodeFixed64 (fixed64 v ++ t) = some (v, t) := by
  refine bind_some.mpr ⟨fixed64 v, t, takeBytes_append (fixed64 v) t, ?_⟩
  rw [ofLeBytes_fixed64, UInt64.ofNat_toNat]
  rfl

theorem decodeFixed64_shorter (h : decodeFixed64 a = some (v, rest)) :
    rest.length < a.length := by
  obtain ⟨word, mid, hw, hv⟩ := bind_some.mp h
  obtain rfl : mid = rest := congrArg Prod.snd (Option.some.inj hv)
  unfold takeBytes at hw
  split at hw
  · obtain ⟨-, rfl⟩ := by simpa using hw
    simp
    omega
  · cases hw

/-- The words of a packed field; the body has to end with the last of them. -/
def decodePacked64 (bs : Bytes) : Option (List UInt64) :=
  if bs = [] then some []
  else match _h : decodeFixed64 bs with
    | none => none
    | some (v, rest) => (decodePacked64 rest).map (v :: ·)
termination_by bs.length
decreasing_by exact decodeFixed64_shorter _h

theorem decodePacked64_flatMap (vs : List UInt64) :
    decodePacked64 (vs.flatMap fixed64) = some vs := by
  induction vs with
  | nil => rw [List.flatMap_nil, decodePacked64, if_pos rfl]
  | cons v vs ih =>
    have hd := decodeFixed64_fixed64 v (vs.flatMap fixed64)
    rw [List.flatMap_cons, decodePacked64, if_neg (by simp [fixed64, leBytes])]
    split
    · rename_i hn
      rw [hd] at hn
      cases hn
    · rename_i hs
      rw [hd] at hs
      cases hs
      rw [ih]
      rfl

-- ---------------------------------------------------------------------------
-- Fields
-- ---------------------------------------------------------------------------

inductive Payload
  | varint (v : UInt64)
  | fixed64 (v : UInt64)
  | len (body : Bytes)
  | fixed32 (v : UInt32)
  deriving DecidableEq, Repr

structure Field where
  number : Nat
  payload : Payload
  deriving DecidableEq, Repr

def decodeTag : Reader (Nat × Nat) := do
  let tag ← decodeVarint
  return (tag.toNat / 8, tag.toNat % 8)

def decodePayload : Nat → Reader Payload
  | 0 => .varint <$> decodeVarint
  | 1 => .fixed64 <$> decodeFixed64
  | 2 => do
    let n ← decodeVarint
    .len <$> takeBytes n.toNat
  | 5 => .fixed32 <$> decodeFixed32
  | _ => failure

def decodeTagged (tag : Nat × Nat) : Reader Field :=
  if 0 < tag.1 ∧ tag.1 < 2 ^ 29 then Field.mk tag.1 <$> decodePayload tag.2 else failure

def decodeField : Reader Field := decodeTag >>= decodeTagged

theorem local_map {r : Reader α} (f : α → β) (hr : Local r) : Local (f <$> r) := by
  rw [map_eq_pure_bind]
  exact local_bind hr fun _ => local_pure _

theorem local_decodeTag : Local decodeTag := local_bind local_decodeVarint fun _ => local_pure _

theorem local_decodePayload : Local (decodePayload w) := by
  unfold decodePayload
  split
  · exact local_map _ local_decodeVarint
  · exact local_map _ (local_bind local_takeBytes fun _ => local_pure _)
  · exact local_bind local_decodeVarint fun _ => local_map _ local_takeBytes
  · exact local_map _ (local_bind local_takeBytes fun _ => local_pure _)
  · exact local_failure

theorem local_decodeTagged : Local (decodeTagged tag) := by
  unfold decodeTagged
  split
  · exact local_map _ local_decodePayload
  · exact local_failure

theorem local_decodeField : Local decodeField :=
  local_bind local_decodeTag fun _ => local_decodeTagged

theorem decodeField_shorter (h : decodeField a = some (f, rest)) : rest.length < a.length := by
  obtain ⟨tag, mid, ht, hp⟩ := bind_some.mp h
  obtain ⟨v, mid', hv, hm⟩ := bind_some.mp ht
  obtain rfl : mid' = mid := congrArg Prod.snd (Option.some.inj hm)
  exact Nat.lt_of_le_of_lt (local_decodeTagged.length_le hp) (decodeVarint_shorter hv)

def Payload.wireType : Payload → Nat
  | .varint _ => 0
  | .fixed64 _ => 1
  | .len _ => 2
  | .fixed32 _ => 5

def Payload.bytes : Payload → Bytes
  | .varint v => Proto3.varint v.toNat
  | .fixed64 v => Proto3.fixed64 v
  | .len body => Proto3.varint body.length ++ body
  | .fixed32 v => leBytes 4 v.toNat

def tagBytes (number wireType : Nat) : Bytes := varint (8 * number + wireType)

/-- The field as a writer emits it, with a shortest tag and length. -/
def Field.bytes (f : Field) : Bytes := tagBytes f.number f.payload.wireType ++ f.payload.bytes

def Field.Encodable (f : Field) : Prop :=
  (0 < f.number ∧ f.number < 2 ^ 29) ∧ ∀ body, f.payload = .len body → body.length < 2 ^ 64

theorem decodeTag_tagBytes (hn : number < 2 ^ 32) (hw : wireType < 8) :
    decodeTag (tagBytes number wireType ++ t) = some ((number, wireType), t) := by
  have hv : (UInt64.ofNat (8 * number + wireType)).toNat = 8 * number + wireType := by
    simp [UInt64.toNat_ofNat']
    omega
  refine bind_some.mpr ⟨UInt64.ofNat (8 * number + wireType), t, ?_, ?_⟩
  · exact decodeVarint_ofNat (by omega)
  · rw [hv, show (8 * number + wireType) / 8 = number by omega,
      show (8 * number + wireType) % 8 = wireType by omega]
    rfl

theorem decodePayload_bytes (p : Payload) (t : Bytes)
    (hp : ∀ body, p = .len body → body.length < 2 ^ 64) :
    decodePayload p.wireType (p.bytes ++ t) = some (p, t) := by
  cases p with
  | varint v =>
    simp only [decodePayload, Payload.wireType, map_eq_pure_bind]
    exact bind_some.mpr ⟨v, t, decodeVarint_varint v t, rfl⟩
  | fixed64 v =>
    simp only [decodePayload, Payload.wireType, map_eq_pure_bind]
    exact bind_some.mpr ⟨v, t, decodeFixed64_fixed64 v t, rfl⟩
  | len body =>
    have hb : (UInt64.ofNat body.length).toNat = body.length := by
      simpa [UInt64.toNat_ofNat'] using Nat.mod_eq_of_lt (hp body rfl)
    simp only [decodePayload, Payload.wireType, Payload.bytes, map_eq_pure_bind, List.append_assoc]
    refine bind_some.mpr ⟨UInt64.ofNat body.length, body ++ t, ?_, ?_⟩
    · exact decodeVarint_ofNat (hp body rfl)
    · rw [hb]
      exact bind_some.mpr ⟨body, t, takeBytes_append body t, rfl⟩
  | fixed32 v =>
    simp only [decodePayload, Payload.wireType, map_eq_pure_bind]
    refine bind_some.mpr ⟨v, t, ?_, rfl⟩
    refine bind_some.mpr ⟨leBytes 4 v.toNat, t, ?_, ?_⟩
    · simpa [Payload.bytes] using takeBytes_append (leBytes 4 v.toNat) t
    · rw [ofLeBytes_leBytes v.toNat_lt, UInt32.ofNat_toNat]
      rfl

theorem decodeField_bytes (h : f.Encodable) (t : Bytes) :
    decodeField (f.bytes ++ t) = some (f, t) := by
  obtain ⟨hn, hp⟩ := h
  have hw : f.payload.wireType < 8 := by
    cases f.payload <;> simp [Payload.wireType]
  rw [Field.bytes, List.append_assoc]
  refine bind_some.mpr ⟨_, _, decodeTag_tagBytes (by omega) hw, ?_⟩
  simp only [decodeTagged, if_pos hn, map_eq_pure_bind]
  exact bind_some.mpr ⟨_, _, decodePayload_bytes f.payload t hp, rfl⟩

-- ---------------------------------------------------------------------------
-- Messages
-- ---------------------------------------------------------------------------

/-- All fields of a message, in wire order. -/
def decodeFields (bs : Bytes) : Option (List Field) :=
  if bs = [] then some []
  else match _h : decodeField bs with
    | none => none
    | some (f, rest) => (decodeFields rest).map (f :: ·)
termination_by bs.length
decreasing_by exact decodeField_shorter _h

@[simp] theorem decodeFields_nil : decodeFields [] = some [] := by
  rw [decodeFields, if_pos rfl]

theorem decodeFields_field (h : decodeField bs = some (f, rest)) :
    decodeFields bs = (decodeFields rest).map (f :: ·) := by
  have hne : bs ≠ [] := by
    rintro rfl
    simpa using decodeField_shorter h
  rw [decodeFields, if_neg hne]
  split
  · rename_i hn
    rw [h] at hn
    cases hn
  · rename_i hs
    rw [h] at hs
    cases hs
    rfl

/-- Reading is a homomorphism on whole messages: bytes that parse, followed
by any others, give the first fields and then those of the others. -/
theorem decodeFields_append (h : decodeFields a = some fs) (b : Bytes) :
    decodeFields (a ++ b) = (decodeFields b).map (fs ++ ·) := by
  induction hn : a.length using Nat.strongRecOn generalizing a fs with
  | ind n ih =>
    by_cases ha : a = []
    · subst ha
      obtain rfl := by simpa using h
      simp
    · cases hf : decodeField a with
      | none => rw [decodeFields, if_neg ha] at h; split at h <;> simp_all
      | some p =>
        obtain ⟨f, rest⟩ := p
        rw [decodeFields_field hf] at h
        obtain ⟨gs, hg, rfl⟩ := Option.map_eq_some_iff.mp h
        rw [decodeFields_field (local_decodeField.append hf b),
          ih _ (hn ▸ decodeField_shorter hf) hg rfl, Option.map_map]
        rfl

def Parses (bs : Bytes) (fs : List Field) : Prop := decodeFields bs = some fs

theorem Parses.nil : Parses [] [] := decodeFields_nil

theorem Parses.append (ha : Parses a fs) (hb : Parses b gs) : Parses (a ++ b) (fs ++ gs) := by
  unfold Parses at *
  rw [decodeFields_append ha b, hb]
  rfl

theorem Parses.field (h : f.Encodable) : Parses f.bytes [f] := by
  have hd := decodeField_bytes h []
  rw [List.append_nil] at hd
  rw [Parses, decodeFields_field hd, decodeFields_nil]
  rfl

theorem Parses.flatMap {l : List α} {g : α → Bytes} {k : α → List Field}
    (h : ∀ x ∈ l, Parses (g x) (k x)) : Parses (l.flatMap g) (l.flatMap k) := by
  induction l with
  | nil => exact .nil
  | cons x xs ih =>
    simp only [List.flatMap_cons]
    exact (h x (by simp)).append (ih fun y hy => h y (List.mem_cons_of_mem _ hy))

def fieldsBytes (fs : List Field) : Bytes := fs.flatMap Field.bytes

@[simp] theorem fieldsBytes_nil : fieldsBytes [] = [] := rfl

@[simp] theorem fieldsBytes_singleton : fieldsBytes [f] = f.bytes := by
  simp [fieldsBytes]

theorem parses_fieldsBytes (h : ∀ f ∈ fs, f.Encodable) : Parses (fieldsBytes fs) fs := by
  have := Parses.flatMap (g := Field.bytes) (k := fun f => [f]) fun f hf => .field (h f hf)
  simpa [fieldsBytes] using this

/-- A field that is written only if it differs from its default. -/
def varintField (number : Nat) (v : UInt64) : List Field :=
  if v = 0 then [] else [⟨number, .varint v⟩]

def fixed64Field (number : Nat) (v : UInt64) : List Field :=
  if v = 0 then [] else [⟨number, .fixed64 v⟩]

def lenField (number : Nat) (body : Bytes) : List Field :=
  if body = [] then [] else [⟨number, .len body⟩]

@[simp] theorem lenField_nil : lenField number [] = [] := by
  simp [lenField]

theorem lenField_of_ne (h : body ≠ []) : lenField number body = [⟨number, .len body⟩] := by
  simp [lenField, h]

@[simp] theorem Field.bytes_ne_nil (f : Field) : f.bytes ≠ [] := by
  simp [Field.bytes, tagBytes, varint_ne_nil]

@[simp] theorem fieldsBytes_eq_nil : fieldsBytes fs = [] ↔ fs = [] := by
  cases fs with
  | nil => simp
  | cons f fs => simp [fieldsBytes]

/-- Decoding one message: each field is merged into what was read so far. -/
def decodeMessage (merge : α → Field → Option α) (init : α) (bs : Bytes) : Option α := do
  let fs ← decodeFields bs
  fs.foldlM merge init

theorem Parses.decodeMessage {merge : α → Field → Option α} (h : Parses bs fs) (init : α) :
    decodeMessage merge init bs = fs.foldlM merge init := by
  unfold Parses at h
  simp [Proto3.decodeMessage, h]

theorem decodeMessage_append {merge : α → Field → Option α}
    (h : decodeMessage merge init a = some s) (b : Bytes) :
    decodeMessage merge init (a ++ b) = decodeMessage merge s b := by
  obtain ⟨fs, hf, hs⟩ := Option.bind_eq_some_iff.mp h
  rw [decodeMessage, decodeFields_append hf, decodeMessage]
  cases decodeFields b with
  | none => rfl
  | some gs => simp [List.foldlM_append, hs]

/-- The UTF-8 text of a string field. -/
def utf8 (s : String) : Bytes := s.toByteArray.data.toList

theorem utf8_append (s t : String) : utf8 (s ++ t) = utf8 s ++ utf8 t := by
  simp [utf8]

def decodeUtf8 (bs : Bytes) : Option String := String.fromUTF8? ⟨bs.toArray⟩

@[simp] theorem decodeUtf8_utf8 (s : String) : decodeUtf8 (utf8 s) = some s := by
  simp [decodeUtf8, utf8, String.fromUTF8?, s.isValidUTF8]
  rfl

@[simp] theorem utf8_eq_nil : utf8 s = [] ↔ s = "" := by
  rw [← String.toByteArray_inj]
  simp [utf8, ByteArray.ext_iff]

theorem decodeUtf8_eq_none {bs : Bytes} :
    decodeUtf8 bs = none ↔ ¬ (ByteArray.mk bs.toArray).IsValidUTF8 := by
  rw [decodeUtf8, String.fromUTF8?]
  split <;> rename_i h <;> simp [h]

theorem decodeUtf8_eq_some {bs : Bytes} : decodeUtf8 bs = some s ↔ bs = utf8 s := by
  constructor
  · intro h
    rw [decodeUtf8, String.fromUTF8?] at h
    split at h
    · cases h
      rfl
    · cases h
  · rintro rfl
    exact decodeUtf8_utf8 s

section
open String (Pos.Raw)
open String.Pos.Raw

/-- What is between two texts is text if the whole is. -/
theorem isValidUTF8_between {front back : String} {b : ByteArray} :
    (front.toByteArray ++ b ++ back.toByteArray).IsValidUTF8 ↔ b.IsValidUTF8 := by
  constructor
  · intro h
    generalize hs : String.ofByteArray _ h = s
    have hbytes : s.toByteArray = front.toByteArray ++ (b ++ back.toByteArray) := by
      rw [← hs, ← ByteArray.append_assoc]
    have hend : s.rawEndPos.byteIdx = front.toByteArray.size + b.size + back.toByteArray.size := by
      rw [String.byteIdx_rawEndPos, ← String.size_toByteArray, hbytes, ByteArray.size_append,
        ByteArray.size_append, Nat.add_assoc]
    -- it starts and ends at the boundaries of characters
    have hstart : Pos.Raw.IsValid s ⟨front.toByteArray.size⟩ := by
      refine isValid_iff_isValidUTF8_extract_zero.mpr ⟨?_, ?_⟩
      · rw [le_iff, hend, Nat.add_assoc]
        exact Nat.le_add_right _ _
      · rw [hbytes, ByteArray.extract_append_eq_left rfl]
        exact front.isValidUTF8
    have hstop : Pos.Raw.IsValid s ⟨front.toByteArray.size + b.size⟩ := by
      rw [isValid_iff_isUTF8FirstByte]
      by_cases hback : back.toByteArray.size = 0
      · exact .inl (Pos.Raw.ext (by rw [hend, hback, Nat.add_zero]))
      · have hpos := Nat.pos_of_ne_zero hback
        have hlt : (⟨front.toByteArray.size + b.size⟩ : Pos.Raw) < s.rawEndPos := by
          rw [lt_iff, hend]
          exact Nat.lt_add_of_pos_right hpos
        have hbyte : s.getUTF8Byte _ hlt = back.toByteArray[0] := by
          simp only [String.getUTF8Byte, hbytes]
          rw [ByteArray.getElem_append_right (by simp), ByteArray.getElem_append_right (by simp)]
          simp
        exact .inr ⟨hlt, hbyte ▸ back.isValidUTF8.isUTF8FirstByte_getElem_zero hpos⟩
    have hb := (isValidUTF8_extract_iff _ _ (by simp [le_iff]) hstop.le_rawEndPos).mpr
      (.inr ⟨hstart, hstop⟩)
    rw [hbytes] at hb
    have hextract := ByteArray.extract_append_size_add (a := front.toByteArray)
      (b := b ++ back.toByteArray) (i := 0) (j := b.size)
    rw [Nat.add_zero, ByteArray.extract_append_eq_left rfl] at hextract
    rwa [hextract] at hb
  · intro h
    exact (front.isValidUTF8.append h).append back.isValidUTF8

end

theorem decodeUtf8_between (front back : String) (bs : Bytes) :
    decodeUtf8 (utf8 front ++ bs ++ utf8 back) =
      (decodeUtf8 bs).map fun s => front ++ s ++ back := by
  cases h : decodeUtf8 bs with
  | none =>
    rw [decodeUtf8_eq_none] at h
    rw [Option.map_none, decodeUtf8_eq_none]
    refine mt (fun hall => ?_) h
    have hbytes : ByteArray.mk (utf8 front ++ bs ++ utf8 back).toArray =
        front.toByteArray ++ ByteArray.mk bs.toArray ++ back.toByteArray := by
      simp [utf8, ByteArray.ext_iff]
    rwa [hbytes, isValidUTF8_between] at hall
  | some s =>
    obtain rfl := decodeUtf8_eq_some.mp h
    rw [← utf8_append, ← utf8_append, decodeUtf8_utf8, Option.map_some]

end Proto3
