import Rolly.Lib.Binary64
import Rolly.Lib.Proto3

/-!
# The protobuf encoders

The hand-written wire encoders. A buffer is the bytes written so far; a
function that can panic, or calls a closure that can, returns an `Option`.
-/

namespace Rolly.Proto

open Proto3 (Bytes fixed64 utf8)

/-- `isize::MAX`, the most bytes a `Vec<u8>` can hold. -/
def vecCapacity : Nat := 2 ^ 63 - 1

def wireTypeVarint : UInt8 := 0
def wireTypeFixed64 : UInt8 := 1
def wireTypeLengthDelimited : UInt8 := 2

def encodeVarint (buf : Bytes) (val : UInt64) : Bytes :=
  if val ≥ 0x80 then encodeVarint (buf ++ [val.toUInt8 ||| 0x80]) (val >>> 7)
  else buf ++ [val.toUInt8]
termination_by val.toNat
decreasing_by
  simp_all [UInt64.le_iff_toNat_le, Nat.shiftRight_eq_div_pow]
  omega

def encodeTag (buf : Bytes) (fieldNumber : UInt32) (wireType : UInt8) : Bytes :=
  encodeVarint buf ((fieldNumber.toUInt64 <<< 3) ||| wireType.toUInt64)

def encodeVarintField (buf : Bytes) (field : UInt32) (val : UInt64) : Bytes :=
  if val = 0 then buf
  else encodeVarint (encodeTag buf field wireTypeVarint) val

def encodeVarintFieldAlways (buf : Bytes) (field : UInt32) (val : UInt64) : Bytes :=
  encodeVarint (encodeTag buf field wireTypeVarint) val

def encodeBytesField (buf : Bytes) (field : UInt32) (data : Bytes) : Bytes :=
  if data.isEmpty then buf
  else
    let buf := encodeTag buf field wireTypeLengthDelimited
    encodeVarint buf (UInt64.ofNat data.length) ++ data

def encodeStringField (buf : Bytes) (field : UInt32) (s : String) : Bytes :=
  if s.isEmpty then buf else encodeBytesField buf field (utf8 s)

def encodeFixed64Field (buf : Bytes) (field : UInt32) (val : UInt64) : Bytes :=
  if val = 0 then buf
  else encodeTag buf field wireTypeFixed64 ++ fixed64 val

def encodeFixed64FieldAlways (buf : Bytes) (field : UInt32) (val : UInt64) : Bytes :=
  encodeTag buf field wireTypeFixed64 ++ fixed64 val

def encodePackedFixed64Field (buf : Bytes) (field : UInt32) (values : List UInt64) : Bytes :=
  if values.isEmpty then buf
  else
    let buf := encodeTag buf field wireTypeLengthDelimited
    let buf := encodeVarint buf (UInt64.ofNat (values.length * 8))
    values.foldl (fun buf v => buf ++ fixed64 v) buf

def encodePackedDoubleField (buf : Bytes) (field : UInt32) (values : List F64) : Bytes :=
  if values.isEmpty then buf
  else
    let buf := encodeTag buf field wireTypeLengthDelimited
    let buf := encodeVarint buf (UInt64.ofNat (values.length * 8))
    values.foldl (fun buf v => buf ++ fixed64 v.bits) buf

/-- The test-only encoder of a nested message built beforehand. Skips the
field if the message is empty. -/
def encodeMessageField (buf : Bytes) (field : UInt32) (msg : Bytes) : Bytes :=
  if msg.isEmpty then buf
  else
    let buf := encodeTag buf field wireTypeLengthDelimited
    encodeVarint buf (UInt64.ofNat msg.length) ++ msg

-- ---------------------------------------------------------------------------
-- Nested messages in place
-- ---------------------------------------------------------------------------

def maxLenBytes : Nat := 5

/-- The loop of `encode_varint_to_slice` from index `i`. Writing past the
fifth byte panics. -/
def encodeVarintToSliceLoop (out : Vector UInt8 5) (i : Nat) (val : UInt64) :
    Option (Vector UInt8 5 × Nat) :=
  if h : i < 5 then
    if val ≥ 0x80 then
      encodeVarintToSliceLoop (out.set i (val.toUInt8 ||| 0x80)) (i + 1) (val >>> 7)
    else some (out.set i val.toUInt8, i + 1)
  else none
termination_by 5 - i

def encodeVarintToSlice (out : Vector UInt8 5) (val : UInt64) : Option (Vector UInt8 5 × Nat) :=
  encodeVarintToSliceLoop out 0 val

def varintTagLenLoop (v : UInt64) (n : Nat) : Nat :=
  if v ≥ 0x80 then varintTagLenLoop (v >>> 7) (n + 1) else n
termination_by v.toNat
decreasing_by
  simp_all [UInt64.le_iff_toNat_le, Nat.shiftRight_eq_div_pow]
  omega

/-- The number of bytes a length-delimited tag occupies. -/
def varintTagLen (field : UInt32) : Nat :=
  varintTagLenLoop ((field.toUInt64 <<< 3) ||| wireTypeLengthDelimited.toUInt64) 1

/-- `buf.copy_within(src .. src + count, dest)`. -/
def copyWithin (buf : Bytes) (src count dest : Nat) : Bytes :=
  buf.take dest ++ (buf.drop src).take count ++ buf.drop (dest + count)

/-- `buf[start ..][.. data.len()].copy_from_slice(data)`. -/
def copyFromSlice (buf : Bytes) (start : Nat) (data : Bytes) : Bytes :=
  buf.take start ++ data ++ buf.drop (start + data.length)

/-- Writes the tag, reserves five bytes for the length, lets `f` append the
body, then patches the length. Removes the field again if the body is empty. -/
def encodeMessageFieldInPlace (buf : Bytes) (field : UInt32) (f : Bytes → Option Bytes) :
    Option Bytes := do
  let buf := encodeTag buf field wireTypeLengthDelimited
  let tagEnd := buf.length
  let buf := buf ++ List.replicate maxLenBytes 0
  let bodyStart := buf.length
  let buf ← f buf
  let bodyLen := buf.length - bodyStart
  if bodyLen = 0 then
    return buf.take (tagEnd - varintTagLen field)
  let (lenBuf, varintLen) ← encodeVarintToSlice (Vector.replicate 5 0) (UInt64.ofNat bodyLen)
  if varintLen < maxLenBytes then
    let buf := copyWithin buf bodyStart bodyLen (tagEnd + varintLen)
    let buf := copyFromSlice buf tagEnd (lenBuf.toList.take varintLen)
    return buf.take (tagEnd + varintLen + bodyLen)
  else
    -- exactly five bytes: the slot is overwritten and the body stays put
    return copyFromSlice buf tagEnd lenBuf.toList

end Rolly.Proto
