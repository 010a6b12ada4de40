import Rolly.OtlpTrace
import Rolly.Lib.Proto3

/-!
# Trace IDs

Where they come from, and their text form.
-/

namespace Rolly

open Proto3 (Bytes utf8)

def zeroTraceId : TraceId := Vector.replicate 16 0
def zeroSpanId : SpanId := Vector.replicate 8 0

def hashPrefix (hash : Vector UInt8 32) : TraceId := Vector.ofFn fun i : Fin 16 => hash[i.val]

/-- The hash and the random UUID are the caller's. -/
def generateTraceId (blake3 : Bytes → Vector UInt8 32) (uuid : TraceId) : Option String → TraceId
  | some id =>
    if id ≠ "" ∧ id ≠ "-" then hashPrefix (blake3 (utf8 id)) else uuid
  | none => uuid

-- ---------------------------------------------------------------------------
-- Hex
-- ---------------------------------------------------------------------------

def hexDigits : List Char := "0123456789abcdef".toList

def hexEncode (bytes : Bytes) : String :=
  String.ofList <| bytes.flatMap fun b : UInt8 =>
    [hexDigits.getD (b >>> 4).toNat '0', hexDigits.getD (b &&& 0x0f).toNat '0']

def hexNibble (b : UInt8) : Option UInt8 :=
  if 0x30 ≤ b ∧ b ≤ 0x39 then some (b - 0x30)
  else if 0x61 ≤ b ∧ b ≤ 0x66 then some (b - 0x61 + 10)
  else if 0x41 ≤ b ∧ b ≤ 0x46 then some (b - 0x41 + 10)
  else none

/-- The chunks of two of a text of even length. -/
def hexPairs : Bytes → Option Bytes
  | hi :: lo :: rest => do
    let hi ← hexNibble hi
    let lo ← hexNibble lo
    let rest ← hexPairs rest
    return ((hi <<< 4) ||| lo) :: rest
  | _ => some []

def hexToBytes16 (s : String) : Option TraceId :=
  if (utf8 s).length ≠ 32 then none
  else (hexPairs (utf8 s)).map fun out => Vector.ofFn fun i : Fin 16 => out.getD i 0

/-- `bytes.chunks(2)`. -/
def chunksOfTwo : Bytes → List Bytes
  | [] => []
  | [b] => [[b]]
  | hi :: lo :: rest => [hi, lo] :: chunksOfTwo rest

/-- The loop of `hex_to_bytes_16` from chunk `i` with each access that can
panic: `none` is a panic, `some none` an error. -/
def hexToBytes16Loop (out : TraceId) (i : Nat) : List Bytes → Option (Option TraceId)
  | [] => some (some out)
  | chunk :: chunks => do
    let hi ← chunk[0]?
    match hexNibble hi with
    | none => return none
    | some hi =>
      let lo ← chunk[1]?
      match hexNibble lo with
      | none => return none
      | some lo =>
        if h : i < 16 then hexToBytes16Loop (out.set i ((hi <<< 4) ||| lo)) (i + 1) chunks
        else none

/-- `hex_to_bytes_16` with its panics. -/
def runHexToBytes16 (s : String) : Option (Option TraceId) :=
  if (utf8 s).length ≠ 32 then some none
  else hexToBytes16Loop (Vector.replicate 16 0) 0 (chunksOfTwo (utf8 s))

-- ---------------------------------------------------------------------------
-- Sampling
-- ---------------------------------------------------------------------------

def u64FromLeBytes (bytes : Bytes) : UInt64 :=
  UInt64.ofNat (bytes.foldr (fun b n => b.toNat + 256 * n) 0)

/-- The first half of the ID, mapped to `[0, 1]`, against the rate. -/
def shouldSample (traceId : TraceId) (samplingRate : F64) : Bool :=
  if F64.one.le samplingRate then true
  else if samplingRate.le F64.zero then false
  else
    let hash := u64FromLeBytes (traceId.toList.take 8)
    let normalized := (F64.ofNat hash.toNat).div (F64.ofNat (2 ^ 64 - 1))
    normalized.lt samplingRate

end Rolly
