import Rolly.Lib.KeyedTable
import Rolly.Lib.Proto3
import Rolly.MetricSnapshot
import Mathlib.Data.List.Sort
import Mathlib.Data.Prod.Lex
import Mathlib.Data.String.Basic

/-!
# Instruments

Counters, gauges and histograms keep one entry for each attribute set, under
an order-independent hash of it. A hash map is a keyed table; nothing below
depends on the order of its entries.
-/

namespace Rolly.Metrics

open Proto3 (utf8)

-- ---------------------------------------------------------------------------
-- Attributes
-- ---------------------------------------------------------------------------

def fnvOffset : UInt64 := 0xcbf29ce484222325
def fnvPrime : UInt64 := 0x100000001b3

def fnvByte (h : UInt64) (byte : UInt8) : UInt64 := (h ^^^ byte.toUInt64) * fnvPrime

/-- The FNV-1a hash of key, separator, value. -/
def pairHash (pair : String × String) : UInt64 :=
  let h := (utf8 pair.1).foldl fnvByte fnvOffset
  (utf8 pair.2).foldl fnvByte (fnvByte h 0xff)

def attrsHashUnordered (attrs : List (String × String)) : UInt64 :=
  attrs.foldl (fun combined pair => combined + pairHash pair) 0

def ownedAttrs (attrs : List (String × String)) : Attrs :=
  attrs.insertionSort fun a b => toLex a ≤ toLex b

-- ---------------------------------------------------------------------------
-- Exemplars
-- ---------------------------------------------------------------------------

/-- What a recording call reads from its surroundings: whether a subscriber is
installed, the fields of the nearest span that has any, and the clock. -/
structure TraceContext where
  hasBeenSet : Bool
  current : Option (TraceId × SpanId)
  now : UInt64
  deriving DecidableEq, Repr

def captureExemplar (context : TraceContext) (value : ExemplarValue) : Option Exemplar :=
  if !context.hasBeenSet then none
  else
    match context.current with
    | none => none
    | some (traceId, spanId) =>
      if traceId = Vector.replicate 16 0 then none
      else some { traceId, spanId, timeUnixNano := context.now, value }

-- ---------------------------------------------------------------------------
-- Recording
-- ---------------------------------------------------------------------------

/-- The fields that `CounterInner`, `GaugeInner` and `HistogramInner` share. -/
structure Inner (V : Type) where
  name : String
  description : String
  maxCardinality : Nat
  overflowWarned : Bool := false
  data : KeyedTable UInt64 (Attrs × V × Option Exemplar) := []
  deriving DecidableEq, Repr

/-- "metric cardinality limit reached, dropping new attribute sets" -/
structure OverflowWarning where
  metric : String
  limit : Nat
  deriving DecidableEq, Repr

/-- The critical section of `add`, `set` and `observe`. -/
def Inner.record (inner : Inner V) (attrs : List (String × String))
    (exemplar : Option Exemplar) (fresh : V) (update : V → V) :
    Inner V × Option OverflowWarning :=
  let key := if attrs.isEmpty then 0 else attrsHashUnordered attrs
  if !inner.data.containsKey key && decide (inner.maxCardinality ≤ inner.data.length) then
    if !inner.overflowWarned then
      ({ inner with overflowWarned := true }, some ⟨inner.name, inner.maxCardinality⟩)
    else (inner, none)
  else
    let data := inner.data.modifyEntry key (ownedAttrs attrs, fresh, none)
      fun (attrs, value, old) =>
        (attrs, update value, if exemplar.isSome then exemplar else old)
    ({ inner with data := data }, none)

structure HistogramState where
  bucketCounts : List UInt64
  sum : F64
  count : UInt64
  min : F64
  max : F64
  deriving DecidableEq, Repr

def HistogramState.new (boundaries : List F64) : HistogramState where
  bucketCounts := List.replicate (boundaries.length + 1) 0
  sum := F64.zero
  count := 0
  min := F64.infinity
  max := F64.negInfinity

def HistogramState.observe (state : HistogramState) (bucketIdx : Nat) (value : F64) :
    HistogramState where
  bucketCounts := state.bucketCounts.modify bucketIdx (· + 1)
  sum := state.sum.add value
  count := state.count + 1
  min := if value.lt state.min then value else state.min
  max := if state.max.lt value then value else state.max

abbrev CounterInner := Inner Int64
abbrev GaugeInner := Inner F64

structure HistogramInner extends Inner HistogramState where
  boundaries : List F64
  deriving DecidableEq, Repr

/-- `partition_point(|&b| b <= value)` of sorted boundaries. With a NaN among
them the source leaves its result open. -/
def bucketIndex (boundaries : List F64) (value : F64) : Nat :=
  boundaries.findIdx fun b => !b.le value

/-- Overflow wraps, as in a release build. -/
def CounterInner.add (inner : CounterInner) (context : TraceContext) (value : UInt64)
    (attrs : List (String × String)) : CounterInner × Option OverflowWarning :=
  inner.record attrs (captureExemplar context (.int value.toInt64)) 0 (· + value.toInt64)

def GaugeInner.set (inner : GaugeInner) (context : TraceContext) (value : F64)
    (attrs : List (String × String)) : GaugeInner × Option OverflowWarning :=
  inner.record attrs (captureExemplar context (.double value)) F64.zero fun _ => value

def HistogramInner.observe (inner : HistogramInner) (context : TraceContext) (value : F64)
    (attrs : List (String × String)) : HistogramInner × Option OverflowWarning :=
  let bucketIdx := bucketIndex inner.boundaries value
  let (shared, warning) := inner.toInner.record attrs (captureExemplar context (.double value))
    (HistogramState.new inner.boundaries) (·.observe bucketIdx value)
  ({ inner with toInner := shared }, warning)

-- ---------------------------------------------------------------------------
-- Instruments of any kind
-- ---------------------------------------------------------------------------

inductive Kind
  | counter | gauge | histogram
  deriving DecidableEq, Repr

/-- What an `Arc` in one of the registry's maps points to. -/
inductive Instrument
  | counter (inner : CounterInner)
  | gauge (inner : GaugeInner)
  | histogram (inner : HistogramInner)
  deriving DecidableEq, Repr

def Instrument.kind : Instrument → Kind
  | .counter _ => .counter
  | .gauge _ => .gauge
  | .histogram _ => .histogram

inductive Measurement
  | add (value : UInt64)
  | set (value : F64)
  | observe (value : F64)
  deriving DecidableEq, Repr

def Measurement.kind : Measurement → Kind
  | .add _ => .counter
  | .set _ => .gauge
  | .observe _ => .histogram

structure RecordCall where
  measurement : Measurement
  attrs : List (String × String)
  context : TraceContext
  deriving DecidableEq, Repr

/-- A record call on an instrument. The types of the handles exclude the last
case. -/
def Instrument.record (call : RecordCall) : Instrument → Instrument × Option OverflowWarning
  | .counter inner =>
    match call.measurement with
    | .add value => (inner.add call.context value call.attrs).map .counter id
    | _ => (.counter inner, none)
  | .gauge inner =>
    match call.measurement with
    | .set value => (inner.set call.context value call.attrs).map .gauge id
    | _ => (.gauge inner, none)
  | .histogram inner =>
    match call.measurement with
    | .observe value => (inner.observe call.context value call.attrs).map .histogram id
    | _ => (.histogram inner, none)

-- ---------------------------------------------------------------------------
-- Collecting
-- ---------------------------------------------------------------------------

/-- The entries as they are read, whose exemplars are taken. -/
def Inner.take (inner : Inner V) : List (Attrs × V × Option Exemplar) × Inner V :=
  (inner.data.map (·.2),
    { inner with data := inner.data.map fun (key, attrs, value, _) => (key, attrs, value, none) })

def histogramDataPoint : Attrs × HistogramState × Option Exemplar → HistogramDataPoint
  | (attrs, state, exemplar) =>
    { attrs, exemplar, bucketCounts := state.bucketCounts, sum := state.sum,
      count := state.count, min := state.min, max := state.max }

/-- The part of `collect` that holds the instrument's mutex. -/
def Instrument.collect : Instrument → Option MetricSnapshot × Instrument
  | .counter inner =>
    if inner.data.isEmpty then (none, .counter inner)
    else
      let (dataPoints, inner) := inner.take
      (some (.counter inner.name inner.description dataPoints), .counter inner)
  | .gauge inner =>
    if inner.data.isEmpty then (none, .gauge inner)
    else
      let (dataPoints, inner) := inner.take
      (some (.gauge inner.name inner.description dataPoints), .gauge inner)
  | .histogram inner =>
    if inner.data.isEmpty then (none, .histogram inner)
    else
      let (entries, shared) := inner.take
      let inner := { inner with toInner := shared }
      (some (.histogram inner.name inner.description inner.boundaries
        (entries.map histogramDataPoint)), .histogram inner)

end Rolly.Metrics
