import Rolly.OtlpTrace

/-!
# Metric snapshots

What `collect` hands to the encoder.
-/

namespace Rolly

/-- The measured value attached to an exemplar. -/
inductive ExemplarValue
  | int (v : Int64)
  | double (v : F64)
  deriving DecidableEq, Repr

structure Exemplar where
  traceId : TraceId
  spanId : SpanId
  timeUnixNano : UInt64
  value : ExemplarValue
  deriving DecidableEq, Repr

/-- Attribute pairs, sorted by the code that stores them. -/
abbrev Attrs := List (String × String)

abbrev CounterDataPoint := Attrs × Int64 × Option Exemplar
abbrev GaugeDataPoint := Attrs × F64 × Option Exemplar

structure HistogramDataPoint where
  attrs : Attrs
  bucketCounts : List UInt64
  sum : F64
  count : UInt64
  min : F64
  max : F64
  exemplar : Option Exemplar
  deriving DecidableEq, Repr

inductive MetricSnapshot
  | counter (name description : String) (dataPoints : List CounterDataPoint)
  | gauge (name description : String) (dataPoints : List GaugeDataPoint)
  | histogram (name description : String) (boundaries : List F64)
      (dataPoints : List HistogramDataPoint)
  deriving DecidableEq, Repr

def MetricSnapshot.size : MetricSnapshot → Nat
  | .counter _ _ dataPoints => dataPoints.length
  | .gauge _ _ dataPoints => dataPoints.length
  | .histogram _ _ _ dataPoints => dataPoints.length

end Rolly
