import Mathlib.Algebra.GroupWithZero.Nat
import Rolly.MetricsLaws

/-!
# The reference registry

What the registry is for, said of whole histories: an instrument shows the
first attribute sets recorded on it, up to its limit, each sorted and with the
outcome of all its own calls. The reference keeps the history of each
instrument and no table.
-/

namespace Rolly.Metrics

-- ---------------------------------------------------------------------------
-- Histories of one instrument
-- ---------------------------------------------------------------------------

def Measurement.exemplarValue : Measurement → ExemplarValue
  | .add value => .int value.toInt64
  | .set value => .double value
  | .observe value => .double value

def RecordCall.exemplar (call : RecordCall) : Option Exemplar :=
  captureExemplar call.context call.measurement.exemplarValue

def callsOf (events : List InstrumentEvent) : List RecordCall :=
  events.filterMap fun
    | .record call => some call
    | .collect => none

/-- The attribute sets of a history, each in its sorted form, in the order of
their first use. -/
def attrSets (events : List InstrumentEvent) : List Attrs :=
  KeyedTable.distinct ((callsOf events).map fun call => ownedAttrs call.attrs)

def callsFor (attrs : Attrs) (events : List InstrumentEvent) : List RecordCall :=
  (callsOf events).filter fun call => ownedAttrs call.attrs = attrs

/-- What came after the last collect. -/
def sinceCollect (events : List InstrumentEvent) : List InstrumentEvent :=
  (events.reverse.takeWhile (·.isRecord)).reverse

/-- The last exemplar that a call for `attrs` captured since the last collect. -/
def exemplarFor (attrs : Attrs) (events : List InstrumentEvent) : Option Exemplar :=
  ((callsFor attrs (sinceCollect events)).filterMap (·.exemplar)).getLast?

def entries (limit : Nat) (value : List RecordCall → V) (events : List InstrumentEvent) :
    List (Attrs × V × Option Exemplar) :=
  ((attrSets events).take limit).map fun attrs =>
    (attrs, value (callsFor attrs events), exemplarFor attrs events)

def addedBy (call : RecordCall) : Option UInt64 :=
  match call.measurement with
  | .add value => some value
  | _ => none

def setBy (call : RecordCall) : Option F64 :=
  match call.measurement with
  | .set value => some value
  | _ => none

def observedBy (call : RecordCall) : Option F64 :=
  match call.measurement with
  | .observe value => some value
  | _ => none

/-- The sum of all values added, modulo `2 ^ 64`. -/
def counterValue (calls : List RecordCall) : Int64 :=
  Int64.ofNat ((calls.filterMap addedBy).map UInt64.toNat).sum

def gaugeValue (calls : List RecordCall) : F64 :=
  (calls.filterMap setBy).getLast?.getD F64.zero

/-- All values observed, one after the other. -/
def histogramState (boundaries : List F64) (calls : List RecordCall) : HistogramState :=
  (calls.filterMap observedBy).foldl
    (fun state value => state.observe (bucketIndex boundaries value) value)
    (.new boundaries)

/-- What a collect shows of an instrument: nothing without a data point. -/
def expectedSnapshot (defaultMax : Nat) (registration : Registration)
    (events : List InstrumentEvent) : Option MetricSnapshot :=
  match registration with
  | .counter name description max =>
    let dataPoints := entries (max.getD defaultMax) counterValue events
    if dataPoints.isEmpty then none else some (.counter name description dataPoints)
  | .gauge name description max =>
    let dataPoints := entries (max.getD defaultMax) gaugeValue events
    if dataPoints.isEmpty then none else some (.gauge name description dataPoints)
  | .histogram name description boundaries max =>
    let boundaries := sortedBoundaries boundaries
    let points := entries (max.getD defaultMax) (histogramState boundaries) events
    if points.isEmpty then none
    else some (.histogram name description boundaries (points.map histogramDataPoint))

-- ---------------------------------------------------------------------------
-- Runs
-- ---------------------------------------------------------------------------

/-- An operation of a program. It records on the handle that its `place`-th
registration call returned, or on a clone of it. -/
inductive Op
  | register (registration : Registration)
  | record (place : Nat) (call : RecordCall)
  | collect
  deriving DecidableEq, Repr

structure Reference where
  defaultMax : Nat
  /-- The first registration of each kind and name, with what happened since. -/
  instruments : List (Registration × List InstrumentEvent) := []
  handles : List Key := []
  collected : List (List MetricSnapshot) := []
  deriving DecidableEq, Repr

namespace Reference

def append (r : Reference) (key : Key) (event : InstrumentEvent) : Reference :=
  { r with
    instruments := r.instruments.map fun (registration, events) =>
      (registration, if registration.key = key then events ++ [event] else events) }

def step (r : Reference) : Op → Reference
  | .register registration =>
    { r with
      instruments :=
        if registration.key ∈ r.instruments.map (·.1.key) then r.instruments
        else r.instruments ++ [(registration, [])]
      handles := r.handles ++ [registration.key] }
  | .record place call =>
    match r.handles[place]? with
    | some key => r.append key (.record call)
    | none => r
  | .collect =>
    { r with
      instruments := r.instruments.map fun (registration, events) =>
        (registration, events ++ [.collect])
      collected := r.collected ++ [r.instruments.filterMap fun (registration, events) =>
        expectedSnapshot r.defaultMax registration events] }

def run (defaultMax : Nat) (ops : List Op) : Reference :=
  ops.foldl step { defaultMax }

end Reference

/-- Equal but for the order of the data points. -/
inductive SamePoints : MetricSnapshot → MetricSnapshot → Prop
  | counter : points.Perm points' →
      SamePoints (.counter name description points) (.counter name description points')
  | gauge : points.Perm points' →
      SamePoints (.gauge name description points) (.gauge name description points')
  | histogram : points.Perm points' → SamePoints
      (.histogram name description boundaries points)
      (.histogram name description boundaries points')

/-- Equal but for the order of the metrics and of the data points of each. -/
def SameUpToOrder (snapshots snapshots' : List MetricSnapshot) : Prop :=
  ∃ reordered, snapshots.Perm reordered ∧ List.Forall₂ SamePoints reordered snapshots'

/-- A program and its registry: the handles that the registration calls
returned and what the collects did. -/
structure Program where
  registry : MetricsRegistry
  handles : List Nat := []
  collected : List (List MetricSnapshot) := []
  deriving DecidableEq, Repr

/-- A hash map may show its entries in any order. -/
inductive Program.Step : Program → Op → Program → Prop
  | register (registration : Registration) : Step p (.register registration)
      { p with
        registry := (registration.call p.registry).2
        handles := p.handles ++ [(registration.call p.registry).1] }
  | record (call : RecordCall) : p.handles[place]? = some handle →
      p.registry.instruments[handle]?.map (·.kind) = some call.measurement.kind →
      Step p (.record place call) { p with registry := (p.registry.record handle call).1 }
  | collect : SameUpToOrder snapshots p.registry.collect.1 → Step p .collect
      { p with registry := p.registry.collect.2, collected := p.collected ++ [snapshots] }

inductive Program.Runs (defaultMax : Nat) : List Op → Program → Prop
  | nil : Runs defaultMax [] { registry := .withMaxCardinality defaultMax }
  | concat : Runs defaultMax ops p → Step p op p' → Runs defaultMax (ops ++ [op]) p'

def registeredKeys (ops : List Op) : List Key :=
  ops.filterMap fun
    | .register registration => some registration.key
    | _ => none

/-- No two attribute multisets used on one instrument have one hash. Two places
are one instrument if they were registered under one kind and name. -/
def HashesSeparate (ops : List Op) : Prop :=
  ∀ place call place' call', .record place call ∈ ops → .record place' call' ∈ ops →
    (registeredKeys ops)[place]? = (registeredKeys ops)[place']? →
    attrsHashUnordered call.attrs = attrsHashUnordered call'.attrs → call.attrs.Perm call'.attrs

end Rolly.Metrics
