import Rolly.Metrics

/-!
# The metrics registry

Each kind has its map from names to shared instruments. A handle is the place
of its instrument among all that were ever allocated: two handles are clones
of one `Arc` if they are equal.
-/

namespace Rolly.Metrics

-- ---------------------------------------------------------------------------
-- New instruments
-- ---------------------------------------------------------------------------

def newCounter (name description : String) (maxCardinality : Nat) : Instrument :=
  .counter { name, description, maxCardinality }

def newGauge (name description : String) (maxCardinality : Nat) : Instrument :=
  .gauge { name, description, maxCardinality }

/-- `sort_by` is stable and takes what does not compare for equal, which is no
order if there is a NaN: the order is open then, or it panics. `dedup` drops
what equals the element kept before it. -/
def sortedBoundaries (boundaries : List F64) : List F64 :=
  (boundaries.insertionSort fun a b => (a.partialCmp b).getD .eq ≠ .gt).eraseRepsBy F64.feq

def newHistogram (name description : String) (boundaries : List F64) (maxCardinality : Nat) :
    Instrument :=
  .histogram { name, description, maxCardinality, boundaries := sortedBoundaries boundaries }

-- ---------------------------------------------------------------------------
-- Get or create
-- ---------------------------------------------------------------------------

structure MetricsRegistry where
  counters : KeyedTable String Nat := []
  gauges : KeyedTable String Nat := []
  histograms : KeyedTable String Nat := []
  instruments : List Instrument := []
  defaultMaxCardinality : Nat
  deriving DecidableEq, Repr

def MetricsRegistry.new : MetricsRegistry where
  defaultMaxCardinality := 2000

def MetricsRegistry.withMaxCardinality (maxCardinality : Nat) : MetricsRegistry where
  defaultMaxCardinality := maxCardinality

namespace MetricsRegistry

def handles (r : MetricsRegistry) : Kind → KeyedTable String Nat
  | .counter => r.counters
  | .gauge => r.gauges
  | .histogram => r.histograms

def setHandles (r : MetricsRegistry) (kind : Kind) (handles : KeyedTable String Nat) :
    MetricsRegistry :=
  match kind with
  | .counter => { r with counters := handles }
  | .gauge => { r with gauges := handles }
  | .histogram => { r with histograms := handles }

/-- The fast path, under the read lock. -/
def get (r : MetricsRegistry) (kind : Kind) (name : String) : Option Nat :=
  (r.handles kind).lookup name

/-- The slow path, under the write lock: `entry(name).or_insert_with(fresh)`. -/
def entry (r : MetricsRegistry) (kind : Kind) (name : String) (fresh : Instrument) :
    Nat × MetricsRegistry :=
  match r.get kind name with
  | some handle => (handle, r)
  | none =>
    let handle := r.instruments.length
    (handle, { r with instruments := r.instruments ++ [fresh] }.setHandles kind
      (r.handles kind ++ [(name, handle)]))

def getOrCreate (r : MetricsRegistry) (kind : Kind) (name : String) (fresh : Instrument) :
    Nat × MetricsRegistry :=
  match r.get kind name with
  | some handle => (handle, r)
  | none => r.entry kind name fresh

def counterWithMaxCardinality (r : MetricsRegistry) (name description : String)
    (maxCardinality : Nat) : Nat × MetricsRegistry :=
  r.getOrCreate .counter name (newCounter name description maxCardinality)

def counter (r : MetricsRegistry) (name description : String) : Nat × MetricsRegistry :=
  r.counterWithMaxCardinality name description r.defaultMaxCardinality

def gaugeWithMaxCardinality (r : MetricsRegistry) (name description : String)
    (maxCardinality : Nat) : Nat × MetricsRegistry :=
  r.getOrCreate .gauge name (newGauge name description maxCardinality)

def gauge (r : MetricsRegistry) (name description : String) : Nat × MetricsRegistry :=
  r.gaugeWithMaxCardinality name description r.defaultMaxCardinality

def histogramWithMaxCardinality (r : MetricsRegistry) (name description : String)
    (boundaries : List F64) (maxCardinality : Nat) : Nat × MetricsRegistry :=
  r.getOrCreate .histogram name (newHistogram name description boundaries maxCardinality)

def histogram (r : MetricsRegistry) (name description : String) (boundaries : List F64) :
    Nat × MetricsRegistry :=
  r.histogramWithMaxCardinality name description boundaries r.defaultMaxCardinality

-- ---------------------------------------------------------------------------
-- Recording and collecting
-- ---------------------------------------------------------------------------

def record (r : MetricsRegistry) (handle : Nat) (call : RecordCall) :
    MetricsRegistry × Option OverflowWarning :=
  match r.instruments[handle]? with
  | none => (r, none)
  | some instrument =>
    let (instrument, warning) := instrument.record call
    ({ r with instruments := r.instruments.set handle instrument }, warning)

def collectOne (r : MetricsRegistry) (handle : Nat) : Option MetricSnapshot × MetricsRegistry :=
  match r.instruments[handle]? with
  | none => (none, r)
  | some instrument =>
    let (snapshot, instrument) := instrument.collect
    (snapshot, { r with instruments := r.instruments.set handle instrument })

def collectEach (r : MetricsRegistry) : List Nat → List MetricSnapshot × MetricsRegistry
  | [] => ([], r)
  | handle :: rest =>
    let (snapshot, r) := r.collectOne handle
    let (snapshots, r) := r.collectEach rest
    (snapshot.toList ++ snapshots, r)

def collect (r : MetricsRegistry) : List MetricSnapshot × MetricsRegistry :=
  let (counters, r) := r.collectEach (r.counters.map (·.2))
  let (gauges, r) := r.collectEach (r.gauges.map (·.2))
  let (histograms, r) := r.collectEach (r.histograms.map (·.2))
  (counters ++ gauges ++ histograms, r)

end MetricsRegistry

-- ---------------------------------------------------------------------------
-- Registration calls
-- ---------------------------------------------------------------------------

/-- A call of `counter`, `gauge` or `histogram`, or of their variants with a
limit of their own. -/
inductive Registration
  | counter (name description : String) (maxCardinality : Option Nat)
  | gauge (name description : String) (maxCardinality : Option Nat)
  | histogram (name description : String) (boundaries : List F64) (maxCardinality : Option Nat)
  deriving DecidableEq, Repr

namespace Registration

def kind : Registration → Kind
  | .counter .. => .counter
  | .gauge .. => .gauge
  | .histogram .. => .histogram

def name : Registration → String
  | .counter name .. => name
  | .gauge name .. => name
  | .histogram name .. => name

/-- What the call inserts if it finds nothing. -/
def instrument (defaultMax : Nat) : Registration → Instrument
  | .counter name description max => newCounter name description (max.getD defaultMax)
  | .gauge name description max => newGauge name description (max.getD defaultMax)
  | .histogram name description boundaries max =>
    newHistogram name description boundaries (max.getD defaultMax)

def call (r : MetricsRegistry) : Registration → Nat × MetricsRegistry
  | .counter name description none => r.counter name description
  | .counter name description (some max) => r.counterWithMaxCardinality name description max
  | .gauge name description none => r.gauge name description
  | .gauge name description (some max) => r.gaugeWithMaxCardinality name description max
  | .histogram name description boundaries none => r.histogram name description boundaries
  | .histogram name description boundaries (some max) =>
    r.histogramWithMaxCardinality name description boundaries max

end Registration

end Rolly.Metrics
