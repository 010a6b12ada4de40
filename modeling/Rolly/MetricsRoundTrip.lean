import Rolly.OtlpRoundTrip

/-!
# Exported metrics read back
-/

namespace Rolly

open Proto

-- ---------------------------------------------------------------------------
-- Attributes and exemplars
-- ---------------------------------------------------------------------------

/-- The attributes of a data point are those of a span, all strings. -/
def attrsErased (attrs : Attrs) : List Otlp.KeyValue :=
  attrs.filterMap fun (k, v) => KeyValue.erased ⟨k, .string v⟩

theorem reads_attrs {merge : σ → Proto3.Field → Option σ} {field : UInt32}
    {push : σ → List Otlp.KeyValue → σ} (h : Repeats merge field Otlp.mergeKeyValue {} push)
    (attrs : Attrs) (s : σ) :
    Reads merge (attrsNodes field attrs) s (push s (attrsErased attrs)) := by
  have hr := reads_keyValues h (attrs.map fun (k, v) => ⟨k, .string v⟩) s
  rw [List.map_map, List.filterMap_map] at hr
  exact hr

def Exemplar.read (exemplar : Exemplar) : Otlp.Exemplar where
  timeUnixNano := exemplar.timeUnixNano
  value := some exemplar.value
  spanId := exemplar.spanId.toList
  traceId := exemplar.traceId.toList

theorem reads_exemplarValue (value : ExemplarValue) (time : UInt64) :
    Reads Otlp.mergeExemplar [.raw (encodeExemplarValue [] value)] { timeUnixNano := time }
      { timeUnixNano := time, value := some value } := by
  cases value with
  | int v => exact .fixed64Always (by decide) (by simp [Otlp.mergeExemplar])
  | double v => exact .fixed64Always (by decide) rfl

theorem reads_exemplar (exemplar : Exemplar) :
    Reads Otlp.mergeExemplar (exemplarNodes exemplar) {} exemplar.read := by
  refine .cons (.fixed64 (by decide) (fun h => by rw [h]) rfl) ?_
  refine .cons (reads_exemplarValue exemplar.value exemplar.timeUnixNano) ?_
  refine .cons (.bytes (by decide) (fun h => by rw [h]) fun _ => rfl) ?_
  exact .bytes (by decide) (fun h => by rw [Exemplar.read, h]) fun _ => rfl

theorem exemplarNodes_ne_nil (exemplar : Exemplar) : nodesBytes (exemplarNodes exemplar) ≠ [] := by
  simp [exemplarNodes, Node.bytes]

theorem reads_exemplarField {merge : σ → Proto3.Field → Option σ} {field : UInt32}
    {push : σ → List Otlp.Exemplar → σ} (h : Repeats merge field Otlp.mergeExemplar {} push)
    (exemplar : Option Exemplar) (s : σ) :
    Reads merge (exemplarFieldNodes field exemplar) s
      (push s (exemplar.toList.map Exemplar.read)) := by
  cases exemplar with
  | none =>
    rw [Option.toList_none, List.map_nil, h.nil]
    exact .nil
  | some ex =>
    exact .message h.number (reads_exemplar ex) (fun hz => absurd hz (exemplarNodes_ne_nil ex))
      fun _ b hd => h.item s b ex.read hd

-- ---------------------------------------------------------------------------
-- Data points
-- ---------------------------------------------------------------------------

section
variable (startTime time : UInt64)

def counterDataPointRead (dp : CounterDataPoint) : Otlp.NumberDataPoint where
  attributes := attrsErased dp.1
  startTimeUnixNano := startTime
  timeUnixNano := time
  value := some (.asInt dp.2.1)
  exemplars := dp.2.2.toList.map Exemplar.read

theorem reads_numberTimes : Reads Otlp.mergeNumberDataPoint
    [.raw (encodeFixed64Field [] 2 startTime), .raw (encodeFixed64Field [] 3 time)] {}
    { startTimeUnixNano := startTime, timeUnixNano := time } := by
  refine .cons (.fixed64 (by decide) (fun h => by rw [h]) rfl) ?_
  exact .fixed64 (by decide) (fun h => by rw [h]) rfl

theorem number_exemplars : Repeats Otlp.mergeNumberDataPoint 5 Otlp.mergeExemplar {}
    fun p ys => { p with exemplars := p.exemplars ++ ys } where
  number := by decide
  nil := by simp
  append := by simp
  item p b y hd := by simp [Otlp.mergeNumberDataPoint, hd]

theorem number_attributes : Repeats Otlp.mergeNumberDataPoint 7 Otlp.mergeKeyValue {}
    fun p ys => { p with attributes := p.attributes ++ ys } where
  number := by decide
  nil := by simp
  append := by simp
  item p b y hd := by simp [Otlp.mergeNumberDataPoint, hd]

theorem reads_counterDataPoint (dp : CounterDataPoint) :
    Reads Otlp.mergeNumberDataPoint (counterDataPointNodes startTime time dp) {}
      (counterDataPointRead startTime time dp) := by
  have hv (p : Otlp.NumberDataPoint) : Reads Otlp.mergeNumberDataPoint
      [.raw (encodeFixed64FieldAlways [] 6 dp.2.1.toUInt64)] p
      { p with value := some (.asInt dp.2.1) } :=
    .fixed64Always (by decide) (by simp [Otlp.mergeNumberDataPoint])
  have h := (((reads_numberTimes startTime time).append (reads_exemplarField
    number_exemplars dp.2.2 _)).append (hv _)).append (reads_attrs number_attributes dp.1 _)
  exact h

def gaugeDataPointRead (dp : GaugeDataPoint) : Otlp.NumberDataPoint where
  attributes := attrsErased dp.1
  startTimeUnixNano := startTime
  timeUnixNano := time
  value := some (.asDouble dp.2.1)
  exemplars := dp.2.2.toList.map Exemplar.read

theorem reads_gaugeDataPoint (dp : GaugeDataPoint) :
    Reads Otlp.mergeNumberDataPoint (gaugeDataPointNodes startTime time dp) {}
      (gaugeDataPointRead startTime time dp) := by
  have hv (p : Otlp.NumberDataPoint) : Reads Otlp.mergeNumberDataPoint
      [.raw (encodeFixed64FieldAlways [] 4 dp.2.1.bits)] p
      { p with value := some (.asDouble dp.2.1) } :=
    .fixed64Always (by decide) rfl
  have h := (((reads_numberTimes startTime time).append (hv _)).append
    (reads_exemplarField number_exemplars dp.2.2 _)).append (reads_attrs number_attributes dp.1 _)
  exact h

def histogramDataPointRead (boundaries : List F64) (dp : HistogramDataPoint) :
    Otlp.HistogramDataPoint where
  startTimeUnixNano := startTime
  timeUnixNano := time
  count := dp.count
  sum := some dp.sum
  bucketCounts := dp.bucketCounts
  explicitBounds := boundaries
  exemplars := dp.exemplar.toList.map Exemplar.read
  attributes := attrsErased dp.attrs
  min := some dp.min
  max := some dp.max

theorem reads_packedFixed64 {merge : σ → Proto3.Field → Option σ} {field : UInt32}
    (hf : 0 < field.toNat ∧ field.toNat < 2 ^ 29) (values : List UInt64)
    (h0 : values = [] → t = s)
    (h : merge s ⟨field.toNat, .len (values.flatMap Proto3.fixed64)⟩ = some t) :
    Reads merge [.raw (encodePackedFixed64Field [] field values)] s t := by
  rw [encodePackedFixed64Field_eq]
  refine .bytes hf (fun hz => h0 ?_) fun _ => h
  cases values with
  | nil => rfl
  | cons v vs => simp [Proto3.fixed64, Proto3.leBytes] at hz

theorem reads_histogramScalars (boundaries : List F64) (dp : HistogramDataPoint) :
    Reads Otlp.mergeHistogramDataPoint
      [.raw (encodeFixed64Field [] 2 startTime), .raw (encodeFixed64Field [] 3 time),
       .raw (encodeFixed64FieldAlways [] 4 dp.count),
       .raw (encodeFixed64FieldAlways [] 5 dp.sum.bits),
       .raw (encodePackedFixed64Field [] 6 dp.bucketCounts),
       .raw (encodePackedDoubleField [] 7 boundaries)] {}
      { startTimeUnixNano := startTime, timeUnixNano := time, count := dp.count, sum := some dp.sum,
        bucketCounts := dp.bucketCounts, explicitBounds := boundaries } := by
  refine .cons (.fixed64 (by decide) (fun h => by rw [h]) rfl) ?_
  refine .cons (.fixed64 (by decide) (fun h => by rw [h]) rfl) ?_
  refine .cons (.fixed64Always (by decide) rfl) ?_
  refine .cons (.fixed64Always (by decide) rfl) ?_
  refine .cons (t := ⟨startTime, time, dp.count, some dp.sum, dp.bucketCounts, [], [], [], none,
    none⟩) (reads_packedFixed64 (by decide) _ (fun h => by rw [h]) ?_) ?_
  · simp [Otlp.mergeHistogramDataPoint, Proto3.decodePacked64_flatMap]
  · rw [encodePackedDoubleField_eq]
    refine reads_packedFixed64 (by decide) _ (fun h => ?_) ?_
    · rw [List.map_eq_nil_iff.mp h]
    · simp [Otlp.mergeHistogramDataPoint, Proto3.decodePacked64_flatMap]
      exact List.map_id _

theorem histogram_exemplars : Repeats Otlp.mergeHistogramDataPoint 8 Otlp.mergeExemplar {}
    fun p ys => { p with exemplars := p.exemplars ++ ys } where
  number := by decide
  nil := by simp
  append := by simp
  item p b y hd := by simp [Otlp.mergeHistogramDataPoint, hd]

theorem histogram_attributes : Repeats Otlp.mergeHistogramDataPoint 9 Otlp.mergeKeyValue {}
    fun p ys => { p with attributes := p.attributes ++ ys } where
  number := by decide
  nil := by simp
  append := by simp
  item p b y hd := by simp [Otlp.mergeHistogramDataPoint, hd]

theorem reads_histogramDataPoint (boundaries : List F64) (dp : HistogramDataPoint) :
    Reads Otlp.mergeHistogramDataPoint (histogramDataPointNodes startTime time boundaries dp) {}
      (histogramDataPointRead startTime time boundaries dp) := by
  have hm (p : Otlp.HistogramDataPoint) : Reads Otlp.mergeHistogramDataPoint
      [.raw (encodeFixed64FieldAlways [] 11 dp.min.bits),
       .raw (encodeFixed64FieldAlways [] 12 dp.max.bits)] p
      { p with min := some dp.min, max := some dp.max } :=
    .cons (.fixed64Always (by decide) rfl) (.fixed64Always (by decide) rfl)
  have h := (((reads_histogramScalars startTime time boundaries dp).append
    (reads_attrs histogram_attributes dp.attrs _)).append
    (reads_exemplarField histogram_exemplars dp.exemplar _)).append (hm _)
  exact h

-- ---------------------------------------------------------------------------
-- Metrics
-- ---------------------------------------------------------------------------

theorem counterDataPointNodes_ne_nil (dp : CounterDataPoint) :
    nodesBytes (counterDataPointNodes startTime time dp) ≠ [] := by
  simp [counterDataPointNodes, nodesBytes_append, Node.bytes]

theorem gaugeDataPointNodes_ne_nil (dp : GaugeDataPoint) :
    nodesBytes (gaugeDataPointNodes startTime time dp) ≠ [] := by
  simp [gaugeDataPointNodes, Node.bytes]

theorem histogramDataPointNodes_ne_nil (boundaries : List F64) (dp : HistogramDataPoint) :
    nodesBytes (histogramDataPointNodes startTime time boundaries dp) ≠ [] := by
  simp [histogramDataPointNodes, Node.bytes]

def sumRead (dataPoints : List CounterDataPoint) : Otlp.Sum where
  dataPoints := dataPoints.map (counterDataPointRead startTime time)
  aggregationTemporality := .cumulative
  isMonotonic := true

theorem sum_dataPoints : Repeats Otlp.mergeSum 1 Otlp.mergeNumberDataPoint {}
    fun s ys => { s with dataPoints := s.dataPoints ++ ys } where
  number := by decide
  nil := by simp
  append := by simp
  item s b y hd := by simp [Otlp.mergeSum, hd]

theorem reads_sum (dataPoints : List CounterDataPoint) :
    Reads Otlp.mergeSum (sumNodes startTime time dataPoints) {}
      (sumRead startTime time dataPoints) := by
  refine .append (t := { dataPoints := dataPoints.map (counterDataPointRead startTime time) })
    ?_ ?_
  · exact .messages_all sum_dataPoints dataPoints
      (fun dp _ => counterDataPointNodes_ne_nil startTime time dp)
      (fun dp _ => reads_counterDataPoint startTime time dp) {}
  · exact .cons (.varint (by decide) nofun rfl) (.varint (by decide) nofun rfl)

def gaugeRead (dataPoints : List GaugeDataPoint) : Otlp.Gauge where
  dataPoints := dataPoints.map (gaugeDataPointRead startTime time)

theorem gauge_dataPoints : Repeats Otlp.mergeGauge 1 Otlp.mergeNumberDataPoint {}
    fun g ys => { g with dataPoints := g.dataPoints ++ ys } where
  number := by decide
  nil := by simp
  append := by simp
  item g b y hd := by simp [Otlp.mergeGauge, hd]

theorem reads_gauge (dataPoints : List GaugeDataPoint) :
    Reads Otlp.mergeGauge (gaugeMsgNodes startTime time dataPoints) {}
      (gaugeRead startTime time dataPoints) :=
  .messages_all gauge_dataPoints dataPoints
    (fun dp _ => gaugeDataPointNodes_ne_nil startTime time dp)
    (fun dp _ => reads_gaugeDataPoint startTime time dp) {}

def histogramRead (boundaries : List F64) (dataPoints : List HistogramDataPoint) :
    Otlp.Histogram where
  dataPoints := dataPoints.map (histogramDataPointRead startTime time boundaries)
  aggregationTemporality := .cumulative

theorem histogram_dataPoints : Repeats Otlp.mergeHistogram 1 Otlp.mergeHistogramDataPoint {}
    fun h ys => { h with dataPoints := h.dataPoints ++ ys } where
  number := by decide
  nil := by simp
  append := by simp
  item h b y hd := by simp [Otlp.mergeHistogram, hd]

theorem reads_histogram (boundaries : List F64) (dataPoints : List HistogramDataPoint) :
    Reads Otlp.mergeHistogram (histogramMsgNodes startTime time boundaries dataPoints) {}
      (histogramRead startTime time boundaries dataPoints) := by
  refine .append
    (t := { dataPoints := dataPoints.map (histogramDataPointRead startTime time boundaries) }) ?_ ?_
  · exact .messages_all histogram_dataPoints dataPoints
      (fun dp _ => histogramDataPointNodes_ne_nil startTime time boundaries dp)
      (fun dp _ => reads_histogramDataPoint startTime time boundaries dp) {}
  · exact .varint (by decide) nofun rfl

/-- The metric as read: same name, description, kind and data points. -/
def MetricSnapshot.read : MetricSnapshot → Otlp.Metric
  | .counter name description dataPoints =>
    { name, description, data := some (.sum (sumRead startTime time dataPoints)) }
  | .gauge name description dataPoints =>
    { name, description, data := some (.gauge (gaugeRead startTime time dataPoints)) }
  | .histogram name description boundaries dataPoints =>
    { name, description
      data := some (.histogram (histogramRead startTime time boundaries dataPoints)) }

theorem reads_metricHead (name description : String) : Reads Otlp.mergeMetric
    [.raw (encodeStringField [] 1 name), .raw (encodeStringField [] 2 description)] {}
    { name, description } := by
  refine .cons (t := { name }) (.string (by decide) (fun h => by rw [h]) fun _ => ?_)
    (.string (by decide) (fun h => by rw [h]) fun _ => ?_) <;>
  simp [Otlp.mergeMetric]

/-- The message of a metric with a data point is not empty; the other two
kinds would be written even without one. -/
theorem gaugeMsgNodes_ne_nil (dataPoints : List GaugeDataPoint) (h : 0 < dataPoints.length) :
    nodesBytes (gaugeMsgNodes startTime time dataPoints) ≠ [] := by
  obtain ⟨dp, dps, rfl⟩ := List.exists_cons_of_length_pos h
  simp [gaugeMsgNodes, Node.bytes, gaugeDataPointNodes_ne_nil]

/-- A gauge without data points is written without its data. -/
def MetricSnapshot.erased : MetricSnapshot → Otlp.Metric
  | .gauge name description [] => { name, description }
  | snapshot => snapshot.read startTime time

theorem MetricSnapshot.erased_of_pos (snapshot : MetricSnapshot) (h : 0 < snapshot.size) :
    snapshot.erased startTime time = snapshot.read startTime time := by
  cases snapshot with
  | gauge name description dataPoints =>
    obtain ⟨dp, dps, rfl⟩ := List.exists_cons_of_length_pos h
    rfl
  | _ => rfl

theorem reads_metric_erased (snapshot : MetricSnapshot) :
    Reads Otlp.mergeMetric (metricNodes startTime time snapshot) {}
      (snapshot.erased startTime time) := by
  cases snapshot with
  | counter name description dataPoints =>
    refine .append (reads_metricHead name description) ?_
    refine .message (by decide) (reads_sum startTime time dataPoints) (fun hz => ?_)
      fun _ b hd => ?_
    · simp [sumNodes, nodesBytes_append, Node.bytes] at hz
    · simp [Otlp.mergeMetric, hd, MetricSnapshot.erased, MetricSnapshot.read]
  | gauge name description dataPoints =>
    refine .append (reads_metricHead name description) ?_
    refine .message (by decide) (reads_gauge startTime time dataPoints) (fun hz => ?_)
      fun hz b hd => ?_
    · cases dataPoints with
      | nil => rfl
      | cons dp dps => exact absurd hz (gaugeMsgNodes_ne_nil startTime time _ (by simp))
    · cases dataPoints with
      | nil => simp [gaugeMsgNodes] at hz
      | cons dp dps => simp [Otlp.mergeMetric, hd, MetricSnapshot.erased, MetricSnapshot.read]
  | histogram name description boundaries dataPoints =>
    refine .append (reads_metricHead name description) ?_
    refine .message (by decide) (reads_histogram startTime time boundaries dataPoints)
      (fun hz => ?_) fun _ b hd => ?_
    · simp [histogramMsgNodes, nodesBytes_append, Node.bytes] at hz
    · simp [Otlp.mergeMetric, hd, MetricSnapshot.erased, MetricSnapshot.read]

theorem reads_metric (snapshot : MetricSnapshot) (h : 0 < snapshot.size) :
    Reads Otlp.mergeMetric (metricNodes startTime time snapshot) {}
      (snapshot.read startTime time) :=
  snapshot.erased_of_pos startTime time h ▸ reads_metric_erased startTime time snapshot

theorem metricNodes_ne_nil (snapshot : MetricSnapshot) (h : 0 < snapshot.size) :
    nodesBytes (metricNodes startTime time snapshot) ≠ [] := by
  cases snapshot with
  | counter => simp [metricNodes, sumNodes, nodesBytes_append, Node.bytes]
  | gauge => simp [metricNodes, Node.bytes, gaugeMsgNodes_ne_nil startTime time _ h]
  | histogram => simp [metricNodes, histogramMsgNodes, nodesBytes_append, Node.bytes]

/-- Whatever is exported reads back: every byte is consumed, and the resource
attributes, the scope and one metric for each snapshot come back in order, up
to the erasures of `requestErased` and `KeyValue.erased`. -/
theorem decodeExportMetricsRequest_encode (resourceAttrs : List KeyValue)
    (scopeName scopeVersion : String) (snapshots : List MetricSnapshot)
    (hne : ∀ snapshot ∈ snapshots, 0 < snapshot.size)
    (h : BodiesShort (requestNodes resourceAttrs scopeName scopeVersion
      (snapshots.map (metricNodes startTime time)))) :
    ∃ bytes, encodeExportMetricsRequest resourceAttrs scopeName scopeVersion snapshots startTime
        time = some bytes ∧
      Otlp.decodeExportMetricsRequest bytes = some (requestErased resourceAttrs scopeName
        scopeVersion (snapshots.map (MetricSnapshot.read startTime time))) := by
  rw [encodeExportMetricsRequest_nodes]
  exact decodeRequest_encodeNodes resourceAttrs scopeName scopeVersion snapshots
    (fun snapshot hs => metricNodes_ne_nil startTime time snapshot (hne snapshot hs))
    (fun snapshot hs => reads_metric startTime time snapshot (hne snapshot hs)) h

end

/-- One snapshot of each kind, with exemplars and an empty attribute value. -/
theorem decodeExportMetricsRequest_encode_kinds :
    ∃ bytes, encodeExportMetricsRequest [⟨"service.name", .string "svc"⟩] "rolly" ""
        [.counter "hits" "" [([("route", "/"), ("empty", "")], -1, none)],
         .gauge "load" "" [([], .one, some ⟨.replicate 16 1, .replicate 8 2, 0, .double .one⟩)],
         .histogram "latency" "ms" [.zero, .one] [⟨[], [0, 1, 0], .one, 1, .one, .one, none⟩]]
        0 7 = some bytes ∧
      Otlp.decodeExportMetricsRequest bytes =
        some (requestErased [⟨"service.name", .string "svc"⟩] "rolly" ""
          ([.counter "hits" "" [([("route", "/"), ("empty", "")], -1, none)],
            .gauge "load" "" [([], .one, some ⟨.replicate 16 1, .replicate 8 2, 0, .double .one⟩)],
            .histogram "latency" "ms" [.zero, .one]
              [⟨[], [0, 1, 0], .one, 1, .one, .one, none⟩]].map (MetricSnapshot.read 0 7))) :=
  decodeExportMetricsRequest_encode 0 7 _ _ _ _ (by decide) (by decide +kernel)

end Rolly
