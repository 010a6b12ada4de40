import Rolly.Lib.Dedup
import Rolly.MetricsAccepted
import Rolly.MetricsRoundTrip

/-!
# What the buckets count

An observation on a boundary is counted above it: the bounds of a bucket are
its lower one, which is in it, and its upper one, which is not.
-/

namespace Rolly.Metrics

-- ---------------------------------------------------------------------------
-- Boundaries
-- ---------------------------------------------------------------------------

structure Increasing (boundaries : List F64) : Prop where
  finite : ∀ b ∈ boundaries, b.isFinite
  strict : boundaries.Pairwise (·.lt ·)

theorem partialCmp_of_lt {a b : F64} (h : a.lt b) : (a.partialCmp b).getD .eq = .lt := by
  simp only [F64.lt, Bool.and_eq_true, Bool.not_eq_true', decide_eq_true_eq] at h
  obtain ⟨⟨ha, hb⟩, hlt⟩ := h
  simp [F64.partialCmp, ha, hb, compare, compareOfLessAndEq, hlt]

theorem sortedBoundaries_eq (hb : Increasing boundaries) :
    sortedBoundaries boundaries = boundaries := by
  have hsorted :
      boundaries.insertionSort (fun a b => (a.partialCmp b).getD .eq ≠ .gt) = boundaries :=
    List.Pairwise.insertionSort_eq (hb.strict.imp fun h => by simp [partialCmp_of_lt h])
  have hchain : boundaries.IsChain fun a b => a.feq b = false := by
    refine (hb.strict.imp fun {a b} h => ?_).isChain
    simp only [F64.lt, Bool.and_eq_true, Bool.not_eq_true', decide_eq_true_eq] at h
    simp only [F64.feq, h.1.1, h.1.2, Bool.not_false, Bool.true_and, decide_eq_false_iff_not]
    omega
  rw [sortedBoundaries, hsorted, Dedup.eraseRepsBy_eq_destutter,
    List.destutter_of_isChain _ _ hchain]

/-- Boundaries that may be infinite, each below the next. -/
structure Ascending (boundaries : List F64) : Prop where
  notNaN : ∀ b ∈ boundaries, b.isNaN = false
  strict : boundaries.Pairwise (·.lt ·)

theorem Increasing.ascending (hb : Increasing boundaries) : Ascending boundaries where
  notNaN b hm := F64.isNaN_of_isFinite (hb.finite b hm)
  strict := hb.strict

-- ---------------------------------------------------------------------------
-- Buckets
-- ---------------------------------------------------------------------------

/-- The observations that `observe` counts in bucket `i`. -/
def closedBelow (boundaries : List F64) (i : Nat) (value : F64) : Bool :=
  (i = 0 || boundaries[i - 1]?.all (·.le value)) && boundaries[i]?.all (value.lt ·)

/-- The observations that OTLP counts in bucket `i`: `explicit_bounds` are
inclusive upper bounds. -/
def closedAbove (boundaries : List F64) (i : Nat) (value : F64) : Bool :=
  (i = 0 || boundaries[i - 1]?.all (·.lt value)) && boundaries[i]?.all (value.le ·)

section
variable {boundaries : List F64} {value : F64} {i : Nat}

theorem Ascending.key_lt (hb : Ascending boundaries) (hi : i < boundaries.length)
    (hj : j < boundaries.length) (hij : i < j) : boundaries[i].key < boundaries[j].key :=
  (F64.lt_iff (hb.notNaN _ (List.getElem_mem _)) (hb.notNaN _ (List.getElem_mem _))).mp
    (List.pairwise_iff_getElem.mp hb.strict i j _ hj hij)

/-- All boundaries below the bucket are at most the value if the nearest is. -/
theorem Ascending.le_below (hb : Ascending boundaries) (hv : value.isNaN = false)
    (hi : i ≤ boundaries.length) :
    (∀ j (hj : j < i), boundaries[j].le value) ↔
      (i = 0 || boundaries[i - 1]?.all (·.le value)) = true := by
  cases i with
  | zero => simp
  | succ i =>
    have hlt : i < boundaries.length := hi
    have hle (j : Nat) (hj : j < boundaries.length) :
        boundaries[j].le value ↔ boundaries[j].key ≤ value.key :=
      F64.le_iff (hb.notNaN _ (List.getElem_mem hj)) hv
    simp only [Nat.add_sub_cancel, List.getElem?_eq_getElem hlt, Option.all_some]
    constructor
    · intro h
      simpa using h i (Nat.lt_succ_self i)
    · intro h j hj
      have hnear : boundaries[i].key ≤ value.key := (hle i hlt).mp (by simpa using h)
      refine (hle j (by omega)).mpr ?_
      obtain hji | rfl := Nat.lt_or_eq_of_le (Nat.lt_succ_iff.mp hj)
      · have := hb.key_lt (Nat.lt_trans hji hlt) hlt hji
        omega
      · exact hnear

theorem bucketIndex_eq_iff (hb : Ascending boundaries) (hv : value.isNaN = false)
    (hi : i ≤ boundaries.length) :
    bucketIndex boundaries value = i ↔ closedBelow boundaries i value := by
  rw [closedBelow, Bool.and_eq_true, ← hb.le_below hv hi, bucketIndex]
  obtain hlt | rfl := Nat.lt_or_eq_of_le hi
  · have hnot : (!boundaries[i].le value) = true ↔ value.lt boundaries[i] := by
      have hnan := hb.notNaN _ (List.getElem_mem hlt)
      rw [Bool.not_eq_true', ← Bool.not_eq_true, F64.le_iff hnan hv, F64.lt_iff hv hnan]
      omega
    rw [List.findIdx_eq hlt, hnot, List.getElem?_eq_getElem hlt, Option.all_some, and_comm]
    simp
  · rw [List.findIdx_eq_length, List.getElem?_eq_none (Nat.le_refl _)]
    simp only [Bool.not_eq_false', Option.all_none, and_true]
    exact List.forall_mem_iff_forall_getElem

end

def observeAll (boundaries values : List F64) : HistogramState :=
  values.foldl (fun state value => state.observe (bucketIndex boundaries value) value)
    (.new boundaries)

theorem bucketCounts_eq (boundaries values : List F64) :
    (observeAll boundaries values).bucketCounts = (List.range (boundaries.length + 1)).map
      fun i => UInt64.ofNat (values.countP fun value => bucketIndex boundaries value = i) := by
  induction values using List.reverseRecOn with
  | nil => simp [observeAll, HistogramState.new, List.map_const']
  | append_singleton values value ih =>
    rw [observeAll] at ih
    rw [observeAll, List.foldl_append, List.foldl_cons, List.foldl_nil, HistogramState.observe, ih]
    refine List.ext_getElem? fun i => ?_
    rw [List.getElem?_modify, List.getElem?_map, List.getElem?_map]
    cases hi : (List.range (boundaries.length + 1))[i]? with
    | none => simp
    | some k =>
      obtain rfl : i = k := by
        obtain ⟨hlt, hk⟩ := List.getElem?_eq_some_iff.mp hi
        simpa using hk
      by_cases h : bucketIndex boundaries value = i <;>
        simp [List.countP_append, h, UInt64.ofNat_add]

-- ---------------------------------------------------------------------------
-- What a collector reads
-- ---------------------------------------------------------------------------

/-- What was observed on the data point with these attributes. -/
def observedOn (attrs : Attrs) (events : List InstrumentEvent) : List F64 :=
  (callsUnder (attrsHashUnordered attrs) events).filterMap observedBy

section
variable {P : F64 → Prop}

theorem kind_of_observes
    (h : ∀ call ∈ callsOf events, ∃ value, call.measurement = .observe value ∧ P value) :
    ∀ call ∈ callsOf events, call.measurement.kind = .histogram := by
  intro call hc
  obtain ⟨value, hm, -⟩ := h call hc
  rw [hm]
  rfl

theorem observedOn_spec
    (h : ∀ call ∈ callsOf events, ∃ value, call.measurement = .observe value ∧ P value) :
    ∀ value ∈ observedOn attrs events, P value := by
  intro value hv
  obtain ⟨call, hc, ho⟩ := List.mem_filterMap.mp hv
  obtain ⟨value', hm, hp⟩ := h call (List.mem_filter.mp hc).1
  rw [observedBy, hm] at ho
  exact Option.some.inj ho ▸ hp

end

/-- One bucket more than bounds, and in each of them the number of observations
within it, as a `u64`. -/
def Counts (within : List F64 → Nat → F64 → Bool) (observed : List F64)
    (p : Otlp.HistogramDataPoint) : Prop :=
  p.bucketCounts = (List.range (p.explicitBounds.length + 1)).map fun i =>
    UInt64.ofNat (observed.countP (within p.explicitBounds i))

theorem observeAll_counts (hb : Ascending boundaries)
    (hnan : ∀ value ∈ values, value.isNaN = false) :
    (observeAll boundaries values).bucketCounts = (List.range (boundaries.length + 1)).map
      fun i => UInt64.ofNat (values.countP (closedBelow boundaries i)) := by
  rw [bucketCounts_eq]
  refine List.map_congr_left fun i hi =>
    congrArg UInt64.ofNat (List.countP_congr fun value hm => ?_)
  rw [decide_eq_true_eq, bucketIndex_eq_iff hb (hnan value hm)
    (Nat.lt_succ_iff.mp (List.mem_range.mp hi))]

/-- A histogram shows a data point for each key that is kept, with the outcome
of all observations under it. -/
theorem histogram_collect (boundaries : List F64) (name description : String) (limit : Nat)
    (htyped : ∀ call ∈ callsOf events, call.measurement.kind = .histogram) :
    ∃ points : List HistogramDataPoint,
      ((Instrument.histogram ⟨{ name, description, maxCardinality := limit },
          boundaries⟩).replay events).collect.1 =
        (if points.isEmpty then none else some (.histogram name description boundaries points)) ∧
      points.map (fun point => attrsHashUnordered point.attrs) = keptKeys limit events ∧
      ∀ point ∈ points, ∃ exemplar, point = histogramDataPoint (point.attrs,
        observeAll boundaries (observedOn point.attrs events), exemplar) := by
  obtain ⟨hname, hdescription, -⟩ := foldl_apply_fields (.new boundaries)
    (updateHistogram boundaries) events { name, description, maxCardinality := limit }
  rw [histogram_replay htyped, collect_histogram, hname, hdescription]
  refine ⟨_, if_congr (by simp) rfl rfl, ?_, fun point hm => ?_⟩
  · have hkeys := keys_foldl_apply (.new boundaries) (updateHistogram boundaries) events
      { name, description, maxCardinality := limit } rfl
    rw [← hkeys, List.map_map, List.map_map]
    exact List.map_congr_left fun entry hm => (entry_of_mem _ _ events _ rfl hm).1
  · obtain ⟨shown, hshown, rfl⟩ := List.mem_map.mp hm
    obtain ⟨entry, hmem, rfl⟩ := List.mem_map.mp hshown
    obtain ⟨hkey, hvalue⟩ := entry_of_mem _ _ events _ rfl hmem
    rw [foldl_updateHistogram, ← hkey] at hvalue
    have hattrs : (histogramDataPoint entry.2).attrs = entry.2.1 := rfl
    have hstate : entry.2.2.1 = observeAll boundaries (observedOn entry.2.1 events) := hvalue
    refine ⟨entry.2.2.2, ?_⟩
    rw [hattrs, ← hstate]

theorem histogram_points (boundaries : List F64) (name description : String) (limit : Nat)
    (htyped : ∀ call ∈ callsOf events, call.measurement.kind = .histogram)
    (hs : ((Instrument.histogram ⟨{ name, description, maxCardinality := limit },
      boundaries⟩).replay events).collect.1 = some snapshot) :
    ∃ points, snapshot = .histogram name description boundaries points ∧
      points.map (fun point => attrsHashUnordered point.attrs) = keptKeys limit events ∧
      ∀ point ∈ points, ∃ exemplar, point = histogramDataPoint (point.attrs,
        observeAll boundaries (observedOn point.attrs events), exemplar) := by
  obtain ⟨points, hcollect, hkeys, hpoints⟩ :=
    histogram_collect boundaries name description limit htyped
  rw [hcollect, Option.ite_none_left_eq_some] at hs
  exact ⟨points, (Option.some.inj hs.2).symm, hkeys, hpoints⟩

/-- Whatever snapshot was encoded, a collector reads back. -/
theorem read_encodeMetric (he : encodeMetric [] snapshot startTime time = some bytes)
    (hl : bytes.length ≤ Proto.vecCapacity) :
    Proto3.decodeMessage Otlp.mergeMetric {} bytes = some (snapshot.erased startTime time) := by
  rw [encodeMetric_nodes] at he
  have hshort := Proto.short_of_encodeNodes _ he (by simp [Proto.vecCapacity] at hl ⊢; omega)
  rw [Proto.encodeNodes_eq _ hshort] at he
  obtain rfl := Option.some.inj he
  exact (reads_metric_erased startTime time snapshot).decodeMessage
    (by simp [Proto.vecCapacity] at hl; omega)

/-- A collector that takes a bucket to be closed below and open above reads the
numbers of observations off the encoded metric. -/
theorem histogram_counts (hb : Increasing boundaries) (name description : String) (limit : Nat)
    (htyped : ∀ call ∈ callsOf events, ∃ value, call.measurement = .observe value ∧ value.isFinite)
    (hs : ((newHistogram name description boundaries limit).replay events).collect.1 =
      some snapshot)
    (he : encodeMetric [] snapshot startTime time = some bytes)
    (hl : bytes.length ≤ Proto.vecCapacity) :
    ∃ points metric histogram, snapshot = .histogram name description boundaries points ∧
      Proto3.decodeMessage Otlp.mergeMetric {} bytes = some metric ∧
      metric.data = some (.histogram histogram) ∧
      List.Forall₂ (fun point p => p.explicitBounds = boundaries ∧
        Counts closedBelow (observedOn point.attrs events) p) points histogram.dataPoints := by
  have hkind := kind_of_observes htyped
  rw [newHistogram, sortedBoundaries_eq hb] at hs
  obtain ⟨points, rfl, -, hpoints⟩ := histogram_points boundaries name description limit hkind hs
  refine ⟨points, _, _, rfl, read_encodeMetric he hl, rfl, ?_⟩
  refine List.forall₂_map_right_iff.mpr (List.forall₂_same.mpr fun point hm => ⟨rfl, ?_⟩)
  obtain ⟨exemplar, hpoint⟩ := hpoints point hm
  have hnan : ∀ value ∈ observedOn point.attrs events, value.isNaN = false :=
    fun value hv => F64.isNaN_of_isFinite (observedOn_spec htyped value hv)
  exact (congrArg HistogramDataPoint.bucketCounts hpoint).trans
    (observeAll_counts hb.ascending hnan)

def ten : F64 := ⟨0x4024000000000000⟩
def twenty : F64 := ⟨0x4034000000000000⟩

theorem increasing_ten_twenty : Increasing [ten, twenty] := ⟨by decide, by decide⟩

def observeTen : List InstrumentEvent := [.record ⟨.observe ten, [], ⟨false, none, 0⟩⟩]

theorem observeTen_typed : ∀ call ∈ callsOf observeTen,
    ∃ value, call.measurement = .observe value ∧ value.isFinite := by
  intro call hc
  obtain rfl := List.mem_singleton.mp hc
  exact ⟨ten, rfl, by decide⟩

def observedTen : MetricSnapshot :=
  .histogram "latency" "" [ten, twenty] [⟨[], [0, 1, 0], ten, 1, ten, ten, none⟩]

theorem observeTen_collect :
    ((newHistogram "latency" "" [ten, twenty] 10).replay observeTen).collect.1 =
      some observedTen := by
  decide +kernel

theorem observedTen_encode : ∃ bytes, encodeMetric [] observedTen 0 1 = some bytes ∧
    bytes.length ≤ Proto.vecCapacity := by
  rw [encodeMetric_nodes, Proto.encodeNodes_eq _ (by decide +kernel)]
  exact ⟨_, rfl, by decide +kernel⟩

theorem histogram_counts_ten : ∃ bytes, encodeMetric [] observedTen 0 1 = some bytes ∧
    ∃ points metric histogram, observedTen = .histogram "latency" "" [ten, twenty] points ∧
      Proto3.decodeMessage Otlp.mergeMetric {} bytes = some metric ∧
      metric.data = some (.histogram histogram) ∧
      List.Forall₂ (fun point p => p.explicitBounds = [ten, twenty] ∧
        Counts closedBelow (observedOn point.attrs observeTen) p) points histogram.dataPoints := by
  obtain ⟨bytes, he, hl⟩ := observedTen_encode
  exact ⟨bytes, he, histogram_counts increasing_ten_twenty "latency" "" 10 observeTen_typed
    observeTen_collect he hl⟩

/-- A collector that takes the bounds to be inclusive upper bounds, as OTLP has
it, finds ten in the wrong bucket. -/
theorem histogram_not_closedAbove : ¬∀ boundaries name description limit events snapshot startTime
    time bytes, Increasing boundaries →
    (∀ call ∈ callsOf events, ∃ value, call.measurement = .observe value ∧ value.isFinite) →
    ((newHistogram name description boundaries limit).replay events).collect.1 = some snapshot →
    encodeMetric [] snapshot startTime time = some bytes → bytes.length ≤ Proto.vecCapacity →
    ∃ points metric histogram, snapshot = .histogram name description boundaries points ∧
      Proto3.decodeMessage Otlp.mergeMetric {} bytes = some metric ∧
      metric.data = some (.histogram histogram) ∧
      List.Forall₂ (fun point p => p.explicitBounds = boundaries ∧
        Counts closedAbove (observedOn point.attrs events) p) points histogram.dataPoints := by
  intro h
  obtain ⟨bytes, he, hl⟩ := observedTen_encode
  obtain ⟨points, metric, histogram, hsnapshot, hread, hdata, habove⟩ := h _ _ _ 10 _ _ _ _ bytes
    increasing_ten_twenty observeTen_typed observeTen_collect he hl
  -- what is read has ten in bucket 1
  cases hsnapshot
  cases hread.symm.trans (read_encodeMetric he hl)
  cases hdata
  obtain ⟨⟨-, hp⟩, -⟩ := List.forall₂_cons.mp habove
  rw [Counts] at hp
  exact absurd hp (by decide +kernel)

end Rolly.Metrics
