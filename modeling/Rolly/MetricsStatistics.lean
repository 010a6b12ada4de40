import Rolly.Lib.Tally
import Rolly.MetricsBuckets

/-!
# What a histogram reports

Boundaries are sorted and deduplicated when the histogram is created, and every
observation goes into one of the buckets between them. Here no number is NaN.
-/

namespace Rolly.Metrics

-- ---------------------------------------------------------------------------
-- Stored boundaries
-- ---------------------------------------------------------------------------

/-- What `sort_by` may make of a slice. It promises an order only if all values
can be compared. -/
structure SortsTo (boundaries sorted : List F64) : Prop where
  perm : sorted.Perm boundaries
  ordered : (∀ b ∈ boundaries, b.isNaN = false) → (sorted.map F64.key).Pairwise (· ≤ ·)

def deduped (sorted : List F64) : List F64 := sorted.eraseRepsBy F64.feq

section
variable {boundaries sorted : List F64}

theorem partialCmp_ne_gt_iff {a b : F64} (ha : a.isNaN = false) (hb : b.isNaN = false) :
    (a.partialCmp b).getD .eq ≠ .gt ↔ a.key ≤ b.key := by
  simp only [F64.partialCmp, ha, hb, Bool.or_self, Bool.false_eq_true, if_false, Option.getD_some,
    compare, compareOfLessAndEq]
  split
  · simp
    omega
  · split
    · simp
      omega
    · simp
      omega

theorem sortsTo_insertionSort (boundaries : List F64) : SortsTo boundaries
    (boundaries.insertionSort fun a b => (a.partialCmp b).getD .eq ≠ .gt) where
  perm := List.perm_insertionSort _ _
  ordered h := by
    rw [List.map_insertionSort _ (· ≤ ·) F64.key boundaries fun a ha b hb =>
      partialCmp_ne_gt_iff (h a ha) (h b hb)]
    exact List.pairwise_insertionSort _ _

theorem deduped_keys (h : ∀ b ∈ sorted, b.isNaN = false) :
    (deduped sorted).map F64.key = (sorted.map F64.key).destutter (· ≠ ·) := by
  rw [deduped, Dedup.eraseRepsBy_eq_destutter]
  refine List.map_destutter fun a ha b hb => ?_
  rw [← Bool.not_eq_true, F64.feq_iff (h a ha) (h b hb)]

theorem mem_deduped (hs : SortsTo boundaries sorted) (h : b ∈ deduped sorted) :
    b ∈ boundaries := by
  rw [deduped, Dedup.eraseRepsBy_eq_destutter] at h
  exact hs.perm.subset ((List.destutter_sublist _ _).subset h)

theorem deduped_ascending (hs : SortsTo boundaries sorted)
    (hb : ∀ b ∈ boundaries, b.isNaN = false) : Ascending (deduped sorted) where
  notNaN b hm := hb b (mem_deduped hs hm)
  strict := by
    have hkeys := Dedup.pairwise_lt_destutter (hs.ordered hb)
    rw [← deduped_keys fun b hm => hb b (hs.perm.subset hm), List.pairwise_map] at hkeys
    refine hkeys.imp_of_mem fun {a b} ha hm hlt => ?_
    exact (F64.lt_iff (hb a (mem_deduped hs ha)) (hb b (mem_deduped hs hm))).mpr hlt

/-- No value is lost but to an equal one. -/
theorem exists_deduped (hs : SortsTo boundaries sorted) (hb : ∀ b ∈ boundaries, b.isNaN = false)
    (h : b ∈ boundaries) : ∃ c ∈ deduped sorted, b.feq c := by
  have hm := (Dedup.mem_destutter_ne (hs.ordered hb)).mpr
    (List.mem_map_of_mem (hs.perm.symm.subset h))
  rw [← deduped_keys fun b hm => hb b (hs.perm.subset hm)] at hm
  obtain ⟨c, hc, hkey⟩ := List.mem_map.mp hm
  exact ⟨c, hc, (F64.feq_iff (hb b h) (hb c (mem_deduped hs hc))).mpr hkey.symm⟩

end

-- ---------------------------------------------------------------------------
-- Observations
-- ---------------------------------------------------------------------------

section
variable (boundaries values : List F64)

theorem observeAll_sum : (observeAll boundaries values).sum = values.foldl F64.add F64.zero :=
  (List.foldl_hom HistogramState.sum fun _ _ => rfl).symm

theorem observeAll_min : (observeAll boundaries values).min =
    Tally.extreme (fun v m => v.lt m) F64.infinity values :=
  (List.foldl_hom HistogramState.min fun _ _ => rfl).symm

theorem observeAll_max : (observeAll boundaries values).max =
    Tally.extreme (fun v m => m.lt v) F64.negInfinity values :=
  (List.foldl_hom HistogramState.max fun _ _ => rfl).symm

theorem observeAll_count : (observeAll boundaries values).count = UInt64.ofNat values.length := by
  induction values using List.reverseRecOn with
  | nil => rfl
  | append_singleton values value ih =>
    rw [observeAll, List.foldl_append, List.length_append, UInt64.ofNat_add, ← ih]
    rfl

theorem min_spec : (observeAll boundaries values).min.isNaN = false ∧
    ((observeAll boundaries values).min = F64.infinity ∨
      (observeAll boundaries values).min ∈ values) ∧
    ∀ v ∈ values, v.isNaN = false → (observeAll boundaries values).min.key ≤ v.key := by
  obtain ⟨hm, hfrom, -, hall⟩ := Tally.extreme_spec F64.key (fun v => !v.isNaN)
    (fun v m => v.lt m) F64.infinity
    (fun v m => by simp [F64.lt, and_assoc]) (by decide) values
  rw [observeAll_min]
  exact ⟨by simpa using hm, hfrom, fun v hv hn => hall v hv (by simp [hn])⟩

theorem max_spec : (observeAll boundaries values).max.isNaN = false ∧
    ((observeAll boundaries values).max = F64.negInfinity ∨
      (observeAll boundaries values).max ∈ values) ∧
    ∀ v ∈ values, v.isNaN = false → v.key ≤ (observeAll boundaries values).max.key := by
  obtain ⟨hm, hfrom, -, hall⟩ := Tally.extreme_spec (fun v => -v.key) (fun v => !v.isNaN)
    (fun v m => m.lt v) F64.negInfinity
    (fun v m => by simp [F64.lt, and_assoc, and_left_comm]) (by decide) values
  rw [observeAll_max]
  exact ⟨by simpa using hm, hfrom, fun v hv hn => by simpa using hall v hv (by simp [hn])⟩

theorem bucketIndex_lt (value : F64) : bucketIndex boundaries value < boundaries.length + 1 :=
  Nat.lt_succ_of_le List.findIdx_le_length

variable {boundaries values}

/-- What starts as a bound of all values ends as one of them. -/
theorem mem_of_bound {m start : F64} (hfrom : m = start ∨ m ∈ values) (hne : values ≠ [])
    (hbound : m = start → ∀ v ∈ values, v = start) : m ∈ values := by
  obtain heq | hmem := hfrom
  · obtain ⟨v, hv⟩ := List.exists_mem_of_ne_nil _ hne
    rwa [heq, ← hbound heq v hv]
  · exact hmem

theorem min_observed (hne : values ≠ []) (hnan : ∀ v ∈ values, v.isNaN = false) :
    (observeAll boundaries values).min ∈ values ∧
      ∀ v ∈ values, (observeAll boundaries values).min.le v := by
  obtain ⟨hm, hfrom, hall⟩ := min_spec boundaries values
  refine ⟨?_, fun v hv => (F64.le_iff hm (hnan v hv)).mpr (hall v hv (hnan v hv))⟩
  refine mem_of_bound hfrom hne fun hstart v hv => ?_
  exact F64.eq_infinity (hnan v hv) (hstart ▸ hall v hv (hnan v hv))

theorem max_observed (hne : values ≠ []) (hnan : ∀ v ∈ values, v.isNaN = false) :
    (observeAll boundaries values).max ∈ values ∧
      ∀ v ∈ values, v.le (observeAll boundaries values).max := by
  obtain ⟨hm, hfrom, hall⟩ := max_spec boundaries values
  refine ⟨?_, fun v hv => (F64.le_iff (hnan v hv) hm).mpr (hall v hv (hnan v hv))⟩
  refine mem_of_bound hfrom hne fun hstart v hv => ?_
  exact F64.eq_negInfinity (hnan v hv) (hstart ▸ hall v hv (hnan v hv))

/-- The buckets together hold all observations, as far as a `u64` counts them. -/
theorem observeAll_total :
    ((observeAll boundaries values).bucketCounts.map UInt64.toNat).sum % 2 ^ 64 =
      values.length % 2 ^ 64 := by
  have htotal := Tally.sum_countP_range (bucketIndex boundaries)
    (fun value (_ : value ∈ values) => bucketIndex_lt boundaries value)
  have hmod : (observeAll boundaries values).bucketCounts.map UInt64.toNat =
      ((List.range (boundaries.length + 1)).map fun i =>
        values.countP (bucketIndex boundaries · = i)).map (· % 2 ^ 64) := by
    rw [bucketCounts_eq, List.map_map, List.map_map]
    exact List.map_congr_left fun i _ => UInt64.toNat_ofNat'
  rw [hmod, ← List.sum_nat_mod, htotal]

/-- Fewer than `2 ^ 64` observations are counted exactly. -/
theorem observeAll_exact (hlt : values.length < 2 ^ 64) :
    (observeAll boundaries values).bucketCounts.map UInt64.toNat =
      (List.range (boundaries.length + 1)).map fun i =>
        values.countP (bucketIndex boundaries · = i) := by
  rw [bucketCounts_eq, List.map_map]
  refine List.map_congr_left fun i _ => UInt64.toNat_ofNat_of_lt' ?_
  exact Nat.lt_of_le_of_lt List.countP_le_length hlt

end

-- ---------------------------------------------------------------------------
-- Data points
-- ---------------------------------------------------------------------------

def acceptedOn (instrument : Instrument) (attrs : Attrs) (events : List InstrumentEvent) :
    List F64 :=
  ((instrument.accepted events).filter fun call =>
    attrsHashUnordered call.attrs = attrsHashUnordered attrs).filterMap observedBy

/-- The data point says of its observations how many there are in each bucket
and in all, how large they are together, and which are the least and the
greatest. Numbers of observations are modulo `2 ^ 64`, and exact below that. -/
structure Summarizes (boundaries observed : List F64) (point : HistogramDataPoint) : Prop where
  nonempty : observed ≠ []
  buckets : point.bucketCounts = (List.range (boundaries.length + 1)).map fun i =>
    UInt64.ofNat (observed.countP (closedBelow boundaries i))
  indexed : ∀ v ∈ observed, bucketIndex boundaries v < point.bucketCounts.length
  total : (point.bucketCounts.map UInt64.toNat).sum % 2 ^ 64 = point.count.toNat
  count : point.count = UInt64.ofNat observed.length
  sum : point.sum = observed.foldl F64.add F64.zero
  min : point.min ∈ observed ∧ ∀ v ∈ observed, point.min.le v
  max : point.max ∈ observed ∧ ∀ v ∈ observed, v.le point.max
  exact : observed.length < 2 ^ 64 →
    point.bucketCounts.map UInt64.toNat = (List.range (boundaries.length + 1)).map (fun i =>
      observed.countP (closedBelow boundaries i)) ∧
    (point.bucketCounts.map UInt64.toNat).sum = point.count.toNat ∧
    point.count.toNat = observed.length

theorem summarizes_observeAll (hb : Ascending boundaries) (hne : observed ≠ [])
    (hnan : ∀ v ∈ observed, v.isNaN = false) (attrs : Attrs) (exemplar : Option Exemplar) :
    Summarizes boundaries observed
      (histogramDataPoint (attrs, observeAll boundaries observed, exemplar)) := by
  have hcounts := observeAll_counts hb hnan
  have hlength := observeAll_count boundaries observed
  have hcount : (observeAll boundaries observed).count.toNat = observed.length % 2 ^ 64 := by
    rw [hlength]
    exact UInt64.toNat_ofNat'
  refine ⟨hne, hcounts, fun v _ => ?_, observeAll_total.trans hcount.symm, hlength,
    observeAll_sum boundaries observed, min_observed hne hnan, max_observed hne hnan,
    fun hlt => ?_⟩
  · have hbuckets : (observeAll boundaries observed).bucketCounts.length =
        boundaries.length + 1 := by
      rw [hcounts, List.length_map, List.length_range]
    exact hbuckets ▸ bucketIndex_lt boundaries v
  · have hexact : (observeAll boundaries observed).bucketCounts.map UInt64.toNat =
        (List.range (boundaries.length + 1)).map fun i =>
          observed.countP (bucketIndex boundaries · = i) := observeAll_exact hlt
    have hsame : ((List.range (boundaries.length + 1)).map fun i =>
        observed.countP (bucketIndex boundaries · = i)) =
        (List.range (boundaries.length + 1)).map fun i =>
          observed.countP (closedBelow boundaries i) := by
      refine List.map_congr_left fun i hi => List.countP_congr fun value hm => ?_
      rw [decide_eq_true_eq, bucketIndex_eq_iff hb (hnan value hm)
        (Nat.lt_succ_iff.mp (List.mem_range.mp hi))]
    have htotal := Tally.sum_countP_range (bucketIndex boundaries)
      (fun value (_ : value ∈ observed) => bucketIndex_lt boundaries value)
    rw [Nat.mod_eq_of_lt hlt] at hcount
    exact ⟨hexact.trans hsame, (congrArg List.sum hexact).trans (htotal.trans hcount.symm), hcount⟩

theorem observedOn_ne_nil
    (htyped : ∀ call ∈ callsOf events, call.measurement.kind = .histogram)
    (hkept : attrsHashUnordered attrs ∈ keptKeys limit events) : observedOn attrs events ≠ [] := by
  obtain ⟨call, hc, hkey⟩ :=
    List.mem_map.mp (KeyedTable.mem_distinct.mp (List.mem_of_mem_take hkept))
  obtain ⟨value, hvalue⟩ : ∃ value, call.measurement = .observe value := by
    cases hm : call.measurement with
    | observe value => exact ⟨value, rfl⟩
    | _ => cases hm ▸ htyped call hc
  have hmem : value ∈ observedOn attrs events := by
    refine List.mem_filterMap.mpr ⟨call, List.mem_filter.mpr ⟨hc, decide_eq_true hkey⟩, ?_⟩
    rw [observedBy, hvalue]
  exact List.ne_nil_of_mem hmem

theorem acceptedOn_eq (name description : String) (boundaries : List F64) (limit : Nat)
    (htyped : ∀ call ∈ callsOf events, call.measurement.kind = .histogram)
    (hkept : attrsHashUnordered attrs ∈ keptKeys limit events) :
    acceptedOn (newHistogram name description boundaries limit) attrs events =
      observedOn attrs events := by
  let registration : Registration := .histogram name description boundaries (some limit)
  have haccepted : ((registration.instrument 0).replay []).accepted events =
      (callsOf events).filter fun call => attrsHashUnordered call.attrs ∈
        keptKeys (registration.limit 0) ([] ++ events) := accepted_replay htyped
  have hinstrument : (registration.instrument 0).replay [] =
      newHistogram name description boundaries limit := rfl
  rw [hinstrument] at haccepted
  rw [acceptedOn, observedOn, callsUnder, haccepted, List.filter_filter]
  refine congrArg _ (List.filter_congr fun call _ => ?_)
  by_cases hkey : attrsHashUnordered call.attrs = attrsHashUnordered attrs
  · have hlimit : registration.limit 0 = limit := rfl
    simp [hkey, hlimit, hkept]
  · simp [hkey]

/-- Every boundary is stored once, in order, and every data point says of the
accepted observations what it is for, as long as no NaN is involved. -/
theorem histogram_summarizes {boundaries : List F64} (hb : ∀ b ∈ boundaries, b.isNaN = false)
    (name description : String) (limit : Nat)
    (htyped : ∀ call ∈ callsOf events,
      ∃ value, call.measurement = .observe value ∧ value.isNaN = false) :
    (sortedBoundaries boundaries).Pairwise (·.lt ·) ∧
      (∀ b ∈ sortedBoundaries boundaries, b ∈ boundaries) ∧
      (∀ b ∈ boundaries, ∃ c ∈ sortedBoundaries boundaries, b.feq c) ∧
      ∀ snapshot, ((newHistogram name description boundaries limit).replay events).collect.1 =
          some snapshot →
        ∃ points, snapshot = .histogram name description (sortedBoundaries boundaries) points ∧
          ∀ point ∈ points, Summarizes (sortedBoundaries boundaries) (acceptedOn
            (newHistogram name description boundaries limit) point.attrs events) point := by
  have hsort := sortsTo_insertionSort boundaries
  have hascending : Ascending (sortedBoundaries boundaries) := deduped_ascending hsort hb
  refine ⟨hascending.strict, fun b hm => mem_deduped hsort hm,
    fun b hm => exists_deduped hsort hb hm, fun snapshot hs => ?_⟩
  have hkind := kind_of_observes htyped
  obtain ⟨points, rfl, hkeys, hpoints⟩ :=
    histogram_points (sortedBoundaries boundaries) name description limit hkind hs
  refine ⟨points, rfl, fun point hm => ?_⟩
  have hkept : attrsHashUnordered point.attrs ∈ keptKeys limit events :=
    hkeys ▸ List.mem_map_of_mem hm
  rw [acceptedOn_eq name description boundaries limit hkind hkept]
  obtain ⟨exemplar, hpoint⟩ := hpoints point hm
  have hsummary := summarizes_observeAll hascending (observedOn_ne_nil hkind hkept)
    (observedOn_spec htyped) point.attrs exemplar
  rwa [← hpoint] at hsummary

/-- Out of order, with a repetition and an infinity. -/
def unsorted : List F64 := [twenty, F64.infinity, ten, twenty]

def observeUnsorted : List InstrumentEvent :=
  [.record ⟨.observe ten, [], ⟨false, none, 0⟩⟩, .collect,
    .record ⟨.observe F64.infinity, [], ⟨false, none, 0⟩⟩]

theorem observeUnsorted_typed : ∀ call ∈ callsOf observeUnsorted,
    ∃ value, call.measurement = .observe value ∧ value.isNaN = false := by
  intro call hc
  obtain rfl | hc := List.mem_cons.mp hc
  · exact ⟨ten, rfl, by decide⟩
  · obtain rfl := List.mem_singleton.mp hc
    exact ⟨F64.infinity, rfl, by decide⟩

theorem histogram_summarizes_unsorted :
    (sortedBoundaries unsorted).Pairwise (·.lt ·) ∧
      (∀ b ∈ sortedBoundaries unsorted, b ∈ unsorted) ∧
      (∀ b ∈ unsorted, ∃ c ∈ sortedBoundaries unsorted, b.feq c) ∧
      ∀ snapshot, ((newHistogram "latency" "" unsorted 10).replay observeUnsorted).collect.1 =
          some snapshot →
        ∃ points, snapshot = .histogram "latency" "" (sortedBoundaries unsorted) points ∧
          ∀ point ∈ points, Summarizes (sortedBoundaries unsorted) (acceptedOn
            (newHistogram "latency" "" unsorted 10) point.attrs observeUnsorted) point :=
  histogram_summarizes (by decide) "latency" "" 10 observeUnsorted_typed

/-- One observation, again and again. -/
def observeTimes (n : Nat) : List InstrumentEvent :=
  List.replicate n (.record ⟨.observe F64.one, [], ⟨false, none, 0⟩⟩)

theorem callsOf_observeTimes (n : Nat) :
    callsOf (observeTimes n) = List.replicate n ⟨.observe F64.one, [], ⟨false, none, 0⟩⟩ := by
  rw [callsOf, observeTimes]
  exact List.filterMap_replicate_of_some rfl

theorem observeTimes_typed (n : Nat) : ∀ call ∈ callsOf (observeTimes n),
    ∃ value, call.measurement = .observe value ∧ value.isNaN = false := by
  intro call hc
  rw [callsOf_observeTimes] at hc
  rw [List.eq_of_mem_replicate hc]
  exact ⟨F64.one, rfl, by decide⟩

theorem observeTimes_count (hn : 0 < n) : ∃ points point,
    ((newHistogram "latency" "" [] 1).replay (observeTimes n)).collect.1 =
      some (.histogram "latency" "" [] points) ∧ point ∈ points ∧
    point.count.toNat = n % 2 ^ 64 ∧
    (acceptedOn (newHistogram "latency" "" [] 1) point.attrs (observeTimes n)).length = n := by
  have hkind := kind_of_observes (observeTimes_typed n)
  obtain ⟨points, hcollect, hkeys, hpoints⟩ :=
    histogram_collect [] "latency" "" 1 hkind
  have hkept : attrsHashUnordered [] ∈ keptKeys 1 (observeTimes n) := by
    obtain ⟨m, rfl⟩ := Nat.exists_eq_succ_of_ne_zero hn.ne'
    rw [keptKeys, hashesOf, callsOf_observeTimes, List.replicate_succ, List.map_cons,
      KeyedTable.distinct, List.eraseDups_cons, List.take_succ_cons]
    exact List.mem_cons_self
  obtain ⟨point, hm, hkey⟩ := List.mem_map.mp (hkeys ▸ hkept)
  have hlength : (observedOn point.attrs (observeTimes n)).length = n := by
    have hread : observedBy ⟨.observe F64.one, [], ⟨false, none, 0⟩⟩ = some F64.one := rfl
    rw [observedOn, callsUnder, hkey, callsOf_observeTimes, List.filter_replicate_of_pos (by rfl),
      List.filterMap_replicate_of_some hread, List.length_replicate]
  refine ⟨points, point, ?_, hm, ?_, ?_⟩
  · refine Eq.trans hcollect (if_neg fun hnone => ?_)
    rw [List.isEmpty_iff.mp hnone] at hm
    cases hm
  · obtain ⟨exemplar, hpoint⟩ := hpoints point hm
    rw [hpoint]
    exact (congrArg UInt64.toNat (observeAll_count _ _)).trans
      (UInt64.toNat_ofNat'.trans (congrArg (· % 2 ^ 64) hlength))
  · rw [acceptedOn_eq "latency" "" [] 1 hkind (hkey ▸ hkept), hlength]

/-- The counts wrap around to nothing. -/
theorem histogram_count_wraps : ¬∀ (boundaries : List F64) name description limit events points,
    (∀ b ∈ boundaries, b.isNaN = false) →
    (∀ call ∈ callsOf events, ∃ value, call.measurement = .observe value ∧ value.isNaN = false) →
    ((newHistogram name description boundaries limit).replay events).collect.1 =
      some (.histogram name description (sortedBoundaries boundaries) points) →
    ∀ point ∈ points, point.count.toNat = (acceptedOn
      (newHistogram name description boundaries limit) point.attrs events).length := by
  intro h
  obtain ⟨points, point, hcollect, hm, hcount, hlength⟩ :=
    observeTimes_count (n := 2 ^ 64) (by decide)
  have hsame := h [] "latency" "" 1 (observeTimes (2 ^ 64)) points (by simp)
    (observeTimes_typed (2 ^ 64)) hcollect point hm
  rw [hcount, hlength] at hsame
  exact absurd hsame (by decide)

end Rolly.Metrics
