import Rolly.MetricsStatistics

/-!
# What NaN does to a histogram

NaN compares with nothing, so neither `dedup` nor the updates of the extremes
see it. The boundaries keep it, and a data point with no other observation
still has the extremes that it began with.
-/

namespace Rolly.Metrics

-- ---------------------------------------------------------------------------
-- Boundaries
-- ---------------------------------------------------------------------------

section
variable {boundaries sorted : List F64}

theorem lt_of_isNaN {x y : F64} (h : x.isNaN) : x.lt y = false ∧ y.lt x = false := by
  simp [F64.lt, h]

theorem mem_deduped_of_isNaN (hx : x.isNaN) (h : x ∈ sorted) : x ∈ deduped sorted := by
  rw [deduped, Dedup.eraseRepsBy_eq_destutter]
  obtain ⟨c, hc, rfl | heq⟩ := Dedup.exists_kept (R := fun a b => F64.feq a b = false) h
  · exact hc
  · simp [F64.feq, hx] at heq

theorem eq_singleton_of_strict {l : List F64} (h : l.Pairwise (·.lt ·)) (hx : x.isNaN)
    (hm : x ∈ l) : l = [x] := by
  obtain ⟨front, back, rfl⟩ := List.append_of_mem hm
  rw [List.pairwise_append, List.pairwise_cons] at h
  obtain ⟨-, ⟨hback, -⟩, hfront⟩ := h
  have hf : front = [] := by
    refine List.eq_nil_iff_forall_not_mem.mpr fun a ha => ?_
    have := hfront a ha x List.mem_cons_self
    rw [(lt_of_isNaN hx).2] at this
    cases this
  have hb : back = [] := by
    refine List.eq_nil_iff_forall_not_mem.mpr fun b hb => ?_
    have := hback b hb
    rw [(lt_of_isNaN hx).1] at this
    cases this
  rw [hf, hb]
  rfl

theorem deduped_strict_iff (hs : SortsTo boundaries sorted) :
    (deduped sorted).Pairwise (·.lt ·) ↔
      (∀ b ∈ boundaries, b.isNaN = false) ∨ boundaries.length ≤ 1 := by
  constructor
  · intro h
    by_contra hnot
    rw [not_or] at hnot
    obtain ⟨hnan, hlength⟩ := hnot
    obtain ⟨x, hx⟩ := not_forall.mp hnan
    obtain ⟨hm, hx⟩ := Classical.not_imp.mp hx
    have hx : x.isNaN := by simpa using hx
    have hm := hs.perm.symm.subset hm
    have hone := eq_singleton_of_strict h hx (mem_deduped_of_isNaN hx hm)
    have hall : ∀ b ∈ sorted, b = x := by
      intro b hb
      obtain ⟨c, hc, hrel⟩ := Dedup.exists_kept (R := fun a b => F64.feq a b = false) hb
      rw [← Dedup.eraseRepsBy_eq_destutter, ← deduped, hone, List.mem_singleton] at hc
      obtain rfl | heq := hrel
      · exact hc
      · simp [hc, F64.feq, hx] at heq
    -- all are NaN, so none was dropped
    have hsame : deduped sorted = sorted := by
      rw [deduped, Dedup.eraseRepsBy_eq_destutter]
      refine List.destutter_of_isChain _ _
        (List.pairwise_of_forall_mem_list fun a ha b hb => ?_).isChain
      simp [F64.feq, hall a ha, hx]
    have := hs.perm.length_eq
    rw [← hsame, hone, List.length_singleton] at this
    omega
  · rintro (hnan | hlength)
    · exact (deduped_ascending hs hnan).strict
    · have hshort : (deduped sorted).length ≤ 1 := by
        rw [deduped, Dedup.eraseRepsBy_eq_destutter]
        exact (List.destutter_sublist _ _).length_le.trans (hs.perm.length_eq.le.trans hlength)
      rcases hd : deduped sorted with _ | ⟨b, _ | ⟨c, rest⟩⟩
      · exact .nil
      · exact List.pairwise_singleton _ b
      · rw [hd] at hshort
        simp at hshort

end

-- ---------------------------------------------------------------------------
-- Extremes
-- ---------------------------------------------------------------------------

theorem min_le_max_iff (boundaries values : List F64) :
    (observeAll boundaries values).min.le (observeAll boundaries values).max ↔
      ∃ v ∈ values, v.isNaN = false := by
  obtain ⟨hmin, hminfrom, hminall⟩ := min_spec boundaries values
  obtain ⟨hmax, hmaxfrom, hmaxall⟩ := max_spec boundaries values
  constructor
  · intro h
    obtain heq | hm := hminfrom
    · obtain heq' | hm := hmaxfrom
      · rw [heq, heq'] at h
        exact absurd h (by decide)
      · exact ⟨_, hm, hmax⟩
    · exact ⟨_, hm, hmin⟩
  · rintro ⟨v, hv, hn⟩
    exact (F64.le_iff hmin hmax).mpr ((hminall v hv hn).trans (hmaxall v hv hn))

/-- In every history the boundaries are in order, and so are the extremes of
every data point that a collect shows, exactly if the slice has no NaN or one
value only and every key that has a data point at a collect came with a number
before. -/
theorem histogram_ordered_iff (hs : SortsTo boundaries sorted) (name description : String)
    (limit : Nat) (htyped : ∀ call ∈ callsOf events, call.measurement.kind = .histogram) :
    ((deduped sorted).Pairwise (·.lt ·) ∧ ∀ c : Nat, events[c]? = some .collect →
      ∀ snapshot, ((Instrument.histogram ⟨{ name, description, maxCardinality := limit },
          deduped sorted⟩).replay (events.take c)).collect.1 = some snapshot →
        ∃ points, snapshot = .histogram name description (deduped sorted) points ∧
          ∀ point ∈ points, point.min.le point.max) ↔
    ((∀ b ∈ boundaries, b.isNaN = false) ∨ boundaries.length ≤ 1) ∧
      ∀ c : Nat, events[c]? = some .collect → ∀ key ∈ keptKeys limit (events.take c),
        ∃ v ∈ (callsUnder key (events.take c)).filterMap observedBy, v.isNaN = false := by
  refine and_congr (deduped_strict_iff hs) (forall_congr' fun c => imp_congr_right fun _ => ?_)
  have hpast : ∀ call ∈ callsOf (events.take c), call.measurement.kind = .histogram :=
    fun call hcall => htyped call (((List.take_sublist c events).filterMap _).subset hcall)
  obtain ⟨points, hcollect, hkeys, hpoints⟩ :=
    histogram_collect (deduped sorted) name description limit hpast
  have hpoint : ∀ point ∈ points, point.min.le point.max ↔
      ∃ v ∈ observedOn point.attrs (events.take c), v.isNaN = false := by
    intro point hm
    obtain ⟨exemplar, heq⟩ := hpoints point hm
    have hmin := congrArg HistogramDataPoint.min heq
    have hmax := congrArg HistogramDataPoint.max heq
    rw [hmin, hmax]
    exact min_le_max_iff _ _
  rw [hcollect]
  constructor
  · intro h key hkey
    obtain ⟨point, hm, rfl⟩ := List.mem_map.mp (hkeys ▸ hkey)
    have hshown : points.isEmpty = false := by
      rw [List.isEmpty_eq_false_iff]
      exact List.ne_nil_of_mem hm
    obtain ⟨points', heq, hle⟩ := h _ (if_neg (by simp [hshown]))
    cases heq
    exact (hpoint point hm).mp (hle point hm)
  · intro h snapshot hs
    obtain ⟨-, hs⟩ := Option.ite_none_left_eq_some.mp hs
    refine ⟨points, (Option.some.inj hs).symm, fun point hm => (hpoint point hm).mpr ?_⟩
    exact h _ (hkeys ▸ List.mem_map_of_mem hm)

/-- A repetition out of order, and NaN before the first number. -/
def nanFirst : List InstrumentEvent :=
  [.record ⟨.observe F64.nan, [], ⟨false, none, 0⟩⟩,
    .record ⟨.observe ten, [], ⟨false, none, 0⟩⟩, .collect]

theorem sortsTo_twenty : SortsTo [twenty, ten, ten] [ten, ten, twenty] where
  perm := by decide
  ordered _ := by decide

theorem histogram_ordered_nanFirst :
    ((deduped [ten, ten, twenty]).Pairwise (·.lt ·) ∧
      ∀ c : Nat, nanFirst[c]? = some .collect →
      ∀ snapshot, ((Instrument.histogram
          ⟨{ name := "latency", description := "", maxCardinality := 10 },
            deduped [ten, ten, twenty]⟩).replay (nanFirst.take c)).collect.1 = some snapshot →
        ∃ points, snapshot = .histogram "latency" "" (deduped [ten, ten, twenty]) points ∧
          ∀ point ∈ points, point.min.le point.max) ↔
    ((∀ b ∈ [twenty, ten, ten], b.isNaN = false) ∨ [twenty, ten, ten].length ≤ 1) ∧
      ∀ c : Nat, nanFirst[c]? = some .collect → ∀ key ∈ keptKeys 10 (nanFirst.take c),
        ∃ v ∈ (callsUnder key (nanFirst.take c)).filterMap observedBy, v.isNaN = false :=
  histogram_ordered_iff sortsTo_twenty "latency" "" 10 (by decide)

/-- A data point that has only NaN shows infinity as its least value and
negative infinity as its greatest. -/
theorem histogram_not_ordered : ¬∀ (boundaries sorted : List F64) name description limit
    (events : List InstrumentEvent), SortsTo boundaries sorted →
    (∀ call ∈ callsOf events, call.measurement.kind = .histogram) →
    (deduped sorted).Pairwise (·.lt ·) ∧ ∀ c : Nat, events[c]? = some .collect →
      ∀ snapshot, ((Instrument.histogram ⟨{ name, description, maxCardinality := limit },
          deduped sorted⟩).replay (events.take c)).collect.1 = some snapshot →
        ∃ points, snapshot = .histogram name description (deduped sorted) points ∧
          ∀ point ∈ points, point.min.le point.max := by
  intro h
  obtain ⟨points, hpoints, hle⟩ := (h [] [] "latency" "" 10
    [.record ⟨.observe F64.nan, [], ⟨false, none, 0⟩⟩, .collect] ⟨.refl _, fun _ => .nil⟩
    (by decide)).2 1 rfl (.histogram "latency" "" [] [⟨[], [1], F64.nan, 1, F64.infinity,
      F64.negInfinity, none⟩]) (by decide +kernel)
  cases hpoints
  exact absurd (hle _ (List.mem_singleton_self _)) (by decide)

end Rolly.Metrics
