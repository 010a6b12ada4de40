import Rolly.MetricsAccepted

/-!
# Which call an exemplar is from

A data point shows what the last call in a trace captured since the previous
collect. A collect takes it away.
-/

namespace Rolly

def MetricSnapshot.exemplarPoints : MetricSnapshot → List (Attrs × Option Exemplar)
  | .counter _ _ dataPoints => dataPoints.map fun (attrs, _, exemplar) => (attrs, exemplar)
  | .gauge _ _ dataPoints => dataPoints.map fun (attrs, _, exemplar) => (attrs, exemplar)
  | .histogram _ _ _ dataPoints => dataPoints.map fun point => (point.attrs, point.exemplar)

end Rolly

namespace Rolly.Metrics

-- ---------------------------------------------------------------------------
-- What is held under a key
-- ---------------------------------------------------------------------------

/-- The last exemplar that a call under the key captured since the last
collect. -/
def exemplarUnder (key : UInt64) (events : List InstrumentEvent) : Option Exemplar :=
  ((callsUnder key (sinceCollect events)).filterMap (·.exemplar)).getLast?

theorem exemplarUnder_record : exemplarUnder key (events ++ [.record call]) =
    if attrsHashUnordered call.attrs = key ∧ call.exemplar.isSome then call.exemplar
    else exemplarUnder key events := by
  rw [exemplarUnder, sinceCollect_record, callsUnder_append, List.filterMap_append]
  by_cases h : attrsHashUnordered call.attrs = key
  · cases he : call.exemplar <;> simp [callsUnder, h, he, exemplarUnder]
  · simp [callsUnder, h, exemplarUnder]

theorem exemplarUnder_collect : exemplarUnder key (events ++ [.collect]) = none := by
  rw [exemplarUnder, sinceCollect_collect]
  rfl

section
variable (fresh : V) (update : RecordCall → V → V)

theorem valueOf_exemplar (events : List InstrumentEvent) (key : UInt64) :
    (KeyedTable.valueOf (fun _ => none) (events.map (hashEvent fresh update)) key).bind (·.2.2) =
      exemplarUnder key events := by
  induction events using List.reverseRecOn with
  | nil => rfl
  | append_singleton events event ih =>
    rw [List.map_append, List.map_singleton, KeyedTable.valueOf_concat]
    generalize KeyedTable.valueOf (fun _ => none) (events.map (hashEvent fresh update)) key =
      entry at ih
    cases event with
    | record call =>
      rw [exemplarUnder_record, ← ih]
      by_cases hkey : attrsHashUnordered call.attrs = key
      · cases entry <;> cases he : call.exemplar <;>
          simp [hashEvent, KeyedTable.Event.on, hkey, updateEntry, he]
      · simp [hashEvent, KeyedTable.Event.on, hkey]
    | collect =>
      rw [exemplarUnder_collect]
      cases entry <;> rfl

theorem exemplar_of_mem (events : List InstrumentEvent) (inner : Inner V) (hnew : inner.data = [])
    (h : entry ∈ (events.foldl (Inner.apply fresh update) inner).data) :
    entry.1 ∈ keptKeys inner.maxCardinality events ∧ attrsHashUnordered entry.2.1 = entry.1 ∧
      entry.2.2.2 = exemplarUnder entry.1 events := by
  refine ⟨?_, (entry_of_mem fresh update events inner hnew h).1, ?_⟩
  · rw [← keys_foldl_apply fresh update events inner hnew]
    exact List.mem_map_of_mem h
  · have hm := List.mem_map_of_mem (f := fun e => (e.1, some e.2)) h
    have hentries := foldl_apply_entries fresh update events inner hnew
    rw [KeyedTable.mapValues] at hentries
    rw [hentries] at hm
    obtain ⟨key, -, hkey⟩ := List.mem_map.mp hm
    obtain ⟨rfl, hvalue⟩ := Prod.mk.inj hkey
    have hof := valueOf_exemplar fresh update events entry.1
    rwa [hvalue] at hof

theorem exemplar_of_shown (events : List InstrumentEvent) (inner : Inner V)
    (hnew : inner.data = [])
    (h : (attrs, exemplar) ∈ ((events.foldl (Inner.apply fresh update) inner).data.map (·.2)).map
      fun (attrs, _, exemplar) => (attrs, exemplar)) :
    attrsHashUnordered attrs ∈ keptKeys inner.maxCardinality events ∧
      exemplar = exemplarUnder (attrsHashUnordered attrs) events := by
  obtain ⟨shown, hshown, heq⟩ := List.mem_map.mp h
  obtain ⟨entry, hentry, rfl⟩ := List.mem_map.mp hshown
  obtain ⟨rfl, rfl⟩ := Prod.mk.inj heq
  obtain ⟨hkept, hkey, hexemplar⟩ := exemplar_of_mem fresh update events inner hnew hentry
  rw [hkey]
  exact ⟨hkept, hexemplar⟩

end

-- ---------------------------------------------------------------------------
-- What a collect shows
-- ---------------------------------------------------------------------------

theorem exemplarPoints_replay {registration : Registration}
    (htyped : ∀ call ∈ callsOf events, call.measurement.kind = registration.kind)
    (hs : ((registration.instrument defaultMax).replay events).collect.1 = some snapshot)
    (hm : (attrs, exemplar) ∈ snapshot.exemplarPoints) :
    attrsHashUnordered attrs ∈ keptKeys (registration.limit defaultMax) events ∧
      exemplar = exemplarUnder (attrsHashUnordered attrs) events := by
  cases registration with
  | counter name description max =>
    rw [Registration.instrument, newCounter, counter_replay htyped, collect_counter,
      Option.ite_none_left_eq_some] at hs
    obtain ⟨-, hs⟩ := hs
    obtain rfl := Option.some.inj hs
    exact exemplar_of_shown _ _ events _ rfl hm
  | gauge name description max =>
    rw [Registration.instrument, newGauge, gauge_replay htyped, collect_gauge,
      Option.ite_none_left_eq_some] at hs
    obtain ⟨-, hs⟩ := hs
    obtain rfl := Option.some.inj hs
    exact exemplar_of_shown _ _ events _ rfl hm
  | histogram name description boundaries max =>
    rw [Registration.instrument, newHistogram, histogram_replay htyped, collect_histogram,
      Option.ite_none_left_eq_some] at hs
    obtain ⟨-, hs⟩ := hs
    obtain rfl := Option.some.inj hs
    rw [MetricSnapshot.exemplarPoints, List.map_map] at hm
    exact exemplar_of_shown _ _ events _ rfl hm

-- ---------------------------------------------------------------------------
-- The call that captured it
-- ---------------------------------------------------------------------------

/-- The call was made in a trace, and this is its exemplar. A counter's amount
is stored with its bits. -/
structure RecordCall.Captures (call : RecordCall) (e : Exemplar) : Prop where
  installed : call.context.hasBeenSet
  current : call.context.current = some (e.traceId, e.spanId)
  nonzero : e.traceId ≠ Vector.replicate 16 0
  now : e.timeUnixNano = call.context.now
  value : e.value = call.measurement.exemplarValue

theorem captures_iff {call : RecordCall} : call.exemplar = some e ↔ call.Captures e := by
  constructor
  · intro h
    unfold RecordCall.exemplar captureExemplar at h
    split at h
    · cases h
    · next hset =>
      split at h
      · cases h
      · next hcurrent =>
        split at h
        · cases h
        · next hzero =>
          obtain rfl := Option.some.inj h
          exact ⟨by simpa using hset, hcurrent, hzero, rfl, rfl⟩
  · rintro ⟨hset, hcurrent, hzero, hnow, hvalue⟩
    obtain ⟨traceId, spanId, timeUnixNano, value⟩ := e
    obtain rfl : timeUnixNano = call.context.now := hnow
    obtain rfl : value = call.measurement.exemplarValue := hvalue
    have hzero : ¬traceId = Vector.replicate 16 0 := hzero
    simp [RecordCall.exemplar, captureExemplar, hset, hcurrent, hzero]

/-- Call `i` of the history captures the exemplar on the data point with this
key, the instrument accepts it, and no collect comes between it and `c`. -/
structure CapturedAt (instrument : Instrument) (events : List InstrumentEvent) (key : UInt64)
    (c i : Nat) (e : Exemplar) : Prop where
  before : i < c
  call : ∃ call, events[i]? = some (.record call) ∧ attrsHashUnordered call.attrs = key ∧
    (instrument.replay (events.take i)).accepts call.attrs ∧ call.Captures e
  since : ∀ j, i < j → j < c → events[j]? ≠ some .collect

theorem CapturedAt.unique {c c' i : Nat} (h : CapturedAt instrument events key c i e)
    (h' : CapturedAt instrument events' key' c' i e') (hc : events'[c]? = some .collect)
    (hc' : events[c']? = some .collect) : c' = c := by
  obtain hlt | rfl | hgt := Nat.lt_trichotomy c c'
  · exact absurd hc (h'.since c h.before hlt)
  · rfl
  · exact absurd hc' (h.since c' h'.before hgt)

theorem getElem?_concat_cases {l : List α} {i : Nat} (h : (l ++ [a])[i]? = some b) :
    l[i]? = some b ∨ i = l.length ∧ a = b := by
  obtain hlt | hge := Nat.lt_or_ge i l.length
  · exact .inl (by rwa [List.getElem?_append_left hlt] at h)
  · rw [List.getElem?_append_right hge] at h
    obtain ⟨hlt, hb⟩ := List.getElem?_eq_some_iff.mp h
    simp only [List.length_singleton, Nat.lt_one_iff] at hlt
    exact .inr ⟨by omega, by simpa [hlt] using hb⟩

theorem exemplarUnder_eq_some (h : exemplarUnder key past = some e) :
    ∃ (i : Nat) (call : RecordCall), past[i]? = some (.record call) ∧
      attrsHashUnordered call.attrs = key ∧ call.exemplar = some e ∧
      (∀ j : Nat, i < j → past[j]? ≠ some .collect) ∧
      ∀ (j : Nat) (other : RecordCall), i < j → past[j]? = some (.record other) →
        attrsHashUnordered other.attrs = key → other.exemplar = none := by
  induction past using List.reverseRecOn with
  | nil => cases h
  | append_singleton past event ih =>
    cases event with
    | collect =>
      rw [exemplarUnder_collect] at h
      cases h
    | record last =>
      rw [exemplarUnder_record] at h
      split at h
      · next hlast =>
        -- the last call captured it
        have hnone : ∀ j : Nat, past.length < j → (past ++ [.record last])[j]? = none := by
          intro j hj
          exact List.getElem?_eq_none (by simp; omega)
        refine ⟨past.length, last, List.getElem?_concat_length .., hlast.1, h, fun j hj hc => ?_,
          fun j other hj ho => ?_⟩
        · rw [hnone j hj] at hc
          cases hc
        · rw [hnone j hj] at ho
          cases ho
      · next hlast =>
        obtain ⟨i, call, hi, hkey, he, hcollect, hother⟩ := ih h
        refine ⟨i, call, ?_, hkey, he, fun j hj hc => ?_, fun j other hj ho hk => ?_⟩
        · rw [List.getElem?_append_left (List.getElem?_eq_some_iff.mp hi).1, hi]
        · obtain hc | ⟨-, hc⟩ := getElem?_concat_cases hc
          · exact hcollect j hj hc
          · cases hc
        · obtain ho | ⟨-, ho⟩ := getElem?_concat_cases ho
          · exact hother j other hj ho hk
          · cases ho
            simpa [hk] using hlast

theorem exemplarUnder_eq_none (h : exemplarUnder key past = none) {i : Nat}
    (hi : past[i]? = some (.record call)) (hkey : attrsHashUnordered call.attrs = key)
    (he : call.exemplar.isSome) : ∃ j, i < j ∧ past[j]? = some .collect := by
  induction past using List.reverseRecOn with
  | nil => cases hi
  | append_singleton past event ih =>
    cases event with
    | collect =>
      obtain hi | ⟨-, hi⟩ := getElem?_concat_cases hi
      · exact ⟨past.length, (List.getElem?_eq_some_iff.mp hi).1, List.getElem?_concat_length ..⟩
      · cases hi
    | record last =>
      rw [exemplarUnder_record] at h
      split at h
      · next hlast =>
        rw [h] at hlast
        cases hlast.2
      · next hlast =>
        obtain hi | ⟨-, hi⟩ := getElem?_concat_cases hi
        · obtain ⟨j, hj, hc⟩ := ih h hi
          refine ⟨j, hj, ?_⟩
          rw [List.getElem?_append_left (List.getElem?_eq_some_iff.mp hc).1, hc]
        · cases hi
          exact absurd ⟨hkey, he⟩ hlast

theorem accepts_of_kept {registration : Registration} {events : List InstrumentEvent}
    {call : RecordCall} {i c : Nat}
    (htyped : ∀ call ∈ callsOf (events.take i), call.measurement.kind = registration.kind)
    (hic : i < c) (hi : events[i]? = some (.record call))
    (hkept : attrsHashUnordered call.attrs ∈
      keptKeys (registration.limit defaultMax) (events.take c)) :
    ((registration.instrument defaultMax).replay (events.take i)).accepts call.attrs := by
  have hsplit : events.take c =
      events.take i ++ [.record call] ++ (events.take c).drop (i + 1) := by
    have htakes : (events.take c).take (i + 1) = events.take i ++ [.record call] := by
      rw [List.take_take, Nat.min_eq_left hic, List.take_add_one, hi]
      rfl
    rw [← htakes, List.take_append_drop]
  have hcame : attrsHashUnordered call.attrs ∈ hashesOf (events.take i ++ [.record call]) := by
    rw [hashesOf_append]
    exact List.mem_append_right _ (List.mem_singleton_self _)
  rw [hsplit] at hkept
  exact (accepts_replay htyped call).mpr ((mem_keptKeys_append hcame).mp hkept)

/-- The exemplar of a data point is that of the last accepted call to it that
was made in a trace since the previous collect, and there is none without such
a call. No other collect shows the same call's. -/
theorem exemplar_shown {registration : Registration}
    (htyped : ∀ call ∈ callsOf events, call.measurement.kind = registration.kind) {c : Nat}
    (hc : events[c]? = some .collect)
    (hs : ((registration.instrument defaultMax).replay (events.take c)).collect.1 = some snapshot)
    (hm : (attrs, exemplar) ∈ snapshot.exemplarPoints) :
    (∀ e, exemplar = some e → ∃ i,
      CapturedAt (registration.instrument defaultMax) events (attrsHashUnordered attrs) c i e ∧
      (∀ j other, CapturedAt (registration.instrument defaultMax) events
        (attrsHashUnordered attrs) c j other → j ≤ i) ∧
      ∀ c' key other, events[c']? = some .collect →
        CapturedAt (registration.instrument defaultMax) events key c' i other → c' = c) ∧
    (exemplar = none → ∀ i e, ¬CapturedAt (registration.instrument defaultMax) events
      (attrsHashUnordered attrs) c i e) := by
  have hlen : (events.take c).length = c := by
    rw [List.length_take, Nat.min_eq_left (Nat.le_of_lt (List.getElem?_eq_some_iff.mp hc).1)]
  have htake : ∀ i < c, (events.take c)[i]? = events[i]? := fun i hi => by
    rw [List.getElem?_take, if_pos hi]
  have hbefore : ∀ i x, (events.take c)[i]? = some x → i < c := fun i x hi => by
    have := (List.getElem?_eq_some_iff.mp hi).1
    omega
  have hpast : ∀ i, ∀ call ∈ callsOf (events.take i), call.measurement.kind = registration.kind :=
    fun i call hcall => htyped call (((List.take_sublist i events).filterMap _).subset hcall)
  obtain ⟨hkept, hheld⟩ := exemplarPoints_replay (hpast c) hs hm
  constructor
  · rintro e rfl
    obtain ⟨i, call, hi, hkey, he, hcollect, hother⟩ := exemplarUnder_eq_some hheld.symm
    have hic := hbefore i _ hi
    have hcall : events[i]? = some (.record call) := htake i hic ▸ hi
    have haccepted := accepts_of_kept (hpast i) hic hcall (hkey ▸ hkept)
    have hcaptured : CapturedAt (registration.instrument defaultMax) events
        (attrsHashUnordered attrs) c i e :=
      ⟨hic, ⟨call, hcall, hkey, haccepted, captures_iff.mp he⟩,
        fun j hj hjc hcol => hcollect j hj (htake j hjc ▸ hcol)⟩
    refine ⟨i, hcaptured, fun j other hj => ?_,
      fun c' key other hc' h' => hcaptured.unique h' hc hc'⟩
    obtain ⟨later, hj', hkey', -, hcaptures⟩ := hj.call
    by_contra hlt
    have hnone := hother j later (by omega) ((htake j hj.before).trans hj') hkey'
    rw [captures_iff.mpr hcaptures] at hnone
    cases hnone
  · rintro rfl i e ⟨hic, ⟨call, hi, hkey, -, hcaptures⟩, hsince⟩
    obtain ⟨j, hj, hcol⟩ := exemplarUnder_eq_none hheld.symm ((htake i hic).trans hi) hkey
      (by rw [captures_iff.mpr hcaptures]; rfl)
    have hjc := hbefore j _ hcol
    exact hsince j hj hjc (htake j hjc ▸ hcol)

def inTrace : TraceContext := ⟨true, some (.replicate 16 1, .replicate 8 2), 7⟩
def outside : TraceContext := ⟨true, none, 8⟩

/-- One call in a trace, one outside it, and one that finds no room. -/
def setInTrace : List InstrumentEvent :=
  [.record ⟨.set F64.zero, [], inTrace⟩, .record ⟨.set F64.one, [], outside⟩,
    .record ⟨.set F64.zero, [("path", "/")], inTrace⟩, .collect, .collect]

/-- The exemplar of the first call, and the value of the second. -/
def setExemplar : Exemplar := ⟨.replicate 16 1, .replicate 8 2, 7, .double F64.zero⟩

theorem exemplar_shown_once :
    let registration : Registration := .gauge "load" "" (some 1)
    (∀ e, some setExemplar = some e → ∃ i,
      CapturedAt (registration.instrument 10) setInTrace (attrsHashUnordered []) 3 i e ∧
      (∀ j other, CapturedAt (registration.instrument 10) setInTrace
        (attrsHashUnordered []) 3 j other → j ≤ i) ∧
      ∀ c' key other, setInTrace[c']? = some .collect →
        CapturedAt (registration.instrument 10) setInTrace key c' i other → c' = 3) ∧
    (some setExemplar = none → ∀ i e, ¬CapturedAt (registration.instrument 10) setInTrace
      (attrsHashUnordered []) 3 i e) := by
  intro registration
  have htyped : ∀ call ∈ callsOf setInTrace, call.measurement.kind = registration.kind := by
    decide +kernel
  have hs : ((registration.instrument 10).replay (setInTrace.take 3)).collect.1 =
      some (.gauge "load" "" [([], F64.one, some setExemplar)]) := by decide +kernel
  exact exemplar_shown htyped rfl hs (by decide +kernel)

/-- The number that was recorded is the number of the exemplar. -/
def Measurement.HasValue : Measurement → ExemplarValue → Prop
  | .add value, .int stored => stored.toInt = value.toNat
  | .set value, .double stored => stored = value
  | .observe value, .double stored => stored = value
  | _, _ => False

/-- An amount from `2 ^ 63` on is shown as a negative one. -/
theorem exemplar_not_amount : ¬∀ (registration : Registration) defaultMax events (c : Nat) snapshot
    attrs e, (∀ call ∈ callsOf events, call.measurement.kind = registration.kind) →
    events[c]? = some .collect →
    ((registration.instrument defaultMax).replay (events.take c)).collect.1 = some snapshot →
    (attrs, some e) ∈ snapshot.exemplarPoints →
    ∃ (i : Nat) (call : RecordCall), events[i]? = some (.record call) ∧
      call.measurement.HasValue e.value := by
  intro h
  obtain ⟨i, call, hi, hvalue⟩ := h (.counter "requests" "" none) 10
    [.record ⟨.add 0x8000000000000000, [], inTrace⟩, .collect] 1
    (.counter "requests" "" [([], Int64.minValue, some ⟨.replicate 16 1, .replicate 8 2, 7,
      .int Int64.minValue⟩)]) [] _ (by decide +kernel) rfl (by decide +kernel)
    (List.mem_singleton_self _)
  match i with
  | 0 =>
    obtain rfl := InstrumentEvent.record.inj (Option.some.inj hi)
    have hvalue : Int64.minValue.toInt = (0x8000000000000000 : UInt64).toNat := hvalue
    exact absurd hvalue (by decide)
  | 1 => cases hi
  | i + 2 => cases hi

end Rolly.Metrics
