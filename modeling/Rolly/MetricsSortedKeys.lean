import Rolly.MetricsReference

/-!
# Hashed keys are as good as sorted ones

The table under unordered hashes holds what a table under sorted attribute
lists would, as long as no two sets in use have one hash. That table in turn
holds what the history of the instrument says.
-/

namespace Rolly.Metrics

-- ---------------------------------------------------------------------------
-- Sorting and hashing
-- ---------------------------------------------------------------------------

theorem attrsHashUnordered_perm (h : attrs.Perm attrs') :
    attrsHashUnordered attrs = attrsHashUnordered attrs' := by
  refine h.foldl_eq' ?_ 0
  intro a _ b _ combined
  rw [UInt64.add_assoc, UInt64.add_comm (pairHash a), ← UInt64.add_assoc]

theorem ownedAttrs_perm (attrs : List (String × String)) : (ownedAttrs attrs).Perm attrs :=
  List.perm_insertionSort _ _

@[simp] theorem attrsHashUnordered_ownedAttrs (attrs : List (String × String)) :
    attrsHashUnordered (ownedAttrs attrs) = attrsHashUnordered attrs :=
  attrsHashUnordered_perm (ownedAttrs_perm attrs)

theorem ownedAttrs_congr (h : attrs.Perm attrs') : ownedAttrs attrs = ownedAttrs attrs' := by
  have hsorted (l : List (String × String)) :
      (ownedAttrs l).Pairwise fun a b => toLex a ≤ toLex b :=
    List.pairwise_insertionSort _ l
  refine List.Perm.eq_of_pairwise ?_ (hsorted attrs) (hsorted attrs') ?_
  · intro a b _ _ hab hba
    exact toLex_inj.mp (le_antisymm hab hba)
  · exact (ownedAttrs_perm attrs).trans (h.trans (ownedAttrs_perm attrs').symm)

-- ---------------------------------------------------------------------------
-- The table of one instrument
-- ---------------------------------------------------------------------------

/-- No two attribute sets of the history have one hash. -/
def Separates (events : List InstrumentEvent) : Prop :=
  ∀ call ∈ callsOf events, ∀ call' ∈ callsOf events,
    attrsHashUnordered call.attrs = attrsHashUnordered call'.attrs → call.attrs.Perm call'.attrs

theorem callsOf_append : callsOf (events ++ events') = callsOf events ++ callsOf events' :=
  List.filterMap_append

@[simp] theorem callsOf_record : callsOf [.record call] = [call] := rfl
@[simp] theorem callsOf_collect : callsOf [.collect] = [] := rfl

theorem Separates.of_append (h : Separates (events ++ events')) : Separates events := by
  intro call hc call' hc'
  rw [Separates, callsOf_append] at h
  exact h call (List.mem_append_left _ hc) call' (List.mem_append_left _ hc')

section
variable (fresh : V) (update : RecordCall → V → V)

/-- The events of an instrument on the fields that all kinds share. -/
def Inner.apply (inner : Inner V) : InstrumentEvent → Inner V
  | .record call => (inner.record call.attrs call.exemplar fresh (update call)).1
  | .collect => inner.take.2

/-- The same events on a table that is keyed by sorted attributes. -/
def tableEvent : InstrumentEvent → KeyedTable.Event Attrs (V × Option Exemplar)
  | .record call => .one (ownedAttrs call.attrs) fun (value, old) =>
      (update call value, if call.exemplar.isSome then call.exemplar else old)
  | .collect => .all fun (value, _) => (value, none)

def sortedTable (limit : Nat) (events : List InstrumentEvent) :
    KeyedTable Attrs (V × Option Exemplar) :=
  KeyedTable.replay limit (fun _ => (fresh, none)) (events.map (tableEvent update))

/-- The sorted attributes move from the key into the entry. -/
def hashKeys (t : KeyedTable Attrs (V × Option Exemplar)) :
    KeyedTable UInt64 (Attrs × V × Option Exemplar) :=
  t.rekey attrsHashUnordered fun attrs entry => (attrs, entry)

theorem keysOf_tableEvents (events : List InstrumentEvent) :
    KeyedTable.keysOf (events.map (tableEvent update)) =
      (callsOf events).map fun call => ownedAttrs call.attrs := by
  induction events with
  | nil => rfl
  | cons event events ih =>
    cases event with
    | record call => exact congrArg (ownedAttrs call.attrs :: ·) ih
    | collect => exact ih

theorem sortedTable_eq (limit : Nat) (events : List InstrumentEvent) :
    sortedTable fresh update limit events = ((attrSets events).take limit).map fun attrs =>
      (attrs, KeyedTable.valueOf (fun _ => (fresh, none)) (events.map (tableEvent update))
        attrs) := by
  rw [sortedTable, KeyedTable.replay_eq, keysOf_tableEvents]
  · rfl
  · -- a collect leaves an entry without exemplar alone
    intro g hg _
    obtain ⟨event, -, he⟩ := List.mem_map.mp hg
    cases event with
    | record call => cases he
    | collect =>
      obtain rfl := KeyedTable.Event.all.inj he
      rfl

theorem apply_sortedTable (inner : Inner V) (hsep : Separates (events ++ [event]))
    (hdata : inner.data = hashKeys (sortedTable fresh update inner.maxCardinality events)) :
    (inner.apply fresh update event).data =
      hashKeys (sortedTable fresh update inner.maxCardinality (events ++ [event])) := by
  rw [sortedTable, List.map_append, List.map_singleton, KeyedTable.replay_concat, ← sortedTable]
  cases event with
  | record call =>
    have hother : ∀ e ∈ sortedTable fresh update inner.maxCardinality events,
        attrsHashUnordered e.1 = attrsHashUnordered (ownedAttrs call.attrs) →
          e.1 = ownedAttrs call.attrs := by
      intro e he hhash
      rw [sortedTable_eq] at he
      obtain ⟨attrs, hattrs, rfl⟩ := List.mem_map.mp he
      have hused := KeyedTable.mem_distinct.mp (List.mem_of_mem_take hattrs)
      obtain ⟨call', hcall', rfl⟩ := List.mem_map.mp hused
      simp only [attrsHashUnordered_ownedAttrs] at hhash
      rw [Separates, callsOf_append, callsOf_record] at hsep
      exact ownedAttrs_congr (hsep call' (List.mem_append_left _ hcall') call (by simp) hhash)
    rw [Inner.apply, record_data, hdata, ← attrsHashUnordered_ownedAttrs]
    exact KeyedTable.upsert_rekey _ _ hother (by intro; rfl) (by rfl)
  | collect =>
    rw [Inner.apply, take_data, hdata]
    simp [hashKeys, KeyedTable.rekey, KeyedTable.apply, KeyedTable.mapValues, tableEvent,
      stripExemplar]

-- ---------------------------------------------------------------------------
-- The history of one entry
-- ---------------------------------------------------------------------------

theorem callsFor_append : callsFor attrs (events ++ events') =
    callsFor attrs events ++ callsFor attrs events' := by
  rw [callsFor, callsOf_append, List.filter_append]
  rfl

theorem sinceCollect_record :
    sinceCollect (events ++ [.record call]) = sinceCollect events ++ [.record call] := by
  simp [sinceCollect, InstrumentEvent.isRecord]

theorem sinceCollect_collect : sinceCollect (events ++ [.collect]) = [] := by
  simp [sinceCollect, InstrumentEvent.isRecord]

theorem exemplarFor_record : exemplarFor attrs (events ++ [.record call]) =
    if ownedAttrs call.attrs = attrs ∧ call.exemplar.isSome then call.exemplar
    else exemplarFor attrs events := by
  rw [exemplarFor, sinceCollect_record, callsFor_append, List.filterMap_append]
  by_cases h : ownedAttrs call.attrs = attrs
  · cases he : call.exemplar <;> simp [callsFor, h, he, exemplarFor]
  · simp [callsFor, h, exemplarFor]

theorem exemplarFor_collect : exemplarFor attrs (events ++ [.collect]) = none := by
  rw [exemplarFor, sinceCollect_collect]
  rfl

theorem valueOf_tableEvents (events : List InstrumentEvent) :
    KeyedTable.valueOf (fun _ => (fresh, none)) (events.map (tableEvent update)) attrs =
      ((callsFor attrs events).foldl (fun value call => update call value) fresh,
        exemplarFor attrs events) := by
  induction events using List.reverseRecOn with
  | nil => rfl
  | append_singleton events event ih =>
    rw [List.map_append, List.map_singleton, KeyedTable.valueOf_concat, ih, callsFor_append,
      List.foldl_append]
    cases event with
    | record call =>
      rw [exemplarFor_record]
      by_cases h : ownedAttrs call.attrs = attrs
      · simp [tableEvent, KeyedTable.Event.on, callsFor, h]
      · simp [tableEvent, KeyedTable.Event.on, callsFor, h]
    | collect =>
      rw [exemplarFor_collect]
      rfl

theorem foldl_apply_fields (events : List InstrumentEvent) (inner : Inner V) :
    (events.foldl (Inner.apply fresh update) inner).name = inner.name ∧
    (events.foldl (Inner.apply fresh update) inner).description = inner.description ∧
    (events.foldl (Inner.apply fresh update) inner).maxCardinality = inner.maxCardinality := by
  induction events generalizing inner with
  | nil => exact ⟨rfl, rfl, rfl⟩
  | cons event events ih =>
    rw [List.foldl_cons]
    obtain ⟨hname, hdescription, hmax⟩ := ih (inner.apply fresh update event)
    rw [hname, hdescription, hmax]
    cases event <;> simp [Inner.apply, take_data]

/-- An instrument shows what its history says, and nothing of how its table is
keyed. -/
theorem foldl_apply_data (inner : Inner V) (hnew : inner.data = []) (hsep : Separates events) :
    (events.foldl (Inner.apply fresh update) inner).data.map (·.2) =
      entries inner.maxCardinality
        (fun calls => calls.foldl (fun value call => update call value) fresh) events := by
  have hdata : (events.foldl (Inner.apply fresh update) inner).data =
      hashKeys (sortedTable fresh update inner.maxCardinality events) := by
    induction events using List.reverseRecOn with
    | nil => exact hnew
    | append_singleton events event ih =>
      obtain ⟨-, -, hmax⟩ := foldl_apply_fields fresh update events inner
      rw [List.foldl_append, List.foldl_cons, List.foldl_nil, ← hmax]
      refine apply_sortedTable fresh update _ hsep ?_
      rw [hmax, ih hsep.of_append]
  rw [hdata, hashKeys, KeyedTable.rekey, sortedTable_eq, List.map_map, List.map_map, entries]
  simp only [valueOf_tableEvents, Function.comp_def]

theorem replay_wrap (wrap : Inner V → Instrument)
    (hrecord : ∀ inner, ∀ call ∈ callsOf events, ((wrap inner).record call).1 =
      wrap (inner.record call.attrs call.exemplar fresh (update call)).1)
    (hcollect : ∀ inner, (wrap inner).values = wrap inner.take.2) (inner : Inner V) :
    (wrap inner).replay events = wrap (events.foldl (Inner.apply fresh update) inner) := by
  induction events using List.reverseRecOn with
  | nil => rfl
  | append_singleton events event ih =>
    rw [callsOf_append] at hrecord
    rw [replay_concat, ih fun inner call hc => hrecord inner call (List.mem_append_left _ hc),
      List.foldl_append]
    cases event with
    | record call => exact hrecord _ call (List.mem_append_right _ (List.mem_singleton_self _))
    | collect => exact hcollect _

/-- What a collect shows of any kind, given how it shows its shared fields. -/
theorem snapshot_wrap (wrap : Inner V → Instrument)
    (shown : String → String → List (Attrs × V × Option Exemplar) → MetricSnapshot)
    (hrecord : ∀ inner, ∀ call ∈ callsOf events, ((wrap inner).record call).1 =
      wrap (inner.record call.attrs call.exemplar fresh (update call)).1)
    (hvalues : ∀ inner, (wrap inner).values = wrap inner.take.2)
    (hcollect : ∀ inner, (wrap inner).collect.1 = if (inner.data.map (·.2)).isEmpty then none
      else some (shown inner.name inner.description (inner.data.map (·.2))))
    (inner : Inner V) (hnew : inner.data = []) (hsep : Separates events) :
    ((wrap inner).replay events).collect.1 =
      let points := entries inner.maxCardinality
        (fun calls => calls.foldl (fun value call => update call value) fresh) events
      if points.isEmpty then none else some (shown inner.name inner.description points) := by
  obtain ⟨hname, hdescription, -⟩ := foldl_apply_fields fresh update events inner
  rw [replay_wrap fresh update wrap hrecord hvalues, hcollect, hname, hdescription,
    foldl_apply_data fresh update inner hnew hsep]

end

-- ---------------------------------------------------------------------------
-- The three kinds
-- ---------------------------------------------------------------------------

def updateCounter (call : RecordCall) (value : Int64) : Int64 :=
  match call.measurement with
  | .add added => value + added.toInt64
  | _ => value

def updateGauge (call : RecordCall) (value : F64) : F64 :=
  match call.measurement with
  | .set new => new
  | _ => value

def updateHistogram (boundaries : List F64) (call : RecordCall) (state : HistogramState) :
    HistogramState :=
  match call.measurement with
  | .observe value => state.observe (bucketIndex boundaries value) value
  | _ => state

theorem ofNat_add_toInt64 (n : Nat) (v : UInt64) :
    Int64.ofNat n + v.toInt64 = Int64.ofNat (n + v.toNat) := by
  apply Int64.toBitVec_inj.mp
  simp [Int64.toBitVec_add, UInt64.toBitVec_toInt64]

theorem foldl_updateCounter (calls : List RecordCall) :
    calls.foldl (fun value call => updateCounter call value) 0 = counterValue calls := by
  induction calls using List.reverseRecOn with
  | nil => rfl
  | append_singleton calls call ih =>
    obtain ⟨measurement, attrs, context⟩ := call
    rw [List.foldl_append, ih]
    cases measurement with
    | add added =>
      simp [updateCounter, counterValue, addedBy, ofNat_add_toInt64]
    | _ => simp [updateCounter, counterValue, addedBy, List.filterMap_cons]

theorem foldl_updateGauge (calls : List RecordCall) :
    calls.foldl (fun value call => updateGauge call value) F64.zero = gaugeValue calls := by
  induction calls using List.reverseRecOn with
  | nil => rfl
  | append_singleton calls call ih =>
    obtain ⟨measurement, attrs, context⟩ := call
    rw [List.foldl_append, ih]
    cases measurement <;> simp [updateGauge, gaugeValue, setBy, List.filterMap_cons]

theorem foldl_updateHistogram (boundaries : List F64) (calls : List RecordCall) :
    calls.foldl (fun value call => updateHistogram boundaries call value) (.new boundaries) =
      histogramState boundaries calls := by
  induction calls using List.reverseRecOn with
  | nil => rfl
  | append_singleton calls call ih =>
    obtain ⟨measurement, attrs, context⟩ := call
    rw [List.foldl_append, ih]
    cases measurement <;>
      simp [updateHistogram, histogramState, observedBy, List.filterMap_cons]

theorem record_counter {call : RecordCall} (h : call.measurement.kind = .counter)
    (inner : CounterInner) : ((Instrument.counter inner).record call).1 =
      .counter (inner.record call.attrs call.exemplar 0 (updateCounter call)).1 := by
  obtain ⟨measurement, attrs, context⟩ := call
  cases measurement with
  | add value => rfl
  | _ => cases h

theorem record_gauge {call : RecordCall} (h : call.measurement.kind = .gauge)
    (inner : GaugeInner) : ((Instrument.gauge inner).record call).1 =
      .gauge (inner.record call.attrs call.exemplar F64.zero (updateGauge call)).1 := by
  obtain ⟨measurement, attrs, context⟩ := call
  cases measurement with
  | set value => rfl
  | _ => cases h

theorem record_histogram {call : RecordCall} (h : call.measurement.kind = .histogram)
    (boundaries : List F64) (inner : Inner HistogramState) :
    ((Instrument.histogram ⟨inner, boundaries⟩).record call).1 = .histogram
      ⟨(inner.record call.attrs call.exemplar (.new boundaries)
        (updateHistogram boundaries call)).1, boundaries⟩ := by
  obtain ⟨measurement, attrs, context⟩ := call
  cases measurement with
  | observe value => rfl
  | _ => cases h

theorem counter_replay (htyped : ∀ call ∈ callsOf events, call.measurement.kind = .counter)
    (inner : CounterInner) : (Instrument.counter inner).replay events =
      .counter (events.foldl (Inner.apply 0 updateCounter) inner) :=
  replay_wrap 0 updateCounter .counter (fun inner _ hc => record_counter (htyped _ hc) inner)
    values_counter inner

theorem gauge_replay (htyped : ∀ call ∈ callsOf events, call.measurement.kind = .gauge)
    (inner : GaugeInner) : (Instrument.gauge inner).replay events =
      .gauge (events.foldl (Inner.apply F64.zero updateGauge) inner) :=
  replay_wrap F64.zero updateGauge .gauge (fun inner _ hc => record_gauge (htyped _ hc) inner)
    values_gauge inner

theorem histogram_replay (htyped : ∀ call ∈ callsOf events, call.measurement.kind = .histogram)
    (boundaries : List F64) (inner : Inner HistogramState) :
    (Instrument.histogram ⟨inner, boundaries⟩).replay events = .histogram
      ⟨events.foldl (Inner.apply (.new boundaries) (updateHistogram boundaries)) inner,
        boundaries⟩ :=
  replay_wrap (.new boundaries) (updateHistogram boundaries)
    (fun inner => .histogram ⟨inner, boundaries⟩)
    (fun inner _ hc => record_histogram (htyped _ hc) boundaries inner)
    (fun _ => values_histogram _) inner

theorem collect_counter (inner : CounterInner) : (Instrument.counter inner).collect.1 =
    if (inner.data.map (·.2)).isEmpty then none
    else some (.counter inner.name inner.description (inner.data.map (·.2))) := by
  obtain ⟨_, _, _, _, data⟩ := inner
  cases data <;> rfl

theorem collect_gauge (inner : GaugeInner) : (Instrument.gauge inner).collect.1 =
    if (inner.data.map (·.2)).isEmpty then none
    else some (.gauge inner.name inner.description (inner.data.map (·.2))) := by
  obtain ⟨_, _, _, _, data⟩ := inner
  cases data <;> rfl

theorem collect_histogram (inner : HistogramInner) : (Instrument.histogram inner).collect.1 =
    if (inner.data.map (·.2)).isEmpty then none
    else some (.histogram inner.name inner.description inner.boundaries
      ((inner.data.map (·.2)).map histogramDataPoint)) := by
  obtain ⟨⟨_, _, _, _, data⟩, _⟩ := inner
  cases data <;> rfl

/-- What a collect shows of an instrument is what its history says. -/
theorem snapshot_replay
    (htyped : ∀ call ∈ callsOf events, call.measurement.kind = registration.kind)
    (hsep : Separates events) :
    ((registration.instrument defaultMax).replay events).collect.1 =
      expectedSnapshot defaultMax registration events := by
  cases registration with
  | counter name description max =>
    have h := snapshot_wrap 0 updateCounter .counter .counter
      (fun inner _ hc => record_counter (htyped _ hc) inner) values_counter collect_counter
      { name, description, maxCardinality := max.getD defaultMax } rfl hsep
    simp only [foldl_updateCounter] at h
    exact h
  | gauge name description max =>
    have h := snapshot_wrap F64.zero updateGauge .gauge .gauge
      (fun inner _ hc => record_gauge (htyped _ hc) inner) values_gauge collect_gauge
      { name, description, maxCardinality := max.getD defaultMax } rfl hsep
    simp only [foldl_updateGauge] at h
    exact h
  | histogram name description boundaries max =>
    let sorted := sortedBoundaries boundaries
    have h := snapshot_wrap (.new sorted) (updateHistogram sorted)
      (fun inner => .histogram ⟨inner, sorted⟩)
      (fun name description points =>
        .histogram name description sorted (points.map histogramDataPoint))
      (fun inner _ hc => record_histogram (htyped _ hc) sorted inner) (fun _ => values_histogram _)
      (fun _ => collect_histogram _)
      { name, description, maxCardinality := max.getD defaultMax } rfl hsep
    simp only [foldl_updateHistogram] at h
    exact h

end Rolly.Metrics
