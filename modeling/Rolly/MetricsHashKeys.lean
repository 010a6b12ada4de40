import Rolly.MetricsRefinement

/-!
# What hashed keys merge

The table of an instrument seen under its own keys: one entry for each hash,
with the attributes of the first call that had it and the outcome of all calls
that have it. Two attribute sets with one hash share an entry.
-/

namespace Rolly.Metrics

-- ---------------------------------------------------------------------------
-- The table of one instrument, by hashes
-- ---------------------------------------------------------------------------

def hashesOf (events : List InstrumentEvent) : List UInt64 :=
  (callsOf events).map fun call => attrsHashUnordered call.attrs

def callsUnder (key : UInt64) (events : List InstrumentEvent) : List RecordCall :=
  (callsOf events).filter fun call => attrsHashUnordered call.attrs = key

theorem hashesOf_append : hashesOf (events ++ events') = hashesOf events ++ hashesOf events' := by
  rw [hashesOf, callsOf_append, List.map_append]
  rfl

theorem callsUnder_append : callsUnder key (events ++ events') =
    callsUnder key events ++ callsUnder key events' := by
  rw [callsUnder, callsOf_append, List.filter_append]
  rfl

section
variable (fresh : V) (update : RecordCall → V → V)

/-- A missing entry is made for the call that misses it. -/
def hashEvent : InstrumentEvent → KeyedTable.Event UInt64 (Option (Attrs × V × Option Exemplar))
  | .record call => .one (attrsHashUnordered call.attrs) fun entry =>
      some (updateEntry call.exemplar (update call)
        (entry.getD (ownedAttrs call.attrs, fresh, none)))
  | .collect => .all (Option.map stripExemplar)

def hashTable (limit : Nat) (events : List InstrumentEvent) :
    KeyedTable UInt64 (Option (Attrs × V × Option Exemplar)) :=
  KeyedTable.replay limit (fun _ => none) (events.map (hashEvent fresh update))

theorem keysOf_hashEvents (events : List InstrumentEvent) :
    KeyedTable.keysOf (events.map (hashEvent fresh update)) = hashesOf events := by
  induction events with
  | nil => rfl
  | cons event events ih =>
    cases event with
    | record call => exact congrArg (attrsHashUnordered call.attrs :: ·) ih
    | collect => exact ih

theorem foldl_apply_hashTable (events : List InstrumentEvent) (inner : Inner V)
    (hnew : inner.data = []) : (events.foldl (Inner.apply fresh update) inner).data.mapValues some =
      hashTable fresh update inner.maxCardinality events := by
  induction events using List.reverseRecOn with
  | nil => rw [List.foldl_nil, hnew]; rfl
  | append_singleton events event ih =>
    obtain ⟨-, -, hmax⟩ := foldl_apply_fields fresh update events inner
    rw [List.foldl_append, List.foldl_cons, List.foldl_nil, hashTable, List.map_append,
      List.map_singleton, KeyedTable.replay_concat, ← hashTable, ← ih]
    cases event with
    | record call =>
      rw [Inner.apply, record_data, hmax]
      exact (KeyedTable.upsert_mapValues (by intro; rfl) (by rfl)).symm
    | collect =>
      rw [Inner.apply, take_data]
      simp [KeyedTable.mapValues, KeyedTable.apply, hashEvent]

theorem foldl_apply_entries (events : List InstrumentEvent) (inner : Inner V)
    (hnew : inner.data = []) : (events.foldl (Inner.apply fresh update) inner).data.mapValues some =
      ((KeyedTable.distinct (hashesOf events)).take inner.maxCardinality).map fun key =>
        (key, KeyedTable.valueOf (fun _ => none) (events.map (hashEvent fresh update)) key) := by
  rw [foldl_apply_hashTable fresh update events inner hnew, hashTable, KeyedTable.replay_eq,
    keysOf_hashEvents]
  intro g hg _
  obtain ⟨event, -, he⟩ := List.mem_map.mp hg
  cases event with
  | record call => cases he
  | collect =>
    obtain rfl := KeyedTable.Event.all.inj he
    rfl

/-- An entry has the attributes of the first call under its key, and the
outcome of all of them. -/
theorem valueOf_hashEvents (events : List InstrumentEvent) (key : UInt64) :
    (KeyedTable.valueOf (fun _ => none) (events.map (hashEvent fresh update)) key).map
        (fun (attrs, value, _) => (attrs, value)) =
      (callsUnder key events).head?.map fun first => (ownedAttrs first.attrs,
        (callsUnder key events).foldl (fun value call => update call value) fresh) := by
  induction events using List.reverseRecOn with
  | nil => rfl
  | append_singleton events event ih =>
    rw [List.map_append, List.map_singleton, KeyedTable.valueOf_concat, callsUnder_append]
    generalize KeyedTable.valueOf (fun _ => none) (events.map (hashEvent fresh update)) key =
      entry at ih
    cases event with
    | record call =>
      by_cases hkey : attrsHashUnordered call.attrs = key
      · rw [show callsUnder key [.record call] = [call] by simp [callsUnder, hkey],
          List.foldl_append]
        cases hcalls : callsUnder key events with
        | nil =>
          rw [hcalls, List.head?_nil, Option.map_none, Option.map_eq_none_iff] at ih
          simp [hashEvent, KeyedTable.Event.on, hkey, ih, updateEntry]
        | cons first rest =>
          rw [hcalls] at ih
          obtain ⟨⟨attrs, value, old⟩, rfl, he⟩ := Option.map_eq_some_iff.mp ih
          obtain ⟨rfl, rfl⟩ := Prod.mk.inj he
          simp [hashEvent, KeyedTable.Event.on, hkey, updateEntry]
      · rw [show callsUnder key [.record call] = [] by simp [callsUnder, hkey], List.append_nil]
        simpa [hashEvent, KeyedTable.Event.on, hkey] using ih
    | collect =>
      rw [show callsUnder key [.collect] = [] from rfl, List.append_nil, ← ih]
      simp only [hashEvent, KeyedTable.Event.on, Option.map_map]
      rfl

theorem entry_of_mem (events : List InstrumentEvent) (inner : Inner V) (hnew : inner.data = [])
    (h : entry ∈ (events.foldl (Inner.apply fresh update) inner).data) :
    attrsHashUnordered entry.2.1 = entry.1 ∧ entry.2.2.1 =
      (callsUnder entry.1 events).foldl (fun value call => update call value) fresh := by
  have hm := List.mem_map_of_mem (f := fun e => (e.1, some e.2)) h
  have hentries := foldl_apply_entries fresh update events inner hnew
  rw [KeyedTable.mapValues] at hentries
  rw [hentries] at hm
  obtain ⟨key, -, hkey⟩ := List.mem_map.mp hm
  obtain ⟨rfl, hvalue⟩ := Prod.mk.inj hkey
  have hof := valueOf_hashEvents fresh update events entry.1
  rw [hvalue] at hof
  obtain ⟨first, hfirst, heq⟩ := Option.map_eq_some_iff.mp hof.symm
  obtain ⟨hattrs, hfold⟩ := Prod.mk.inj heq
  refine ⟨?_, hfold.symm⟩
  have hmem := List.mem_of_head? hfirst
  rw [← hattrs, attrsHashUnordered_ownedAttrs]
  simpa using (List.mem_filter.mp hmem).2

theorem length_foldl_apply (events : List InstrumentEvent) (inner : Inner V)
    (hnew : inner.data = []) : (events.foldl (Inner.apply fresh update) inner).data.length =
      min inner.maxCardinality (KeyedTable.distinct (hashesOf events)).length := by
  have h := congrArg List.length (foldl_apply_entries fresh update events inner hnew)
  rwa [KeyedTable.length_mapValues, List.length_map, List.length_take] at h

end

-- ---------------------------------------------------------------------------
-- Merged attribute sets
-- ---------------------------------------------------------------------------

def pointCount (snapshot : Option MetricSnapshot) : Nat :=
  (snapshot.map MetricSnapshot.size).getD 0

theorem pointCount_shown {entries : List β} (shown : List β → MetricSnapshot)
    (h : (shown entries).size = entries.length) :
    pointCount (if entries.isEmpty then none else some (shown entries)) = entries.length := by
  cases entries with
  | nil => rfl
  | cons => exact h

theorem pointCount_expected (defaultMax : Nat) (registration : Registration)
    (events : List InstrumentEvent) : pointCount (expectedSnapshot defaultMax registration events) =
      min (registration.descriptor defaultMax).maxCardinality (attrSets events).length := by
  have hlength {V : Type} (limit : Nat) (value : List RecordCall → V) :
      (entries limit value events).length = min limit (attrSets events).length := by
    rw [entries, List.length_map, List.length_take]
  cases registration with
  | counter name description max =>
    exact (pointCount_shown _ rfl).trans (hlength _ _)
  | gauge name description max =>
    exact (pointCount_shown _ rfl).trans (hlength _ _)
  | histogram name description boundaries max =>
    refine (pointCount_shown (fun points => .histogram name description
      (sortedBoundaries boundaries) (points.map histogramDataPoint)) ?_).trans (hlength _ _)
    exact List.length_map _

theorem pointCount_replay {registration : Registration}
    (htyped : ∀ call ∈ callsOf events, call.measurement.kind = registration.kind) :
    pointCount ((registration.instrument defaultMax).replay events).collect.1 =
      min (registration.descriptor defaultMax).maxCardinality
        (KeyedTable.distinct (hashesOf events)).length := by
  cases registration with
  | counter name description max =>
    rw [Registration.instrument, newCounter, counter_replay htyped, collect_counter,
      pointCount_shown _ rfl, List.length_map, length_foldl_apply _ _ _ _ rfl]
    rfl
  | gauge name description max =>
    rw [Registration.instrument, newGauge, gauge_replay htyped, collect_gauge,
      pointCount_shown _ rfl, List.length_map, length_foldl_apply _ _ _ _ rfl]
    rfl
  | histogram name description boundaries max =>
    rw [Registration.instrument, newHistogram, histogram_replay htyped, collect_histogram]
    refine (pointCount_shown (fun points => .histogram _ _ (sortedBoundaries boundaries)
      (points.map histogramDataPoint)) (List.length_map _)).trans ?_
    rw [List.length_map, length_foldl_apply _ _ _ _ rfl]
    rfl

theorem hashesOf_eq (events : List InstrumentEvent) : hashesOf events =
    ((callsOf events).map fun call => ownedAttrs call.attrs).map attrsHashUnordered := by
  simp [hashesOf, Function.comp_def]

/-- With room for all attribute sets of its history, an instrument shows each
with its own attributes and the outcome of its own calls exactly if no two of
them have one hash. -/
theorem unmerged_iff {registration : Registration}
    (htyped : ∀ call ∈ callsOf events, call.measurement.kind = registration.kind)
    (hroom : (attrSets events).length ≤ (registration.descriptor defaultMax).maxCardinality) :
    ((registration.instrument defaultMax).replay events).collect.1 =
        expectedSnapshot defaultMax registration events ↔ Separates events := by
  refine ⟨fun h => ?_, fun h => snapshot_replay htyped h⟩
  have hcount := congrArg pointCount h
  rw [pointCount_replay htyped, pointCount_expected, Nat.min_eq_right hroom, hashesOf_eq] at hcount
  generalize hsets : (callsOf events).map (fun call => ownedAttrs call.attrs) = sets at hcount
  have hle : (KeyedTable.distinct (sets.map attrsHashUnordered)).length ≤
      (attrSets events).length := by
    rw [attrSets, hsets]
    exact KeyedTable.length_distinct_map_le sets attrsHashUnordered
  have hsame : (KeyedTable.distinct (sets.map attrsHashUnordered)).length =
      (KeyedTable.distinct sets).length := by
    rw [← hsets, ← attrSets, hsets]
    omega
  have hinj := KeyedTable.injOn_of_length_distinct hsame
  have hmem : ∀ call ∈ callsOf events, ownedAttrs call.attrs ∈ sets :=
    fun call hc => hsets ▸ List.mem_map_of_mem hc
  intro call hc call' hc' hhash
  have howned : ownedAttrs call.attrs = ownedAttrs call'.attrs :=
    hinj (hmem call hc) (hmem call' hc') (by simpa using hhash)
  exact (ownedAttrs_perm _).symm.trans (howned ▸ ownedAttrs_perm _)

def addOne (attrs : List (String × String)) : InstrumentEvent :=
  .record ⟨.add 1, attrs, ⟨false, none, 0⟩⟩

/-- The separator between key and value keeps these two apart. -/
theorem unmerged_separator :
    (((Registration.counter "requests" "" none).instrument 10).replay
      [addOne [("ab", "c")], addOne [("a", "bc")]]).collect.1 =
        expectedSnapshot 10 (.counter "requests" "" none)
          [addOne [("ab", "c")], addOne [("a", "bc")]] ↔
      Separates [addOne [("ab", "c")], addOne [("a", "bc")]] :=
  unmerged_iff (by decide +kernel) (by decide +kernel)

/-- Two sets of two pairs that share one data point. -/
theorem merged_sets : ¬∀ defaultMax registration events,
    (∀ call ∈ callsOf events, call.measurement.kind = registration.kind) →
      (attrSets events).length ≤ (registration.descriptor defaultMax).maxCardinality →
      ((registration.instrument defaultMax).replay events).collect.1 =
        expectedSnapshot defaultMax registration events := by
  intro h
  let attrs := [("user", "885731"), ("order", "869611")]
  let attrs' := [("user", "505196"), ("order", "521638")]
  have htyped : ∀ call ∈ callsOf [addOne attrs, addOne attrs'],
      call.measurement.kind = (Registration.counter "requests" "" none).kind := by
    decide +kernel
  have hroom : (attrSets [addOne attrs, addOne attrs']).length ≤
      ((Registration.counter "requests" "" none).descriptor 10).maxCardinality := by
    decide +kernel
  have hcount := congrArg pointCount (h 10 (.counter "requests" "" none) _ htyped hroom)
  -- one data point is shown, two are expected
  exact absurd hcount (by decide +kernel)

end Rolly.Metrics
