import Rolly.MetricsRegistry

/-!
# What the registry's operations keep

An instrument's place, kind and name, its description, boundaries and limit
are fixed when it is inserted. The three maps list the instruments of their
kind.
-/

namespace Rolly.Metrics

-- ---------------------------------------------------------------------------
-- One instrument
-- ---------------------------------------------------------------------------

abbrev Key := Kind × String

/-- What never changes about an instrument. -/
structure Descriptor where
  key : Key
  description : String
  boundaries : List F64
  maxCardinality : Nat
  deriving DecidableEq, Repr

def Instrument.descriptor : Instrument → Descriptor
  | .counter inner => ⟨(.counter, inner.name), inner.description, [], inner.maxCardinality⟩
  | .gauge inner => ⟨(.gauge, inner.name), inner.description, [], inner.maxCardinality⟩
  | .histogram inner =>
    ⟨(.histogram, inner.name), inner.description, inner.boundaries, inner.maxCardinality⟩

def Registration.key (registration : Registration) : Key := (registration.kind, registration.name)

def Registration.descriptor (defaultMax : Nat) : Registration → Descriptor
  | .counter name description max => ⟨(.counter, name), description, [], max.getD defaultMax⟩
  | .gauge name description max => ⟨(.gauge, name), description, [], max.getD defaultMax⟩
  | .histogram name description boundaries max =>
    ⟨(.histogram, name), description, sortedBoundaries boundaries, max.getD defaultMax⟩

@[simp] theorem instrument_descriptor (registration : Registration) :
    (registration.instrument defaultMax).descriptor = registration.descriptor defaultMax := by
  cases registration <;> rfl

@[simp] theorem descriptor_key (registration : Registration) :
    (registration.descriptor defaultMax).key = registration.key := by
  cases registration <;> rfl

inductive InstrumentEvent
  | record (call : RecordCall)
  | collect
  deriving DecidableEq, Repr

def Instrument.apply (instrument : Instrument) : InstrumentEvent → Instrument
  | .record call => (instrument.record call).1
  | .collect => instrument.collect.2

/-- The instrument after a history of critical sections. -/
def Instrument.replay (instrument : Instrument) (events : List InstrumentEvent) : Instrument :=
  events.foldl Instrument.apply instrument

theorem replay_concat (instrument : Instrument) :
    instrument.replay (events ++ [event]) = (instrument.replay events).apply event := by
  simp [Instrument.replay]

/-- The empty set has the key that its hash would be. -/
theorem attrsKey_eq (attrs : List (String × String)) :
    (if attrs.isEmpty then 0 else attrsHashUnordered attrs) = attrsHashUnordered attrs := by
  cases attrs <;> rfl

def updateEntry (exemplar : Option Exemplar) (update : V → V) :
    Attrs × V × Option Exemplar → Attrs × V × Option Exemplar
  | (attrs, value, old) => (attrs, update value, if exemplar.isSome then exemplar else old)

section
variable (inner : Inner V) (attrs : List (String × String)) (exemplar : Option Exemplar)
  (fresh : V) (update : V → V)

/-- A record call changes only the warning latch and the table, as a bounded
table does. -/
theorem record_eq : (inner.record attrs exemplar fresh update).1 =
    { inner with
      overflowWarned := inner.overflowWarned ||
        (!inner.data.containsKey (attrsHashUnordered attrs) &&
          decide (inner.maxCardinality ≤ inner.data.length))
      data := inner.data.upsert inner.maxCardinality (attrsHashUnordered attrs)
        (ownedAttrs attrs, fresh, none) (updateEntry exemplar update) } := by
  simp only [Inner.record, attrsKey_eq, KeyedTable.upsert]
  split
  · next hfull =>
    -- no room for a new key
    obtain ⟨_, _, _, warned, _⟩ := inner
    cases warned <;> simp_all
  · next hroom =>
    simp only [hroom, Bool.or_false]
    rfl

@[simp] theorem record_name :
    (inner.record attrs exemplar fresh update).1.name = inner.name := by
  rw [record_eq]

@[simp] theorem record_description :
    (inner.record attrs exemplar fresh update).1.description = inner.description := by
  rw [record_eq]

@[simp] theorem record_maxCardinality :
    (inner.record attrs exemplar fresh update).1.maxCardinality = inner.maxCardinality := by
  rw [record_eq]

@[simp] theorem record_data : (inner.record attrs exemplar fresh update).1.data =
    inner.data.upsert inner.maxCardinality (attrsHashUnordered attrs)
      (ownedAttrs attrs, fresh, none) (updateEntry exemplar update) := by
  rw [record_eq]

end

@[simp] theorem record_descriptor (instrument : Instrument) :
    (instrument.record call).1.descriptor = instrument.descriptor := by
  obtain ⟨measurement, attrs, context⟩ := call
  cases instrument with
  | counter inner =>
    cases measurement with
    | add value =>
      simp [Instrument.record, CounterInner.add, Instrument.descriptor]
    | _ => rfl
  | gauge inner =>
    cases measurement with
    | set value => simp [Instrument.record, GaugeInner.set, Instrument.descriptor]
    | _ => rfl
  | histogram inner =>
    cases measurement with
    | observe value => simp [Instrument.record, HistogramInner.observe, Instrument.descriptor]
    | _ => rfl

@[simp] theorem collect_descriptor (instrument : Instrument) :
    instrument.collect.2.descriptor = instrument.descriptor := by
  cases instrument <;> simp only [Instrument.collect] <;> split <;> rfl

@[simp] theorem apply_descriptor (instrument : Instrument) :
    (instrument.apply event).descriptor = instrument.descriptor := by
  cases event with
  | record call => exact record_descriptor instrument
  | collect => exact collect_descriptor instrument

@[simp] theorem replay_descriptor (instrument : Instrument) :
    (instrument.replay events).descriptor = instrument.descriptor := by
  induction events using List.reverseRecOn with
  | nil => rfl
  | append_singleton events event ih => rw [replay_concat, apply_descriptor, ih]

-- ---------------------------------------------------------------------------
-- Collecting changes no value
-- ---------------------------------------------------------------------------

def stripExemplar : Attrs × V × Option Exemplar → Attrs × V × Option Exemplar
  | (attrs, value, _) => (attrs, value, none)

theorem take_data (inner : Inner V) :
    inner.take.2 = { inner with data := inner.data.mapValues stripExemplar } := rfl

@[simp] theorem take_take (inner : Inner V) : inner.take.2.take.2 = inner.take.2 := by
  simp [Inner.take, Function.comp_def]

theorem take_record (inner : Inner V) :
    (inner.take.2.record attrs exemplar fresh update).1.take.2 =
      (inner.record attrs exemplar fresh update).1.take.2 := by
  have hstrip (t : KeyedTable UInt64 (Attrs × V × Option Exemplar)) :
      (t.upsert inner.maxCardinality (attrsHashUnordered attrs) (ownedAttrs attrs, fresh, none)
        (updateEntry exemplar update)).mapValues stripExemplar =
      (t.mapValues stripExemplar).upsert inner.maxCardinality (attrsHashUnordered attrs)
        (ownedAttrs attrs, fresh, none) (stripExemplar ∘ updateEntry exemplar update) :=
    (KeyedTable.upsert_mapValues (by intro; rfl) (by rfl)).symm
  have htwice : (inner.data.mapValues stripExemplar).mapValues stripExemplar =
      inner.data.mapValues stripExemplar := by
    simp [KeyedTable.mapValues, stripExemplar, Function.comp_def]
  simp only [take_data, record_eq, hstrip, htwice, KeyedTable.containsKey_mapValues,
    KeyedTable.length_mapValues]

/-- The instrument without its exemplars. -/
def Instrument.values (instrument : Instrument) : Instrument := instrument.collect.2

@[simp] theorem values_counter (inner : CounterInner) :
    (Instrument.counter inner).values = .counter inner.take.2 := by
  obtain ⟨_, _, _, _, data⟩ := inner
  cases data <;> rfl

@[simp] theorem values_gauge (inner : GaugeInner) :
    (Instrument.gauge inner).values = .gauge inner.take.2 := by
  obtain ⟨_, _, _, _, data⟩ := inner
  cases data <;> rfl

@[simp] theorem values_histogram (inner : HistogramInner) :
    (Instrument.histogram inner).values =
      .histogram { inner with toInner := inner.toInner.take.2 } := by
  obtain ⟨⟨_, _, _, _, data⟩, _⟩ := inner
  cases data <;> rfl

theorem values_record (instrument : Instrument) :
    (instrument.values.record call).1.values = (instrument.record call).1.values := by
  obtain ⟨measurement, attrs, context⟩ := call
  cases instrument with
  | counter inner =>
    cases measurement with
    | add value => simp [Instrument.record, CounterInner.add, take_record]
    | _ => simp [Instrument.record]
  | gauge inner =>
    cases measurement with
    | set value => simp [Instrument.record, GaugeInner.set, take_record]
    | _ => simp [Instrument.record]
  | histogram inner =>
    cases measurement with
    | observe value => simp [Instrument.record, HistogramInner.observe, take_record]
    | _ => simp [Instrument.record]

theorem values_values (instrument : Instrument) : instrument.values.values = instrument.values := by
  cases instrument <;> simp

def InstrumentEvent.isRecord : InstrumentEvent → Bool
  | .record _ => true
  | .collect => false

/-- The collects in a history leave no trace in the values. -/
theorem values_replay (instrument : Instrument) (events : List InstrumentEvent) :
    (instrument.replay events).values =
      (instrument.replay (events.filter (·.isRecord))).values := by
  induction events using List.reverseRecOn with
  | nil => rfl
  | append_singleton events event ih =>
    rw [replay_concat, List.filter_append]
    cases event with
    | record call =>
      have hkeep : [InstrumentEvent.record call].filter (·.isRecord) = [.record call] := rfl
      rw [hkeep, replay_concat, Instrument.apply, Instrument.apply, ← values_record, ih,
        values_record]
    | collect =>
      have hdrop : [InstrumentEvent.collect].filter (·.isRecord) = [] := rfl
      rw [hdrop, List.append_nil, ← ih]
      exact values_values _

-- ---------------------------------------------------------------------------
-- Names
-- ---------------------------------------------------------------------------

namespace MetricsRegistry

variable {r : MetricsRegistry}

def keys (r : MetricsRegistry) : List Key := r.instruments.map (·.descriptor.key)

def handlesIn (keys : List Key) (kind : Kind) : KeyedTable String Nat :=
  (keys.zipIdx.filter fun (key, _) => key.1 = kind).map fun (key, handle) => (key.2, handle)

/-- Each map lists the instruments of its kind, in the order of their
allocation, and no two instruments have one kind and name. -/
structure WellNamed (r : MetricsRegistry) : Prop where
  handles : ∀ kind, r.handles kind = handlesIn r.keys kind
  nodup : r.keys.Nodup

theorem lookup_handlesIn (keys : List Key) :
    (handlesIn keys kind).lookup name = keys.idxOf? (kind, name) := by
  suffices ∀ n, (((keys.zipIdx n).filter fun (key, _) => key.1 = kind).map
      fun (key, handle) => (key.2, handle)).lookup name =
        (keys.idxOf? (kind, name)).map (· + n) by
    simpa [handlesIn] using this 0
  induction keys with
  | nil => simp
  | cons key keys ih =>
    intro n
    obtain ⟨k, m⟩ := key
    have hshift : ((keys.idxOf? (kind, name)).map (· + 1)).map (· + n) =
        (keys.idxOf? (kind, name)).map (· + (n + 1)) := by
      simp [Option.map_map, Function.comp_def, Nat.add_right_comm, Nat.add_assoc]
    rw [List.idxOf?_cons, List.zipIdx_cons]
    by_cases hk : k = kind
    · subst hk
      by_cases hm : m = name
      · simp [hm]
      · have hne : (name == m) = false := by simpa using Ne.symm hm
        have hkey : ((k, m) == (k, name)) = false := by simpa using hm
        simp [List.lookup_cons, hne, hkey, ih, hshift]
    · simp [hk, ih, hshift]

theorem get_eq (h : r.WellNamed) : r.get kind name = r.keys.idxOf? (kind, name) := by
  rw [get, h.handles, lookup_handlesIn]

theorem get_eq_some (h : r.WellNamed) :
    r.get kind name = some handle ↔ r.keys[handle]? = some (kind, name) := by
  rw [get_eq h, List.idxOf?_eq_some_iff, List.getElem?_eq_some_iff]
  constructor
  · rintro ⟨hlt, hkey, _⟩
    exact ⟨hlt, hkey⟩
  · rintro ⟨hlt, hkey⟩
    refine ⟨hlt, hkey, fun j hj heq => ?_⟩
    have := h.nodup.getElem_inj_iff.mp (heq.trans hkey.symm)
    omega

theorem get_eq_none (h : r.WellNamed) : r.get kind name = none ↔ (kind, name) ∉ r.keys := by
  rw [get_eq h, List.idxOf?_eq_none_iff]

theorem wellNamed_withMaxCardinality : (withMaxCardinality limit).WellNamed where
  handles kind := by cases kind <;> rfl
  nodup := List.nodup_nil

-- ---------------------------------------------------------------------------
-- Inserting
-- ---------------------------------------------------------------------------

section
variable (kind : Kind) (name : String) (fresh : Instrument)

def push (r : MetricsRegistry) : MetricsRegistry :=
  { r with instruments := r.instruments ++ [fresh] }.setHandles kind
    (r.handles kind ++ [(name, r.instruments.length)])

theorem entry_of_some (h : r.get kind name = some handle) :
    r.entry kind name fresh = (handle, r) := by
  simp [entry, h]

theorem entry_of_none (h : r.get kind name = none) :
    r.entry kind name fresh = (r.instruments.length, r.push kind name fresh) := by
  simp [entry, h, push]

@[simp] theorem push_instruments :
    (r.push kind name fresh).instruments = r.instruments ++ [fresh] := by
  cases kind <;> rfl

@[simp] theorem push_default :
    (r.push kind name fresh).defaultMaxCardinality = r.defaultMaxCardinality := by
  cases kind <;> rfl

theorem push_handles (other : Kind) : (r.push kind name fresh).handles other =
    if kind = other then r.handles other ++ [(name, r.instruments.length)]
    else r.handles other := by
  cases kind <;> cases other <;> rfl

theorem push_keys :
    (r.push kind name fresh).keys = r.keys ++ [fresh.descriptor.key] := by
  simp [keys]

theorem handlesIn_concat (keys : List Key) (key : Key) : handlesIn (keys ++ [key]) other =
    if key.1 = other then handlesIn keys other ++ [(key.2, keys.length)]
    else handlesIn keys other := by
  rw [handlesIn, List.zipIdx_append, List.filter_append, List.map_append]
  by_cases h : key.1 = other <;> simp [h, handlesIn]

theorem WellNamed.push (h : r.WellNamed) (hn : r.get kind name = none)
    (hf : fresh.descriptor.key = (kind, name)) : (r.push kind name fresh).WellNamed where
  handles other := by
    rw [push_handles, push_keys, hf, handlesIn_concat, ← h.handles other]
    simp [keys]
  nodup := by
    rw [push_keys, hf]
    exact List.Nodup.append h.nodup (List.nodup_singleton _)
      (List.disjoint_singleton.mpr ((get_eq_none h).mp hn))

end

/-- The second look under the write lock finds what the first one missed only if
another thread was faster. -/
theorem getOrCreate_eq : r.getOrCreate kind name fresh = r.entry kind name fresh := by
  unfold getOrCreate entry
  split <;> simp_all

/-- All six ways to register come down to one. -/
theorem call_eq (registration : Registration) :
    registration.call r = r.entry registration.kind registration.name
      (registration.instrument r.defaultMaxCardinality) := by
  rw [← getOrCreate_eq]
  cases registration with
  | counter name description max => cases max <;> rfl
  | gauge name description max => cases max <;> rfl
  | histogram name description boundaries max => cases max <;> rfl

-- ---------------------------------------------------------------------------
-- Critical sections of one instrument
-- ---------------------------------------------------------------------------

def act (r : MetricsRegistry) (handle : Nat) (event : InstrumentEvent) : MetricsRegistry :=
  { r with instruments := r.instruments.modify handle (·.apply event) }

theorem record_fst : (r.record handle call).1 = r.act handle (.record call) := by
  unfold record act
  rw [List.modify_eq_set_getElem?]
  cases r.instruments[handle]? <;> rfl

theorem collectOne_snd : (r.collectOne handle).2 = r.act handle .collect := by
  unfold collectOne act
  rw [List.modify_eq_set_getElem?]
  cases r.instruments[handle]? <;> rfl

theorem collectOne_fst :
    (r.collectOne handle).1 = r.instruments[handle]?.bind (·.collect.1) := by
  unfold collectOne
  cases r.instruments[handle]? <;> rfl

@[simp] theorem act_handles (kind : Kind) : (r.act handle event).handles kind = r.handles kind := by
  cases kind <;> rfl

theorem act_getElem? : (r.act handle event).instruments[other]? =
    if handle = other then r.instruments[other]?.map (·.apply event)
    else r.instruments[other]? := by
  rw [act, List.getElem?_modify]
  split <;> simp

@[simp] theorem act_keys : (r.act handle event).keys = r.keys := by
  refine List.ext_getElem? fun i => ?_
  rw [keys, keys, List.getElem?_map, List.getElem?_map, act_getElem?]
  split <;> simp [Function.comp_def]

theorem WellNamed.act (h : r.WellNamed) : (r.act handle event).WellNamed where
  handles kind := by rw [act_handles, act_keys, h.handles]
  nodup := by rw [act_keys]; exact h.nodup

end MetricsRegistry

end Rolly.Metrics
