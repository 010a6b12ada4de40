import Rolly.MetricsHashKeys

/-!
# Which calls are accepted

A call is accepted if its key has an entry or the table has room. Over a whole
history these are the calls under the first keys, up to the limit.
-/

namespace Rolly.Metrics

-- ---------------------------------------------------------------------------
-- The check
-- ---------------------------------------------------------------------------

/-- The limit check of a record call, on the table that it finds. -/
def Inner.accepts (inner : Inner V) (attrs : List (String × String)) : Bool :=
  inner.data.containsKey (attrsHashUnordered attrs) ||
    decide (inner.data.length < inner.maxCardinality)

def Instrument.accepts (attrs : List (String × String)) : Instrument → Bool
  | .counter inner => inner.accepts attrs
  | .gauge inner => inner.accepts attrs
  | .histogram inner => inner.toInner.accepts attrs

def Instrument.accepted (instrument : Instrument) : List InstrumentEvent → List RecordCall
  | [] => []
  | .record call :: events =>
    let rest := (instrument.apply (.record call)).accepted events
    if instrument.accepts call.attrs then call :: rest else rest
  | .collect :: events => (instrument.apply .collect).accepted events

-- ---------------------------------------------------------------------------
-- Over a history
-- ---------------------------------------------------------------------------

/-- The keys that have an entry after a history. -/
def keptKeys (limit : Nat) (events : List InstrumentEvent) : List UInt64 :=
  (KeyedTable.distinct (hashesOf events)).take limit

theorem keys_foldl_apply (fresh : V) (update : RecordCall → V → V) (events : List InstrumentEvent)
    (inner : Inner V) (hnew : inner.data = []) :
    (events.foldl (Inner.apply fresh update) inner).data.map (·.1) =
      keptKeys inner.maxCardinality events := by
  have hkeys := congrArg (List.map (·.1)) (foldl_apply_entries fresh update events inner hnew)
  simpa [KeyedTable.mapValues, Function.comp_def, keptKeys] using hkeys

theorem mem_keptKeys_concat : attrsHashUnordered call.attrs ∈
      keptKeys limit (events ++ [.record call]) ↔
    attrsHashUnordered call.attrs ∈ keptKeys limit events ∨
      (keptKeys limit events).length < limit := by
  have hconcat : hashesOf (events ++ [.record call]) =
      hashesOf events ++ [attrsHashUnordered call.attrs] := hashesOf_append
  rw [keptKeys, keptKeys, hconcat, KeyedTable.distinct_concat]
  split
  · next hold =>
    constructor
    · exact .inl
    · rintro (hm | hroom)
      · exact hm
      · -- with room left, all old keys are kept
        rw [List.length_take] at hroom
        rw [List.take_of_length_le (by omega)]
        exact KeyedTable.mem_distinct.mpr hold
  · next hnew =>
    have hnot : attrsHashUnordered call.attrs ∉
        (KeyedTable.distinct (hashesOf events)).take limit :=
      fun hm => hnew (KeyedTable.mem_distinct.mp (List.mem_of_mem_take hm))
    rw [List.take_append, List.mem_append, or_iff_right hnot, or_iff_right hnot, List.length_take]
    constructor
    · intro hm
      have := List.length_pos_of_mem hm
      simp only [List.length_take, List.length_singleton] at this
      omega
    · intro hroom
      have hlt : (KeyedTable.distinct (hashesOf events)).length < limit := by omega
      rw [List.take_of_length_le (by simp; omega)]
      exact List.mem_singleton_self _

theorem accepts_foldl_apply (fresh : V) (update : RecordCall → V → V)
    (events : List InstrumentEvent) (inner : Inner V) (hnew : inner.data = []) (call : RecordCall) :
    (events.foldl (Inner.apply fresh update) inner).accepts call.attrs ↔
      attrsHashUnordered call.attrs ∈
        keptKeys inner.maxCardinality (events ++ [.record call]) := by
  obtain ⟨-, -, hmax⟩ := foldl_apply_fields fresh update events inner
  have hkeys := keys_foldl_apply fresh update events inner hnew
  rw [mem_keptKeys_concat, ← hkeys, List.length_map, Inner.accepts, hmax, Bool.or_eq_true,
    decide_eq_true_eq]
  refine or_congr ?_ .rfl
  rw [KeyedTable.containsKey, List.any_eq_true, List.mem_map]
  simp only [decide_eq_true_eq]

section
variable {registration : Registration}

def Registration.limit (defaultMax : Nat) (registration : Registration) : Nat :=
  (registration.descriptor defaultMax).maxCardinality

theorem accepts_replay
    (htyped : ∀ call ∈ callsOf events, call.measurement.kind = registration.kind)
    (call : RecordCall) :
    ((registration.instrument defaultMax).replay events).accepts call.attrs ↔
      attrsHashUnordered call.attrs ∈
        keptKeys (registration.limit defaultMax) (events ++ [.record call]) := by
  cases registration with
  | counter name description max =>
    rw [Registration.instrument, newCounter, counter_replay htyped]
    exact accepts_foldl_apply _ _ _ _ rfl call
  | gauge name description max =>
    rw [Registration.instrument, newGauge, gauge_replay htyped]
    exact accepts_foldl_apply _ _ _ _ rfl call
  | histogram name description boundaries max =>
    rw [Registration.instrument, newHistogram, histogram_replay htyped]
    exact accepts_foldl_apply _ _ _ _ rfl call

/-- A key is kept as soon as it has come, or never. -/
theorem mem_keptKeys_append (h : key ∈ hashesOf events) :
    key ∈ keptKeys limit (events ++ events') ↔ key ∈ keptKeys limit events := by
  rw [keptKeys, keptKeys, hashesOf_append]
  exact KeyedTable.mem_take_distinct_append h

/-- What is accepted after `past` are the calls under the keys that are kept in
the end. -/
theorem accepted_replay
    (htyped : ∀ call ∈ callsOf (past ++ events), call.measurement.kind = registration.kind) :
    ((registration.instrument defaultMax).replay past).accepted events =
      (callsOf events).filter fun call => attrsHashUnordered call.attrs ∈
        keptKeys (registration.limit defaultMax) (past ++ events) := by
  induction events generalizing past with
  | nil => rfl
  | cons event events ih =>
    have hsplit : past ++ event :: events = past ++ [event] ++ events := by simp
    have hrest := ih (hsplit ▸ htyped)
    rw [replay_concat] at hrest
    cases event with
    | collect =>
      rw [hsplit]
      exact hrest
    | record call =>
      have hpast : ∀ call ∈ callsOf past, call.measurement.kind = registration.kind :=
        fun call hc => htyped call (callsOf_append ▸ List.mem_append_left _ hc)
      have hcall : attrsHashUnordered call.attrs ∈ hashesOf (past ++ [.record call]) := by
        rw [hashesOf_append]
        exact List.mem_append_right _ (List.mem_singleton_self _)
      have hstays : attrsHashUnordered call.attrs ∈
          keptKeys (registration.limit defaultMax) (past ++ [.record call] ++ events) ↔
          attrsHashUnordered call.attrs ∈
            keptKeys (registration.limit defaultMax) (past ++ [.record call]) :=
        mem_keptKeys_append hcall
      have hkept := (accepts_replay hpast call).trans hstays.symm
      rw [Instrument.accepted, hrest, hsplit]
      have hcons : callsOf (.record call :: events) = call :: callsOf events := rfl
      rw [hcons, List.filter_cons]
      exact if_congr (hkept.trans decide_eq_true_iff.symm) rfl rfl

end

end Rolly.Metrics
