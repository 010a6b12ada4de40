import Mathlib.Algebra.Group.Int.Defs
import Mathlib.Data.Bool.AllAny
import Rolly.MetricsHashKeys

/-!
# What a counter reports over time

The values that a monotonic sum is given, over all collects of a run. An
amount is a `u64`, the sum an `i64` that wraps.
-/

namespace Rolly.Metrics

-- ---------------------------------------------------------------------------
-- Reported values
-- ---------------------------------------------------------------------------

def Instrument.collects (instrument : Instrument) :
    List InstrumentEvent → List (Option MetricSnapshot)
  | [] => []
  | .record call :: events => (instrument.apply (.record call)).collects events
  | .collect :: events => instrument.collect.1 :: (instrument.apply .collect).collects events

def counterPoints : Option MetricSnapshot → List CounterDataPoint
  | some (.counter _ _ dataPoints) => dataPoints
  | _ => []

/-- The values of the data point with these attributes, one collect after the
other. -/
def valuesOf (attrs : Attrs) (snapshots : List (Option MetricSnapshot)) : List Int64 :=
  snapshots.flatMap fun snapshot => (counterPoints snapshot).filterMap fun (shown, value, _) =>
    if shown = attrs then some value else none

/-- What `is_monotonic` promises. -/
def Monotonic (values : List Int64) : Prop :=
  (∀ value ∈ values, 0 ≤ value.toInt) ∧ values.Pairwise (·.toInt ≤ ·.toInt)

def amount (key : UInt64) (call : RecordCall) : Nat :=
  if attrsHashUnordered call.attrs = key then ((addedBy call).map UInt64.toNat).getD 0 else 0

/-- What was added under a key before each collect and since the one before
that; `added` was before the history. -/
def addedBetween (key : UInt64) (added : Nat) : List InstrumentEvent → List Nat
  | [] => []
  | .record call :: events => addedBetween key (added + amount key call) events
  | .collect :: events => added :: addedBetween key 0 events

/-- The sum at each collect, starting from `total`. -/
def totals (key : UInt64) (total : Nat) : List InstrumentEvent → List Int64
  | [] => []
  | .record call :: events => totals key (total + amount key call) events
  | .collect :: events => Int64.ofNat total :: totals key total events

-- ---------------------------------------------------------------------------
-- Sums that wrap
-- ---------------------------------------------------------------------------

theorem toInt_ofNat_eq (n : Nat) : (Int64.ofNat n).toInt =
    if n % 2 ^ 64 < 2 ^ 63 then ((n % 2 ^ 64 : Nat) : Int) else (n % 2 ^ 64 : Nat) - 2 ^ 64 := by
  rw [Int64.toInt_ofNat', Int.bmod_def]
  simp only [Int64.size]
  split <;> split <;> omega

/-- From a sum in range on, the totals are monotonic as long as what is added
between two collects, modulo `2 ^ 64`, stays in range. -/
theorem totals_monotonic (key : UInt64) (events : List InstrumentEvent) (n added : Nat)
    (h : n % 2 ^ 64 < 2 ^ 63) :
    ((∀ value ∈ totals key (n + added) events, ((n % 2 ^ 64 : Nat) : Int) ≤ value.toInt) ∧
      (totals key (n + added) events).Pairwise (·.toInt ≤ ·.toInt)) ↔
    n % 2 ^ 64 + ((addedBetween key added events).map (· % 2 ^ 64)).sum < 2 ^ 63 := by
  induction events generalizing n added with
  | nil => simpa [totals, addedBetween] using h
  | cons event events ih =>
    cases event with
    | record call =>
      rw [totals, addedBetween, Nat.add_assoc]
      exact ih n _ h
    | collect =>
      have hvalue := toInt_ofNat_eq (n + added)
      simp only [totals, addedBetween, List.map_cons, List.sum_cons, List.forall_mem_cons,
        List.pairwise_cons]
      by_cases hr : (n + added) % 2 ^ 64 < 2 ^ 63
      · have hrest := ih (n + added) 0 hr
        rw [if_pos hr] at hvalue
        rw [Nat.add_zero] at hrest
        rw [hvalue]
        constructor
        · rintro ⟨⟨hle, -⟩, hpair⟩
          have := hrest.mp hpair
          omega
        · intro hsum
          have hle : n % 2 ^ 64 ≤ (n + added) % 2 ^ 64 := by omega
          obtain ⟨hge, hpair⟩ := hrest.mpr (by omega)
          exact ⟨⟨by omega, fun value hm => by have := hge value hm; omega⟩, hge, hpair⟩
      · rw [if_neg hr] at hvalue
        constructor
        · rintro ⟨⟨hle, -⟩, -⟩
          omega
        · intro hsum
          omega

theorem monotonic_totals : Monotonic (totals key 0 events) ↔
    ((addedBetween key 0 events).map (· % 2 ^ 64)).sum < 2 ^ 63 := by
  have h := totals_monotonic key events 0 0 (by decide)
  simpa [Monotonic] using h

-- ---------------------------------------------------------------------------
-- Data points
-- ---------------------------------------------------------------------------

/-- These attributes have a data point: their hash is among the first `limit`
ones and they were the first to have it. -/
def Stored (limit : Nat) (attrs : Attrs) (events : List InstrumentEvent) : Prop :=
  attrsHashUnordered attrs ∈ (KeyedTable.distinct (hashesOf events)).take limit ∧
    (callsUnder (attrsHashUnordered attrs) events).head?.map (ownedAttrs ·.attrs) = some attrs

instance : Decidable (Stored limit attrs events) := inferInstanceAs (Decidable (_ ∧ _))

theorem counterPoints_shown (points : List CounterDataPoint) : counterPoints
    (if points.isEmpty then none else some (.counter name description points)) = points := by
  cases points <;> rfl

theorem counterPoints_replay (name description : String) (limit : Nat)
    (htyped : ∀ call ∈ callsOf past, call.measurement.kind = .counter) :
    (counterPoints ((newCounter name description limit).replay past).collect.1).map
        (fun (attrs, value, _) => (attrs, value)) =
      ((KeyedTable.distinct (hashesOf past)).take limit).filterMap fun key =>
        (callsUnder key past).head?.map fun first =>
          (ownedAttrs first.attrs, counterValue (callsUnder key past)) := by
  have hentries := congrArg
    (List.filterMap fun entry => entry.2.map fun (attrs, value, _) => (attrs, value))
    (foldl_apply_entries 0 updateCounter past { name, description, maxCardinality := limit } rfl)
  rw [newCounter, counter_replay htyped, collect_counter,
    counterPoints_shown, List.map_map]
  simp only [KeyedTable.mapValues, List.filterMap_map, Function.comp_def, valueOf_hashEvents,
    Option.map_some, foldl_updateCounter] at hentries
  rw [← hentries, ← List.filterMap_eq_map]
  rfl

theorem filterMap_of_unique {f : α → Option β} {l : List α} [DecidableEq α] (hnd : l.Nodup)
    (h : ∀ b ∈ l, b ≠ a → f b = none) : l.filterMap f = if a ∈ l then (f a).toList else [] := by
  induction l with
  | nil => rfl
  | cons b l ih =>
    obtain ⟨hnot, hnd⟩ := List.nodup_cons.mp hnd
    have hrest := ih hnd fun c hc => h c (List.mem_cons_of_mem _ hc)
    rw [List.filterMap_cons, hrest]
    by_cases hb : b = a
    · subst hb
      cases hf : f b <;> simp [hnot]
    · rw [h b List.mem_cons_self hb]
      simp [Ne.symm hb]

theorem valuesOf_replay (name description : String) (limit : Nat) (attrs : Attrs)
    (htyped : ∀ call ∈ callsOf past, call.measurement.kind = .counter) :
    valuesOf attrs [((newCounter name description limit).replay past).collect.1] =
      if Stored limit attrs past then
        [counterValue (callsUnder (attrsHashUnordered attrs) past)] else [] := by
  have hpoints := congrArg (List.filterMap fun (shown, value) =>
    if shown = attrs then some value else none)
    (counterPoints_replay name description limit htyped)
  rw [List.filterMap_map, List.filterMap_filterMap] at hpoints
  have hvalues : valuesOf attrs [((newCounter name description limit).replay past).collect.1] = _ :=
    (List.flatMap_singleton _ _).trans hpoints
  rw [hvalues, filterMap_of_unique (a := attrsHashUnordered attrs)
    ((List.take_sublist _ _).nodup (KeyedTable.nodup_distinct _))]
  · by_cases hk : attrsHashUnordered attrs ∈ (KeyedTable.distinct (hashesOf past)).take limit
    · cases hf : (callsUnder (attrsHashUnordered attrs) past).head? with
      | none => simp [Stored, hf]
      | some first => by_cases ha : ownedAttrs first.attrs = attrs <;> simp [Stored, hf, hk, ha]
    · simp [Stored, hk]
  · -- the attributes of an entry have its key as their hash
    intro key _ hne
    cases hf : (callsUnder key past).head? with
    | none => rfl
    | some first =>
      have hkey : attrsHashUnordered first.attrs = key := by
        have := List.mem_of_head? hf
        simpa [callsUnder] using (List.mem_filter.mp this).2
      have hother : ownedAttrs first.attrs ≠ attrs := by
        rintro rfl
        exact hne (by rw [attrsHashUnordered_ownedAttrs, hkey])
      simp [hother]

-- ---------------------------------------------------------------------------
-- Runs
-- ---------------------------------------------------------------------------

def totalUnder (key : UInt64) (events : List InstrumentEvent) : Nat :=
  (((callsUnder key events).filterMap addedBy).map UInt64.toNat).sum

theorem totalUnder_record : totalUnder key (events ++ [.record call]) =
    totalUnder key events + amount key call := by
  rw [totalUnder, callsUnder_append]
  by_cases hkey : attrsHashUnordered call.attrs = key
  · cases ha : addedBy call <;>
      simp [callsUnder, hkey, totalUnder, amount, ha]
  · simp [callsUnder, hkey, totalUnder, amount]

theorem totalUnder_collect : totalUnder key (events ++ [.collect]) = totalUnder key events := by
  rw [totalUnder, callsUnder_append]
  simp [callsUnder, totalUnder]

theorem mem_hashesOf : key ∈ hashesOf events ↔ callsUnder key events ≠ [] := by
  simp [hashesOf, callsUnder, List.filter_eq_nil_iff]

theorem stored_append (h : callsUnder (attrsHashUnordered attrs) past ≠ []) :
    Stored limit attrs (past ++ events) ↔ Stored limit attrs past := by
  rw [Stored, Stored, hashesOf_append, KeyedTable.mem_take_distinct_append (mem_hashesOf.mpr h),
    callsUnder_append, List.head?_append_of_ne_nil _ h]

theorem Stored.used (h : Stored limit attrs past) :
    callsUnder (attrsHashUnordered attrs) past ≠ [] :=
  mem_hashesOf.mp (KeyedTable.mem_distinct.mp (List.mem_of_mem_take h.1))

theorem valuesOf_cons : valuesOf attrs (snapshot :: snapshots) =
    valuesOf attrs [snapshot] ++ valuesOf attrs snapshots := by
  simp [valuesOf]

section
variable (name description : String) (limit : Nat)

theorem valuesOf_collects (past : List InstrumentEvent)
    (htyped : ∀ call ∈ callsOf (past ++ .collect :: events), call.measurement.kind = .counter) :
    valuesOf attrs (((newCounter name description limit).replay past).collects
        (.collect :: events)) =
      (if Stored limit attrs past then
        [counterValue (callsUnder (attrsHashUnordered attrs) past)] else []) ++
      valuesOf attrs (((newCounter name description limit).replay (past ++ [.collect])).collects
        events) := by
  have hpast : ∀ call ∈ callsOf past, call.measurement.kind = .counter := by
    intro call hc
    refine htyped call ?_
    rw [callsOf_append]
    exact List.mem_append_left _ hc
  rw [Instrument.collects, valuesOf_cons, valuesOf_replay name description limit attrs hpast,
    replay_concat]

/-- Before its first use a key would have been reported as zero. -/
theorem totals_eq (past : List InstrumentEvent)
    (htyped : ∀ call ∈ callsOf (past ++ events), call.measurement.kind = .counter)
    (h : Stored limit attrs (past ++ events)) :
    ∃ m, totals (attrsHashUnordered attrs) (totalUnder (attrsHashUnordered attrs) past) events =
        List.replicate m 0 ++
          valuesOf attrs (((newCounter name description limit).replay past).collects events) ∧
      (Stored limit attrs past → m = 0) := by
  induction events generalizing past with
  | nil => exact ⟨0, rfl, fun _ => rfl⟩
  | cons event events ih =>
    rw [List.append_cons] at h
    obtain ⟨m, hm, hzero⟩ := ih _ (List.append_cons .. ▸ htyped) h
    cases event with
    | record call =>
      rw [totalUnder_record, replay_concat] at hm
      exact ⟨m, hm, fun hs => hzero ((stored_append hs.used).mpr hs)⟩
    | collect =>
      rw [totalUnder_collect] at hm
      rw [totals, hm, valuesOf_collects name description limit past htyped]
      by_cases hs : Stored limit attrs past
      · rw [hzero ((stored_append hs.used).mpr hs), if_pos hs]
        exact ⟨0, rfl, fun _ => rfl⟩
      · have hunused : callsUnder (attrsHashUnordered attrs) past = [] := by
          by_contra hne
          rw [List.append_assoc] at h
          exact hs ((stored_append hne).mp h)
        refine ⟨m + 1, ?_, fun h => absurd h hs⟩
        rw [if_neg hs, totalUnder, hunused]
        rfl

theorem valuesOf_of_not_stored (past : List InstrumentEvent)
    (htyped : ∀ call ∈ callsOf (past ++ events), call.measurement.kind = .counter)
    (h : ¬Stored limit attrs (past ++ events)) :
    valuesOf attrs (((newCounter name description limit).replay past).collects events) = [] := by
  induction events generalizing past with
  | nil => rfl
  | cons event events ih =>
    rw [List.append_cons] at h
    have hrest := ih _ (List.append_cons .. ▸ htyped) h
    cases event with
    | record call =>
      rw [replay_concat] at hrest
      exact hrest
    | collect =>
      have hs : ¬Stored limit attrs past := fun hs => h (by
        rw [List.append_assoc]
        exact (stored_append hs.used).mpr hs)
      rw [valuesOf_collects name description limit past htyped, if_neg hs, hrest]
      rfl

end

theorem monotonic_replicate : Monotonic (List.replicate m 0 ++ values) ↔ Monotonic values := by
  induction m with
  | zero => rfl
  | succ m ih =>
    rw [← ih, List.replicate_succ, List.cons_append, Monotonic, Monotonic, List.forall_mem_cons,
      List.pairwise_cons]
    have hzero : (0 : Int64).toInt = 0 := rfl
    simp only [hzero, Int.le_refl, true_and]
    exact ⟨fun h => ⟨h.1, h.2.2⟩, fun h => ⟨h.1, h.1, h.2⟩⟩

/-- The values of every data point are monotonic, over all collects, exactly if
under each key in the table what was added between two collects, modulo
`2 ^ 64`, stays below `2 ^ 63` in total. -/
theorem counter_monotonic_iff (name description : String) (limit : Nat)
    (htyped : ∀ call ∈ callsOf events, call.measurement.kind = .counter) :
    (∀ attrs, Monotonic
      (valuesOf attrs ((newCounter name description limit).collects events))) ↔
    ∀ key ∈ (KeyedTable.distinct (hashesOf events)).take limit,
      ((addedBetween key 0 events).map (· % 2 ^ 64)).sum < 2 ^ 63 := by
  have hstored : ∀ attrs, Stored limit attrs events →
      (Monotonic (valuesOf attrs ((newCounter name description limit).collects events)) ↔
        ((addedBetween (attrsHashUnordered attrs) 0 events).map (· % 2 ^ 64)).sum < 2 ^ 63) := by
    intro attrs hs
    obtain ⟨m, hm, -⟩ := totals_eq name description limit [] htyped hs
    rw [← monotonic_totals, show 0 = totalUnder (attrsHashUnordered attrs) [] from rfl, hm,
      monotonic_replicate]
    rfl
  constructor
  · intro h key hkey
    have hused := mem_hashesOf.mp (KeyedTable.mem_distinct.mp (List.mem_of_mem_take hkey))
    obtain ⟨first, rest, hcalls⟩ := List.exists_cons_of_ne_nil hused
    have hfirst : first ∈ callsUnder key events := hcalls ▸ List.mem_cons_self
    have hhash : attrsHashUnordered (ownedAttrs first.attrs) = key := by
      simpa using (List.mem_filter.mp hfirst).2
    have hs : Stored limit (ownedAttrs first.attrs) events := by
      rw [Stored, hhash, hcalls]
      exact ⟨hkey, rfl⟩
    exact hhash ▸ (hstored _ hs).mp (h _)
  · intro h attrs
    by_cases hs : Stored limit attrs events
    · exact (hstored attrs hs).mpr (h _ hs.1)
    · have hnone : valuesOf attrs ((newCounter name description limit).collects events) = [] :=
        valuesOf_of_not_stored name description limit [] htyped hs
      rw [hnone]
      exact ⟨by rintro _ ⟨⟩, .nil⟩

theorem counter_monotonic_requests : Monotonic (valuesOf []
    ((newCounter "requests" "" 10).collects [addOne [], .collect, addOne [], .collect])) :=
  (counter_monotonic_iff "requests" "" 10 (by decide +kernel)).mpr
    (List.all_iff_forall_prop.mp (by decide +kernel)) []

/-- One addition of `2 ^ 63`, which no `i64` holds. -/
theorem counter_negative : ¬∀ name description limit events,
    (∀ call ∈ callsOf events, call.measurement.kind = .counter) →
      ∀ attrs, Monotonic
        (valuesOf attrs ((newCounter name description limit).collects events)) := by
  intro h
  have hall := h "bytes" "" 10 [.record ⟨.add 0x8000000000000000, [], ⟨false, none, 0⟩⟩, .collect]
    (by decide +kernel) []
  have hvalues : valuesOf [] ((newCounter "bytes" "" 10).collects
      [.record ⟨.add 0x8000000000000000, [], ⟨false, none, 0⟩⟩, .collect]) = [Int64.minValue] := by
    decide +kernel
  rw [hvalues] at hall
  exact absurd (hall.1 _ (List.mem_singleton_self _)) (by decide)

end Rolly.Metrics
