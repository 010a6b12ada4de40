import Rolly.MetricsSortedKeys
import Mathlib.Data.List.Perm.Basic

/-!
# The registry refines the reference

Whatever a program registers, records and collects, each collect shows what
the reference registry would, up to order.
-/

namespace Rolly.Metrics

-- ---------------------------------------------------------------------------
-- A whole collect
-- ---------------------------------------------------------------------------

namespace MetricsRegistry

variable {r : MetricsRegistry}

theorem collectEach_append (handles handles' : List Nat) :
    r.collectEach (handles ++ handles') =
      ((r.collectEach handles).1 ++ ((r.collectEach handles).2.collectEach handles').1,
        ((r.collectEach handles).2.collectEach handles').2) := by
  induction handles generalizing r with
  | nil => rfl
  | cons handle handles ih =>
    simp only [List.cons_append, collectEach, ih, List.append_assoc]

theorem collectEach_handles (handles : List Nat) (kind : Kind) :
    (r.collectEach handles).2.handles kind = r.handles kind := by
  induction handles generalizing r with
  | nil => rfl
  | cons handle handles ih =>
    simp only [collectEach, ih, collectOne_snd, act_handles]

/-- Each instrument is visited once, so no visit sees another one's effect. -/
theorem collectEach_eq {handles : List Nat} (h : handles.Nodup) : r.collectEach handles =
    (handles.filterMap fun handle => r.instruments[handle]?.bind (·.collect.1),
      { r with
        instruments := r.instruments.mapIdx fun handle instrument =>
          if handle ∈ handles then instrument.collect.2 else instrument }) := by
  induction handles generalizing r with
  | nil => simp [collectEach, List.mapIdx_eq_zipIdx_map]
  | cons handle handles ih =>
    obtain ⟨hnot, hnd⟩ := List.nodup_cons.mp h
    have hsame : ∀ other ∈ handles, (r.act handle .collect).instruments[other]? =
        r.instruments[other]? := by
      intro other hm
      rw [act_getElem?, if_neg]
      rintro rfl
      exact hnot hm
    have hsnapshots : (handles.filterMap fun other =>
        (r.act handle .collect).instruments[other]?.bind (·.collect.1)) =
        handles.filterMap fun other => r.instruments[other]?.bind (·.collect.1) :=
      List.filterMap_congr fun other hm => by rw [hsame other hm]
    simp only [collectEach, collectOne_snd, collectOne_fst, ih hnd, hsnapshots, Prod.mk.injEq]
    constructor
    · rw [List.filterMap_cons]
      cases r.instruments[handle]?.bind (·.collect.1) <;> rfl
    · refine congrArg (fun instruments => { r with instruments }) (List.ext_getElem? fun i => ?_)
      rw [List.getElem?_mapIdx, List.getElem?_mapIdx, act_getElem?]
      by_cases hi : handle = i
      · subst hi
        simp [hnot, Instrument.apply, Option.map_map, Function.comp_def]
      · simp [hi, Ne.symm hi]

def allHandles (r : MetricsRegistry) : List Nat :=
  [Kind.counter, .gauge, .histogram].flatMap fun kind => (r.handles kind).map (·.2)

theorem collect_eq : r.collect = r.collectEach r.allHandles := by
  have hgauges : (r.collectEach (r.counters.map (·.2))).2.gauges = r.gauges :=
    collectEach_handles _ .gauge
  have hhistograms : ∀ handles, ((r.collectEach (r.counters.map (·.2))).2.collectEach
      handles).2.histograms = r.histograms := fun handles =>
    (collectEach_handles _ .histogram).trans (collectEach_handles _ .histogram)
  simp only [collect, hgauges, hhistograms, allHandles, List.flatMap_cons, List.flatMap_nil,
    List.append_nil, collectEach_append, List.append_assoc]
  rfl

theorem mem_handles (h : r.WellNamed) : handle ∈ (r.handles kind).map (·.2) ↔
    (r.keys[handle]?.map (·.1)) = some kind := by
  rw [h.handles, handlesIn, List.map_map, List.mem_map]
  constructor
  · rintro ⟨⟨key, i⟩, hmem, rfl⟩
    obtain ⟨hzip, hkind⟩ := List.mem_filter.mp hmem
    have hkey : r.keys[i]? = some key := List.mem_zipIdx_iff_getElem?.mp hzip
    simpa [hkey] using hkind
  · intro hkind
    obtain ⟨key, hkey, rfl⟩ := Option.map_eq_some_iff.mp hkind
    exact ⟨(key, handle), List.mem_filter.mpr ⟨List.mem_zipIdx_iff_getElem?.mpr hkey, by simp⟩, rfl⟩

theorem nodup_handles (h : r.WellNamed) : ((r.handles kind).map (·.2)).Nodup := by
  have hsub : ((r.handles kind).map (·.2)).Sublist (r.keys.zipIdx.map (·.2)) := by
    rw [h.handles, handlesIn, List.map_map]
    exact List.filter_sublist.map _
  rw [List.zipIdx_map_snd] at hsub
  exact hsub.nodup List.nodup_range'

theorem allHandles_perm (h : r.WellNamed) :
    r.allHandles.Perm (List.range r.instruments.length) := by
  have hkind : ∀ handle, handle ∈ r.allHandles ↔ handle < r.instruments.length := by
    intro handle
    simp only [allHandles, List.mem_flatMap, mem_handles h]
    constructor
    · rintro ⟨kind, -, hk⟩
      obtain ⟨key, hkey, -⟩ := Option.map_eq_some_iff.mp hk
      obtain ⟨hlt, -⟩ := List.getElem?_eq_some_iff.mp hkey
      simpa [keys] using hlt
    · intro hlt
      obtain ⟨key, hkey⟩ : ∃ key, r.keys[handle]? = some key := by
        simp [keys, List.getElem?_eq_getElem hlt]
      refine ⟨key.1, ?_, by rw [hkey, Option.map_some]⟩
      cases key.1 <;> simp
  refine (List.perm_ext_iff_of_nodup ?_ List.nodup_range).mpr fun handle => by
    rw [hkind, List.mem_range]
  refine List.nodup_flatMap.mpr ⟨fun kind _ => nodup_handles h, ?_⟩
  have hdisjoint {kind kind' : Kind} (hne : kind ≠ kind') :
      List.Disjoint ((r.handles kind).map (·.2)) ((r.handles kind').map (·.2)) := by
    intro handle hm hm'
    exact hne (Option.some.inj (((mem_handles h).mp hm).symm.trans ((mem_handles h).mp hm')))
  simp [List.pairwise_cons, Function.onFun, hdisjoint]

theorem filterMap_range (l : List α) (f : α → Option β) :
    ((List.range l.length).filterMap fun i => l[i]?.bind f) = l.filterMap f := by
  induction l using List.reverseRecOn with
  | nil => rfl
  | append_singleton l a ih =>
    have hold : ((List.range l.length).filterMap fun i => (l ++ [a])[i]?.bind f) =
        (List.range l.length).filterMap fun i => l[i]?.bind f := by
      refine List.filterMap_congr fun i hi => ?_
      rw [List.getElem?_append_left (List.mem_range.mp hi)]
    rw [List.length_append, List.length_singleton, List.range_succ, List.filterMap_append, hold, ih,
      List.filterMap_append]
    simp [List.filterMap_cons]

/-- A collect shows each instrument once and takes its exemplars. -/
theorem collect_spec (h : r.WellNamed) :
    r.collect.1.Perm (r.instruments.filterMap (·.collect.1)) ∧
      r.collect.2 = { r with instruments := r.instruments.map (·.collect.2) } := by
  have hperm := allHandles_perm h
  rw [collect_eq, collectEach_eq (hperm.nodup_iff.mpr List.nodup_range)]
  constructor
  · rw [← filterMap_range r.instruments]
    exact hperm.filterMap _
  · refine congrArg (fun instruments => { r with instruments }) (List.ext_getElem? fun i => ?_)
    rw [List.getElem?_mapIdx, List.getElem?_map]
    cases hi : r.instruments[i]? with
    | none => rfl
    | some instrument =>
      obtain ⟨hlt, -⟩ := List.getElem?_eq_some_iff.mp hi
      have hmem : i ∈ r.allHandles := hperm.mem_iff.mpr (List.mem_range.mpr hlt)
      simp [hmem]

end MetricsRegistry

-- ---------------------------------------------------------------------------
-- Up to order
-- ---------------------------------------------------------------------------

theorem SameUpToOrder.perm (h : SameUpToOrder a b) (hp : b.Perm c) : SameUpToOrder a c := by
  obtain ⟨reordered, hperm, hsame⟩ := h
  have hcomp : Relation.Comp (List.Forall₂ SamePoints) List.Perm reordered c := ⟨b, hsame, hp⟩
  rw [List.forall₂_comp_perm_eq_perm_comp_forall₂] at hcomp
  obtain ⟨reordered', hperm', hsame'⟩ := hcomp
  exact ⟨reordered', hperm.trans hperm', hsame'⟩

theorem SamePoints.refl (snapshot : MetricSnapshot) : SamePoints snapshot snapshot := by
  cases snapshot with
  | counter => exact .counter (.refl _)
  | gauge => exact .gauge (.refl _)
  | histogram => exact .histogram (.refl _)

theorem SameUpToOrder.refl (snapshots : List MetricSnapshot) : SameUpToOrder snapshots snapshots :=
  ⟨snapshots, .refl _, List.forall₂_same.mpr fun snapshot _ => .refl snapshot⟩

-- ---------------------------------------------------------------------------
-- The simulation
-- ---------------------------------------------------------------------------

/-- The registry after `ops` has the instruments of the reference, each with
its history behind it. -/
structure Simulates (ops : List Op) (p : Program) (r : Reference) : Prop where
  limit : p.registry.defaultMaxCardinality = r.defaultMax
  wellNamed : p.registry.WellNamed
  instruments : p.registry.instruments = r.instruments.map fun (registration, events) =>
    (registration.instrument r.defaultMax).replay events
  handles : p.handles.map (fun handle => p.registry.keys[handle]?) = r.handles.map some
  registered : r.handles = registeredKeys ops
  used : (registration, events) ∈ r.instruments → call ∈ callsOf events →
    call.measurement.kind = registration.kind ∧ ∃ place, .record place call ∈ ops ∧
      (registeredKeys ops)[place]? = some registration.key
  collected : List.Forall₂ SameUpToOrder p.collected r.collected

theorem Simulates.keys (h : Simulates ops p r) :
    p.registry.keys = r.instruments.map (·.1.key) := by
  rw [MetricsRegistry.keys, h.instruments, List.map_map]
  simp [Function.comp_def]

theorem registeredKeys_append :
    registeredKeys (ops ++ ops') = registeredKeys ops ++ registeredKeys ops' :=
  List.filterMap_append

theorem getElem?_registeredKeys_append {place : Nat}
    (h : (registeredKeys ops)[place]? = some key) :
    (registeredKeys (ops ++ ops'))[place]? = some key := by
  obtain ⟨hlt, -⟩ := List.getElem?_eq_some_iff.mp h
  rw [registeredKeys_append, List.getElem?_append_left hlt, h]

theorem simulates_nil : Simulates [] { registry := .withMaxCardinality defaultMax }
    { defaultMax } where
  limit := rfl
  wellNamed := MetricsRegistry.wellNamed_withMaxCardinality
  instruments := rfl
  handles := rfl
  registered := rfl
  used := nofun
  collected := .nil

/-- What was recorded before was recorded in the longer run too. -/
theorem Simulates.used_concat (h : Simulates ops p r)
    (hm : (registration, events) ∈ r.instruments) (hc : call ∈ callsOf events) (op : Op) :
    call.measurement.kind = registration.kind ∧ ∃ place, .record place call ∈ ops ++ [op] ∧
      (registeredKeys (ops ++ [op]))[place]? = some registration.key := by
  obtain ⟨hkind, place, hop, hkey⟩ := h.used hm hc
  exact ⟨hkind, place, List.mem_append_left _ hop, getElem?_registeredKeys_append hkey⟩

theorem Simulates.register (h : Simulates ops p r) (registration : Registration) :
    Simulates (ops ++ [.register registration])
      { p with
        registry := (registration.call p.registry).2
        handles := p.handles ++ [(registration.call p.registry).1] }
      (r.step (.register registration)) := by
  have hregistered : r.handles ++ [registration.key] =
      registeredKeys (ops ++ [.register registration]) := by
    rw [registeredKeys_append, h.registered]
    rfl
  rw [MetricsRegistry.call_eq]
  cases hg : p.registry.get registration.kind registration.name with
  | some handle =>
    have hkey := (MetricsRegistry.get_eq_some h.wellNamed).mp hg
    have hold : registration.key ∈ r.instruments.map (·.1.key) :=
      h.keys ▸ List.mem_of_getElem? hkey
    rw [MetricsRegistry.entry_of_some _ _ _ hg]
    simp only [Reference.step, hold, if_true]
    exact {
      h with
      handles := by
        rw [List.map_append, List.map_append, h.handles]
        exact congrArg _ (congrArg (fun k => [k]) hkey)
      registered := hregistered
      used := fun hm hc => h.used_concat hm hc _ }
  | none =>
    have hnew : registration.key ∉ r.instruments.map (·.1.key) :=
      h.keys ▸ (MetricsRegistry.get_eq_none h.wellNamed).mp hg
    rw [MetricsRegistry.entry_of_none _ _ _ hg]
    simp only [Reference.step, hnew, if_false]
    refine ⟨?_, h.wellNamed.push _ _ _ hg ?_, ?_, ?_, hregistered, ?_, h.collected⟩
    · rw [MetricsRegistry.push_default, h.limit]
    · rw [instrument_descriptor, descriptor_key]
      rfl
    · rw [MetricsRegistry.push_instruments, h.instruments, h.limit, List.map_append]
      rfl
    · have hold : ∀ handle ∈ p.handles, (p.registry.keys ++ [registration.key])[handle]? =
          p.registry.keys[handle]? := by
        intro handle hm
        have hmem := List.mem_map_of_mem (f := fun handle => p.registry.keys[handle]?) hm
        rw [h.handles] at hmem
        obtain ⟨key, -, hkey⟩ := List.mem_map.mp hmem
        obtain ⟨hlt, -⟩ := List.getElem?_eq_some_iff.mp hkey.symm
        exact List.getElem?_append_left hlt
      have hlast : (p.registry.keys ++ [registration.key])[p.registry.instruments.length]? =
          some registration.key := by
        simp [MetricsRegistry.keys]
      rw [MetricsRegistry.push_keys, instrument_descriptor, descriptor_key, List.map_append,
        List.map_append, ← h.handles, List.map_congr_left hold, List.map_singleton, hlast]
      rfl
    · intro other events call hm hc
      obtain hm | hm := List.mem_append.mp hm
      · exact h.used_concat hm hc _
      · obtain ⟨rfl, rfl⟩ := Prod.mk.inj (List.mem_singleton.mp hm)
        cases hc

theorem kind_eq (instrument : Instrument) : instrument.kind = instrument.descriptor.key.1 := by
  cases instrument <;> rfl

theorem Simulates.record (h : Simulates ops p r) (hplace : p.handles[place]? = some handle)
    (hkind : p.registry.instruments[handle]?.map (·.kind) = some call.measurement.kind) :
    Simulates (ops ++ [.record place call])
      { p with registry := (p.registry.record handle call).1 }
      (r.step (.record place call)) := by
  obtain ⟨key, hkey, hrkey⟩ : ∃ key, p.registry.keys[handle]? = some key ∧
      r.handles[place]? = some key := by
    have hget := congrArg (·[place]?) h.handles
    simp only [List.getElem?_map, hplace, Option.map_some] at hget
    obtain ⟨key, hr, hk⟩ := Option.map_eq_some_iff.mp hget.symm
    exact ⟨key, hk.symm, hr⟩
  have hkeykind : call.measurement.kind = key.1 := by
    obtain ⟨instrument, hi, hik⟩ := Option.map_eq_some_iff.mp hkind
    rw [MetricsRegistry.keys, List.getElem?_map, hi, Option.map_some, Option.some.injEq] at hkey
    rw [← hik, ← hkey, kind_eq]
  have hregistered : registeredKeys (ops ++ [.record place call]) = registeredKeys ops := by
    rw [registeredKeys_append]
    exact List.append_nil _
  rw [MetricsRegistry.record_fst]
  simp only [Reference.step, hrkey]
  refine ⟨h.limit, h.wellNamed.act, ?_, ?_, hregistered ▸ h.registered, ?_, h.collected⟩
  · -- the history of that instrument grows, and of no other
    refine List.ext_getElem? fun i => ?_
    rw [MetricsRegistry.act_getElem?, h.instruments]
    simp only [Reference.append, List.getElem?_map]
    cases hi : r.instruments[i]? with
    | none => simp
    | some entry =>
      obtain ⟨registration, events⟩ := entry
      have hikey : p.registry.keys[i]? = some registration.key := by
        rw [h.keys, List.getElem?_map, hi, Option.map_some]
      by_cases heq : handle = i
      · subst heq
        have hsame : registration.key = key := Option.some.inj (hikey.symm.trans hkey)
        simp [hsame, replay_concat]
      · have hother : registration.key ≠ key := by
          rintro rfl
          obtain ⟨hlt, -⟩ := List.getElem?_eq_some_iff.mp hkey
          exact heq ((List.getElem?_inj hlt h.wellNamed.nodup).mp (hkey.trans hikey.symm))
        simp [heq, hother]
  · simp only [MetricsRegistry.act_keys]
    exact h.handles
  · intro registration events other hm hc
    obtain ⟨⟨_, old⟩, hmem, heq⟩ := List.mem_map.mp hm
    obtain ⟨rfl, rfl⟩ := Prod.mk.inj heq
    split at hc
    · next hsame =>
      rw [callsOf_append, callsOf_record, List.mem_append, List.mem_singleton] at hc
      obtain hc | rfl := hc
      · exact h.used_concat hmem hc _
      · refine ⟨hkeykind.trans (congrArg (·.1) hsame.symm), place, by simp, ?_⟩
        rw [hregistered, ← h.registered, hrkey, hsame]
    · exact h.used_concat hmem hc _

theorem Simulates.separates (h : Simulates ops p r) (hall : HashesSeparate (ops ++ rest))
    (hm : (registration, events) ∈ r.instruments) : Separates events := by
  intro call hc call' hc'
  obtain ⟨-, place, hop, hkey⟩ := h.used hm hc
  obtain ⟨-, place', hop', hkey'⟩ := h.used hm hc'
  refine hall place call place' call' (List.mem_append_left _ hop) (List.mem_append_left _ hop') ?_
  rw [getElem?_registeredKeys_append hkey, getElem?_registeredKeys_append hkey']

theorem Simulates.collect (h : Simulates ops p r) (hall : HashesSeparate (ops ++ rest))
    (hsame : SameUpToOrder snapshots p.registry.collect.1) :
    Simulates (ops ++ [.collect])
      { p with registry := p.registry.collect.2, collected := p.collected ++ [snapshots] }
      (r.step .collect) := by
  obtain ⟨hperm, hsnd⟩ := MetricsRegistry.collect_spec h.wellNamed
  have hexpected : p.registry.instruments.filterMap (·.collect.1) =
      r.instruments.filterMap fun (registration, events) =>
        expectedSnapshot r.defaultMax registration events := by
    rw [h.instruments, List.filterMap_map]
    refine List.filterMap_congr ?_
    rintro ⟨registration, events⟩ hm
    exact snapshot_replay (fun call hc => (h.used hm hc).1) (h.separates hall hm)
  have hkeys : p.registry.collect.2.keys = p.registry.keys := by
    simp [hsnd, MetricsRegistry.keys, Function.comp_def]
  have hhandles : ∀ kind, p.registry.collect.2.handles kind = p.registry.handles kind := by
    intro kind
    rw [hsnd]
    cases kind <;> rfl
  refine ⟨?_, ⟨?_, ?_⟩, ?_, ?_, ?_, ?_, ?_⟩
  · rw [hsnd]
    exact h.limit
  · intro kind
    rw [hhandles, hkeys, h.wellNamed.handles]
  · rw [hkeys]
    exact h.wellNamed.nodup
  · rw [hsnd]
    simp only [Reference.step, h.instruments, List.map_map]
    refine List.map_congr_left ?_
    rintro ⟨registration, events⟩ -
    simp [replay_concat, Instrument.apply]
  · rw [hkeys]
    exact h.handles
  · rw [registeredKeys_append]
    exact h.registered.trans (List.append_nil _).symm
  · intro registration events call hm hc
    obtain ⟨⟨_, old⟩, hmem, heq⟩ := List.mem_map.mp hm
    obtain ⟨rfl, rfl⟩ := Prod.mk.inj heq
    rw [callsOf_append, callsOf_collect, List.append_nil] at hc
    exact h.used_concat hmem hc _
  · exact List.rel_append h.collected (.cons (hsame.perm (hexpected ▸ hperm)) .nil)

theorem simulates_run (h : Program.Runs defaultMax ops p) (hall : HashesSeparate (ops ++ rest)) :
    Simulates ops p (Reference.run defaultMax ops) := by
  induction h generalizing rest with
  | nil => exact simulates_nil
  | concat _ hstep ih =>
    rw [List.append_assoc] at hall
    have hsim := ih hall
    rw [Reference.run, List.foldl_append]
    cases hstep with
    | register registration => exact hsim.register registration
    | record call hplace hkind => exact hsim.record hplace hkind
    | collect hsame => exact hsim.collect hall hsame

/-- Unordered hashes for sorted keys: as long as no two attribute multisets on
one instrument collide, every collect of every run shows what the reference
registry says. -/
theorem collect_refines (h : Program.Runs defaultMax ops p) (hsep : HashesSeparate ops) :
    List.Forall₂ SameUpToOrder p.collected (Reference.run defaultMax ops).collected := by
  have hall : HashesSeparate (ops ++ []) := by rwa [List.append_nil]
  exact (simulates_run h hall).collected

/-- One attribute set in two orders, then another one that finds no room. -/
def reordered : List Op :=
  let context : TraceContext := ⟨false, none, 0⟩
  [.register (.counter "requests" "" (some 1)),
    .record 0 ⟨.add 2, [("path", "/"), ("method", "GET")], context⟩,
    .record 0 ⟨.add 3, [("method", "GET"), ("path", "/")], context⟩,
    .record 0 ⟨.add 4, [], context⟩, .collect]

theorem collect_refines_reordered : ∃ p, Program.Runs 10 reordered p ∧
    List.Forall₂ SameUpToOrder p.collected (Reference.run 10 reordered).collected ∧
    (Reference.run 10 reordered).collected =
      [[.counter "requests" "" [([("method", "GET"), ("path", "/")], 5, none)]]] := by
  have hruns : ∃ p, Program.Runs 10 reordered p :=
    ⟨_, .concat (.concat (.concat (.concat (.concat .nil (.register _)) (.record _ rfl rfl))
      (.record _ rfl rfl)) (.record _ rfl rfl)) (.collect (.refl _))⟩
  let call? : Op → Option RecordCall
    | .record _ call => some call
    | _ => none
  have hpairs : ∀ call ∈ reordered.filterMap call?, ∀ call' ∈ reordered.filterMap call?,
      attrsHashUnordered call.attrs = attrsHashUnordered call'.attrs →
        call.attrs.Perm call'.attrs := by
    decide +kernel
  have hsep : HashesSeparate reordered := fun _ call _ call' h h' _ =>
    hpairs call (List.mem_filterMap.mpr ⟨_, h, rfl⟩) call' (List.mem_filterMap.mpr ⟨_, h', rfl⟩)
  obtain ⟨p, hp⟩ := hruns
  exact ⟨p, hp, collect_refines hp hsep, by decide +kernel⟩

end Rolly.Metrics
