import Rolly.MetricsRefinement

/-!
# Attribute order never matters

A record call reads its attributes through the unordered hash and the sorted
list alone, so two programs whose calls differ in the order of attributes have
one registry, collisions or not.
-/

namespace Rolly.Metrics

-- ---------------------------------------------------------------------------
-- One call
-- ---------------------------------------------------------------------------

/-- The same call but for the order of its attributes. -/
structure RecordCall.Permuted (call call' : RecordCall) : Prop where
  measurement : call.measurement = call'.measurement
  context : call.context = call'.context
  attrs : call.attrs.Perm call'.attrs

section
variable {call call' : RecordCall}

theorem inner_record_permuted (inner : Inner V) (h : attrs.Perm attrs') :
    inner.record attrs exemplar fresh update = inner.record attrs' exemplar fresh update := by
  simp only [Inner.record, attrsKey_eq]
  rw [attrsHashUnordered_perm h, ownedAttrs_congr h]

theorem Instrument.record_permuted (h : call.Permuted call') (instrument : Instrument) :
    instrument.record call = instrument.record call' := by
  obtain ⟨measurement, attrs, context⟩ := call
  obtain ⟨_, attrs', _⟩ := call'
  obtain ⟨rfl, rfl, hp⟩ := h
  cases instrument with
  | counter inner =>
    simp only [Instrument.record, CounterInner.add, inner_record_permuted inner hp]
  | gauge inner =>
    simp only [Instrument.record, GaugeInner.set, inner_record_permuted inner hp]
  | histogram inner =>
    simp only [Instrument.record, HistogramInner.observe, inner_record_permuted inner.toInner hp]

theorem MetricsRegistry.record_permuted (h : call.Permuted call') (r : MetricsRegistry)
    (handle : Nat) : r.record handle call = r.record handle call' := by
  simp only [MetricsRegistry.record, Instrument.record_permuted h]

end

-- ---------------------------------------------------------------------------
-- Equality up to order is an equivalence
-- ---------------------------------------------------------------------------

theorem SamePoints.symm (h : SamePoints a b) : SamePoints b a := by
  cases h with
  | counter h => exact .counter h.symm
  | gauge h => exact .gauge h.symm
  | histogram h => exact .histogram h.symm

theorem SamePoints.trans (h : SamePoints a b) (h' : SamePoints b c) : SamePoints a c := by
  cases h with
  | counter h =>
    cases h' with
    | counter h' => exact .counter (h.trans h')
  | gauge h =>
    cases h' with
    | gauge h' => exact .gauge (h.trans h')
  | histogram h =>
    cases h' with
    | histogram h' => exact .histogram (h.trans h')

theorem forall₂_samePoints_trans (h : List.Forall₂ SamePoints a b)
    (h' : List.Forall₂ SamePoints b c) : List.Forall₂ SamePoints a c := by
  induction h generalizing c with
  | nil => exact h'
  | cons hab _ ih =>
    cases h' with
    | cons hbc h' => exact .cons (hab.trans hbc) (ih h')

theorem SameUpToOrder.trans (h : SameUpToOrder a b) (h' : SameUpToOrder b c) :
    SameUpToOrder a c := by
  obtain ⟨reordered, hperm, hsame⟩ := h'
  obtain ⟨other, hother, hsame'⟩ := h.perm hperm
  exact ⟨other, hother, forall₂_samePoints_trans hsame' hsame⟩

theorem SameUpToOrder.symm (h : SameUpToOrder a b) : SameUpToOrder b a := by
  obtain ⟨reordered, hperm, hsame⟩ := h
  have hback : List.Forall₂ SamePoints b reordered :=
    (List.Forall₂.flip hsame).imp fun _ _ h => h.symm
  exact SameUpToOrder.perm ⟨b, .refl _, hback⟩ hperm.symm

-- ---------------------------------------------------------------------------
-- Whole runs
-- ---------------------------------------------------------------------------

/-- The same operation, where a record call may list its attributes otherwise. -/
inductive Op.Permuted : Op → Op → Prop
  | register (registration : Registration) :
      Permuted (.register registration) (.register registration)
  | record {call call' : RecordCall} : call.Permuted call' →
      Permuted (.record place call) (.record place call')
  | collect : Permuted .collect .collect

theorem Program.Step.permuted {op op' : Op} (h : Program.Step p op p') (hop : op.Permuted op') :
    Program.Step p op' p' := by
  cases hop with
  | register | collect => exact h
  | record hcall =>
    cases h with
    | record call hplace hkind =>
      rw [MetricsRegistry.record_permuted hcall]
      exact .record _ hplace (hcall.measurement ▸ hkind)

theorem forall₂_concat_left {R : α → β → Prop} (h : List.Forall₂ R (as ++ [a]) bs) :
    ∃ front last, List.Forall₂ R as front ∧ R a last ∧ bs = front ++ [last] := by
  induction as generalizing bs with
  | nil =>
    obtain ⟨last, _, hlast, hnil, rfl⟩ := List.forall₂_cons_left_iff.mp h
    obtain rfl := List.forall₂_nil_left_iff.mp hnil
    exact ⟨[], last, .nil, hlast, rfl⟩
  | cons _ as ih =>
    obtain ⟨first, rest, hfirst, hrest, rfl⟩ := List.forall₂_cons_left_iff.mp h
    obtain ⟨front, last, hfront, hlast, rfl⟩ := ih hrest
    exact ⟨first :: front, last, .cons hfirst hfront, hlast, rfl⟩

/-- A run that permutes attributes can go the same way. -/
theorem Program.Runs.permuted (h : Program.Runs defaultMax ops p)
    (hops : List.Forall₂ Op.Permuted ops ops') : Program.Runs defaultMax ops' p := by
  induction h generalizing ops' with
  | nil =>
    cases hops
    exact .nil
  | concat _ hstep ih =>
    obtain ⟨front, last, hfront, hlast, rfl⟩ := forall₂_concat_left hops
    exact .concat (ih hfront) (hstep.permuted hlast)

/-- The same registry, handles and collects, up to what hash maps leave open. -/
structure Program.SameAs (p p' : Program) : Prop where
  registry : p.registry = p'.registry
  handles : p.handles = p'.handles
  collected : List.Forall₂ SameUpToOrder p.collected p'.collected

theorem Program.SameAs.step {p p' q q' : Program} (h : p.SameAs p') (hq : Program.Step p op q)
    (hq' : Program.Step p' op q') : q.SameAs q' := by
  cases hq with
  | register registration =>
    cases hq' with
    | register =>
      exact ⟨by rw [h.registry], by rw [h.handles, h.registry], h.collected⟩
  | record call hplace hkind =>
    cases hq' with
    | record _ hplace' _ =>
      obtain rfl := Option.some.inj (hplace.symm.trans (h.handles ▸ hplace'))
      exact ⟨by rw [h.registry], h.handles, h.collected⟩
  | collect hshown =>
    cases hq' with
    | collect hshown' =>
      rw [← h.registry] at hshown'
      exact ⟨by rw [h.registry], h.handles,
        List.rel_append h.collected (.cons (hshown.trans hshown'.symm) .nil)⟩

theorem Program.Runs.of_nil (h : Program.Runs defaultMax [] p) :
    p = { registry := .withMaxCardinality defaultMax } := by
  generalize hops : ([] : List Op) = ops at h
  cases h with
  | nil => rfl
  | concat => simp at hops

theorem Program.Runs.of_concat (h : Program.Runs defaultMax (ops ++ [op]) p) :
    ∃ q, Program.Runs defaultMax ops q ∧ Program.Step q op p := by
  generalize hops : ops ++ [op] = all at h
  cases h with
  | nil => simp at hops
  | concat hq hstep =>
    obtain ⟨rfl, hop⟩ := List.append_inj' hops rfl
    obtain rfl := List.singleton_inj.mp hop
    exact ⟨_, hq, hstep⟩

/-- Only the order in which a collect shows things is left open by a program. -/
theorem Program.Runs.sameAs (h : Program.Runs defaultMax ops p)
    (h' : Program.Runs defaultMax ops p') : p.SameAs p' := by
  induction h generalizing p' with
  | nil =>
    obtain rfl := h'.of_nil
    exact ⟨rfl, rfl, .nil⟩
  | concat _ hstep ih =>
    obtain ⟨q', hq', hstep'⟩ := h'.of_concat
    exact (ih hq').step hstep hstep'

/-- Permuting the attributes of each call changes nothing: the permuted program
can do all that the first one can, and whatever it does is the same up to the
order in which hash maps are read. -/
theorem attribute_order_irrelevant (h : Program.Runs defaultMax ops p)
    (hops : List.Forall₂ Op.Permuted ops ops') :
    Program.Runs defaultMax ops' p ∧
      ∀ p', Program.Runs defaultMax ops' p' → p.SameAs p' :=
  ⟨h.permuted hops, fun _ h' => (h.permuted hops).sameAs h'⟩

/-- A repeated pair and a set that finds no room, each listed in two ways. -/
def listedIn (first second : List (String × String)) : List Op :=
  let context : TraceContext := ⟨false, none, 0⟩
  [.register (.counter "requests" "" (some 1)), .record 0 ⟨.add 2, first, context⟩,
    .record 0 ⟨.add 3, second, context⟩, .collect]

theorem attribute_order_irrelevant_repeated : ∃ p,
    Program.Runs 10 (listedIn [("a", "1"), ("b", "2"), ("a", "1")] [("c", "3"), ("d", "4")]) p ∧
    Program.Runs 10 (listedIn [("a", "1"), ("a", "1"), ("b", "2")] [("d", "4"), ("c", "3")]) p ∧
    ∀ p', Program.Runs 10 (listedIn [("a", "1"), ("a", "1"), ("b", "2")]
      [("d", "4"), ("c", "3")]) p' → p.SameAs p' := by
  have hruns : ∃ p, Program.Runs 10
      (listedIn [("a", "1"), ("b", "2"), ("a", "1")] [("c", "3"), ("d", "4")]) p :=
    ⟨_, .concat (.concat (.concat (.concat .nil (.register _)) (.record _ rfl rfl))
      (.record _ rfl rfl)) (.collect (.refl _))⟩
  have hops : List.Forall₂ Op.Permuted
      (listedIn [("a", "1"), ("b", "2"), ("a", "1")] [("c", "3"), ("d", "4")])
      (listedIn [("a", "1"), ("a", "1"), ("b", "2")] [("d", "4"), ("c", "3")]) :=
    .cons (.register _) (.cons (.record ⟨rfl, rfl, by decide⟩)
      (.cons (.record ⟨rfl, rfl, by decide⟩) (.cons .collect .nil)))
  obtain ⟨p, hp⟩ := hruns
  exact ⟨p, hp, attribute_order_irrelevant hp hops⟩

end Rolly.Metrics
