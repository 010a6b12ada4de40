import Rolly.Batching
import Rolly.ExporterReplies
import Rolly.OtlpLayerForest

/-!
# From the layer to the exporter

A callback of the layer that has something to export encodes it and then calls
the exporter. Callbacks of other threads, other calls of the exporter and the
exporter itself may come in between.
-/

namespace Rolly.Pipeline

open Proto3 (Bytes)
open Exporter (ExporterConfig Call Signal)
open Layer (OtlpLayer Export Sent)

def signalOf : Export → Signal
  | .traces _ => .traces
  | .logs _ => .logs

/-- The call of the exporter at the end of a callback. -/
def sendCall (data : Bytes) : Export → Call
  | .traces _ => .sendTraces data
  | .logs _ => .sendLogs data

/-- What the callback has encoded; a body that no `Vec` can hold panics too. -/
def payload (m : Sent) : Option Bytes := m.data.filter fun data => data.length ≤ Proto.vecCapacity

/-- `inFlight` are the messages of callbacks that have not called the exporter
yet. The last four fields are history that no step reads. -/
structure State where
  layer : Layer.State
  exporter : Exporter.State
  inFlight : List Sent := []
  -- what became of the messages: taken, dropped, and lost in a panic; and the
  -- calls of `send_metrics`
  accepted : List Sent := []
  refused : List Sent := []
  panicked : List Sent := []
  metrics : Nat := 0
  deriving DecidableEq, Repr

inductive Action
  | callback (a : Layer.Action)
  | send (i : Nat)
  | exporter (a : Exporter.Action)
  deriving DecidableEq, Repr

/-- Only the layer sends traces and logs, and it keeps its handle. -/
def others (s : State) : Exporter.Action → Bool
  | .call (.sendTraces _) => false
  | .call (.sendLogs _) => false
  | .call .drop => 1 < s.exporter.channel.handles
  | _ => true

def isSendMetrics : Exporter.Action → Bool
  | .call (.sendMetrics _) => true
  | _ => false

/-- The rest of a callback. -/
def send (config : ExporterConfig) (m : Sent) (s : State) : Option State :=
  match payload m with
  | none => some { s with panicked := s.panicked ++ [m] }
  | some data =>
    (Exporter.step config (.call (sendCall data m.message)) s.exporter).map fun exporter =>
      if s.exporter.channel.hasSlot config then { s with exporter, accepted := s.accepted ++ [m] }
      else { s with exporter, refused := s.refused ++ [m] }

def step (layer : OtlpLayer) (config : ExporterConfig) : Action → State → Option State
  | .callback a, s => (Layer.step layer a s.layer).map fun t =>
    { s with layer := t, inFlight := s.inFlight ++ t.sent.drop s.layer.sent.length }
  | .send i, s => s.inFlight[i]?.bind fun m =>
    send config m { s with inFlight := s.inFlight.eraseIdx i }
  | .exporter a, s =>
    if others s a then (Exporter.step config a s.exporter).map fun exporter =>
      { s with exporter, metrics := s.metrics + (isSendMetrics a).toNat }
    else none

def started (config : ExporterConfig) : Option Exporter.State :=
  (Exporter.start config).bind (Exporter.step config (.call .clone))

def pipeline (layer : OtlpLayer) (config : ExporterConfig) : Machine State Action where
  init s := ∃ threads exporter, started config = some exporter ∧
    s = { layer := { entered := List.replicate threads [] }, exporter }
  step := step layer config

-- ---------------------------------------------------------------------------
-- Steps
-- ---------------------------------------------------------------------------

inductive Stepped (layer : OtlpLayer) (config : ExporterConfig) (s : State) : Action → State → Prop
  | callback (h : Layer.step layer a s.layer = some t) : Stepped layer config s (.callback a)
      { s with layer := t, inFlight := s.inFlight ++ t.sent.drop s.layer.sent.length }
  | panicked (hm : s.inFlight[i]? = some m) (hp : payload m = none) :
      Stepped layer config s (.send i)
        { s with inFlight := s.inFlight.eraseIdx i, panicked := s.panicked ++ [m] }
  | accepted (hm : s.inFlight[i]? = some m) (hp : payload m = some data)
      (hs : s.exporter.channel.hasSlot config)
      (he : Exporter.step config (.call (sendCall data m.message)) s.exporter = some e) :
      Stepped layer config s (.send i) { s with
        inFlight := s.inFlight.eraseIdx i, exporter := e, accepted := s.accepted ++ [m] }
  | refused (hm : s.inFlight[i]? = some m) (hp : payload m = some data)
      (hs : ¬ s.exporter.channel.hasSlot config)
      (he : Exporter.step config (.call (sendCall data m.message)) s.exporter = some e) :
      Stepped layer config s (.send i) { s with
        inFlight := s.inFlight.eraseIdx i, exporter := e, refused := s.refused ++ [m] }
  | exporter (ho : others s a = true) (he : Exporter.step config a s.exporter = some e) :
      Stepped layer config s (.exporter a)
        { s with exporter := e, metrics := s.metrics + (isSendMetrics a).toNat }

section
variable {layer : OtlpLayer} {config : ExporterConfig} {s t : State}

theorem step_stepped (h : step layer config a s = some t) : Stepped layer config s a t := by
  cases a with
  | callback a =>
    obtain ⟨t, ht, rfl⟩ := Option.map_eq_some_iff.mp h
    exact .callback ht
  | send i =>
    obtain ⟨m, hm, h⟩ := Option.bind_eq_some_iff.mp h
    unfold send at h
    split at h
    · obtain rfl := Option.some.inj h
      exact .panicked hm ‹_›
    · obtain ⟨e, he, rfl⟩ := Option.map_eq_some_iff.mp h
      split
      · exact .accepted hm ‹_› ‹_› he
      · exact .refused hm ‹_› ‹_› he
  | exporter a =>
    simp only [step, Option.ite_none_right_eq_some] at h
    obtain ⟨ho, h⟩ := h
    obtain ⟨e, he, rfl⟩ := Option.map_eq_some_iff.mp h
    exact .exporter ho he

/-- The layer does not see the exporter. -/
theorem refines_layer : (pipeline layer config).Refines (Layer.tracing layer) State.layer where
  init s hs := by
    obtain ⟨threads, exporter, -, rfl⟩ := hs
    exact .init ⟨threads, rfl⟩
  step a s t _ ht := by
    cases step_stepped ht with
    | @callback a t h => exact ⟨[a], Machine.run_cons_some.mpr ⟨t, h, rfl⟩⟩
    | _ => exact ⟨[], rfl⟩

/-- The exporter sees the callbacks as calls. -/
theorem refines_exporter :
    (pipeline layer config).Refines (Exporter.exporter config) State.exporter where
  init s hs := by
    obtain ⟨threads, exporter, hexp, rfl⟩ := hs
    obtain ⟨e, he, hclone⟩ := Option.bind_eq_some_iff.mp hexp
    have hr : (Exporter.exporter config).Reachable e := .init he
    have hstep : (Exporter.exporter config).step (.call .clone) e = some exporter := hclone
    exact hr.step hstep
  step a s t _ ht := by
    cases step_stepped ht with
    | callback | panicked => exact ⟨[], rfl⟩
    | @accepted i m data e _ _ _ he | @refused i m data e _ _ _ he =>
      exact ⟨[.call (sendCall data m.message)], Machine.run_cons_some.mpr ⟨e, he, rfl⟩⟩
    | @exporter a e _ he => exact ⟨[a], Machine.run_cons_some.mpr ⟨e, he, rfl⟩⟩

end

end Rolly.Pipeline
