import Rolly.LogRoundTrip
import Rolly.MetricsRoundTrip
import Rolly.TraceRoundTrip

/-!
# Attributes read back

Six messages carry attributes. A collector gets back the list that was given
unless one of the values is an empty string or empty bytes: these are skipped
although they sit in a oneof.
-/

namespace Rolly

open Proto3 (Bytes decodeMessage)
open Proto

-- ---------------------------------------------------------------------------
-- The messages
-- ---------------------------------------------------------------------------

/-- A message that carries attributes, and what it is encoded from. -/
inductive Carrier
  | span (data : SpanData)
  | logRecord (log : LogData)
  | resource (attrs : List KeyValue)
  | counter (startTime time : UInt64) (dp : CounterDataPoint)
  | gauge (startTime time : UInt64) (dp : GaugeDataPoint)
  | histogram (startTime time : UInt64) (boundaries : List F64) (dp : HistogramDataPoint)
  deriving DecidableEq, Repr

/-- The attributes of a data point have text values only. -/
def ofAttrs (attrs : Attrs) : List KeyValue := attrs.map fun (key, value) => ⟨key, .string value⟩

namespace Carrier

def attributes : Carrier → List KeyValue
  | .span data => data.attributes
  | .logRecord log => log.attributes
  | .resource attrs => attrs
  | .counter _ _ dp => ofAttrs dp.1
  | .gauge _ _ dp => ofAttrs dp.1
  | .histogram _ _ _ dp => ofAttrs dp.attrs

def encode (buf : Bytes) : Carrier → Option Bytes
  | .span data => encodeSpan buf data
  | .logRecord log => encodeLogRecord buf log
  | .resource attrs => encodeResource buf attrs
  | .counter startTime time dp => encodeCounterDataPoint buf dp.1 startTime time dp.2.1 dp.2.2
  | .gauge startTime time dp => encodeGaugeDataPoint buf dp.1 startTime time dp.2.1 dp.2.2
  | .histogram startTime time boundaries dp =>
    encodeHistogramDataPoint buf dp boundaries startTime time

def decode (bytes : Bytes) : Carrier → Option (List Otlp.KeyValue)
  | .span _ => (decodeMessage Otlp.mergeSpan {} bytes).map (·.attributes)
  | .logRecord _ => (decodeMessage Otlp.mergeLogRecord {} bytes).map (·.attributes)
  | .resource _ => (decodeMessage Otlp.mergeResource {} bytes).map (·.attributes)
  | .counter .. | .gauge .. =>
    (decodeMessage Otlp.mergeNumberDataPoint {} bytes).map (·.attributes)
  | .histogram .. => (decodeMessage Otlp.mergeHistogramDataPoint {} bytes).map (·.attributes)

def nodes : Carrier → List Node
  | .span data => spanNodes data
  | .logRecord log => logRecordNodes log
  | .resource attrs => resourceNodes attrs
  | .counter startTime time dp => counterDataPointNodes startTime time dp
  | .gauge startTime time dp => gaugeDataPointNodes startTime time dp
  | .histogram startTime time boundaries dp => histogramDataPointNodes startTime time boundaries dp

theorem encode_nodes (carrier : Carrier) (buf : Bytes) :
    carrier.encode buf = encodeNodes carrier.nodes buf := by
  cases carrier with
  | span data => exact encodeSpan_nodes data buf
  | logRecord log => exact encodeLogRecord_nodes log buf
  | resource attrs => exact encodeResource_nodes attrs buf
  | counter startTime time dp => exact encodeCounterDataPoint_nodes startTime time dp buf
  | gauge startTime time dp => exact encodeGaugeDataPoint_nodes startTime time dp buf
  | histogram startTime time boundaries dp =>
    exact encodeHistogramDataPoint_nodes startTime time boundaries dp buf

theorem attrsErased_eq (attrs : Attrs) : attrsErased attrs = (ofAttrs attrs).filterMap
    KeyValue.erased := by
  rw [attrsErased, ofAttrs, List.filterMap_map]
  rfl

theorem decode_nodes (carrier : Carrier) (hl : (nodesBytes carrier.nodes).length < 2 ^ 64) :
    carrier.decode (nodesBytes carrier.nodes) =
      some (carrier.attributes.filterMap KeyValue.erased) := by
  cases carrier with
  | span data =>
    rw [decode, nodes, (reads_span data).decodeMessage hl]
    rfl
  | logRecord log =>
    rw [decode, nodes, (reads_logRecord log).decodeMessage hl]
    rfl
  | resource attrs =>
    rw [decode, nodes, (reads_resource attrs).decodeMessage hl]
    rfl
  | counter startTime time dp =>
    rw [decode, nodes, (reads_counterDataPoint startTime time dp).decodeMessage hl]
    exact congrArg some (attrsErased_eq dp.1)
  | gauge startTime time dp =>
    rw [decode, nodes, (reads_gaugeDataPoint startTime time dp).decodeMessage hl]
    exact congrArg some (attrsErased_eq dp.1)
  | histogram startTime time boundaries dp =>
    rw [decode, nodes, (reads_histogramDataPoint startTime time boundaries dp).decodeMessage hl]
    exact congrArg some (attrsErased_eq dp.attrs)

end Carrier

-- ---------------------------------------------------------------------------
-- The list of attributes
-- ---------------------------------------------------------------------------

/-- The same key, and a value of the same variant. -/
def KeyValue.carried (kv : KeyValue) : Otlp.KeyValue := ⟨kv.key, some (some kv.value)⟩

/-- An empty string or empty bytes. -/
def AnyValue.isEmpty : AnyValue → Bool
  | .string s => s = ""
  | .bytes b => b = []
  | _ => false

theorem AnyValue.erased_eq (v : AnyValue) : v.erased = if v.isEmpty then none else some v := by
  cases v <;> simp [AnyValue.erased, AnyValue.isEmpty]

theorem KeyValue.erased_eq_carried {kv : KeyValue} :
    kv.erased = some kv.carried ↔ kv.value.isEmpty = false := by
  obtain ⟨key, value⟩ := kv
  cases hv : value.isEmpty <;>
    simp [KeyValue.erased, KeyValue.read, KeyValue.carried, AnyValue.field, AnyValue.erased_eq, hv]

/-- Nothing is added or moved, so a list comes back whole only if each of its
attributes does. -/
theorem filterMap_erased_eq {attrs : List KeyValue} :
    attrs.filterMap KeyValue.erased = attrs.map KeyValue.carried ↔
      ∀ kv ∈ attrs, kv.value.isEmpty = false := by
  constructor
  · intro h
    induction attrs with
    | nil => exact nofun
    | cons kv attrs ih =>
      have hle := List.length_filterMap_le KeyValue.erased attrs
      rw [List.filterMap_cons, List.map_cons] at h
      cases hkv : kv.erased with
      | none =>
        -- an attribute is missing
        rw [hkv] at h
        have := congrArg List.length h
        simp only [List.length_cons, List.length_map] at this
        omega
      | some read =>
        rw [hkv] at h
        obtain ⟨rfl, hrest⟩ := List.cons.inj h
        exact List.forall_mem_cons.mpr ⟨KeyValue.erased_eq_carried.mp hkv, ih hrest⟩
  · intro h
    rw [← List.filterMap_eq_map]
    exact List.filterMap_congr fun kv hm => KeyValue.erased_eq_carried.mpr (h kv hm)

/-- What was written after `buf` reads back as the list that was given exactly
if no value in it is an empty string or empty bytes. -/
theorem attributes_carried_iff {carrier : Carrier} (h : carrier.encode buf = some out)
    (hl : out.length ≤ vecCapacity) :
    ∃ bytes, out = buf ++ bytes ∧
      (carrier.decode bytes = some (carrier.attributes.map KeyValue.carried) ↔
        ∀ kv ∈ carrier.attributes, kv.value.isEmpty = false) := by
  rw [Carrier.encode_nodes] at h
  have hshort := short_of_encodeNodes _ h (by simp [vecCapacity] at hl; omega)
  rw [encodeNodes_eq _ hshort] at h
  obtain rfl := Option.some.inj h
  refine ⟨_, rfl, ?_⟩
  rw [carrier.decode_nodes (by simp [vecCapacity] at hl; omega), Option.some_inj]
  exact filterMap_erased_eq

def falsyResource : Carrier :=
  .resource [⟨"", .bool false⟩, ⟨"n", .int 0⟩, ⟨"x", .double .zero⟩]

theorem attributes_carried_iff_falsy : ∃ out, falsyResource.encode [] = some out ∧
    ∃ bytes, out = [] ++ bytes ∧
      (falsyResource.decode bytes = some (falsyResource.attributes.map KeyValue.carried) ↔
        ∀ kv ∈ falsyResource.attributes, kv.value.isEmpty = false) := by
  obtain ⟨out, hout⟩ := Option.isSome_iff_exists.mp
    (show (falsyResource.encode []).isSome by
      rw [Carrier.encode_nodes, encodeNodes_eq _ (by decide +kernel)]
      rfl)
  refine ⟨out, hout, attributes_carried_iff hout ?_⟩
  rw [Carrier.encode_nodes, encodeNodes_eq _ (by decide +kernel)] at hout
  obtain rfl := Option.some.inj hout
  decide +kernel

def emptyNote : Carrier :=
  .span ⟨.replicate 16 1, .replicate 8 2, .replicate 8 0, "request", .internal, 10, 300,
    [⟨"note", .string ""⟩], none⟩

/-- The key comes back without a value. -/
theorem attribute_not_carried : ¬∀ (carrier : Carrier) (buf out : Bytes),
    carrier.encode buf = some out → out.length ≤ vecCapacity →
    ∃ bytes, out = buf ++ bytes ∧
      carrier.decode bytes = some (carrier.attributes.map KeyValue.carried) := by
  intro h
  have hout : emptyNote.encode [] = some (nodesBytes emptyNote.nodes) := by
    rw [Carrier.encode_nodes, encodeNodes_eq _ (by decide +kernel)]
    rfl
  obtain ⟨bytes, hbytes, hread⟩ := h emptyNote [] _ hout (by decide +kernel)
  obtain rfl : nodesBytes emptyNote.nodes = bytes := hbytes
  rw [emptyNote.decode_nodes (by decide +kernel), Option.some_inj, filterMap_erased_eq] at hread
  exact absurd hread (by decide)

end Rolly
