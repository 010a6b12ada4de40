import Rolly.OtlpDecode
import Rolly.OtlpTrees
import Rolly.ProtoReads

/-!
# What survives of attributes, resources and the envelope

proto3 does not write default values, so some of what is encoded reads back
as absent. `erased` says what, and the rules here say that nothing else
changes.
-/

namespace Rolly

open Proto3 (Bytes decodeUtf8_utf8)
open Proto

-- ---------------------------------------------------------------------------
-- Attributes
-- ---------------------------------------------------------------------------

/-- Empty strings and bytes are skipped even inside the oneof. -/
def AnyValue.erased : AnyValue → Otlp.OneofValue
  | .string s => if s = "" then none else some (.string s)
  | .bytes b => if b = [] then none else some (.bytes b)
  | .int i => some (.int i)
  | .bool b => some (.bool b)
  | .double d => some (.double d)

theorem encodeAnyValue_eq_nil (v : AnyValue) : encodeAnyValue [] v = [] ↔ v.erased = none := by
  cases v <;> simp [encodeAnyValue, AnyValue.erased]

theorem reads_anyValue (v : AnyValue) :
    Reads Otlp.mergeAnyValue [.raw (encodeAnyValue [] v)] none v.erased := by
  cases v with
  | string s =>
    refine .string (by decide) (fun h => by simp [AnyValue.erased, h]) fun h => ?_
    simp [Otlp.mergeAnyValue, AnyValue.erased, h]
  | int i => exact .varintAlways (by decide) (by simp [Otlp.mergeAnyValue, AnyValue.erased])
  | bool b => exact .varintAlways (by decide) (by cases b <;> rfl)
  | double d => exact .fixed64Always (by decide) rfl
  | bytes b =>
    refine .bytes (by decide) (fun h => by simp [AnyValue.erased, h]) fun h => ?_
    simp [Otlp.mergeAnyValue, AnyValue.erased, h]

/-- The value of the KeyValue message, if there is one. -/
def AnyValue.field (v : AnyValue) : Option Otlp.OneofValue :=
  if v.erased = none then none else some v.erased

theorem reads_keyValueValue (v : AnyValue) (key : String) :
    Reads Otlp.mergeKeyValue [.message 2 [.raw (encodeAnyValue [] v)]] ⟨key, none⟩
      ⟨key, v.field⟩ := by
  have hv : nodesBytes [.raw (encodeAnyValue [] v)] = [] ↔ v.erased = none := by
    simp [Node.bytes, encodeAnyValue_eq_nil]
  refine .message (by decide) (reads_anyValue v) (fun h => ?_) fun h b hd => ?_
  · simp [AnyValue.field, hv.mp h]
  · simp [Otlp.mergeKeyValue, hd, AnyValue.field, mt hv.mpr h]

/-- The attribute as read, before asking whether it was written at all. -/
def KeyValue.read (kv : KeyValue) : Otlp.KeyValue := ⟨kv.key, kv.value.field⟩

/-- An attribute with an empty key and an absent value is not written. -/
def KeyValue.erased (kv : KeyValue) : Option Otlp.KeyValue :=
  if kv.key = "" ∧ kv.value.erased = none then none else some kv.read

theorem reads_keyValue (kv : KeyValue) :
    Reads Otlp.mergeKeyValue (keyValueNodes kv) {} kv.read := by
  refine .cons (t := ⟨kv.key, none⟩) (.string (by decide) (fun h => by rw [h]) fun h => ?_)
    (reads_keyValueValue kv.value kv.key)
  simp [Otlp.mergeKeyValue]

theorem keyValue_erased (kv : KeyValue) :
    kv.erased = if nodesBytes (keyValueNodes kv) = [] then none else some kv.read := by
  simp [KeyValue.erased, keyValueNodes, Node.bytes, encodeAnyValue_eq_nil]

theorem reads_keyValues {merge : σ → Proto3.Field → Option σ} {field : UInt32}
    {push : σ → List Otlp.KeyValue → σ} (h : Repeats merge field Otlp.mergeKeyValue {} push)
    (attrs : List KeyValue) (s : σ) :
    Reads merge (attrs.map fun kv => .message field (keyValueNodes kv)) s
      (push s (attrs.filterMap KeyValue.erased)) :=
  .messages h keyValue_erased attrs (fun kv _ => reads_keyValue kv) s

-- ---------------------------------------------------------------------------
-- Resources, scopes and the envelope
-- ---------------------------------------------------------------------------

def resourceErased (attrs : List KeyValue) : Option Otlp.Resource :=
  let attributes := attrs.filterMap KeyValue.erased
  if attributes = [] then none else some { attributes }

def scopeErased (name version : String) : Option Otlp.Scope :=
  if name = "" ∧ version = "" then none else some { name, version }

/-- The scope message of a request, with the items as read. -/
def scopeItemsErased (name version : String) (items : List β) : Option (Otlp.ScopeItems β) :=
  if name = "" ∧ version = "" ∧ items = [] then none
  else some { scope := scopeErased name version, items }

def resourceItemsErased (attrs : List KeyValue) (name version : String) (items : List β) :
    Option (Otlp.ResourceItems β) :=
  let resource := resourceErased attrs
  let scopes := (scopeItemsErased name version items).toList
  if resource = none ∧ scopes = [] then none else some { resource, scopes }

/-- A request as read: at every level a message with nothing inside is
missing, and everything else is there. -/
def requestErased (attrs : List KeyValue) (name version : String) (items : List β) :
    Otlp.Request β :=
  { resources := (resourceItemsErased attrs name version items).toList }

theorem resource_attributes : Repeats Otlp.mergeResource 1 Otlp.mergeKeyValue {}
    fun r ys => { r with attributes := r.attributes ++ ys } where
  number := by decide
  nil := by simp
  append := by simp
  item r b y hd := by simp [Otlp.mergeResource, hd]

theorem reads_resource (attrs : List KeyValue) :
    Reads Otlp.mergeResource (resourceNodes attrs) {}
      { attributes := attrs.filterMap KeyValue.erased } :=
  reads_keyValues resource_attributes attrs {}

theorem resourceNodes_eq_nil (attrs : List KeyValue) :
    nodesBytes (resourceNodes attrs) = [] ↔ attrs.filterMap KeyValue.erased = [] := by
  simp [resourceNodes, nodesBytes_eq_flatMap, Node.bytes, keyValue_erased]

theorem reads_scope (name version : String) :
    Reads Otlp.mergeScope (scopeNodes name version) {} { name, version } := by
  refine .cons (t := { name }) (.string (by decide) (fun h => by rw [h]) fun _ => ?_)
    (.string (by decide) (fun h => by rw [h]) fun _ => ?_) <;>
  simp [Otlp.mergeScope]

theorem scopeNodes_eq_nil (name version : String) :
    nodesBytes (scopeNodes name version) = [] ↔ name = "" ∧ version = "" := by
  simp [scopeNodes, Node.bytes]

section
variable {mergeItem : β → Proto3.Field → Option β} {init : β} {nodes : α → List Node} {v : α → β}

theorem scope_items : Repeats (Otlp.mergeScopeItems mergeItem init) 2 mergeItem init
    fun s ys => { s with items := s.items ++ ys } where
  number := by decide
  nil := by simp
  append := by simp
  item s b y hd := by simp [Otlp.mergeScopeItems, hd]

/-- An item that is written as nothing is missing. -/
def itemErased (nodes : α → List Node) (v : α → β) (x : α) : Option β :=
  if nodesBytes (nodes x) = [] then none else some (v x)

theorem filterMap_itemErased_eq_nil (items : List α) : items.filterMap (itemErased nodes v) = [] ↔
    nodesBytes (items.map fun x => .message 2 (nodes x)) = [] := by
  simp [nodesBytes_eq_flatMap, Node.bytes, itemErased]

theorem filterMap_itemErased (items : List α) (hne : ∀ x ∈ items, nodesBytes (nodes x) ≠ []) :
    items.filterMap (itemErased nodes v) = items.map v := by
  rw [← List.filterMap_eq_map]
  exact List.filterMap_congr fun x hx => by simp [itemErased, hne x hx]

theorem reads_items (items : List α) (hi : ∀ x ∈ items, Reads mergeItem (nodes x) init (v x))
    (scope : Option Otlp.Scope) :
    Reads (Otlp.mergeScopeItems mergeItem init) (items.map fun x => .message 2 (nodes x)) { scope }
      { scope, items := items.filterMap (itemErased nodes v) } :=
  .messages scope_items (fun _ => rfl) items hi { scope }

theorem reads_scopeItems (name version : String) (items : List α)
    (hi : ∀ x ∈ items, Reads mergeItem (nodes x) init (v x)) :
    Reads (Otlp.mergeScopeItems mergeItem init)
      (.message 1 (scopeNodes name version) :: items.map fun x => .message 2 (nodes x)) {}
      { scope := scopeErased name version, items := items.filterMap (itemErased nodes v) } := by
  have hs := scopeNodes_eq_nil name version
  refine .cons (t := { scope := scopeErased name version }) ?_ (reads_items items hi _)
  refine .message (by decide) (reads_scope name version) (fun h => ?_) fun h b hd => ?_
  · simp [scopeErased, hs.mp h]
  · simp [Otlp.mergeScopeItems, hd, scopeErased, mt hs.mpr h]

theorem scopeItems_eq_nil (name version : String) (items : List α) :
    nodesBytes (.message 1 (scopeNodes name version) :: items.map fun x => .message 2 (nodes x)) =
      [] ↔ name = "" ∧ version = "" ∧ items.filterMap (itemErased nodes v) = [] := by
  rw [nodesBytes_cons, List.append_eq_nil_iff, filterMap_itemErased_eq_nil, Node.bytes,
    encodeMessageField_eq_nil, scopeNodes_eq_nil, and_assoc]

theorem reads_resourceItems (attrs : List KeyValue) (name version : String) (items : List α)
    (hi : ∀ x ∈ items, Reads mergeItem (nodes x) init (v x)) :
    Reads (Otlp.mergeResourceItems mergeItem init)
      [.message 1 (resourceNodes attrs),
       .message 2 (.message 1 (scopeNodes name version) :: items.map fun x => .message 2 (nodes x))]
      {} { resource := resourceErased attrs,
           scopes := (scopeItemsErased name version
             (items.filterMap (itemErased nodes v))).toList } := by
  have hr := resourceNodes_eq_nil attrs
  have hs : nodesBytes (.message 1 (scopeNodes name version) ::
      items.map fun x => .message 2 (nodes x)) = [] ↔ _ :=
    scopeItems_eq_nil (v := v) name version items
  refine .cons (t := { resource := resourceErased attrs }) ?_ ?_
  · refine .message (by decide) (reads_resource attrs) (fun h => ?_) fun h b hd => ?_
    · simp [resourceErased, hr.mp h]
    · simp [Otlp.mergeResourceItems, hd, resourceErased, mt hr.mpr h]
  · refine .message (by decide) (reads_scopeItems name version items hi) (fun h => ?_)
      fun h b hd => ?_
    · simp [scopeItemsErased, hs.mp h]
    · simp only [scopeItemsErased, if_neg (mt hs.mpr h)]
      simp [Otlp.mergeResourceItems, hd]

theorem resourceItems_eq_nil (attrs : List KeyValue) (name version : String) (items : List α) :
    nodesBytes [.message 1 (resourceNodes attrs),
       .message 2 (.message 1 (scopeNodes name version) :: items.map fun x => .message 2 (nodes x))]
      = [] ↔
    resourceErased attrs = none ∧
      (scopeItemsErased name version (items.filterMap (itemErased nodes v))).toList = [] := by
  have hr : resourceErased attrs = none ↔ nodesBytes (resourceNodes attrs) = [] := by
    rw [resourceNodes_eq_nil]
    simp [resourceErased]
  have hs : (scopeItemsErased name version (items.filterMap (itemErased nodes v))).toList = [] ↔
      nodesBytes (.message 1 (scopeNodes name version) ::
        items.map fun x => .message 2 (nodes x)) = [] := by
    rw [scopeItems_eq_nil (v := v)]
    simp [scopeItemsErased]
  rw [hr, hs]
  simp [Node.bytes]

theorem reads_request (attrs : List KeyValue) (name version : String) (items : List α)
    (hi : ∀ x ∈ items, Reads mergeItem (nodes x) init (v x)) :
    Reads (Otlp.mergeRequest mergeItem init) (requestNodes attrs name version (items.map nodes)) {}
      (requestErased attrs name version (items.filterMap (itemErased nodes v))) := by
  have hz : nodesBytes [.message 1 (resourceNodes attrs), .message 2 (.message 1
      (scopeNodes name version) :: items.map fun x => .message 2 (nodes x))] = [] ↔ _ :=
    resourceItems_eq_nil (v := v) attrs name version items
  rw [requestNodes, List.map_map]
  refine .message (by decide) (reads_resourceItems attrs name version items hi) (fun h => ?_)
    fun h b hd => ?_
  · simp [requestErased, resourceItemsErased, hz.mp h]
  · have hn := mt hz.mpr h
    simp only [requestErased, resourceItemsErased, if_neg hn]
    simp [Otlp.mergeRequest, hd]

theorem decodeRequest_nodesBytes (attrs : List KeyValue) (name version : String) (items : List α)
    (hi : ∀ x ∈ items, Reads mergeItem (nodes x) init (v x))
    (h : BodiesShort (requestNodes attrs name version (items.map nodes))) :
    Otlp.decodeRequest mergeItem init
        (nodesBytes (requestNodes attrs name version (items.map nodes))) =
      some (requestErased attrs name version (items.filterMap (itemErased nodes v))) :=
  (reads_request attrs name version items hi).decodeRequest h

/-- Encoding succeeds, and every byte of the result reads back. -/
theorem decodeRequest_encodeNodes (attrs : List KeyValue) (name version : String) (items : List α)
    (hne : ∀ x ∈ items, nodesBytes (nodes x) ≠ [])
    (hi : ∀ x ∈ items, Reads mergeItem (nodes x) init (v x))
    (h : BodiesShort (requestNodes attrs name version (items.map nodes))) :
    ∃ bytes, encodeNodes (requestNodes attrs name version (items.map nodes)) [] = some bytes ∧
      Otlp.decodeRequest mergeItem init bytes =
        some (requestErased attrs name version (items.map v)) := by
  refine ⟨_, encodeNodes_eq _ h [], ?_⟩
  rw [← filterMap_itemErased (v := v) items hne]
  exact decodeRequest_nodesBytes attrs name version items hi h

end

end Rolly
