import Omp2.Library.Serde
import Omp2.Types.Patch

/-!
# Patches as JSON

The derived `Serialize` and `Deserialize` of the wire records of `omp-types`. Not every patch
that `Patch.validate` accepts is read back as it was written: `Durable` is the condition under
which it is. A created element may carry a number that is not finite, which is written as
`null`, and a present `null` payload, which is read back as no payload; a `SetAttribute` number
is checked to be finite.
-/

namespace Omp2

open Omp2.Json

variable [SerdeJson]

/-! ## Writing and reading -/

instance {kind : IdKind} : Serde (Id kind) where
  toValue id := .string id.value
  fromValue value := do
    match Id.new (← fromValue value) with
    | .ok id => return id
    | .error e => .error e.message

/-- The derived `Serialize` of `ProtocolVersion`. -/
def ProtocolVersion.serialize (v : ProtocolVersion) : Value :=
  .object [("major", toValue v.major), ("minor", toValue v.minor)]

/-- The derived `Deserialize` of `ProtocolVersion`. -/
def ProtocolVersion.deserialize (value : Value) : Except String ProtocolVersion := do
  let fields ← readRecord ["major", "minor"] value
  return { major := ← field fields "major", minor := ← field fields "minor" }

instance : Serde ProtocolVersion where
  toValue := ProtocolVersion.serialize
  fromValue := ProtocolVersion.deserialize

/-- The derived `Serialize` of `TypedValue`. -/
def TypedValue.serialize : TypedValue → Value
  | .null => .string "Null"
  | .bool b => .object [("Bool", toValue b)]
  | .integer n => .object [("Integer", toValue n)]
  | .number x => .object [("Number", toValue x)]
  | .string s => .object [("String", toValue s)]
  | .json v => .object [("Json", v)]

/-- The derived `Deserialize` of `TypedValue`. -/
def TypedValue.deserialize (value : Value) : Except String TypedValue := do
  match ← readVariant value with
  | ("Null", none) | ("Null", some .null) => return .null
  | ("Bool", some value) => return .bool (← fromValue value)
  | ("Integer", some value) => return .integer (← fromValue value)
  | ("Number", some value) => return .number (← fromValue value)
  | ("String", some value) => return .string (← fromValue value)
  | ("Json", some value) => return .json value
  | _ => .error "unknown variant"

instance : Serde TypedValue where
  toValue := TypedValue.serialize
  fromValue := TypedValue.deserialize

/-- The derived `Serialize` of `ElementSnapshot`. -/
def ElementSnapshot.serialize (e : ElementSnapshot) : Value :=
  .object [("id", toValue e.id), ("schema_version", toValue e.schemaVersion),
    ("kind", toValue e.kind), ("attributes", toValue e.attributes), ("text", toValue e.text),
    ("payload", toValue e.payload)]

/-- The derived `Deserialize` of `ElementSnapshot`. -/
def ElementSnapshot.deserialize (value : Value) : Except String ElementSnapshot := do
  let fields ← readRecord ["id", "schema_version", "kind", "attributes", "text", "payload"] value
  return {
    id := ← field fields "id"
    schemaVersion := ← field fields "schema_version"
    kind := ← field fields "kind"
    attributes := ← field fields "attributes"
    text := ← field fields "text"
    payload := ← field fields "payload" }

instance : Serde ElementSnapshot where
  toValue := ElementSnapshot.serialize
  fromValue := ElementSnapshot.deserialize

/-- The derived `Serialize` of `PatchOp`. -/
def PatchOp.serialize : PatchOp → Value
  | .create parent index element => .object [("Create", .object [("parent", toValue parent),
      ("index", toValue index), ("element", toValue element)])]
  | .delete element => .object [("Delete", .object [("element", toValue element)])]
  | .move element parent index => .object [("Move", .object [("element", toValue element),
      ("parent", toValue parent), ("index", toValue index)])]
  | .setAttribute element name value => .object [("SetAttribute", .object
      [("element", toValue element), ("name", toValue name), ("value", toValue value)])]
  | .removeAttribute element name => .object [("RemoveAttribute", .object
      [("element", toValue element), ("name", toValue name)])]
  | .replaceText element text => .object [("ReplaceText", .object
      [("element", toValue element), ("text", toValue text)])]
  | .appendText element text => .object [("AppendText", .object
      [("element", toValue element), ("text", toValue text)])]
  | .replacePayload element payload => .object [("ReplacePayload", .object
      [("element", toValue element), ("payload", payload)])]

/-- The derived `Deserialize` of `PatchOp`. -/
def PatchOp.deserialize (value : Value) : Except String PatchOp := do
  match ← readVariant value with
  | ("Create", some value) =>
    let fields ← readRecord ["parent", "index", "element"] value
    return .create (← field fields "parent") (← field fields "index") (← field fields "element")
  | ("Delete", some value) =>
    let fields ← readRecord ["element"] value
    return .delete (← field fields "element")
  | ("Move", some value) =>
    let fields ← readRecord ["element", "parent", "index"] value
    return .move (← field fields "element") (← field fields "parent") (← field fields "index")
  | ("SetAttribute", some value) =>
    let fields ← readRecord ["element", "name", "value"] value
    return .setAttribute (← field fields "element") (← field fields "name")
      (← field fields "value")
  | ("RemoveAttribute", some value) =>
    let fields ← readRecord ["element", "name"] value
    return .removeAttribute (← field fields "element") (← field fields "name")
  | ("ReplaceText", some value) =>
    let fields ← readRecord ["element", "text"] value
    return .replaceText (← field fields "element") (← field fields "text")
  | ("AppendText", some value) =>
    let fields ← readRecord ["element", "text"] value
    return .appendText (← field fields "element") (← field fields "text")
  | ("ReplacePayload", some value) =>
    let fields ← readRecord ["element", "payload"] value
    return .replacePayload (← field fields "element") (← field fields "payload")
  | _ => .error "unknown variant"

instance : Serde PatchOp where
  toValue := PatchOp.serialize
  fromValue := PatchOp.deserialize

/-- The derived `Serialize` of `PatchAuthor`. -/
def PatchAuthor.serialize : PatchAuthor → Value
  | .actor id => .object [("Actor", toValue id)]
  | .element id => .object [("Element", toValue id)]

/-- The derived `Deserialize` of `PatchAuthor`. -/
def PatchAuthor.deserialize (value : Value) : Except String PatchAuthor := do
  match ← readVariant value with
  | ("Actor", some value) => return .actor (← fromValue value)
  | ("Element", some value) => return .element (← fromValue value)
  | _ => .error "unknown variant"

instance : Serde PatchAuthor where
  toValue := PatchAuthor.serialize
  fromValue := PatchAuthor.deserialize

/-- The derived `Serialize` of `Patch`. -/
def Patch.serialize (p : Patch) : Value :=
  .object [("base_offset", toValue p.baseOffset),
    ("result_offset", toValue p.resultOffset), ("by", toValue p.author),
    ("reason", toValue p.reason), ("ops", toValue p.ops)]

/-- The derived `Deserialize` of `Patch`. -/
def Patch.deserialize (value : Value) : Except String Patch := do
  let fields ← readRecord ["base_offset", "result_offset", "by", "reason", "ops"] value
  return {
    baseOffset := ← field fields "base_offset"
    resultOffset := ← field fields "result_offset"
    author := ← field fields "by"
    reason := ← field fields "reason"
    ops := ← field fields "ops" }

instance : Serde Patch where
  toValue := Patch.serialize
  fromValue := Patch.deserialize

/-! ## What is read back as it was written -/

/-- A typed value is durable unless it is a number that is not finite. -/
def TypedValue.Durable : TypedValue → Prop
  | .number x => x.isFinite = true
  | _ => True

/-- An element is durable when its attributes are and its payload is not a present `null`. -/
structure ElementSnapshot.Durable (e : ElementSnapshot) : Prop where
  attributes : ∀ (name : String) (value : TypedValue), e.attributes[name]? = some value →
    value.Durable
  payload : e.payload ≠ some .null

/-- An operation is durable when the value or element it carries is. -/
def PatchOp.Durable : PatchOp → Prop
  | .create _ _ element => element.Durable
  | .setAttribute _ _ value => value.Durable
  | _ => True

/-- A patch is durable when its operations are. -/
def Patch.Durable (p : Patch) : Prop :=
  ∀ op ∈ p.ops, op.Durable

omit [SerdeJson] in
theorem roundTrips_id {kind : IdKind} (id : Id kind) : RoundTrips id := by
  show (match Id.new id.value with
    | .ok id => Except.ok id
    | .error e => .error e.message) = Except.ok id
  rw [Id.new_value]

omit [SerdeJson] in
theorem roundTrips_version (v : ProtocolVersion) : RoundTrips v := by
  have hmajor := (roundTrips_u16 v.major).read
  have hminor := (roundTrips_u16 v.minor).read
  show ProtocolVersion.deserialize v.serialize = .ok v
  simp [ProtocolVersion.serialize, ProtocolVersion.deserialize, field, lookup, hmajor, hminor,
    bind, Except.bind, pure, Except.pure]

omit [SerdeJson] in
theorem roundTrips_author (a : PatchAuthor) : RoundTrips a := by
  show PatchAuthor.deserialize a.serialize = .ok a
  cases a with
  | actor id =>
      simp [PatchAuthor.serialize, PatchAuthor.deserialize, readVariant, (roundTrips_id id).read,
        bind, Except.bind, pure, Except.pure]
  | element id =>
      simp [PatchAuthor.serialize, PatchAuthor.deserialize, readVariant, (roundTrips_id id).read,
        bind, Except.bind, pure, Except.pure]

/-- Exactly the durable values are read back. -/
theorem roundTrips_typedValue (v : TypedValue) : RoundTrips v ↔ v.Durable := by
  show TypedValue.deserialize v.serialize = .ok v ↔ _
  cases v with
  | null =>
      simp [TypedValue.serialize, TypedValue.deserialize, TypedValue.Durable, readVariant, bind,
        Except.bind, pure, Except.pure]
  | bool b =>
      simp [TypedValue.serialize, TypedValue.deserialize, TypedValue.Durable, readVariant,
        (roundTrips_bool b).read, bind, Except.bind, pure, Except.pure]
  | integer n =>
      simp [TypedValue.serialize, TypedValue.deserialize, TypedValue.Durable, readVariant,
        (roundTrips_i64 n).read, bind, Except.bind, pure, Except.pure]
  | number x =>
      show _ ↔ x.isFinite = true
      rw [← roundTrips_f64 x]
      unfold RoundTrips
      cases hx : fromValue (α := F64) (toValue x) <;>
        simp [TypedValue.serialize, TypedValue.deserialize, readVariant, hx, bind, Except.bind,
          pure, Except.pure]
  | string s =>
      simp [TypedValue.serialize, TypedValue.deserialize, TypedValue.Durable, readVariant,
        (roundTrips_string s).read, bind, Except.bind, pure, Except.pure]
  | json v =>
      simp [TypedValue.serialize, TypedValue.deserialize, TypedValue.Durable, readVariant, bind,
        Except.bind, pure, Except.pure]

/-- A value that is not durable cannot be read. -/
theorem TypedValue.unreadable {v : TypedValue} (h : ¬ v.Durable) :
    ∃ e, fromValue (α := TypedValue) (toValue v) = .error e := by
  cases v with
  | number x =>
      have hnull : toValue x = Value.null := dif_neg h
      show ∃ e, TypedValue.deserialize (.object [("Number", toValue x)]) = .error e
      rw [hnull]
      exact ⟨_, rfl⟩
  | null => exact absurd trivial h
  | bool b => exact absurd trivial h
  | integer n => exact absurd trivial h
  | string s => exact absurd trivial h
  | json v => exact absurd trivial h

/-- Exactly the durable elements are read back. -/
theorem roundTrips_element (e : ElementSnapshot) : RoundTrips e ↔ e.Durable := by
  have hparts : RoundTrips e ↔ RoundTrips e.attributes ∧ RoundTrips e.payload := by
    unfold RoundTrips
    show ElementSnapshot.deserialize e.serialize = .ok e ↔ _
    cases e with
    | mk id schemaVersion kind attributes text payload =>
      cases hattributes : fromValue (α := Attributes) (toValue attributes) <;>
        cases hpayload : fromValue (α := Option Value) (toValue payload) <;>
        simp [ElementSnapshot.serialize, ElementSnapshot.deserialize, field, lookup,
          (roundTrips_id id).read, (roundTrips_u16 schemaVersion).read,
          (roundTrips_string kind).read, (roundTrips_string text).read, hattributes, hpayload,
          bind, Except.bind, pure, Except.pure]
  rw [hparts, roundTrips_option_value]
  constructor
  · rintro ⟨hattributes, hpayload⟩
    refine ⟨fun name value hvalue => ?_, hpayload⟩
    by_contra hbad
    obtain ⟨message, hread⟩ := TypedValue.unreadable hbad
    exact not_roundTrips_map hvalue hread hattributes
  · intro h
    exact ⟨roundTrips_map fun name value hvalue =>
      (roundTrips_typedValue value).mpr (h.attributes name value hvalue), h.payload⟩

/-- Exactly the durable operations are read back. -/
theorem roundTrips_op (op : PatchOp) : RoundTrips op ↔ op.Durable := by
  show PatchOp.deserialize op.serialize = .ok op ↔ _
  have hid : ∀ id : ElementId, fromValue (toValue id) = Except.ok id := fun id =>
    (roundTrips_id id).read
  have hindex : ∀ n : UInt32, fromValue (toValue n) = Except.ok n := fun n =>
    (roundTrips_u32 n).read
  have hstring : ∀ s : String, fromValue (toValue s) = Except.ok s := fun s =>
    (roundTrips_string s).read
  cases op with
  | create parent index element =>
      show _ ↔ element.Durable
      rw [← roundTrips_element element]
      unfold RoundTrips
      cases helement : fromValue (α := ElementSnapshot) (toValue element) <;>
        simp [PatchOp.serialize, PatchOp.deserialize, readVariant, field, lookup, hid, hindex,
          helement, bind, Except.bind, pure, Except.pure]
  | setAttribute element name value =>
      show _ ↔ value.Durable
      rw [← roundTrips_typedValue value]
      unfold RoundTrips
      cases hvalue : fromValue (α := TypedValue) (toValue value) <;>
        simp [PatchOp.serialize, PatchOp.deserialize, readVariant, field, lookup, hid, hstring,
          hvalue, bind, Except.bind, pure, Except.pure]
  | replacePayload element payload =>
      have hpayload := (roundTrips_value payload).read
      simp [PatchOp.serialize, PatchOp.deserialize, PatchOp.Durable, readVariant, field, lookup,
        hid, show fromValue payload = Except.ok payload from rfl, bind, Except.bind, pure,
        Except.pure]
  | _ =>
      simp [PatchOp.serialize, PatchOp.deserialize, PatchOp.Durable, readVariant, field, lookup,
        hid, hindex, hstring, bind, Except.bind, pure, Except.pure]

/-- Exactly the durable patches are read back. -/
theorem roundTrips_patch (p : Patch) : RoundTrips p ↔ p.Durable := by
  have hops : RoundTrips p ↔ RoundTrips p.ops := by
    unfold RoundTrips
    show Patch.deserialize p.serialize = .ok p ↔ _
    cases p with
    | mk baseOffset resultOffset author reason ops =>
      cases hops : fromValue (α := List PatchOp) (toValue ops) <;>
        simp [Patch.serialize, Patch.deserialize, field, lookup, (roundTrips_u64 baseOffset).read,
          (roundTrips_u64 resultOffset).read, (roundTrips_author author).read,
          (roundTrips_string reason).read, hops, bind, Except.bind, pure, Except.pure]
  rw [hops, roundTrips_list]
  exact forall₂_congr fun op _ => roundTrips_op op

end Omp2
