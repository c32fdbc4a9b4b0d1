import Omp2.Library.Text
import Omp2.Types.Ids

/-!
# Typed values, elements and patches

The wire records of `omp-types/src/patch.rs` and the limits of `version.rs` that they are
checked against. `Patch.validate` is the check every patch passes before it touches a
document tree. Numbers keep the fixed width that they have on the wire.
-/

namespace Omp2

open Omp2.Json

/-- `MAX_WIRE_BYTES`. -/
def maxWireBytes : Nat := 1048576

/-- `MAX_PATCH_OPS`. -/
def maxPatchOps : Nat := 4096

/-- `PROTOCOL_MAJOR`. -/
def protocolMajor : UInt16 := 1

/-- `PROTOCOL_MINOR`. -/
def protocolMinor : UInt16 := 0

/-- `JOURNAL_FORMAT`. -/
def journalFormat : String := "patch@1"

/-- `ProtocolVersion`. -/
structure ProtocolVersion where
  major : UInt16
  minor : UInt16
deriving DecidableEq, Repr

/-- `ProtocolVersion::CURRENT`. -/
def ProtocolVersion.current : ProtocolVersion := ⟨protocolMajor, protocolMinor⟩

/-- `TypedValue`, the value of an element attribute. -/
inductive TypedValue where
  | null
  | bool (b : Bool)
  | integer (n : Int64)
  | number (x : F64)
  | string (s : String)
  | json (v : Value)
deriving Repr

/-- The attribute map of an element. -/
abbrev Attributes := Std.ExtTreeMap String TypedValue

/-- `ElementSnapshot`. -/
structure ElementSnapshot where
  id : ElementId
  schemaVersion : UInt16
  kind : String
  attributes : Attributes
  text : String
  payload : Option Value

/-- `ElementSnapshot::new`. -/
def ElementSnapshot.new (id : ElementId) (kind : String) : ElementSnapshot :=
  { id, schemaVersion := 1, kind, attributes := ∅, text := "", payload := none }

/-- `PatchOp`. -/
inductive PatchOp where
  | create (parent : ElementId) (index : UInt32) (element : ElementSnapshot)
  | delete (element : ElementId)
  | move (element parent : ElementId) (index : UInt32)
  | setAttribute (element : ElementId) (name : String) (value : TypedValue)
  | removeAttribute (element : ElementId) (name : String)
  | replaceText (element : ElementId) (text : String)
  | appendText (element : ElementId) (text : String)
  | replacePayload (element : ElementId) (payload : Value)

/-- `PatchAuthor`. -/
inductive PatchAuthor where
  | actor (id : ActorId)
  | element (id : ElementId)
deriving DecidableEq, Repr

/-- `Patch`. -/
structure Patch where
  baseOffset : UInt64
  resultOffset : UInt64
  author : PatchAuthor
  reason : String
  ops : List PatchOp

namespace Patch

/-- `Patch::MAX_OP_TEXT_BYTES`. -/
def maxOpTextBytes : Nat := maxWireBytes

/-- The characters of an element kind. -/
def kindChar (c : Char) : Bool :=
  c.isAlphanum || c == '_' || c == '-'

/-- The error of a patch or attribute that breaks a limit. -/
def invalidPatch (message : String) : StructuredError :=
  StructuredError.new "invalid_patch" message false

/-- The error of a created element that breaks a limit. -/
def invalidElement (message : String) : StructuredError :=
  StructuredError.new "invalid_element" message false

/-- The bound on an attribute name. -/
def badName (name : String) : Bool :=
  name.isEmpty || decide (256 < name.utf8ByteSize)

/-- The bound on any single text inside one operation. -/
def tooLong (text : String) : Bool :=
  decide (maxOpTextBytes < text.utf8ByteSize)

variable [SerdeJson]

/-- The arm of `Patch::validate` for one operation. -/
def validateOp : PatchOp → Except StructuredError Unit
  | .create _ _ element =>
      if element.schemaVersion ≠ 1 ∨ element.kind.isEmpty ∨ 128 < element.kind.utf8ByteSize ∨
          ¬ element.kind.toList.all kindChar then
        .error (invalidElement "Unsupported element schema or invalid kind")
      else if tooLong element.text then
        .error (invalidElement "Element text exceeds per-operation limit")
      else .ok ()
  | .setAttribute _ name value =>
      if badName name then .error (invalidPatch "Attribute name must be 1..=256 bytes")
      else match value with
        | .number x =>
          -- only this operation is checked for numbers that JSON cannot carry
          if x.isFinite then .ok () else .error (invalidPatch "Attribute number must be finite")
        | .string text =>
          if tooLong text then
            .error (invalidPatch "Attribute value exceeds per-operation limit")
          else .ok ()
        | _ => .ok ()
  | .replaceText _ text | .appendText _ text =>
      if tooLong text then .error (invalidPatch "Text payload exceeds per-operation limit")
      else .ok ()
  | .replacePayload _ payload =>
      if maxOpTextBytes < (SerdeJson.toVec payload).length then
        .error (invalidPatch "Payload exceeds per-operation limit")
      else .ok ()
  | .removeAttribute _ name =>
      if badName name then .error (invalidPatch "Attribute name must be 1..=256 bytes")
      else .ok ()
  | .delete _ | .move .. => .ok ()

/-- The operations are checked in order and the first failure is reported. -/
def validateOps : List PatchOp → Except StructuredError Unit
  | [] => .ok ()
  | op :: rest => do
      validateOp op
      validateOps rest

/-- `Patch::validate`. -/
def validate (patch : Patch) : Except StructuredError Unit :=
  if patch.resultOffset ≤ patch.baseOffset ∨ (Text.trim patch.reason).isEmpty ∨
      4096 < patch.reason.utf8ByteSize ∨ maxPatchOps < patch.ops.length then
    .error (invalidPatch "Invalid offset progression, intent or operation count")
  else validateOps patch.ops

theorem validate_offsets {patch : Patch} (h : patch.validate = .ok ()) :
    patch.baseOffset < patch.resultOffset := by
  unfold validate at h
  split at h
  · cases h
  · next hbad => exact UInt64.not_le.mp fun hle => hbad (.inl hle)

end Patch

end Omp2
