import Omp2.Library.Json

/-!
# Identifiers, statuses and structured errors

The opaque names of `omp-types/src/ids.rs` and the records of `status.rs`. The `ids!`
macro declares nine newtypes with one body, so they are one structure here, indexed by the
newtype. A name that breaks the character or length rule cannot be built.
-/

namespace Omp2

open Omp2.Json

/-- `StructuredError`. -/
structure StructuredError where
  code : String
  message : String
  retryable : Bool
  diagnostics : Option Value
deriving Repr, Inhabited

/-- `StructuredError::new`. -/
def StructuredError.new (code message : String) (retryable : Bool) : StructuredError :=
  { code, message, retryable, diagnostics := none }

/-- The `Display` text of a structured error. -/
def StructuredError.display (e : StructuredError) : String :=
  e.code ++ ": " ++ e.message

/-- `Status`. -/
inductive Status where
  | queued | active | running | finalized | committed | cancelRequested | cancelled | failed
  | succeeded | detached | truncated | unknown | writeFailure
deriving DecidableEq, Repr

/-- `is_terminal_session`. -/
def Status.isTerminalSession (status : Status) : Bool :=
  status matches .succeeded | .failed | .cancelled | .finalized | .committed | .detached

/-- `from_dom_str`: the snake-case names, and one alias. -/
def Status.fromDomStr : String → Option Status
  | "completed" => some .finalized
  | "queued" => some .queued
  | "active" => some .active
  | "running" => some .running
  | "finalized" => some .finalized
  | "committed" => some .committed
  | "cancel_requested" => some .cancelRequested
  | "cancelled" => some .cancelled
  | "failed" => some .failed
  | "succeeded" => some .succeeded
  | "detached" => some .detached
  | "truncated" => some .truncated
  | "unknown" => some .unknown
  | "write_failure" => some .writeFailure
  | _ => none

/-- The newtypes declared by `ids!`. -/
inductive IdKind where
  | session | element | job | director | toolCall | artifact | actor | branch | workspaceView
deriving DecidableEq, Repr

/-- The rule every identifier obeys. -/
def validId (value : String) : Bool :=
  !value.isEmpty && value.utf8ByteSize ≤ 128 &&
    value.toList.all fun c => c.isAlphanum || c == '.' || c == '_' || c == '-'

/-- An identifier newtype, which carries the check of its constructor. -/
structure Id (kind : IdKind) where
  value : String
  valid : validId value = true
deriving DecidableEq, Repr

abbrev SessionId := Id .session
abbrev ElementId := Id .element
abbrev JobId := Id .job
abbrev ToolCallId := Id .toolCall
abbrev ArtifactId := Id .artifact
abbrev ActorId := Id .actor
abbrev BranchId := Id .branch

namespace Id

variable {kind : IdKind}

/-- `new`, the checked constructor of an identifier. -/
def new (value : String) : Except StructuredError (Id kind) :=
  if h : validId value = true then .ok ⟨value, h⟩
  else .error (StructuredError.new "invalid_id"
    "IDs require 1..128 ASCII letters, digits, dots, underscores or hyphens" false)

/-- Two identifiers with the same text are equal. -/
@[ext] theorem ext {a b : Id kind} (h : a.value = b.value) : a = b := by
  cases a; cases b; cases h; rfl

/-- The constructor accepts the text of an identifier. -/
@[simp] theorem new_value (a : Id kind) : new a.value = .ok a := by
  simp [new, a.valid]

instance : LawfulBEq (Id kind) := inferInstance

/-- Identifiers are ordered by their text. -/
instance : Ord (Id kind) := ⟨fun a b => compare a.value b.value⟩

instance : Std.TransOrd (Id kind) where
  eq_swap := fun {a b} => Std.OrientedOrd.eq_swap (a := a.value) (b := b.value)
  isLE_trans := fun {a b c} => Std.TransOrd.isLE_trans (a := a.value) (b := b.value) (c := c.value)

instance : Std.LawfulEqOrd (Id kind) where
  compare_self := fun {a} => Std.ReflOrd.compare_self (a := a.value)
  eq_of_compare := fun h => ext (Std.LawfulEqOrd.eq_of_compare h)

end Id

end Omp2
