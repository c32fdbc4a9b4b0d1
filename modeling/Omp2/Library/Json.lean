import Mathlib.Algebra.Ring.Int.Defs
import Mathlib.Algebra.Ring.Nat
import Mathlib.Data.List.Basic

/-!
# JSON trees and the serialiser that writes and reads them

`Value` is the tree of a JSON text. An object keeps its entries in the order in which they
are written: the declaration order for a serialised record, the key order for a map.
`SerdeJson` is the serialiser, which is not part of the repository: `toVec` writes a tree and
`fromSlice` reads one back. Its two laws are the documented behaviour of the library: a
written tree is read back as it was as long as it nests less deeply than the recursion
limit, and a tree that nests deeper is refused.
-/

namespace Omp2.Json

/-- A binary64 number by its bit pattern. -/
structure F64 where
  bits : UInt64
deriving DecidableEq, Repr

/-- The exponent field of a finite binary64 number is not all ones. -/
def F64.isFinite (x : F64) : Bool :=
  (x.bits >>> 52) &&& 0x7ff != 0x7ff

/-- The floating-point numbers that a JSON number can hold. -/
structure FiniteF64 where
  value : F64
  finite : value.isFinite = true
deriving DecidableEq, Repr

/-- A JSON number: an unsigned integer, the negative integer `-(n + 1)`, or a float. -/
inductive Number where
  | posInt (n : UInt64)
  | negInt (n : Fin (2 ^ 63))
  | float (x : FiniteF64)
deriving DecidableEq, Repr

/-- The tree of a JSON text. -/
inductive Value where
  | null
  | bool (b : Bool)
  | number (n : Number)
  | string (s : String)
  | array (items : List Value)
  | object (entries : List (String × Value))
deriving Repr, Inhabited

mutual
/-- How deeply arrays and objects nest in a tree. -/
def Value.depth : Value → Nat
  | .array items => itemsDepth items + 1
  | .object entries => entriesDepth entries + 1
  | _ => 0

/-- The greatest depth among the items of an array. -/
def itemsDepth : List Value → Nat
  | [] => 0
  | item :: rest => max item.depth (itemsDepth rest)

/-- The greatest depth among the values of an object. -/
def entriesDepth : List (String × Value) → Nat
  | [] => 0
  | (_, value) :: rest => max value.depth (entriesDepth rest)
end

theorem entriesDepth_le {entries : List (String × Value)} {d : Nat}
    (h : ∀ entry ∈ entries, entry.2.depth ≤ d) : entriesDepth entries ≤ d := by
  induction entries with
  | nil => exact Nat.zero_le d
  | cons entry entries ih =>
      obtain ⟨hentry, hentries⟩ := List.forall_mem_cons.mp h
      exact Nat.max_le.mpr ⟨hentry, ih hentries⟩

/-- The first entry of an object under a key. -/
def lookup (key : String) : List (String × Value) → Option Value
  | [] => none
  | (name, value) :: rest => if name = key then some value else lookup key rest

/-- `Value::get` on an object. -/
def Value.get (value : Value) (key : String) : Option Value :=
  match value with
  | .object entries => lookup key entries
  | _ => none

/-- `Value::as_str`. -/
def Value.asStr : Value → Option String
  | .string s => some s
  | _ => none

/-- `Value::as_array`. -/
def Value.asArray : Value → Option (List Value)
  | .array items => some items
  | _ => none

/-- `Value::as_u64`. -/
def Value.asU64 : Value → Option UInt64
  | .number (.posInt n) => some n
  | _ => none

/-- The deepest nesting plus one that the reader accepts. -/
def recursionLimit : Nat := 128

/-- The serialiser, with what its documentation promises. -/
class SerdeJson where
  /-- Write a tree as JSON text. -/
  toVec : Value → List UInt8
  /-- Read a JSON text. -/
  fromSlice : List UInt8 → Except String Value
  /-- The floating-point number nearest to a JSON number. -/
  asF64 : Number → F64
  /-- A written tree is read back as it was. -/
  fromSlice_toVec : ∀ value, value.depth < recursionLimit → fromSlice (toVec value) = .ok value
  /-- A tree that nests too deeply is not read back. -/
  fromSlice_deep : ∀ value, recursionLimit ≤ value.depth → ∃ e, fromSlice (toVec value) = .error e
  /-- A JSON float is its own floating-point number. -/
  asF64_float : ∀ x, asF64 (.float x) = x.value

/-- `Value::to_string`, the text that is written. -/
def Value.display [SerdeJson] (value : Value) : String :=
  (String.fromUTF8? ⟨(SerdeJson.toVec value).toArray⟩).getD ""

end Omp2.Json
