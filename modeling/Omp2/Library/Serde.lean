import Mathlib.Data.List.Nodup
import Omp2.Library.Json

/-!
# Typed values as JSON trees

`Serde` is the pair of the `Serialize` and `Deserialize` traits: how a type is written as a
JSON tree and read back from one. `RoundTrips` says of one value that it is read back as it was
written. Records are objects whose entries are the fields in declaration order, and
enumerations are objects with one entry, whose key is the variant.
-/

namespace Omp2.Json

/-- A type that is written as JSON and read back. -/
class Serde (α : Type*) where
  toValue : α → Value
  fromValue : Value → Except String α
  /-- What a record reads for an absent field of this type. -/
  missing : String → Except String α := fun name => .error s!"missing field `{name}`"

export Serde (toValue fromValue)

/-- A value that is read back as it was written. -/
def RoundTrips {α : Type*} [Serde α] (x : α) : Prop :=
  fromValue (toValue x) = .ok x

theorem RoundTrips.read {α : Type*} [Serde α] {x : α} (h : RoundTrips x) :
    fromValue (toValue x) = .ok x := h

/-! ## Scalars -/

instance : Serde Value where
  toValue := id
  fromValue := .ok

instance : Serde String where
  toValue := .string
  fromValue
    | .string s => .ok s
    | _ => .error "invalid type, expected a string"

instance : Serde Bool where
  toValue := .bool
  fromValue
    | .bool b => .ok b
    | _ => .error "invalid type, expected a boolean"

instance : Serde UInt64 where
  toValue n := .number (.posInt n)
  fromValue
    | .number (.posInt n) => .ok n
    | _ => .error "invalid type, expected u64"

instance : Serde UInt32 where
  toValue n := .number (.posInt n.toUInt64)
  fromValue
    | .number (.posInt n) =>
      if n.toNat < 2 ^ 32 then .ok n.toUInt32 else .error "invalid value, expected u32"
    | _ => .error "invalid type, expected u32"

instance : Serde UInt16 where
  toValue n := .number (.posInt n.toUInt64)
  fromValue
    | .number (.posInt n) =>
      if n.toNat < 2 ^ 16 then .ok n.toUInt16 else .error "invalid value, expected u16"
    | _ => .error "invalid type, expected u16"

/-- The JSON number of a signed integer. -/
def Number.ofInt64 (n : Int64) : Number :=
  if h : n.toInt < 0 then
    .negInt ⟨(-1 - n.toInt).toNat, by have := n.le_toInt; omega⟩
  else .posInt n.toUInt64

instance : Serde Int64 where
  toValue n := .number (.ofInt64 n)
  fromValue
    | .number (.posInt n) =>
      if n.toNat < 2 ^ 63 then .ok n.toInt64 else .error "invalid value, expected i64"
    | .number (.negInt n) => .ok (.ofInt (-1 - n.val))
    | _ => .error "invalid type, expected i64"

/-- A number that is not finite is written as `null`, which is not read back as a number. -/
instance [SerdeJson] : Serde F64 where
  toValue x := if h : x.isFinite = true then .number (.float ⟨x, h⟩) else .null
  fromValue
    | .number n => .ok (SerdeJson.asF64 n)
    | _ => .error "invalid type, expected f64"

/-- An absent value is written as `null`, and `null` is read as an absent value. -/
instance {α : Type*} [Serde α] : Serde (Option α) where
  toValue
    | none => .null
    | some x => toValue x
  fromValue
    | .null => .ok none
    | value => do return some (← fromValue value)
  missing _ := .ok none

theorem roundTrips_value (v : Value) : RoundTrips v := rfl

theorem roundTrips_string (s : String) : RoundTrips s := rfl

theorem roundTrips_bool (b : Bool) : RoundTrips b := rfl

theorem roundTrips_u64 (n : UInt64) : RoundTrips n := rfl

theorem roundTrips_u32 (n : UInt32) : RoundTrips n := by
  show (if n.toUInt64.toNat < 2 ^ 32 then Except.ok n.toUInt64.toUInt32 else _) = _
  rw [if_pos (by simpa using n.toNat_lt), UInt32.toUInt32_toUInt64]

theorem roundTrips_u16 (n : UInt16) : RoundTrips n := by
  show (if n.toUInt64.toNat < 2 ^ 16 then Except.ok n.toUInt64.toUInt16 else _) = _
  rw [if_pos (by simpa using n.toNat_lt), UInt16.toUInt16_toUInt64]

theorem roundTrips_i64 (n : Int64) : RoundTrips n := by
  unfold RoundTrips
  show fromValue (.number (.ofInt64 n)) = Except.ok n
  unfold Number.ofInt64
  split
  · next hneg =>
    have hback : -1 - ((-1 - n.toInt).toNat : Int) = n.toInt := by omega
    show Except.ok (Int64.ofInt (-1 - ((-1 - n.toInt).toNat : Int))) = Except.ok n
    rw [hback, Int64.ofInt_toInt]
  · next hpos =>
    have hlt : n.toUInt64.toNat < 2 ^ 63 := by
      have hcond := n.toBitVec.toInt_eq_toNat_cond
      have hint : n.toBitVec.toInt = n.toInt := rfl
      have hnat : n.toUInt64.toNat = n.toBitVec.toNat := rfl
      rw [hint] at hcond
      split at hcond <;> omega
    show (if n.toUInt64.toNat < 2 ^ 63 then Except.ok n.toUInt64.toInt64 else _) = _
    rw [if_pos hlt, Int64.toInt64_toUInt64]

/-- Exactly the finite numbers are read back. -/
theorem roundTrips_f64 [SerdeJson] (x : F64) : RoundTrips x ↔ x.isFinite = true := by
  unfold RoundTrips
  show fromValue (if h : x.isFinite = true then Value.number (.float ⟨x, h⟩) else .null) = _ ↔ _
  by_cases h : x.isFinite = true
  · rw [dif_pos h]
    show Except.ok (SerdeJson.asF64 (.float ⟨x, h⟩)) = Except.ok x ↔ _
    simp [SerdeJson.asF64_float, h]
  · rw [dif_neg h]
    exact ⟨fun hread => (by cases hread), fun hfinite => absurd hfinite h⟩

theorem roundTrips_option_value (v : Option Value) : RoundTrips v ↔ v ≠ some .null := by
  match v with
  | none => exact ⟨fun _ h => (by cases h), fun _ => rfl⟩
  | some .null => exact ⟨fun h => (by cases h), fun h => absurd rfl h⟩
  | some (.bool _) | some (.number _) | some (.string _) | some (.array _) | some (.object _) =>
      exact ⟨fun _ h => (by cases h), fun _ => rfl⟩

/-! ## Lists, records and enumerations -/

/-- Read the items of a list one after the other. -/
def readItems {α : Type*} (read : Value → Except String α) : List Value → Except String (List α)
  | [] => .ok []
  | item :: rest => do
    let x ← read item
    let xs ← readItems read rest
    return x :: xs

instance {α : Type*} [Serde α] : Serde (List α) where
  toValue xs := .array (xs.map toValue)
  fromValue
    | .array items => readItems fromValue items
    | _ => .error "invalid type, expected a sequence"

/-- A list is read back when its items are. -/
theorem roundTrips_list {α : Type*} [Serde α] (xs : List α) :
    RoundTrips xs ↔ ∀ x ∈ xs, RoundTrips x := by
  unfold RoundTrips
  show readItems fromValue (xs.map toValue) = .ok xs ↔ _
  induction xs with
  | nil => simp [readItems]
  | cons x xs ih =>
      rw [List.forall_mem_cons, ← ih, List.map_cons, readItems]
      constructor
      · intro h
        cases hx : fromValue (α := α) (toValue x) with
        | error e => rw [hx] at h; cases h
        | ok y =>
          rw [hx] at h
          cases hxs : readItems (α := α) fromValue (xs.map toValue) with
          | error e => rw [hxs] at h; cases h
          | ok ys =>
            rw [hxs] at h
            cases h
            exact ⟨rfl, rfl⟩
      · rintro ⟨hx, hxs⟩
        rw [hx, hxs]
        rfl

/-- The fields of a record, which must be the declared ones, each at most once. A record is also
read from an array of its fields in declaration order. -/
def readRecord (names : List String) : Value → Except String (List (String × Value))
  | .object entries =>
    if entries.all fun entry => names.contains entry.1 then
      if (entries.map Prod.fst).Nodup then .ok entries else .error "duplicate field"
    else .error "unknown field"
  | .array items =>
    if items.length = names.length then .ok (names.zip items) else .error "invalid length"
  | _ => .error "invalid type, expected a struct"

/-- The fields of a record that ignores undeclared ones. -/
def readOpenRecord (names : List String) : Value → Except String (List (String × Value))
  | .object entries =>
    if ((entries.map Prod.fst).filter names.contains).Nodup then .ok entries
    else .error "duplicate field"
  | .array items =>
    if items.length = names.length then .ok (names.zip items) else .error "invalid length"
  | _ => .error "invalid type, expected a struct"

/-- One field of a record. -/
def field {α : Type*} [Serde α] (entries : List (String × Value)) (name : String) :
    Except String α :=
  match lookup name entries with
  | some value => fromValue value
  | none => Serde.missing name

/-- A record with exactly the declared fields is read. -/
@[simp] theorem readRecord_object {names : List String} {entries : List (String × Value)}
    (hnames : entries.map Prod.fst = names) (hnodup : names.Nodup) :
    readRecord names (.object entries) = .ok entries := by
  have hknown : (entries.all fun entry => names.contains entry.1) = true := by
    rw [List.all_eq_true]
    intro entry hentry
    rw [List.contains_iff_mem, ← hnames]
    exact List.mem_map_of_mem hentry
  simp only [readRecord]
  rw [if_pos hknown, if_pos (hnames ▸ hnodup)]

/-- A variant with its contents, or a variant without contents by its name. -/
def readVariant : Value → Except String (String × Option Value)
  | .string name => .ok (name, none)
  | .object [(name, value)] => .ok (name, some value)
  | _ => .error "expected value"

/-! ## Maps with string keys -/

/-- Read the entries of a map one after the other. -/
def readEntries {α : Type*} (read : Value → Except String α) :
    List (String × Value) → Except String (List (String × α))
  | [] => .ok []
  | (key, value) :: rest => do
    let x ← read value
    let xs ← readEntries read rest
    return (key, x) :: xs

instance {α : Type*} [Serde α] : Serde (Std.ExtTreeMap String α) where
  toValue m := .object (m.toList.map fun entry => (entry.1, toValue entry.2))
  fromValue
    | .object entries => do return Std.ExtTreeMap.ofList (← readEntries fromValue entries)
    | _ => .error "invalid type, expected a map"

/-- Entries are read back when their values are, and an entry that is not is an error. -/
theorem readEntries_map {α : Type*} [Serde α] (entries : List (String × α))
    (h : ∀ entry ∈ entries, RoundTrips entry.2) :
    readEntries fromValue (entries.map fun entry => (entry.1, toValue entry.2)) =
      .ok entries := by
  induction entries with
  | nil => rfl
  | cons entry entries ih =>
      obtain ⟨hentry, hentries⟩ := List.forall_mem_cons.mp h
      unfold RoundTrips at hentry
      rw [List.map_cons, readEntries, hentry, ih hentries]
      rfl

/-- An entry that cannot be read makes the whole map unreadable. -/
theorem readEntries_error {α : Type*} {read : Value → Except String α}
    {entries : List (String × Value)} {key : String} {value : Value} {e : String}
    (hentry : (key, value) ∈ entries) (hread : read value = .error e) :
    ∃ e, readEntries read entries = .error e := by
  induction entries with
  | nil => cases hentry
  | cons entry entries ih =>
      obtain ⟨key', value'⟩ := entry
      unfold readEntries
      rcases List.mem_cons.mp hentry with heq | hentry
      · cases heq
        rw [hread]
        exact ⟨e, rfl⟩
      · obtain ⟨e', he'⟩ := ih hentry
        rw [he']
        cases read value' with
        | error e => exact ⟨e, rfl⟩
        | ok _ => exact ⟨e', rfl⟩

/-- A map holds the entries it lists. -/
theorem ofList_toList {κ α : Type*} [Ord κ] [Std.TransOrd κ] [Std.LawfulEqOrd κ] [DecidableEq κ]
    (m : Std.ExtTreeMap κ α) : Std.ExtTreeMap.ofList m.toList = m := by
  refine Std.ExtTreeMap.ext_getElem? fun key => ?_
  cases hkey : m[key]? with
  | none =>
      refine Std.ExtTreeMap.getElem?_ofList_of_contains_eq_false ?_
      rw [Bool.eq_false_iff, Ne, List.contains_iff_mem]
      rintro hmem
      obtain ⟨⟨key', value⟩, hentry, rfl⟩ := List.mem_map.mp hmem
      rw [Std.ExtTreeMap.mem_toList_iff_getElem?_eq_some, hkey] at hentry
      cases hentry
  | some value =>
      have hdistinct := Std.ExtTreeMap.distinct_keys_toList (t := m)
      have hentry := Std.ExtTreeMap.mem_toList_iff_getElem?_eq_some.mpr hkey
      exact Std.ExtTreeMap.getElem?_ofList_of_mem Std.ReflCmp.compare_self hdistinct hentry

/-- A map nests one deeper than its values. -/
theorem depth_map_le {α : Type*} [Serde α] {m : Std.ExtTreeMap String α} {d : Nat}
    (h : ∀ (key : String) (value : α), m[key]? = some value → (toValue value).depth ≤ d) :
    (toValue m).depth ≤ d + 1 := by
  refine Nat.succ_le_succ (entriesDepth_le fun entry hentry => ?_)
  obtain ⟨⟨key, value⟩, hmem, rfl⟩ := List.mem_map.mp hentry
  exact h key value (Std.ExtTreeMap.mem_toList_iff_getElem?_eq_some.mp hmem)

/-- A map is read back when its values are. -/
theorem roundTrips_map {α : Type*} [Serde α] {m : Std.ExtTreeMap String α}
    (h : ∀ (key : String) (value : α), m[key]? = some value → RoundTrips value) :
    RoundTrips m := by
  have hentries : ∀ entry ∈ m.toList, RoundTrips entry.2 := by
    rintro ⟨key, value⟩ hentry
    exact h key value (Std.ExtTreeMap.mem_toList_iff_getElem?_eq_some.mp hentry)
  unfold RoundTrips
  show (do return Std.ExtTreeMap.ofList (← readEntries fromValue
    (m.toList.map fun entry => (entry.1, toValue entry.2)))) = Except.ok m
  rw [readEntries_map _ hentries]
  show Except.ok (Std.ExtTreeMap.ofList m.toList) = Except.ok m
  rw [ofList_toList]

/-- A map with an unreadable value is not read back. -/
theorem not_roundTrips_map {α : Type*} [Serde α] {m : Std.ExtTreeMap String α} {key : String}
    {value : α} {e : String} (hkey : m[key]? = some value)
    (hread : fromValue (α := α) (toValue value) = .error e) : ¬ RoundTrips m := by
  have hentry : (key, toValue value) ∈ m.toList.map fun entry => (entry.1, toValue entry.2) :=
    List.mem_map_of_mem (Std.ExtTreeMap.mem_toList_iff_getElem?_eq_some.mpr hkey)
  obtain ⟨e', he'⟩ := readEntries_error hentry hread
  unfold RoundTrips
  show (do return Std.ExtTreeMap.ofList (← readEntries fromValue
    (m.toList.map fun entry => (entry.1, toValue entry.2)))) ≠ Except.ok m
  rw [he']
  intro h
  cases h

end Omp2.Json
