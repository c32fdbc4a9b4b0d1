import Omp2.Inference.Repair
import Omp2.Library.JsonText

/-!
# What a repair keeps

`sound_iff` says which repairs give the declared types without changing a number: those of
arguments that are `repairable`, which leaves out a missing value for an array, whole floats that
are too large for an integer, texts that are no binary64 number, and values that are no text. The
loop over the properties gives every property what `repair_single_value` makes of it
(`lookup_repairProperties`), so that the claim about a call follows from one about a value.
-/

namespace Omp2.Inference

open Json Text

/-! ## Types and numbers -/

/-- The value has the type. -/
def hasType : JsonType → Value → Bool
  | .array, .array _ => true
  | .object, .object _ => true
  | .integer, .number (.posInt _) => true
  | .integer, .number (.negInt _) => true
  | .number, .number _ => true
  | .boolean, .bool _ => true
  | .string, .string _ => true
  | _, _ => false

/-- The value is a number, or a text that writes one. -/
def Writes (value : Value) (q : ℚ) : Prop :=
  match value with
  | .number n => n.toRat = q
  | .string s => writtenNumber (trimChars s.toList) = some q
  | _ => False

/-- The value holds no number. -/
def textual : Value → Bool
  | .null => true
  | .bool _ => true
  | .string _ => true
  | .array items => items.all fun item => item.asStr.isSome
  | _ => false

/-- The items are one text. -/
def singleText : List Value → Bool
  | [.string _] => true
  | _ => false

/-- A value for which the repair to a type is sound. -/
def repairable : JsonType → Value → Bool
  | .array, .null => false
  | .integer, .number (.float x) => decide (-2 ^ 63 ≤ x.toRat ∧ x.toRat < 2 ^ 63)
  | .number, .string s =>
    match parseF64 (trimChars s.toList) with
    | .ok x =>
      if h : x.isFinite = true then
        decide (writtenNumber (trimChars s.toList) = some (FiniteF64.toRat ⟨x, h⟩))
      else false
    | .error _ => true
  | .string, .null => false
  | .string, .object _ => false
  | .string, .array items => singleText items
  | _, _ => true

section Repairs

variable [SerdeJson]

/-- A value that took the place of another one has no other numbers: it is the same value, one
that a text holds as JSON, the value in an array, the number that was written, or free of
numbers. -/
inductive Faithful (value : Value) : Value → Prop where
  | same : Faithful value value
  | readArray {s : String} {items : List Value} : value = .string s →
      fromStr (trimChars s.toList) = .ok (.array items) → Faithful value (.array items)
  | readObject {s : String} {entries : List (String × Value)} : value = .string s →
      fromStr (trimChars s.toList) = .ok (.object entries) → Faithful value (.object entries)
  | wrapped : Faithful value (.array [value])
  | number {n : Number} : Writes value n.toRat → Faithful value (.number n)
  | textual {value' : Value} : textual value' = true → Faithful value value'

/-- The value after a repair. -/
def repairedValue (value : Value) (result : Option (Value × RepairDiagnostic)) : Value :=
  (result.map Prod.fst).getD value

/-- A JSON text in braces is an object. -/
def ReadsObjects : Prop :=
  ∀ cs value, cs.head? = some '\x7b' → fromStr cs = .ok value → ∃ entries, value = .object entries

/-! ## The arms -/

/-- The repair of an array. -/
theorem repairArray_spec {parameter : String} {value : Value}
    {result : Option (Value × RepairDiagnostic)} (h : repairArray parameter value = .ok result) :
    (hasType .array (repairedValue value result) = true ↔ repairable .array value = true) ∧
      Faithful value (repairedValue value result) := by
  have hdelimited : ∀ s, Faithful (.string s)
      (.array ((delimitedItems (trimChars s.toList)).map fun item =>
        Value.string (.ofList item))) := by
    intro s
    refine .textual ?_
    simp [textual, Value.asStr]
  cases value with
  | null =>
      cases h
      exact ⟨Iff.rfl, .same⟩
  | array items =>
      cases h
      exact ⟨Iff.rfl, .same⟩
  | string s =>
      rw [repairArray] at h
      dsimp only at h
      split at h
      · split at h
        · next hread =>
          cases h
          exact ⟨Iff.rfl, .readArray rfl hread⟩
        · cases h
          exact ⟨Iff.rfl, hdelimited s⟩
      · cases h
        exact ⟨Iff.rfl, hdelimited s⟩
  | number n =>
      cases h
      exact ⟨Iff.rfl, .wrapped⟩
  | bool b =>
      cases h
      exact ⟨Iff.rfl, .wrapped⟩
  | object entries =>
      cases h
      exact ⟨Iff.rfl, .wrapped⟩

/-- The repair of an object. -/
theorem repairObject_spec {parameter : String} {value : Value}
    {result : Option (Value × RepairDiagnostic)} (hobjects : ReadsObjects)
    (h : repairObject parameter value = .ok result) :
    hasType .object (repairedValue value result) = true ∧
      Faithful value (repairedValue value result) := by
  cases value with
  | object entries =>
      cases h
      exact ⟨rfl, .same⟩
  | string s =>
      rw [repairObject] at h
      split at h
      · next hbraces =>
        split at h
        · next parsed hread =>
          obtain ⟨entries, rfl⟩ := hobjects _ _ hbraces.1 hread
          cases h
          exact ⟨rfl, .readObject rfl hread⟩
        · cases h
      · cases h
  | null => cases h
  | array items => cases h
  | number n => cases h
  | bool b => cases h

omit [SerdeJson] in
theorem hasType_ofInt64 (n : Int64) : hasType .integer (.number (.ofInt64 n)) = true := by
  unfold Number.ofInt64
  split <;> rfl

theorem writes_of_faithful {value : Value} {n : Number} (h : Faithful value (.number n)) :
    Writes value n.toRat := by
  cases h with
  | same => rfl
  | number hwrites => exact hwrites
  | textual htextual => cases htextual

/-- The repair of an integer. -/
theorem repairInteger_spec {parameter : String} {value : Value}
    {result : Option (Value × RepairDiagnostic)} (h : repairInteger parameter value = .ok result) :
    hasType .integer (repairedValue value result) = true ∧
      (Faithful value (repairedValue value result) ↔ repairable .integer value = true) := by
  cases value with
  | number n =>
      cases n with
      | posInt n =>
        cases h
        exact ⟨rfl, iff_of_true .same rfl⟩
      | negInt n =>
        cases h
        exact ⟨rfl, iff_of_true .same rfl⟩
      | float x =>
        rw [repairInteger] at h
        split at h
        · next hinteger =>
          cases h
          refine ⟨hasType_ofInt64 _, ?_⟩
          have hexact := toRat_ofInt64_toInt64 hinteger
          rw [repairable, decide_eq_true_iff, ← hexact]
          constructor
          · intro hfaithful
            exact (writes_of_faithful hfaithful).symm
          · intro heq
            exact .number heq.symm
        · cases h
  | string s =>
      rw [repairInteger] at h
      split at h
      · next n hread =>
        cases h
        refine ⟨hasType_ofInt64 n, iff_of_true (.number ?_) rfl⟩
        rw [Number.toRat_ofInt64]
        exact writtenNumber_of_parseInt64 hread
      · cases h
  | null => cases h
  | array items => cases h
  | object entries => cases h
  | bool b => cases h

/-- The repair of a number. -/
theorem repairNumber_spec {parameter : String} {value : Value}
    {result : Option (Value × RepairDiagnostic)} (h : repairNumber parameter value = .ok result) :
    (hasType .number (repairedValue value result) = true ∧
      Faithful value (repairedValue value result)) ↔ repairable .number value = true := by
  cases value with
  | number n =>
      cases h
      exact iff_of_true ⟨rfl, .same⟩ rfl
  | string s =>
      rw [repairNumber] at h
      split at h
      · next x hread =>
        cases h
        rw [repairable, hread]
        show hasType .number (jsonOfF64 x) = true ∧ Faithful (.string s) (jsonOfF64 x) ↔ _
        unfold jsonOfF64
        dsimp only
        split
        · rw [decide_eq_true_iff]
          constructor
          · rintro ⟨_, hfaithful⟩
            exact writes_of_faithful hfaithful
          · intro hwritten
            exact ⟨rfl, .number hwritten⟩
        · simp [hasType]
      · cases h
  | null => cases h
  | array items => cases h
  | object entries => cases h
  | bool b => cases h

/-- The repair of a text. -/
theorem repairString_spec {parameter : String} {value : Value}
    {result : Option (Value × RepairDiagnostic)} (h : repairString parameter value = .ok result) :
    (hasType .string (repairedValue value result) = true ↔ repairable .string value = true) ∧
      Faithful value (repairedValue value result) := by
  unfold repairString at h
  split at h
  · cases h
    exact ⟨Iff.rfl, .textual rfl⟩
  · cases h
    exact ⟨Iff.rfl, .textual rfl⟩
  · cases h
    exact ⟨Iff.rfl, .textual rfl⟩
  · next hnumber hbool hsingle =>
    cases h
    refine ⟨?_, .same⟩
    show hasType .string value = true ↔ _
    cases value with
    | null => exact Iff.rfl
    | bool b => exact absurd rfl (hbool b)
    | number n => exact absurd rfl (hnumber n)
    | string s => exact Iff.rfl
    | object entries => exact Iff.rfl
    | array items =>
      show hasType .string (.array items) = true ↔ singleText items = true
      unfold singleText
      split
      · next s => exact absurd rfl (hsingle s)
      · exact Iff.rfl

variable [Text.Unicode]

/-- The repair of a truth value. -/
theorem repairBoolean_spec {parameter : String} {value : Value}
    {result : Option (Value × RepairDiagnostic)} (h : repairBoolean parameter value = .ok result) :
    hasType .boolean (repairedValue value result) = true ∧
      Faithful value (repairedValue value result) := by
  cases value with
  | bool b =>
      cases h
      exact ⟨rfl, .same⟩
  | string s =>
      rw [repairBoolean] at h
      split at h
      · cases h
        exact ⟨rfl, .textual rfl⟩
      · split at h
        · cases h
          exact ⟨rfl, .textual rfl⟩
        · cases h
  | number n =>
      cases h
      exact ⟨rfl, .textual rfl⟩
  | null => cases h
  | array items => cases h
  | object entries => cases h

/-- A value is repaired to its type exactly when it is repairable. -/
theorem repairSingleValue_iff {parameter : String} {value schema : Value} {type : JsonType}
    {result : Option (Value × RepairDiagnostic)} (hobjects : ReadsObjects)
    (hdeclared : declaredType schema = some type)
    (h : repairSingleValue parameter value schema = .ok result) :
    (hasType type (repairedValue value result) = true ∧
      Faithful value (repairedValue value result)) ↔ repairable type value = true := by
  rw [repairSingleValue, hdeclared] at h
  cases type with
  | array =>
      obtain ⟨htype, hfaithful⟩ := repairArray_spec h
      exact ⟨fun hboth => htype.mp hboth.1, fun hgood => ⟨htype.mpr hgood, hfaithful⟩⟩
  | object =>
      have hboth := repairObject_spec hobjects h
      exact iff_of_true hboth (by cases value <;> rfl)
  | integer =>
      obtain ⟨htype, hfaithful⟩ := repairInteger_spec h
      exact ⟨fun hboth => hfaithful.mp hboth.2, fun hgood => ⟨htype, hfaithful.mpr hgood⟩⟩
  | number => exact repairNumber_spec h
  | boolean =>
      have hboth := repairBoolean_spec h
      exact iff_of_true hboth (by cases value <;> rfl)
  | string =>
      obtain ⟨htype, hfaithful⟩ := repairString_spec h
      exact ⟨fun hboth => htype.mp hboth.1, fun hgood => ⟨htype.mpr hgood, hfaithful⟩⟩

theorem repairSingleValue_of_hasType {parameter : String} {value schema : Value} {type : JsonType}
    (hdeclared : declaredType schema = some type) (h : hasType type value = true) :
    repairSingleValue parameter value schema = .ok none := by
  rw [repairSingleValue, hdeclared]
  unfold hasType at h
  split at h <;> first | rfl | cases h

theorem repairSingleValue_of_undeclared {parameter : String} {value schema : Value}
    (hdeclared : declaredType schema = none) :
    repairSingleValue parameter value schema = .ok none := by
  rw [repairSingleValue, hdeclared]
  rfl

/-! ## The loop over the properties -/

section Entries

omit [SerdeJson] [Text.Unicode]

/-- The value that was put under a key. -/
theorem lookup_setEntry_self {key : String} {value old : Value} {entries : List (String × Value)}
    (h : lookup key entries = some old) : lookup key (setEntry key value entries) = some value := by
  induction entries with
  | nil => cases h
  | cons entry rest ih =>
      obtain ⟨name, first⟩ := entry
      unfold setEntry
      unfold lookup at h
      split
      · next hname => simp [lookup, hname]
      · next hname =>
        rw [if_neg hname] at h
        rw [lookup, if_neg hname, ih h]

/-- The values under the other keys. -/
theorem lookup_setEntry_of_ne {key other : String} (hne : other ≠ key) (value : Value)
    (entries : List (String × Value)) :
    lookup other (setEntry key value entries) = lookup other entries := by
  induction entries with
  | nil => rfl
  | cons entry rest ih =>
      obtain ⟨name, first⟩ := entry
      unfold setEntry
      split
      · next hname => simp [lookup, hname, hne.symm]
      · rw [lookup, lookup, ih]

end Entries

/-- The loop gives every property what the repair of its value is, and leaves the other entries. -/
theorem lookup_repairProperties {properties entries entries' : List (String × Value)}
    {diagnostics diagnostics' : List RepairDiagnostic} (hkeys : (properties.map Prod.fst).Nodup)
    (h : repairProperties properties entries diagnostics = .ok (entries', diagnostics')) :
    (∀ name, name ∉ properties.map Prod.fst → lookup name entries' = lookup name entries) ∧
      ∀ name schema, (name, schema) ∈ properties →
        (lookup name entries = none → lookup name entries' = none) ∧
          ∀ value, lookup name entries = some value →
            ∃ result, repairSingleValue name value schema = .ok result ∧
              lookup name entries' = some (repairedValue value result) := by
  induction properties generalizing entries diagnostics with
  | nil =>
      cases h
      exact ⟨fun _ _ => rfl, fun _ _ hmem => by cases hmem⟩
  | cons property rest ih =>
      obtain ⟨key, schema⟩ := property
      obtain ⟨hkey, hrest⟩ := List.nodup_cons.mp hkeys
      -- what the rest of the loop does to the entries that the first round leaves
      have hround : ∀ middle diagnostics, repairProperties rest middle diagnostics =
          .ok (entries', diagnostics') →
          (∀ name, name ≠ key → lookup name middle = lookup name entries) →
          (lookup key entries = none → lookup key middle = none) →
          (∀ value, lookup key entries = some value →
            ∃ result, repairSingleValue key value schema = .ok result ∧
              lookup key middle = some (repairedValue value result)) →
          (∀ name, name ∉ key :: rest.map Prod.fst → lookup name entries' = lookup name entries) ∧
            ∀ name schema', (name, schema') ∈ (key, schema) :: rest →
              (lookup name entries = none → lookup name entries' = none) ∧
                ∀ value, lookup name entries = some value →
                  ∃ result, repairSingleValue name value schema' = .ok result ∧
                    lookup name entries' = some (repairedValue value result) := by
        intro middle diagnostics hrun hothers hnone hsome
        obtain ⟨hleft, hdone⟩ := ih hrest hrun
        have hsame := hleft key hkey
        constructor
        · intro name hname
          simp only [List.mem_cons, not_or] at hname
          rw [hleft name hname.2, hothers name hname.1]
        · intro name schema' hmem
          rcases List.mem_cons.mp hmem with heq | hlater
          · cases heq
            rw [hsame]
            exact ⟨hnone, hsome⟩
          · have hne : name ≠ key := by
              rintro rfl
              exact hkey (List.mem_map.mpr ⟨_, hlater, rfl⟩)
            rw [← hothers name hne]
            exact hdone name schema' hlater
      unfold repairProperties at h
      split at h
      · next habsent =>
        refine hround entries diagnostics h (fun _ _ => rfl) id fun value hvalue => ?_
        rw [habsent] at hvalue
        cases hvalue
      · next value hvalue =>
        split at h
        · cases h
        · next hkeep =>
          refine hround entries diagnostics h (fun _ _ => rfl) id fun other hother => ?_
          rw [hvalue] at hother
          cases hother
          exact ⟨none, hkeep, hvalue⟩
        · next repaired diagnostic hchange =>
          refine hround _ _ h (fun name hne => lookup_setEntry_of_ne hne _ _)
            (fun hnone => ?_) fun other hother => ?_
          · rw [hvalue] at hnone
            cases hnone
          · rw [hvalue] at hother
            cases hother
            exact ⟨_, hchange, lookup_setEntry_self hvalue⟩

/-- The loop keeps entries that no repair changes. -/
theorem repairProperties_of_keep {properties entries : List (String × Value)}
    {diagnostics : List RepairDiagnostic}
    (h : ∀ name schema value, (name, schema) ∈ properties → lookup name entries = some value →
      repairSingleValue name value schema = .ok none) :
    repairProperties properties entries diagnostics = .ok (entries, diagnostics) := by
  induction properties with
  | nil => rfl
  | cons property rest ih =>
      obtain ⟨key, schema⟩ := property
      have hrest := ih fun name schema value hmem =>
        h name schema value (List.mem_cons_of_mem _ hmem)
      unfold repairProperties
      split
      · exact hrest
      · next value hvalue =>
        rw [h key schema value List.mem_cons_self hvalue]
        exact hrest

/-! ## The claim about a call -/

/-- The repaired arguments of a call: every typed property has its type, no number is changed, no
required parameter is missing, other entries are as they were, and a second repair changes and
reports nothing. -/
structure SoundRepair (toolName : String) (raw schema : Value)
    (properties : List (String × Value)) (outcome : RepairOutcome) : Prop where
  typed : ∀ name schema' type value, (name, schema') ∈ properties →
    declaredType schema' = some type → outcome.arguments.get name = some value →
    hasType type value = true
  faithful : ∀ name value', outcome.arguments.get name = some value' →
    ∃ value, (readArguments raw).1.get name = some value ∧ Faithful value value'
  required : ∀ name ∈ requiredNames schema, (outcome.arguments.get name).isSome = true
  untouched : ∀ name, name ∉ properties.map Prod.fst →
    outcome.arguments.get name = (readArguments raw).1.get name
  again : repairArguments toolName outcome.arguments schema = .ok ⟨outcome.arguments, [], false⟩

omit [Text.Unicode] in
/-- Every typed property that is there has a value for which the repair is sound. -/
def RepairableArguments (raw : Value) (properties : List (String × Value)) : Prop :=
  ∀ name schema type value, (name, schema) ∈ properties → declaredType schema = some type →
    (readArguments raw).1.get name = some value → repairable type value = true

/-- A repair that succeeds on a schema with properties. -/
theorem repairArguments_eq_ok {toolName : String} {raw schema : Value}
    {properties : List (String × Value)} {outcome : RepairOutcome}
    (hproperties : schemaProperties schema = some properties)
    (h : repairArguments toolName raw schema = .ok outcome) :
    ∃ entries entries' diagnostics, (readArguments raw).1 = .object entries ∧
      missingParameter schema (.object entries) = none ∧
      repairProperties properties entries (readArguments raw).2 = .ok (entries', diagnostics) ∧
      outcome.arguments = .object entries' := by
  unfold repairArguments at h
  rw [hproperties] at h
  cases hread : readArguments raw with
  | mk current diagnostics =>
      simp only [hread] at h
      split at h
      · cases h
      · next hmissing =>
        cases current with
        | object entries =>
          dsimp only at h
          cases hrun : repairProperties properties entries diagnostics with
          | error e =>
            rw [hrun] at h
            cases h
          | ok result =>
            rw [hrun] at h
            cases h
            exact ⟨entries, result.1, result.2, rfl, hmissing, hrun, rfl⟩
        | null => cases h
        | bool b => cases h
        | number n => cases h
        | string s => cases h
        | array items => cases h

/-- A repair that succeeds is sound exactly when the typed properties are repairable. -/
theorem soundRepair_iff {toolName : String} {raw schema : Value}
    {properties : List (String × Value)} {outcome : RepairOutcome} (hobjects : ReadsObjects)
    (hproperties : schemaProperties schema = some properties)
    (hkeys : (properties.map Prod.fst).Nodup)
    (h : repairArguments toolName raw schema = .ok outcome) :
    SoundRepair toolName raw schema properties outcome ↔ RepairableArguments raw properties := by
  obtain ⟨entries, entries', diagnostics, hread, hmissing, hrun, houtcome⟩ :=
    repairArguments_eq_ok hproperties h
  obtain ⟨hleft, hdone⟩ := lookup_repairProperties hkeys hrun
  constructor
  · intro hsound name schema' type value hmem hdeclared hvalue
    rw [hread] at hvalue
    obtain ⟨result, hsingle, hlookup⟩ := (hdone name schema' hmem).2 value hvalue
    rw [← repairSingleValue_iff hobjects hdeclared hsingle]
    have hget : outcome.arguments.get name = some (repairedValue value result) := by
      rw [houtcome]
      exact hlookup
    refine ⟨hsound.typed name schema' type _ hmem hdeclared hget, ?_⟩
    obtain ⟨original, horiginal, hfaithful⟩ := hsound.faithful name _ hget
    rw [hread] at horiginal
    cases hvalue.symm.trans horiginal
    exact hfaithful
  · intro hrepairable
    -- what a repairable property becomes
    have hgood : ∀ name schema', (name, schema') ∈ properties → ∀ value',
        lookup name entries' = some value' → ∃ value, lookup name entries = some value ∧
          Faithful value value' ∧
          (∀ type, declaredType schema' = some type → hasType type value' = true) := by
      intro name schema' hmem value' hvalue'
      cases hvalue : lookup name entries with
      | none =>
        rw [(hdone name schema' hmem).1 hvalue] at hvalue'
        cases hvalue'
      | some value =>
        obtain ⟨result, hsingle, hlookup⟩ := (hdone name schema' hmem).2 value hvalue
        rw [hlookup] at hvalue'
        cases hvalue'
        cases hdeclared : declaredType schema' with
        | none =>
          rw [repairSingleValue_of_undeclared hdeclared] at hsingle
          cases hsingle
          exact ⟨value, rfl, .same, fun _ hsome => by cases hsome⟩
        | some type =>
          have hboth := (repairSingleValue_iff hobjects hdeclared hsingle).mpr
            (hrepairable name schema' type value hmem hdeclared (by rw [hread]; exact hvalue))
          refine ⟨value, rfl, hboth.2, fun type' htype' => ?_⟩
          cases htype'
          exact hboth.1
    have hpresent : ∀ name, (lookup name entries).isSome = true →
        (lookup name entries').isSome = true := by
      intro name hsome
      by_cases hname : name ∈ properties.map Prod.fst
      · obtain ⟨⟨_, schema'⟩, hmem, rfl⟩ := List.mem_map.mp hname
        obtain ⟨value, hvalue⟩ := Option.isSome_iff_exists.mp hsome
        obtain ⟨result, _, hlookup⟩ := (hdone _ schema' hmem).2 value hvalue
        rw [hlookup]
        rfl
      · rw [hleft name hname]
        exact hsome
    have hrequired : ∀ name ∈ requiredNames schema, (lookup name entries').isSome = true := by
      intro name hname
      refine hpresent name ?_
      have hnone := List.find?_eq_none.mp hmissing name hname
      simpa [Option.isSome_iff_ne_none] using hnone
    refine ⟨?_, ?_, ?_, ?_, ?_⟩
    · intro name schema' type value hmem hdeclared hvalue
      rw [houtcome] at hvalue
      obtain ⟨_, _, _, htype⟩ := hgood name schema' hmem value hvalue
      exact htype type hdeclared
    · intro name value' hvalue'
      rw [houtcome] at hvalue'
      rw [hread]
      by_cases hname : name ∈ properties.map Prod.fst
      · obtain ⟨⟨_, schema'⟩, hmem, rfl⟩ := List.mem_map.mp hname
        obtain ⟨value, hvalue, hfaithful, _⟩ := hgood _ schema' hmem value' hvalue'
        exact ⟨value, hvalue, hfaithful⟩
      · exact ⟨value', (hleft name hname).symm.trans hvalue', .same⟩
    · intro name hname
      rw [houtcome]
      exact hrequired name hname
    · intro name hname
      rw [houtcome, hread]
      exact hleft name hname
    · have hstill : missingParameter schema (.object entries') = none := by
        refine List.find?_eq_none.mpr fun name hname => ?_
        have hsome := hrequired name hname
        simp only [Option.isNone_iff_eq_none]
        intro hnone
        rw [hnone] at hsome
        cases hsome
      have hagain : repairProperties properties entries' [] = .ok (entries', []) := by
        refine repairProperties_of_keep fun name schema' value hmem hvalue => ?_
        obtain ⟨_, _, _, htype⟩ := hgood name schema' hmem value hvalue
        cases hdeclared : declaredType schema' with
        | none => exact repairSingleValue_of_undeclared hdeclared
        | some type => exact repairSingleValue_of_hasType hdeclared (htype type hdeclared)
      have hreadAgain : readArguments (.object entries') = (.object entries', []) := rfl
      rw [houtcome, repairArguments, hreadAgain]
      simp only [hstill, hproperties, hagain]
      rfl

end Repairs

section Sample

open scoped Compact Text

/-- The list of the bytes of an array, with those that were already taken in reverse. -/
theorem toList_loop (bytes : ByteArray) (i : Nat) (front : List UInt8) :
    ByteArray.toList.loop bytes i front = front.reverse ++ bytes.data.toList.drop i := by
  fun_induction ByteArray.toList.loop bytes i front with
  | case1 i front hi ih =>
      have hlt : i < bytes.data.toList.length := by simpa using hi
      have hget : bytes.get! i = bytes.data.toList[i] := by
        have hsize : i < bytes.data.size := hi
        rw [ByteArray.get!, getElem!_pos bytes.data i hsize]
        rfl
      rw [ih, List.drop_eq_getElem_cons hlt]
      simp [hget]
  | case2 i front hi =>
      have hge : bytes.data.toList.length ≤ i := by simpa using hi
      rw [List.drop_eq_nil_of_le hge, List.append_nil]

/-- A tree that starts with a brace is an object. -/
theorem parseValue_brace {fuel : Nat} {rest cs : List Char} {value : Value}
    (h : Compact.parseValue (fuel + 1) ('\x7b' :: rest) = some (value, cs)) :
    ∃ entries, value = .object entries := by
  unfold Compact.parseValue at h
  split at h
  case h_7 => exact ⟨_, (Prod.mk.inj (Option.some.inj h)).1.symm⟩
  case h_8 =>
    obtain ⟨parts, _, hparts⟩ := Option.bind_eq_some_iff.mp h
    exact ⟨_, (Prod.mk.inj (Option.some.inj hparts)).1.symm⟩
  case h_9 hbrace => exact absurd rfl (hbrace rest)
  all_goals (rename_i heq; cases heq)

/-- The serialiser of compact texts reads objects in braces. -/
theorem readsObjects_compact : ReadsObjects := by
  intro cs value hhead hread
  obtain ⟨rest, rfl⟩ := List.head?_eq_some_iff.mp hhead
  have hbytes : (⟨(String.ofList ('\x7b' :: rest)).toUTF8.toList.toArray⟩ : ByteArray) =
      (String.ofList ('\x7b' :: rest)).toUTF8 := by
    apply ByteArray.ext
    rw [ByteArray.toList, toList_loop]
    simp
  have htext : String.fromUTF8? (String.ofList ('\x7b' :: rest)).toUTF8 =
      some (String.ofList ('\x7b' :: rest)) := by
    unfold String.fromUTF8?
    exact dif_pos (String.ofList ('\x7b' :: rest)).isValidUTF8
  have hfrom : Compact.fromSlice (String.ofList ('\x7b' :: rest)).toUTF8.toList = .ok value :=
    hread
  rw [Compact.fromSlice, hbytes, htext] at hfrom
  simp only [String.toList_ofList] at hfrom
  split at hfrom
  · next parsed hparse =>
    split at hfrom
    · cases hfrom
      exact parseValue_brace hparse
    · cases hfrom
  · cases hfrom
  · cases hfrom

/-- A tool with one typed parameter. -/
def readSchema : Value :=
  .object [("properties", .object [("line", .object [("type", .string "integer")])])]

/-- The parameter's schema. -/
def readProperties : List (String × Value) := [("line", .object [("type", .string "integer")])]

/-- The arguments of a call. -/
def lineArguments (n : Number) : Value := .object [("line", .number n)]

/-- The float `3.0`. -/
def three : FiniteF64 := ⟨⟨0x4008000000000000⟩, by decide⟩

/-- The float `1e300`. -/
def huge : FiniteF64 := ⟨⟨0x7e37e43c8800759c⟩, by decide⟩

/-- A whole float in the place of the parameter is cut to an integer. -/
theorem repairArguments_line {x : FiniteF64} (h : x.isInteger = true) : ∃ outcome,
    repairArguments "Read" (lineArguments (.float x)) readSchema = .ok outcome ∧
      outcome.arguments = lineArguments (.ofInt64 x.toInt64) := by
  have hdeclared : declaredType (.object [("type", .string "integer")]) = some .integer := rfl
  obtain ⟨diagnostic, hsingle⟩ : ∃ diagnostic, repairSingleValue "line" (.number (.float x))
      (.object [("type", .string "integer")]) =
      .ok (some (.number (.ofInt64 x.toInt64), diagnostic)) := by
    rw [repairSingleValue, hdeclared]
    exact ⟨_, if_pos h⟩
  have hrun : repairProperties readProperties [("line", .number (.float x))] [] =
      .ok ([("line", .number (.ofInt64 x.toInt64))], [diagnostic]) := by
    simp [readProperties, repairProperties, lookup, hsingle, setEntry]
  refine ⟨⟨lineArguments (.ofInt64 x.toInt64), [diagnostic], true⟩, ?_, rfl⟩
  have hread : readArguments (lineArguments (.float x)) = (lineArguments (.float x), []) := rfl
  have hmissing : missingParameter readSchema (lineArguments (.float x)) = none := rfl
  have hproperties : schemaProperties readSchema = some readProperties := rfl
  rw [repairArguments, hread]
  simp only [hmissing, hproperties]
  show (repairProperties readProperties [("line", .number (.float x))] [] >>= _) = _
  rw [hrun]
  rfl

/-- A small whole float is repaired to the integer. -/
theorem soundRepair_three : ∃ outcome,
    repairArguments "Read" (lineArguments (.float three)) readSchema = .ok outcome ∧
      SoundRepair "Read" (lineArguments (.float three)) readSchema readProperties outcome := by
  obtain ⟨outcome, hrun, _⟩ := @repairArguments_line three (by decide +kernel)
  refine ⟨outcome, hrun, (soundRepair_iff readsObjects_compact rfl (by decide) hrun).mpr ?_⟩
  intro name schema type value hmem hdeclared hvalue
  cases List.mem_singleton.mp hmem
  cases hdeclared
  cases hvalue
  decide +kernel

/-- A whole float beyond the integers becomes the greatest integer. -/
theorem not_soundRepair_huge : ∃ outcome,
    repairArguments "Read" (lineArguments (.float huge)) readSchema = .ok outcome ∧
      ¬ SoundRepair "Read" (lineArguments (.float huge)) readSchema readProperties outcome := by
  obtain ⟨outcome, hrun, houtcome⟩ := @repairArguments_line huge (by decide +kernel)
  refine ⟨outcome, hrun, fun hsound => ?_⟩
  obtain ⟨value, hvalue, hfaithful⟩ := hsound.faithful "line" (.number (.ofInt64 huge.toInt64)) (by
    rw [houtcome]
    rfl)
  cases hvalue
  have heq : huge.toRat = (Number.ofInt64 huge.toInt64).toRat := writes_of_faithful hfaithful
  have hne : huge.toRat ≠ (Number.ofInt64 huge.toInt64).toRat := by decide +kernel
  exact hne heq

end Sample

end Omp2.Inference
