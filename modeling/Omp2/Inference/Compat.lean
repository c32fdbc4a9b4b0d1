import Mathlib.Data.Prod.Lex
import Omp2.Inference.Taxonomy
import Omp2.Library.Precedence

/-!
# Compatibility rules

The rules of `omp-inference/src/compat.rs`. `add_rule` refuses a rule that contradicts another of
the same precedence for some model, so that the compiled table should not depend on the order in
which the rules are added. Its test for such a model compares revision patterns, and it is not made
for rules under one identifier.
-/

namespace Omp2.Inference

/-! ## Revisions -/

/-- `RevisionPattern`. -/
inductive RevisionPattern where
  | exact (revision : String)
  | prefixed (start : String)
  | range (min max : Option String)
  | wildcard
deriving DecidableEq

/-- The segments of a revision. -/
def segments (revision : String) : List (List Char) :=
  revision.toList.splitOnP fun c => c = '.' ∨ c = '-' ∨ c = '_'

/-- `parse::<u64>`. -/
def parseU64 (segment : List Char) : Option Nat :=
  let digits := match segment with
    | '+' :: digits => digits
    | digits => digits
  if digits = [] ∨ ¬ digits.all Char.isDigit then none
  else
    let n := digits.foldl (fun n c => 10 * n + (c.toNat - '0'.toNat)) 0
    if n < 2 ^ 64 then some n else none

/-- A segment that counts as zero. -/
def isZero (segment : List Char) : Bool :=
  parseU64 segment = some 0 || segment.isEmpty

/-- The order of two segments. -/
def compareSegment (left right : List Char) : Ordering :=
  match parseU64 left, parseU64 right with
  | some a, some b => compare a b
  | _, _ => List.compareLex compare left right

/-- The loop of `compare_revisions`, which does not decide when the left revision is longer. -/
def compareParts : List (List Char) → List (List Char) → Option Ordering
  | [], [] => some .eq
  | [], first :: rest => some (if isZero first && rest.all isZero then .eq else .lt)
  | _ :: _, [] => none
  | left :: leftRest, right :: rightRest =>
    match compareSegment left right with
    | .eq => compareParts leftRest rightRest
    | ord => some ord

/-- `compare_revisions`. When the left revision is longer, the revisions are compared the other way
round, where the loop decides. -/
def compareRevisions (left right : String) : Ordering :=
  match compareParts (segments left) (segments right) with
  | some ord => ord
  | none => ((compareParts (segments right) (segments left)).getD .eq).swap

/-- `starts_with`. -/
def startsWith (s start : String) : Bool :=
  start.toList.isPrefixOf s.toList

/-- `eq_ignore_ascii_case`. -/
def eqIgnoreAsciiCase (a b : String) : Bool :=
  a.toList.map Char.toLower = b.toList.map Char.toLower

/-- A revision is not below a bound. -/
def aboveMin (revision : String) (min : Option String) : Bool :=
  min.all fun m => compareRevisions revision m ≠ .lt

/-- A revision is not above a bound. -/
def belowMax (revision : String) (max : Option String) : Bool :=
  max.all fun m => compareRevisions revision m ≠ .gt

namespace RevisionPattern

/-- `matches`. -/
def «matches» : RevisionPattern → Option String → Bool
  | .wildcard, _ => true
  | .exact expected, some actual => expected = actual
  | .prefixed start, some actual => startsWith actual start
  | .range min max, some actual => aboveMin actual min && belowMax actual max
  | _, none => false

/-- Two bounds of which the first is above the second. -/
def crossed (min max : Option String) : Bool :=
  match min, max with
  | some a, some b => compareRevisions a b = .gt
  | _, _ => false

/-- The test of `overlaps` for a prefix and a range. -/
def prefixOverlaps (start : String) (min max : Option String) : Bool :=
  !(max.any fun m => compareRevisions start m = .gt && !startsWith m start) &&
    !(min.any fun m => compareRevisions start m = .lt && !startsWith m start)

/-- `overlaps`. -/
def overlaps : RevisionPattern → RevisionPattern → Bool
  | .wildcard, _ | _, .wildcard => true
  | .exact a, .exact b => a = b
  | .exact a, .prefixed p | .prefixed p, .exact a => startsWith a p
  | .prefixed p, .prefixed q => startsWith p q || startsWith q p
  | .exact a, .range min max | .range min max, .exact a => aboveMin a min && belowMax a max
  | .range min max, .range min' max' => !crossed min max' && !crossed min' max
  | .prefixed p, .range min max | .range min max, .prefixed p => prefixOverlaps p min max

/-- `covers`. -/
def covers : RevisionPattern → RevisionPattern → Bool
  | .wildcard, _ => true
  | .exact a, .exact b => a = b
  | .prefixed p, .exact b => startsWith b p
  | .prefixed p, .prefixed q => startsWith q p
  | .range min max, .exact b => aboveMin b min && belowMax b max
  | .range min max, .range min' max' =>
    let minCovered := match min, min' with
      | none, _ => true
      | some _, none => false
      | some m, some m' => decide (compareRevisions m' m ≠ .lt)
    let maxCovered := match max, max' with
      | none, _ => true
      | some _, none => false
      | some m, some m' => decide (compareRevisions m' m ≠ .gt)
    minCovered && maxCovered
  | _, _ => false

end RevisionPattern

/-! ## Rules -/

/-- `CompatRule`. -/
structure CompatRule where
  id : String
  host : Option String
  provider : Option String
  family : Option ModelFamily
  revision : Option RevisionPattern
  «class» : Option ModelClass
  capabilities : Capabilities
  nativeToolCost : Option NativeToolCost
  priority : Int

/-- Two criteria that do not exclude each other. -/
def together {α : Type} (same : α → α → Bool) : Option α → Option α → Bool
  | some a, some b => same a b
  | _, _ => true

/-- A criterion that is met wherever another one is. -/
def within {α : Type} (same : α → α → Bool) : Option α → Option α → Bool
  | none, _ => true
  | some a, some b => same a b
  | some _, none => false

namespace CompatRule

/-- `specificity_level`. -/
def specificityLevel (rule : CompatRule) : Nat :=
  if rule.host.isSome ∧ rule.revision matches some (.exact _) then 6
  else if rule.host.isSome ∧ rule.family.isSome then 5
  else if rule.host.isSome then 4
  else if rule.provider.isSome ∧ rule.revision.isSome then 3
  else if rule.provider.isSome ∧ rule.family.isSome then 2
  else if rule.class.isSome then 1
  else 0

/-- `matches`. -/
def «matches» (rule : CompatRule) (ident : ModelIdentifier) : Bool :=
  (rule.host.all fun host => eqIgnoreAsciiCase ident.hostName host) &&
    (rule.provider.all fun provider => eqIgnoreAsciiCase ident.providerName provider) &&
    (rule.family.all fun family => ident.family = family) &&
    (rule.revision.all fun pattern => pattern.matches ident.revision) &&
    (rule.class.all fun «class» => ident.class = «class»)

/-- `overlaps_criteria`. -/
def overlapsCriteria (rule other : CompatRule) : Bool :=
  decide (rule.specificityLevel = other.specificityLevel) &&
    together eqIgnoreAsciiCase rule.host other.host &&
    together eqIgnoreAsciiCase rule.provider other.provider &&
    together (fun a b => a = b) rule.family other.family &&
    together (fun a b => a = b) rule.class other.class &&
    together RevisionPattern.overlaps rule.revision other.revision

/-- `shadows`. -/
def shadows (rule other : CompatRule) : Bool :=
  decide (rule.id ≠ other.id) &&
    decide (other.specificityLevel < rule.specificityLevel ∨
      rule.specificityLevel = other.specificityLevel ∧ other.priority < rule.priority) &&
    within eqIgnoreAsciiCase rule.host other.host &&
    within eqIgnoreAsciiCase rule.provider other.provider &&
    within (fun a b => a = b) rule.family other.family &&
    within (fun a b => a = b) rule.class other.class &&
    within RevisionPattern.covers rule.revision other.revision &&
    (other.capabilities.entries.all fun entry => (rule.capabilities.get entry.1).isSome) &&
    (other.nativeToolCost.isNone || rule.nativeToolCost.isSome)

end CompatRule

/-- `CompatError`, as far as `add_rule` reports it. -/
inductive CompatError where
  | invalidRevisionRange (message : String)
  | unreachableRule (id shadowedBy : String)
  | conflictingEqualSpecificity (cap ruleA valA ruleB valB : String)

/-! ## The compiler -/

/-- `CompatCompiler`. -/
structure CompatCompiler where
  rules : List CompatRule

/-- The range check of `add_rule`. -/
def checkRange (rule : CompatRule) : Except CompatError Unit :=
  match rule.revision with
  | some (.range (some a) (some b)) =>
    if compareRevisions a b = .gt then
      .error (.invalidRevisionRange s!"min '{a}' is greater than max '{b}'")
    else .ok ()
  | _ => .ok ()

/-- The first capability that a rule defines otherwise than an existing one. -/
def capabilityConflict (existing rule : CompatRule) : Option CompatError :=
  rule.capabilities.entries.findSome? fun (cap, val) =>
    match existing.capabilities.get cap with
    | some existingVal =>
      if val ≠ existingVal then
        some (.conflictingEqualSpecificity cap.asStr existing.id existingVal.display rule.id
          val.display)
      else none
    | none => none

/-- The conflict of two rules over the native tool cost. -/
def costConflict (existing rule : CompatRule) : Option CompatError :=
  match existing.nativeToolCost, rule.nativeToolCost with
  | some a, some b =>
    if a ≠ b then
      some (.conflictingEqualSpecificity "native_tool_cost" existing.id a.display rule.id b.display)
    else none
  | _, _ => none

/-- Whether `add_rule` compares what two rules define. -/
def comparedWith (existing rule : CompatRule) : Bool :=
  decide (existing.id ≠ rule.id) &&
    decide (existing.specificityLevel = rule.specificityLevel) &&
    decide (existing.priority = rule.priority) && existing.overlapsCriteria rule

/-- The round of `add_rule` for one existing rule. -/
def checkAgainst (rule existing : CompatRule) : Except CompatError Unit :=
  match (if comparedWith existing rule then
      (capabilityConflict existing rule).or (costConflict existing rule) else none) with
  | some e => .error e
  | none =>
    if existing.shadows rule then .error (.unreachableRule rule.id existing.id)
    else if rule.shadows existing then .error (.unreachableRule existing.id rule.id)
    else .ok ()

namespace CompatCompiler

/-- `new`. -/
def new : CompatCompiler := ⟨[]⟩

/-- `add_rule`. -/
def addRule (compiler : CompatCompiler) (rule : CompatRule) : Except CompatError CompatCompiler := do
  checkRange rule
  compiler.rules.forM (checkAgainst rule)
  return ⟨compiler.rules ++ [rule]⟩

/-- Adding rules one after another. -/
def addRules (rules : List CompatRule) : Except CompatError CompatCompiler :=
  rules.foldlM addRule new

end CompatCompiler

/-! ## The table -/

/-- `CompatTable`. -/
structure CompatTable where
  rules : List CompatRule

/-- The order of the rules in the table: the highest specificity first, then the highest priority,
then the identifier. -/
def precedence (a b : CompatRule) : Ordering :=
  (compare b.specificityLevel a.specificityLevel).then
    ((compare b.priority a.priority).then (compare a.id b.id))

/-- `compile`. -/
def CompatCompiler.compile (compiler : CompatCompiler) : CompatTable :=
  ⟨compiler.rules.mergeSort fun a b => (precedence a b).isLE⟩

namespace CompatTable

/-- The first matching rule that defines something decides it. -/
def firstDefined {β : Type} (table : CompatTable) (ident : ModelIdentifier)
    (define : CompatRule → Option β) : Option β :=
  (table.rules.filter fun rule => rule.matches ident).findSome? define

/-- `resolve`. -/
def resolve (table : CompatTable) (ident : ModelIdentifier) : CapabilityProfile where
  capabilities := fun cap =>
    (table.firstDefined ident fun rule => rule.capabilities.get cap).getD .unknown
  nativeToolCost := (table.firstDefined ident CompatRule.nativeToolCost).getD .unknown

end CompatTable

end Omp2.Inference
