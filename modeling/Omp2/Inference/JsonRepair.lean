import Omp2.Library.Text
import Omp2.Types.Ids

/-!
# Repair of malformed JSON

`repair_malformed_json` of `omp-inference/src/corrective.rs`: a candidate text is changed step by
step, and each change is tried, until one of the candidates is JSON or the attempts are used up.
-/

namespace Omp2.Inference

open Json Text

/-- The last place at which a separator stands: what comes before it. -/
def beforeLast (separator cs : List Char) : Option (List Char) :=
  (splitOnce separator.reverse cs.reverse).map fun parts => parts.2.reverse

/-- The next character that is not white space closes an object or an array. -/
def closesNext : List Char → Bool
  | [] => false
  | c :: cs => if isWhitespace c then closesNext cs else decide (c = '\x7d' ∨ c = ']')

/-- `remove_trailing_commas`. -/
def removeTrailingCommas : List Char → (inString escaped : Bool) → List Char
  | [], _, _ => []
  | c :: cs, inString, escaped =>
    if escaped then c :: removeTrailingCommas cs inString false
    else if c = '\\' then c :: removeTrailingCommas cs inString true
    else if c = '"' then c :: removeTrailingCommas cs (!inString) false
    else if inString = false ∧ c = ',' ∧ closesNext cs = true then
      removeTrailingCommas cs inString false
    else c :: removeTrailingCommas cs inString false

/-- `count_unescaped_quotes`. -/
def countUnescapedQuotes : List Char → (escaped : Bool) → Nat
  | [], _ => 0
  | c :: cs, escaped =>
    if escaped then countUnescapedQuotes cs false
    else if c = '\\' then countUnescapedQuotes cs true
    else (if c = '"' then 1 else 0) + countUnescapedQuotes cs false

/-- Take a closing delimiter off the stack when it is on top. -/
def popClosing (c : Char) : List Char → List Char
  | top :: stack => if top = c then stack else top :: stack
  | [] => []

/-- The closing delimiters that are missing at the end, the innermost first. -/
def missingClosings : List Char → (stack : List Char) → (inString escaped : Bool) → List Char
  | [], stack, _, _ => stack
  | c :: cs, stack, inString, escaped =>
    if escaped then missingClosings cs stack inString false
    else if c = '\\' then missingClosings cs stack inString true
    else if c = '"' then missingClosings cs stack (!inString) false
    else if inString then missingClosings cs stack inString false
    else
      let stack :=
        if c = '\x7b' then '\x7d' :: stack
        else if c = '[' then ']' :: stack
        else if c = '\x7d' ∨ c = ']' then popClosing c stack
        else stack
      missingClosings cs stack inString false

/-- `balance_delimiters`. -/
def balanceDelimiters (cs : List Char) : List Char :=
  cs ++ missingClosings cs [] false false

variable [SerdeJson]

/-- `serde_json::from_str`. -/
def fromStr (cs : List Char) : Except String Value :=
  SerdeJson.fromSlice (String.ofList cs).toUTF8.toList

/-- Try a candidate, and go on with it when it is not JSON. -/
def tryCandidate (candidate : List Char) (next : List Char → Value ⊕ List Char) :
    Value ⊕ List Char :=
  match fromStr candidate with
  | .ok value => .inl value
  | .error _ => next candidate

/-- Step 4: balance unclosed braces and brackets. -/
def balanceStep (candidate : List Char) : Value ⊕ List Char :=
  let balanced := balanceDelimiters candidate
  if balanced ≠ candidate then tryCandidate balanced .inr else .inr candidate

/-- Step 3: close an unclosed quote. -/
def quoteStep (candidate : List Char) : Value ⊕ List Char :=
  if countUnescapedQuotes candidate false % 2 ≠ 0 then
    tryCandidate (candidate ++ ['"']) balanceStep
  else balanceStep candidate

/-- Step 2: strip trailing commas. -/
def commaStep (candidate : List Char) : Value ⊕ List Char :=
  let cleaned := removeTrailingCommas candidate false false
  if cleaned ≠ candidate then tryCandidate cleaned quoteStep else quoteStep candidate

/-- Step 1: strip a markdown fence. -/
def fenceStep (candidate : List Char) : Value ⊕ List Char :=
  if "```".toList.isPrefixOf candidate then
    let candidate := match splitOnce ['\n'] candidate with
      | some parts => parts.2
      | none => candidate
    let candidate := (beforeLast "```".toList candidate).getD candidate
    tryCandidate (trimChars candidate) commaStep
  else commaStep candidate

/-- The rounds over the four steps. -/
def repairRounds : Nat → List Char → Option Value
  | 0, _ => none
  | rounds + 1, candidate =>
    match fenceStep candidate with
    | .inl value => some value
    | .inr candidate => repairRounds rounds candidate

/-- `repair_malformed_json`. -/
def repairMalformedJson (raw : List Char) (maxAttempts : Nat) : Except StructuredError Value :=
  let candidate := trimChars raw
  match fromStr candidate with
  | .ok value => .ok value
  | .error _ =>
    match repairRounds (min maxAttempts 10) candidate with
    | some value => .ok value
    | none =>
      let text := String.ofList raw
      .error (StructuredError.new "malformed_json_unrepairable"
        s!"Failed to repair malformed JSON within {maxAttempts} attempts: '{text}'" true)

end Omp2.Inference
