import Omp2.Control.Convars

/-!
# Command scripts

`CommandTokenizer` and `CommandParser` of `omp-control/src/command.rs`. `splitStatements` cuts a
script into statements and `tokenizeLine` cuts a statement into tokens; both are loops over the
characters, written here as a step on a scanner state, with the inner loops of the source (the
character after a backslash, the characters of a comment) as modes of the state. `parseStatement`
reads a statement as a command by its first token.
-/

namespace Omp2.Control

open Json

/-! ## Commands -/

/-- `ProviderAction`. -/
inductive ProviderAction where
  | show
  | refresh
  | configure (endpoint adapter keyEnv : String) (model : Option String)
  | select (model : String)
  | list
  | add (name endpoint adapter keyEnv : String) (model : Option String)
  | use (name : String)
  | remove (name : String)
deriving DecidableEq, Repr

/-- `Command`. -/
inductive Command where
  | setConVar (name value : String)
  | getConVar (name : String)
  | bind (key command : String)
  | unbind (key : String)
  | toggle (name : String) (values : List String)
  | «alias» (name command : String)
  | unalias (name : String)
  | exec (path : String)
  | echo (message : String)
  | force (tool : String) (reminder : Option String) (maxAttempts : Option UInt32)
  | effort (level : Option String)
  | toolCall (name : String) (input : Value)
  | dynDiscovery (query action : Option String) (help : Bool)
  | cancelJob (jobId : String)
  | provider (action : ProviderAction)
  | custom (name : String) (args : List String)
deriving Repr

/-- `CommandError`. -/
inductive CommandError where
  | parse (message : String)
  | conVar (error : ConVarError)
  | recursionLimit (name : String) (depth : Nat)
  | expansionLimit (bytes limit : Nat)
  | unknownCommand (name : String)
  | missingArgument (cmd arg : String)
deriving DecidableEq, Repr

/-! ## Statements -/

/-- What the scanner does with the next character. -/
inductive ScanMode where
  | plain
  | escaped
  | comment
deriving DecidableEq, Repr

/-- The variables of the loop in `split_statements`. -/
structure SplitState where
  statements : List (List Char)
  current : List Char
  inQuotes : Bool
  mode : ScanMode
deriving DecidableEq, Repr

namespace SplitState

/-- The state before the first character. -/
def start : SplitState := ⟨[], [], false, .plain⟩

/-- The statement that is being read ends here, unless it is blank. -/
def ended (st : SplitState) : List (List Char) :=
  if (Text.trimChars st.current).isEmpty then [] else [Text.trimChars st.current]

/-- Keep a character. -/
def push (st : SplitState) (c : Char) : SplitState :=
  { st with current := st.current ++ [c] }

/-- A separator ends the statement. -/
def close (st : SplitState) : SplitState :=
  { st with statements := st.statements ++ st.ended, current := [] }

/-- A comment ends the statement and is skipped; blank text before it stays. -/
def comment (st : SplitState) : SplitState :=
  { st with
    statements := st.statements ++ st.ended
    current := if st.ended.isEmpty then st.current else []
    mode := .comment }

/-- A comment of two slashes starts a word. -/
def startsWord (st : SplitState) : Bool :=
  match st.current.getLast? with
  | some c => Text.isWhitespace c
  | none => true

/-- One round of the loop in `split_statements`, with the character that it can peek at. -/
def next (st : SplitState) (c : Char) (peek : Option Char) : SplitState :=
  match st.mode with
  | .escaped => { st.push c with mode := .plain }
  | .comment => if c = '\n' then { st with mode := .plain } else st
  | .plain =>
    if c = '\\' then { st.push c with mode := .escaped }
    else if c = '"' then { st.push c with inQuotes := !st.inQuotes }
    else if st.inQuotes then st.push c
    else if c = '/' ∧ peek = some '/' ∧ st.startsWord then st.comment
    else if c = '#' then st.comment
    else if c = ';' ∨ c = '\n' ∨ c = '\r' then st.close
    else st.push c

/-- The loop in `split_statements`. -/
def run (st : SplitState) : List Char → SplitState
  | [] => st
  | c :: cs => (st.next c cs.head?).run cs

/-- The statements at the end of the text. -/
def finish (st : SplitState) : List (List Char) :=
  st.statements ++ st.ended

end SplitState

/-- `CommandTokenizer::split_statements` on characters. -/
def splitChars (cs : List Char) : List (List Char) :=
  (SplitState.start.run cs).finish

/-- `CommandTokenizer::split_statements`. -/
def splitStatements (input : String) : List String :=
  (splitChars input.toList).map String.ofList

/-! ## Tokens -/

/-- The variables of the loop in `tokenize_line`. -/
structure TokenState where
  tokens : List (List Char)
  current : List Char
  inQuotes : Bool
  escaped : Bool
deriving DecidableEq, Repr

namespace TokenState

/-- The state before the first character. -/
def start : TokenState := ⟨[], [], false, false⟩

/-- The token that is being read ends here, unless it is empty. -/
def ended (st : TokenState) : List (List Char) :=
  if st.current.isEmpty then [] else [st.current]

/-- Keep characters. -/
def push (st : TokenState) (cs : List Char) : TokenState :=
  { st with current := st.current ++ cs }

/-- What a character after a backslash stands for. -/
def unescape (c : Char) : List Char :=
  if c = 'n' then ['\n']
  else if c = 't' then ['\t']
  else if c = 'r' then ['\r']
  else if c = '"' then ['"']
  else if c = '\\' then ['\\']
  else ['\\', c]

/-- One round of the loop in `tokenize_line`. -/
def next (st : TokenState) (c : Char) : TokenState :=
  if st.escaped then { st.push (unescape c) with escaped := false }
  else if c = '\\' then { st with escaped := true }
  else if c = '"' then { st with inQuotes := !st.inQuotes }
  else if Text.isWhitespace c ∧ !st.inQuotes then
    { st with tokens := st.tokens ++ st.ended, current := [] }
  else st.push [c]

/-- The loop in `tokenize_line`. -/
def run (st : TokenState) (cs : List Char) : TokenState :=
  cs.foldl next st

/-- A backslash at the end of the text stands for itself. -/
def settle (st : TokenState) : TokenState :=
  if st.escaped then { st.push ['\\'] with escaped := false } else st

/-- The tokens at the end of the text, unless a quotation is open. -/
def finish (st : TokenState) : Option (List (List Char)) :=
  if st.inQuotes then none else some (st.settle.tokens ++ st.settle.ended)

end TokenState

/-- `CommandTokenizer::tokenize_line` on characters; an open quotation has no tokens. -/
def tokenizeChars (cs : List Char) : Option (List (List Char)) :=
  (TokenState.start.run cs).finish

/-- `CommandTokenizer::tokenize_line`. -/
def tokenizeLine (line : String) : Except CommandError (List String) :=
  match tokenizeChars line.toList with
  | none => .error (.parse "unclosed quote in command")
  | some tokens => .ok (tokens.map String.ofList)

/-! ## Parsing -/

/-- `[String]::join(" ")`. -/
def joinWords (words : List String) : String :=
  String.intercalate " " words

/-- `str::starts_with`. -/
def startsWith (s start : String) : Bool :=
  (Text.stripPrefix s start).isSome

/-- `endpoint_default_adapter`. -/
def endpointDefaultAdapter (endpoint : String) : String :=
  if startsWith endpoint "https://api.anthropic.com/" then "anthropic" else "openai_compatible"

/-- `is_allowed_key_env`. -/
def isAllowedKeyEnv (name : String) : Bool :=
  decide (name ∈ ["OMP_API_KEY", "ANTHROPIC_API_KEY", "OPENAI_API_KEY",
    "OPENAI_COMPATIBLE_API_KEY"]) ||
    (startsWith name "OMP_TEST_" && (Text.splitOnce "KEY".toList name.toList).isSome)

/-- The adapter, the key variable and the model of a provider. -/
abbrev ProviderOptions := String × String × Option String

/-- The loop of `parse_provider_options` over the pairs of options. -/
def providerOptions (seen : List String) (options : ProviderOptions) :
    List String → Except CommandError ProviderOptions
  | [] => .ok options
  | [_] => .error (.parse "provider option needs a value")
  | name :: value :: rest =>
    if name ∈ seen then .error (.parse "duplicate provider option")
    else if name = "--adapter" then
      providerOptions (name :: seen) (value, options.2.1, options.2.2) rest
    else if name = "--key-env" then
      if !isAllowedKeyEnv value then
        .error (.parse ("key-env must be OMP_API_KEY, ANTHROPIC_API_KEY, OPENAI_API_KEY, " ++
          "or OPENAI_COMPATIBLE_API_KEY"))
      else providerOptions (name :: seen) (options.1, value, options.2.2) rest
    else if name = "--model" then
      providerOptions (name :: seen) (options.1, options.2.1, some value) rest
    else .error (.parse "unknown provider option; use /provider --help")

/-- `parse_provider_options`. -/
def parseProviderOptions (defaultAdapter : String) (options : List String) :
    Except CommandError ProviderOptions :=
  providerOptions [] (defaultAdapter, "OMP_API_KEY", none) options

/-- The text of `/provider --help`. -/
def providerUsage : String :=
  "Usage: /provider [list | add <name> <endpoint> [--adapter <dialect>] [--key-env <ENV>] " ++
  "[--model <id>] | use <name> | remove <name> | refresh | select <id> | <endpoint> " ++
  "[options]]. Providers are recorded in the session, so switching costs no retyping; the " ++
  "model list names the provider each model came from. Default dialect: OpenAI-compatible; " ++
  "key: OMP_API_KEY. Never paste API keys into commands. Reasoning effort: /effort <level>."

/-- A verb that needs one argument. -/
def needing (cmd arg : String) (args : List String)
    (parse : String → List String → Except CommandError Command) : Except CommandError Command :=
  match args with
  | [] => .error (.missingArgument cmd arg)
  | first :: rest => parse first rest

/-- The arguments of `force` after the tool: a reminder and an optional number of attempts. -/
def forceArguments (rest : List String) : Option String × Option UInt32 :=
  if rest.isEmpty then (none, none)
  else match rest.getLast?.bind (parseUInt32 ·.toList) with
    | some attempts =>
      if 1 < rest.length then (some (joinWords rest.dropLast), some attempts)
      else (some (joinWords rest), none)
    | none => (some (joinWords rest), none)

/-- The arms of `parse_statement` for `provider`. -/
def parseProvider : List String → Except CommandError Command
  | [] => .ok (.provider .show)
  | ["refresh"] => .ok (.provider .refresh)
  | ["select", model] => .ok (.provider (.select model))
  | ["list"] => .ok (.provider .list)
  | ["use", name] => .ok (.provider (.use name))
  | ["remove", name] => .ok (.provider (.remove name))
  | first :: rest =>
    match first, rest with
    | "add", name :: endpoint :: options => do
      let (adapter, keyEnv, model) ←
        parseProviderOptions (endpointDefaultAdapter endpoint) options
      return .provider (.add name endpoint adapter keyEnv model)
    | _, _ =>
      if first = "--help" ∨ first = "help" then .ok (.echo providerUsage)
      else do
        let (adapter, keyEnv, model) ← parseProviderOptions (endpointDefaultAdapter first) rest
        return .provider (.configure first adapter keyEnv model)

variable [SerdeJson] [Text.Unicode]

/-- The arm of `parse_statement` for `tool`. -/
def parseTool (name : String) (rest : List String) : Except CommandError Command :=
  let input := if rest.isEmpty then "\x7b\x7d" else joinWords rest
  match SerdeJson.fromSlice input.toByteArray.toList with
  | .ok value => .ok (.toolCall name value)
  | .error e =>
    .error (.parse ("tool input is not valid JSON: " ++ e ++
      "; quote the argument or pass \x7b\x7d"))

/-- The verbs that `parse_statement` knows, in lower case. -/
def builtinVerbs : List String :=
  ["bind", "unbind", "toggle", "alias", "unalias", "exec", "echo", "force", "/force", "tool",
    "call", "dyn", "cancel", "job", "effort", "/effort", "reasoning", "/reasoning", "provider",
    "/provider"]

/-- The arms of `parse_statement` for the verbs, of which `job` is only one before `cancel`. -/
def parseVerb (verb : String) (args : List String) : Option (Except CommandError Command) :=
  if verb = "bind" then
    some (needing "bind" "key" args fun key rest => .ok (.bind key (joinWords rest)))
  else if verb = "unbind" then
    some (needing "unbind" "key" args fun key _ => .ok (.unbind key))
  else if verb = "toggle" then
    some (needing "toggle" "name" args fun name values => .ok (.toggle name values))
  else if verb = "alias" then
    some (needing "alias" "name" args fun name rest => .ok (.alias name (joinWords rest)))
  else if verb = "unalias" then
    some (needing "unalias" "name" args fun name _ => .ok (.unalias name))
  else if verb = "exec" then
    some (needing "exec" "path" args fun path _ => .ok (.exec path))
  else if verb = "echo" then some (.ok (.echo (joinWords args)))
  else if verb = "force" ∨ verb = "/force" then
    some (needing "force" "tool" args fun tool rest =>
      .ok (.force tool (forceArguments rest).1 (forceArguments rest).2))
  else if verb = "tool" ∨ verb = "call" then some (needing "tool" "name" args parseTool)
  else if verb = "dyn" then
    some (.ok (.dynDiscovery (args.head?.filter fun query => !startsWith query "--") none
      (args.any fun arg => arg = "--help" ∨ arg = "-h")))
  else if verb = "cancel" then
    some (needing "cancel" "job_id" args fun jobId _ => .ok (.cancelJob jobId))
  else if verb = "job" then
    match args with
    | first :: jobId :: _ => if first.toLower = "cancel" then some (.ok (.cancelJob jobId)) else none
    | _ => none
  else if verb = "effort" ∨ verb = "/effort" ∨ verb = "reasoning" ∨ verb = "/reasoning" then
    some (.ok (.effort (args.head?.map fun level => Text.Unicode.toLowercase (Text.trim level))))
  else if verb = "provider" ∨ verb = "/provider" then some (parseProvider args)
  else none

/-- The last arm of `parse_statement`, which goes by the number of tokens. -/
def parseOther (name : String) : List String → Command
  | [] => .getConVar name
  | [value] => .setConVar name value
  | args => .custom name args

/-- `CommandParser::parse_statement` on tokens. -/
def parseTokens : List String → Except CommandError Command
  | [] => .error (.parse "empty statement")
  | verb :: args => (parseVerb verb.toLower args).getD (.ok (parseOther verb args))

/-- `CommandParser::parse_statement`. -/
def parseStatement (statement : String) : Except CommandError Command :=
  tokenizeLine statement >>= parseTokens

/-- The loop of `parse_script`: the first statement that does not parse decides. -/
def parseStatements : List String → Except CommandError (List Command)
  | [] => .ok []
  | statement :: rest => do
    let command ← parseStatement statement
    return command :: (← parseStatements rest)

/-- `CommandParser::parse_script`. -/
def parseScript (script : String) : Except CommandError (List Command) :=
  parseStatements (splitStatements script)

theorem parseTokens_other {name : String} (args : List String)
    (h : name.toLower ∉ builtinVerbs) :
    parseTokens (name :: args) = .ok (parseOther name args) := by
  simp only [builtinVerbs, List.mem_cons, List.not_mem_nil, or_false, not_or] at h
  simp [parseTokens, parseVerb, h]

end Omp2.Control
