import Omp2.Library.Numerals
import Omp2.Library.Text
import Omp2.Types.Ids

/-!
# Directors

The four built-in directors of `omp-control/src/director.rs` and the stack of
`omp-control/src/agent_loop.rs`. When a turn is about to end, the stack is asked from the innermost
director to the outermost. A director that is done leaves the stack, and the first one that neither
passes nor is done decides.
-/

namespace Omp2

abbrev DirectorId := Id .director

namespace Json

/-- `Value::as_bool`. -/
def Value.asBool : Value → Option Bool
  | .bool b => some b
  | _ => none

/-- `serde_json::from_value` for a list of strings. -/
def Value.asStrings (value : Value) : Option (List String) :=
  value.asArray.bind fun items => items.mapM Value.asStr

end Json

namespace Control

open Omp2.Json

/-- `ToolCallInfo`. -/
structure ToolCallInfo where
  id : ToolCallId
  name : String
  arguments : Value

/-- The part of `AgentView` that the directors read. -/
structure AgentView where
  pendingTodos : List String

/-- The part of `TurnView` that the directors read. -/
structure TurnView where
  assistantText : Option String
  toolCalls : List ToolCallInfo
  executedTools : List ToolCallInfo

/-- `DirectorSpec`. -/
structure DirectorSpec where
  id : DirectorId
  kind : String
  state : Value
  elementId : Option ElementId

/-- `YieldDecision`. -/
inductive YieldDecision where
  | pass
  | continue (prompt : Option String)
  | yield
  | push (spec : DirectorSpec)
  | done
  | fail (error : StructuredError)

/-- The decision leaves it to the next outer director. -/
def YieldDecision.goesOn : YieldDecision → Bool
  | .pass | .done => true
  | _ => false

/-! ## Requiring a tool -/

/-- `ForceToolFailureBehavior`. -/
inductive ForceToolFailureBehavior where
  | fail
  | yieldWithWarning
  deriving DecidableEq

namespace ForceToolFailureBehavior

/-- The name of the variant. -/
def name : ForceToolFailureBehavior → String
  | .fail => "Fail"
  | .yieldWithWarning => "YieldWithWarning"

def ofName : String → Option ForceToolFailureBehavior
  | "Fail" => some .fail
  | "YieldWithWarning" => some .yieldWithWarning
  | _ => none

/-- The derived `Deserialize`: the name, or an object with the name as its only key. -/
def fromValue : Value → Option ForceToolFailureBehavior
  | .string name => ofName name
  | .object [(name, .null)] => ofName name
  | _ => none

end ForceToolFailureBehavior

/-- `ForceTool`. -/
structure ForceTool where
  id : DirectorId
  tool : String
  untilPredicateId : Option String
  reminder : String
  attemptCount : UInt32
  maxAttempts : UInt32
  failureBehavior : ForceToolFailureBehavior

namespace ForceTool

/-- `from_spec`. -/
def fromSpec (spec : DirectorSpec) : Except StructuredError ForceTool :=
  match ((spec.state.get "tool").bind Value.asStr).filter fun tool => !(Text.trim tool).isEmpty with
  | none =>
    .error (.new "director_spec" "ForceTool director requires a nonempty 'tool'" false)
  | some tool =>
    .ok {
      id := spec.id
      tool
      untilPredicateId := (spec.state.get "until_predicate_id").bind Value.asStr
      reminder := ((spec.state.get "reminder").bind Value.asStr).getD ""
      attemptCount := (((spec.state.get "attempt_count").bind Value.asU64).getD 0).toUInt32
      maxAttempts := (((spec.state.get "max_attempts").bind Value.asU64).getD 1).toUInt32
      failureBehavior :=
        ((spec.state.get "failure_behavior").bind ForceToolFailureBehavior.fromValue).getD .fail }

/-- The state of `to_spec`. -/
def state (d : ForceTool) : Value :=
  .object [
    ("attempt_count", .number (.posInt d.attemptCount.toUInt64)),
    ("failure_behavior", .string d.failureBehavior.name),
    ("max_attempts", .number (.posInt d.maxAttempts.toUInt64)),
    ("reminder", .string d.reminder),
    ("tool", .string d.tool),
    ("until_predicate_id", (d.untilPredicateId.map Value.string).getD .null)]

/-- The state gives the director back if its tool has a name. -/
theorem fromSpec_state {d : ForceTool} (h : (Text.trim d.tool).isEmpty = false) (kind : String)
    (element : Option ElementId) : fromSpec ⟨d.id, kind, d.state, element⟩ = .ok d := by
  have htool : ((d.state.get "tool").bind Value.asStr).filter
      (fun tool => !(Text.trim tool).isEmpty) = some d.tool := by
    show (some d.tool).filter _ = _
    rw [Option.filter_some, if_pos (by rw [h]; rfl)]
  have hpredicate : (d.state.get "until_predicate_id").bind Value.asStr = d.untilPredicateId := by
    show ((d.untilPredicateId.map Value.string).getD .null).asStr = _
    cases d.untilPredicateId <;> rfl
  have hreminder : (d.state.get "reminder").bind Value.asStr = some d.reminder := rfl
  have hattempts : (d.state.get "attempt_count").bind Value.asU64 =
      some d.attemptCount.toUInt64 := rfl
  have hbound : (d.state.get "max_attempts").bind Value.asU64 = some d.maxAttempts.toUInt64 := rfl
  have hbehaviour : (d.state.get "failure_behavior").bind ForceToolFailureBehavior.fromValue =
      some d.failureBehavior := by
    show ForceToolFailureBehavior.fromValue (.string d.failureBehavior.name) = _
    cases d.failureBehavior <;> rfl
  unfold fromSpec
  dsimp only
  rw [htool, hpredicate, hreminder, hattempts, hbound, hbehaviour]
  dsimp only [Option.getD_some]
  rw [UInt32.toUInt32_toUInt64, UInt32.toUInt32_toUInt64]

/-- `on_yield`. The count of attempts wraps, as it does without overflow checks. -/
def onYield (d : ForceTool) (turn : TurnView) : YieldDecision × ForceTool :=
  if turn.executedTools.any (fun call => call.name == d.tool) ||
      turn.toolCalls.any (fun call => call.name == d.tool) then (.done, d)
  else
    let d := { d with attemptCount := d.attemptCount + 1 }
    if d.attemptCount < d.maxAttempts then
      (.continue (some (s!"Tool '{d.tool}' was required but not called. " ++
        s!"Attempt {d.attemptCount}/{d.maxAttempts}. {d.reminder}")), d)
    else
      match d.failureBehavior with
      | .fail =>
        (.fail (.new "force_tool_exhausted" (s!"ForceTool exhausted: tool '{d.tool}' was not " ++
          s!"invoked after {d.maxAttempts} attempts") false), d)
      | .yieldWithWarning => (.yield, d)

end ForceTool

/-! ## Reminding of todos -/

/-- `TodoReminderDirector`. -/
structure TodoReminderDirector where
  id : DirectorId
  pendingTodos : List String
  reminded : Bool

namespace TodoReminderDirector

/-- `from_spec`. -/
def fromSpec (spec : DirectorSpec) : TodoReminderDirector where
  id := spec.id
  pendingTodos := ((spec.state.get "pending_todos").bind Value.asStrings).getD []
  reminded := ((spec.state.get "reminded").bind Value.asBool).getD false

/-- The state of `to_spec`. -/
def state (d : TodoReminderDirector) : Value :=
  .object [
    ("pending_todos", .array (d.pendingTodos.map Value.string)),
    ("reminded", .bool d.reminded)]

/-- The state gives the director back. -/
theorem fromSpec_state (d : TodoReminderDirector) (kind : String) (element : Option ElementId) :
    fromSpec ⟨d.id, kind, d.state, element⟩ = d := by
  have htodos : (d.pendingTodos.map Value.string).mapM Value.asStr = some d.pendingTodos := by
    induction d.pendingTodos with
    | nil => rfl
    | cons todo todos ih =>
      rw [List.map_cons, List.mapM_cons, ih]
      rfl
  have hpending : (d.state.get "pending_todos").bind Value.asStrings = some d.pendingTodos := htodos
  unfold fromSpec
  dsimp only
  rw [hpending]
  rfl

/-- `on_yield`. -/
def onYield (d : TodoReminderDirector) (agent : AgentView) :
    YieldDecision × TodoReminderDirector :=
  let d := if agent.pendingTodos.isEmpty then d else { d with pendingTodos := agent.pendingTodos }
  if d.pendingTodos.isEmpty then (.done, d)
  else if !d.reminded then
    (.continue (some ("Reminder: you have pending todos: " ++ "; ".intercalate d.pendingTodos)),
      { d with reminded := true })
  else (.pass, d)

end TodoReminderDirector

/-! ## Plan mode -/

section Words

variable (isAlphanumeric : Char → Bool)

/-- The loop of `contains_word` over the matches, which do not overlap. -/
def containsWordFrom (word : List Char) (skip : Nat) (left : Option Char) : List Char → Bool
  | [] => false
  | c :: cs =>
    if 0 < skip then containsWordFrom word (skip - 1) (some c) cs
    else if word.isPrefixOf (c :: cs) then
      (left.all (fun c => !isAlphanumeric c) &&
        ((c :: cs).drop word.length).head?.all fun c => !isAlphanumeric c) ||
      containsWordFrom word (word.length - 1) (some c) cs
    else containsWordFrom word 0 (some c) cs

/-- `contains_word`. -/
def containsWord (text word : String) : Bool :=
  !word.isEmpty && containsWordFrom isAlphanumeric word.toList 0 none text.toList

end Words

/-- `path_suffix_match`. -/
def pathSuffixMatch (candidate expected : String) : Bool :=
  candidate == expected ||
    (Text.stripEnd expected.toList candidate.toList).any fun front =>
      front.getLast?.any fun c => c == '/' || c == '\\'

/-- `PlanModeDirector`. -/
structure PlanModeDirector where
  id : DirectorId
  planPath : String
  planFileInspected : Bool
  proposedPlan : Bool
  userQuestionAsked : Bool

namespace PlanModeDirector

/-- `from_spec`. -/
def fromSpec (spec : DirectorSpec) : PlanModeDirector where
  id := spec.id
  planPath := ((spec.state.get "plan_path").bind Value.asStr).getD ""
  planFileInspected := ((spec.state.get "plan_file_inspected").bind Value.asBool).getD false
  proposedPlan := ((spec.state.get "proposed_plan").bind Value.asBool).getD false
  userQuestionAsked := ((spec.state.get "user_question_asked").bind Value.asBool).getD false

/-- The state of `to_spec`. -/
def state (d : PlanModeDirector) : Value :=
  .object [
    ("plan_file_inspected", .bool d.planFileInspected),
    ("plan_path", .string d.planPath),
    ("proposed_plan", .bool d.proposedPlan),
    ("user_question_asked", .bool d.userQuestionAsked)]

/-- `matches_plan`. -/
def matchesPlan (d : PlanModeDirector) (arguments : Value) : Bool :=
  ((arguments.get "path").bind Value.asStr).any fun path =>
    pathSuffixMatch path d.planPath || pathSuffixMatch d.planPath path

/-- A call reads or writes the plan file. -/
def inspects (d : PlanModeDirector) (call : ToolCallInfo) : Bool :=
  ["read", "write", "edit"].contains call.name.toLower && d.matchesPlan call.arguments

/-- `on_yield`. -/
def onYield [Text.Unicode] (isAlphanumeric : Char → Bool) (d : PlanModeDirector) (turn : TurnView) :
    YieldDecision × PlanModeDirector :=
  let asked := turn.assistantText.any fun text =>
    containsWord isAlphanumeric (Text.Unicode.toLowercase text) "question" ||
      text.toList.contains '?'
  let proposed := turn.assistantText.any fun text =>
    containsWord isAlphanumeric (Text.Unicode.toLowercase text) "plan"
  let d := { d with
    userQuestionAsked := asked || d.userQuestionAsked
    proposedPlan := proposed || d.proposedPlan
    planFileInspected := (turn.executedTools ++ turn.toolCalls).any d.inspects ||
      d.planFileInspected }
  if !d.planFileInspected then
    (.continue (some
      s!"Plan mode requires accessing the plan file '{d.planPath}' before yielding."), d)
  else if !d.proposedPlan && !d.userQuestionAsked then
    (.continue (some ("Plan mode requires either proposing a plan or asking the user a " ++
      "clarifying question before yielding.")), d)
  else (.pass, d)

end PlanModeDirector

/-! ## Checking a goal -/

/-- `GoalCompletionDirector`. -/
structure GoalCompletionDirector where
  id : DirectorId
  goalDescription : String
  completed : Bool

namespace GoalCompletionDirector

/-- `from_spec`. -/
def fromSpec (spec : DirectorSpec) : GoalCompletionDirector where
  id := spec.id
  goalDescription := ((spec.state.get "goal_description").bind Value.asStr).getD ""
  completed := ((spec.state.get "completed").bind Value.asBool).getD false

/-- The state of `to_spec`. -/
def state (d : GoalCompletionDirector) : Value :=
  .object [("completed", .bool d.completed), ("goal_description", .string d.goalDescription)]

/-- `on_yield`. -/
def onYield (d : GoalCompletionDirector) : YieldDecision × GoalCompletionDirector :=
  if d.completed then (.done, d) else (.pass, d)

end GoalCompletionDirector

/-! ## Any director -/

/-- A director: one of the four. -/
inductive Director where
  | forceTool (d : ForceTool)
  | todoReminder (d : TodoReminderDirector)
  | planMode (d : PlanModeDirector)
  | goalCompletion (d : GoalCompletionDirector)

namespace Director

/-- `id`. -/
def id : Director → DirectorId
  | .forceTool d => d.id
  | .todoReminder d => d.id
  | .planMode d => d.id
  | .goalCompletion d => d.id

/-- `kind`. -/
def kind : Director → String
  | .forceTool _ => "ForceTool"
  | .todoReminder _ => "TodoReminder"
  | .planMode _ => "PlanMode"
  | .goalCompletion _ => "GoalCompletion"

/-- The state that is kept in the journal. -/
def state : Director → Value
  | .forceTool d => d.state
  | .todoReminder d => d.state
  | .planMode d => d.state
  | .goalCompletion d => d.state

/-- `to_spec`. -/
def toSpec (d : Director) : DirectorSpec :=
  ⟨d.id, d.kind, d.state, none⟩

/-- `create_director_from_spec`. -/
def createFromSpec (spec : DirectorSpec) : Except StructuredError Director :=
  match spec.kind with
  | "ForceTool" => (ForceTool.fromSpec spec).map .forceTool
  | "TodoReminder" => .ok (.todoReminder (.fromSpec spec))
  | "PlanMode" => .ok (.planMode (.fromSpec spec))
  | "GoalCompletion" => .ok (.goalCompletion (.fromSpec spec))
  | other => .error (.new "unknown_director_kind" s!"unknown director kind: '{other}'" false)

/-- A director that is required to have a tool has one. -/
def Named : Director → Prop
  | .forceTool d => (Text.trim d.tool).isEmpty = false
  | _ => True

/-- The director is the same one, in a later state. -/
structure Continues (d d' : Director) : Prop where
  id : d'.id = d.id
  kind : d'.kind = d.kind
  named : d.Named → d'.Named

/-- What a specification creates has its identifier and its kind. -/
theorem createFromSpec_ok {spec : DirectorSpec} {d : Director} (h : createFromSpec spec = .ok d) :
    d.id = spec.id ∧ d.kind = spec.kind ∧ d.Named := by
  unfold createFromSpec at h
  split at h
  · next hkind =>
    unfold ForceTool.fromSpec at h
    split at h
    · cases h
    · next tool htool =>
      cases h
      obtain ⟨-, hnamed⟩ := Option.filter_eq_some_iff.mp htool
      exact ⟨rfl, hkind.symm, (Bool.not_eq_true' _).mp hnamed⟩
  · next hkind =>
    cases h
    exact ⟨rfl, hkind.symm, trivial⟩
  · next hkind =>
    cases h
    exact ⟨rfl, hkind.symm, trivial⟩
  · next hkind =>
    cases h
    exact ⟨rfl, hkind.symm, trivial⟩
  · cases h

/-- The kept state of a director gives it back. -/
theorem createFromSpec_state {d : Director} (h : d.Named) {spec : DirectorSpec}
    (hid : spec.id = d.id) (hkind : spec.kind = d.kind) (hstate : spec.state = d.state) :
    createFromSpec spec = .ok d := by
  obtain ⟨id, kind, value, element⟩ := spec
  dsimp only at hid hkind hstate
  subst hid hkind hstate
  cases d with
  | forceTool d => exact congrArg (Except.map Director.forceTool) (ForceTool.fromSpec_state h _ _)
  | todoReminder d =>
      exact congrArg (Except.ok ∘ Director.todoReminder)
        (TodoReminderDirector.fromSpec_state d _ _)
  | planMode d => rfl
  | goalCompletion d => rfl

/-- No state has a floating-point number. -/
theorem exact_state (d : Director) : d.state.exact = true := by
  cases d with
  | forceTool d =>
      obtain ⟨id, tool, predicate, reminder, attempts, bound, behaviour⟩ := d
      cases predicate <;> rfl
  | todoReminder d =>
      have htodos : exactItems (d.pendingTodos.map Value.string) = true := by
        induction d.pendingTodos with
        | nil => rfl
        | cons todo todos ih =>
          rw [List.map_cons, exactItems, ih]
          rfl
      show (exactItems (d.pendingTodos.map Value.string) && true) = true
      rw [htodos]
      rfl
  | planMode d => rfl
  | goalCompletion d => rfl

section Yield

variable [Text.Unicode] (isAlphanumeric : Char → Bool)

/-- `on_yield`. -/
def onYield (agent : AgentView) (turn : TurnView) : Director → YieldDecision × Director
  | .forceTool d => let (decision, d) := d.onYield turn; (decision, .forceTool d)
  | .todoReminder d => let (decision, d) := d.onYield agent; (decision, .todoReminder d)
  | .planMode d => let (decision, d) := d.onYield isAlphanumeric turn; (decision, .planMode d)
  | .goalCompletion d => let (decision, d) := d.onYield; (decision, .goalCompletion d)

/-- A director that is asked stays the same one. -/
theorem continues_onYield (agent : AgentView) (turn : TurnView) (d : Director) :
    d.Continues (d.onYield isAlphanumeric agent turn).2 := by
  cases d with
  | forceTool d =>
      have hsame : (d.onYield turn).2.id = d.id ∧ (d.onYield turn).2.tool = d.tool := by
        unfold ForceTool.onYield
        dsimp only
        split
        · exact ⟨rfl, rfl⟩
        · split
          · exact ⟨rfl, rfl⟩
          · split <;> exact ⟨rfl, rfl⟩
      exact ⟨hsame.1, rfl, fun hnamed => (congrArg (fun tool => (Text.trim tool).isEmpty)
        hsame.2).trans hnamed⟩
  | todoReminder d =>
      have hsame : (d.onYield agent).2.id = d.id := by
        unfold TodoReminderDirector.onYield
        dsimp only
        split <;> split <;> first | rfl | (split <;> rfl)
      exact ⟨hsame, rfl, fun _ => trivial⟩
  | planMode d =>
      have hsame : (d.onYield isAlphanumeric turn).2.id = d.id := by
        unfold PlanModeDirector.onYield
        dsimp only
        split
        · rfl
        · split <;> rfl
      exact ⟨hsame, rfl, fun _ => trivial⟩
  | goalCompletion d =>
      have hsame : d.onYield.2.id = d.id := by
        unfold GoalCompletionDirector.onYield
        split <;> rfl
      exact ⟨hsame, rfl, fun _ => trivial⟩

end Yield

end Director

/-! ## The stack -/

/-- `DirectorStack`, from the outermost director to the innermost. -/
abbrev DirectorStack := List Director

namespace DirectorStack

variable [Text.Unicode] (isAlphanumeric : Char → Bool)

/-- The loop of `handle_yield` from the director before `idx` outwards. -/
def yieldFrom (agent : AgentView) (turn : TurnView) :
    Nat → DirectorStack → YieldDecision × DirectorStack
  | 0, directors => (.yield, directors)
  | idx + 1, directors =>
    match directors[idx]? with
    | none => (.yield, directors)
    | some d =>
      match d.onYield isAlphanumeric agent turn with
      | (.pass, d) => yieldFrom agent turn idx (directors.set idx d)
      | (.done, _) => yieldFrom agent turn idx (directors.eraseIdx idx)
      | (other, d) => (other, directors.set idx d)

/-- `handle_yield`. -/
def handleYield (directors : DirectorStack) (agent : AgentView) (turn : TurnView) :
    YieldDecision × DirectorStack :=
  yieldFrom isAlphanumeric agent turn directors.length directors

end DirectorStack

end Control

end Omp2
