import Omp2.Control.Conversation
import Omp2.Control.Directors
import Omp2.Control.Draft

/-!
# Which calls the directors are told of

The loop of `run_turn` with what it hands to the directors. A call of the turn is counted as
executed when the body has an element with its call id and the status of a success. The calls of a
turn are recorded next to the list that the loop keeps, each with the journal before and after its
outcome has been journaled. A call is counted exactly when its own execution has succeeded, as long
as no failed call shares its call id with another element that has succeeded.
-/

namespace Omp2.Control

open Omp2.Json Omp2.State SessionSnapshot List

/-! ## The loop of a turn -/

/-- An attribute of an element is a text. -/
def readsText (e : ElementSnapshot) (name text : String) : Bool :=
  match e.attributes[name]? with
  | some (.string value) => value == text
  | _ => false

/-- The look-up of `run_turn`: the body has an element with the call id that has succeeded. -/
def hasSucceeded (s : SessionSnapshot) (callId : ToolCallId) : Bool :=
  s.getVisibleBody.any fun e =>
    readsText e "call_id" callId.value && readsText e "status" "succeeded"

/-- A call that a turn has executed, with the journal before and after its outcome is journaled. -/
structure RanCall where
  call : ToolCallInfo
  w : Invocation
  before : Journal
  after : Journal

/-- The own execution of the call has succeeded: it has no diagnostic of an error. -/
def RanCall.succeeded (r : RanCall) : Bool :=
  !((settledResult r.w.execution).diagnostics.any fun diagnostic => diagnostic.severity = .error)

/-- The turn counts the call as executed. -/
def RanCall.counted (r : RanCall) : Bool :=
  hasSucceeded r.after.snapshot r.call.id

/-- What the loop keeps: `executed_tools_in_turn`, and the record of all calls of the turn. -/
structure Turn where
  executed : List ToolCallInfo
  ran : List RanCall

/-- The turn before its first call. -/
def Turn.new : Turn := ⟨[], []⟩

/-- The view that the directors are given, with the calls that the turn has executed by then. -/
structure Candidate where
  view : TurnView
  ran : List RanCall

/-- What the host does about the decision of the directors. -/
def Decision.activities : Decision → List Activity
  | .done | .continue none => []
  | .continue (some (id, prompt, world)) => [.steering id prompt world]
  | .push (.ok director) => [.work director]
  | .push (.error e) | .fail e => [.refuse e]

/-- The loop goes on after the decision. -/
def Decision.goesOn : Decision → Bool
  | .done | .fail _ | .push (.error _) => false
  | .continue _ | .push (.ok _) => true

/-- What follows on the answer of the directors. -/
def Round.closing (round : Round) : List Activity :=
  checkpoint round.yielded ++ round.synced.map .work ++ round.decision.activities

section Loop

variable [SerdeJson] (owner : ActorId)

/-- The journal when the outcome of a call is about to be journaled. -/
def settling (j : Journal) (call : ToolCallSpec) (w : Invocation) : Journal :=
  workAll (invokeTool j owner call.name call.arguments call.id w).1 w.work

/-- The calls of an answer: each is executed, and counted when the body has its success. -/
def runCalls (round : Round) :
    Journal → Turn → List (ToolCallSpec × Nat) → Journal × Except Stop Turn
  | j, turn, [] => (j, .ok turn)
  | j, turn, (call, index) :: rest =>
    let w := round.invocation index
    match executeToolInner j owner call.name call.arguments (some call.id) w with
    | (j', .error stop) => (j', .error stop)
    | (j', .ok callId) =>
      let info : ToolCallInfo := ⟨call.id, call.name, call.arguments⟩
      let executed :=
        if hasSucceeded j'.snapshot callId then turn.executed ++ [info] else turn.executed
      runCalls round j' ⟨executed, turn.ran ++ [⟨info, w, settling owner j call w, j'⟩]⟩ rest

/-- The loop of `run_turn`, with what the directors are given at each yield. -/
def turnLoop (maxTurnSteps : Nat) (rounds : Nat → Round) :
    Nat → Journal → Turn → List Candidate × Journal × Except Stop Unit
  | 0, j, _ => ([], j, .error (.failed (stepLimitError maxTurnSteps)))
  | fuel + 1, j, turn =>
    let round := rounds fuel
    match execute owner j round.opening with
    | (j, .error stop) => ([], j, .error stop)
    | (j, .ok ()) =>
      match round.inference.result with
      | .error e => ([], j, .error (.failed e))
      | .ok answer =>
        if ¬ answer.toolCalls.isEmpty then
          match runCalls owner round j turn answer.toolCalls.zipIdx with
          | (j, .error stop) => ([], j, .error stop)
          | (j, .ok turn) => turnLoop maxTurnSteps rounds fuel j turn
        else
          let candidate : Candidate := ⟨⟨some answer.text, [], turn.executed⟩, turn.ran⟩
          match execute owner j round.closing with
          | (j, .error stop) => ([candidate], j, .error stop)
          | (j, .ok ()) =>
            if round.decision.goesOn then
              let (candidates, rest) := turnLoop maxTurnSteps rounds fuel j turn
              (candidate :: candidates, rest)
            else ([candidate], j, .ok ())

/-- What the directors are given in a call of the host. -/
def candidates (j : Journal) : HostCall → List Candidate
  | .executeTool .. => []
  | .runTurn maxTurnSteps hydrated id message world rounds =>
    match execute owner j (checkpoint hydrated ++ [.userMessage id message world]) with
    | (_, .error _) => []
    | (j, .ok ()) => (turnLoop owner maxTurnSteps rounds maxTurnSteps j .new).1

end Loop

/-! ## The loop journals what the calls of the host journal -/

section Journaled

variable [SerdeJson] {j : Journal} {owner : ActorId}

theorem execute_append (first second : List Activity) :
    execute owner j (first ++ second) =
      match execute owner j first with
      | (j, .error stop) => (j, .error stop)
      | (j, .ok ()) => execute owner j second := by
  induction first generalizing j with
  | nil => rfl
  | cons activity rest ih =>
      rw [cons_append]
      cases hperform : perform owner j activity with
      | mk j' result =>
        cases result with
        | error stop => simp only [execute, hperform]
        | ok done =>
          simp only [execute, hperform]
          exact ih

/-- The calls of an answer are executed as the host executes them. -/
theorem runCalls_execute (round : Round) (turn : Turn) (calls : List (ToolCallSpec × Nat)) :
    ((runCalls owner round j turn calls).1, (runCalls owner round j turn calls).2.map fun _ => ()) =
      execute owner j (calls.map fun call =>
        .tool call.1.name call.1.arguments (some call.1.id) (round.invocation call.2)) := by
  induction calls generalizing j turn with
  | nil => rfl
  | cons call rest ih =>
      obtain ⟨call, index⟩ := call
      rw [map_cons]
      unfold runCalls execute perform
      dsimp only
      cases executeToolInner j owner call.name call.arguments (some call.id)
          (round.invocation index) with
      | mk j' result =>
        cases result with
        | error stop => rfl
        | ok callId => exact ih _

omit [SerdeJson] in
/-- What a round does after its answer, by whether the loop goes on. -/
theorem closing_append (round : Round) (rest : List Activity) :
    (checkpoint round.yielded ++ round.synced.map .work ++
      match round.decision with
      | .done => []
      | .fail e => [.refuse e]
      | .continue none => rest
      | .continue (some (id, prompt, world)) => .steering id prompt world :: rest
      | .push (.error e) => [.refuse e]
      | .push (.ok director) => .work director :: rest) =
      if round.decision.goesOn then round.closing ++ rest else round.closing := by
  unfold Round.closing
  rcases round.decision with _ | (_ | ⟨id, prompt, world⟩) | (e | director) | e <;>
    simp [Decision.goesOn, Decision.activities]

/-- The loop journals the rounds of a turn and ends as they end. -/
theorem turnLoop_execute (maxTurnSteps : Nat) (rounds : Nat → Round) (fuel : Nat) (turn : Turn) :
    (turnLoop owner maxTurnSteps rounds fuel j turn).2 =
      execute owner j (roundActivities maxTurnSteps rounds fuel) := by
  induction fuel generalizing j turn with
  | zero => rfl
  | succ fuel ih =>
      unfold turnLoop roundActivities
      dsimp only
      rw [execute_append]
      rcases execute owner j (rounds fuel).opening with ⟨j₁, stop | ⟨⟩⟩
      · rfl
      · dsimp only
        cases (rounds fuel).inference.result with
        | error e => rfl
        | ok answer =>
          dsimp only
          by_cases hcalls : answer.toolCalls.isEmpty = true
          · rw [if_neg (not_not.mpr hcalls), if_neg (not_not.mpr hcalls)]
            refine Eq.trans ?_ (congrArg (execute owner j₁) (closing_append (rounds fuel)
              (roundActivities maxTurnSteps rounds fuel))).symm
            by_cases hgoes : (rounds fuel).decision.goesOn = true
            · rw [if_pos hgoes, execute_append]
              rcases execute owner j₁ (rounds fuel).closing with ⟨j₂, stop | ⟨⟩⟩
              · rfl
              · dsimp only
                rw [if_pos hgoes]
                exact ih turn
            · rw [if_neg hgoes]
              rcases execute owner j₁ (rounds fuel).closing with ⟨j₂, stop | ⟨⟩⟩
              · rfl
              · dsimp only
                rw [if_neg hgoes]
          · rw [if_pos hcalls, if_pos hcalls, execute_append,
              show (rounds fuel).calls answer = answer.toolCalls.zipIdx.map _ from rfl,
              ← runCalls_execute (rounds fuel) turn]
            rcases runCalls owner (rounds fuel) j₁ turn answer.toolCalls.zipIdx with
              ⟨j₂, stop | turn'⟩
            · rfl
            · exact ih turn'

end Journaled

/-! ## Soundness along a call -/

section Soundness

variable [SerdeJson] {j : Journal} {owner : ActorId}

theorem workAll_sound {works : List Work} (hsound : Sound j) : Sound (workAll j works) := by
  induction works generalizing j with
  | nil => exact hsound
  | cons work works ih =>
      exact ih (commitPatch_cases hsound
        (Prod.mk.eta (p := commitPatch j work.patch work.world)).symm).1

theorem append_sound {baseOffset : UInt64} {reason : String} {e : ElementSnapshot}
    {world : Option Journal.Outside} (hsound : Sound j) :
    Sound (appendElement j owner baseOffset reason e [] world).1 :=
  (appendElement_cases hsound (fun _ hop => absurd hop not_mem_nil)
    (Prod.mk.eta (p := appendElement j owner baseOffset reason e [] world)).symm).1

theorem settleTool_sound (name : String) (w : Invocation) (hsound : Sound j) :
    Sound (settleTool j owner name w).1 :=
  (commitPatch_cases hsound (Prod.mk.eta (p := settleTool j owner name w)).symm).1

/-- A tool call keeps the journal sound. -/
theorem executeToolInner_sound {name : String} {input : Value} {callId : Option ToolCallId}
    {w : Invocation} (hsound : Sound j) :
    Sound (executeToolInner j owner name input callId w).1 := by
  unfold executeToolInner
  dsimp only
  cases hinvoke : invokeTool j owner name input (callId.getD w.mintedCall) w with
  | mk j₁ invoked =>
      obtain ⟨hsound₁, _⟩ := invoke_focus hsound hinvoke
      cases invoked with
      | error stop => exact hsound₁
      | ok done =>
        have hsettled : Sound (settleTool (workAll j₁ w.work) owner name w).1 :=
          settleTool_sound name w (workAll_sound hsound₁)
        dsimp only
        cases hsettle : settleTool (workAll j₁ w.work) owner name w with
        | mk j₂ settled =>
          rw [hsettle] at hsettled
          cases settled <;> exact hsettled

/-- A part of a call keeps the journal sound. -/
theorem perform_sound {activity : Activity} (hsound : Sound j) :
    Sound (perform owner j activity).1 := by
  unfold perform
  cases activity with
  | userMessage id message world => exact append_sound hsound
  | steering id prompt world => exact append_sound hsound
  | plan config draws =>
      cases config with
      | none => exact hsound
      | some config =>
        cases hplan : planStages j owner config draws with
        | mk j' result =>
          have honward := planStages_onward hsound hplan
          unfold Control.plan
          dsimp only
          rw [hplan]
          cases result <;> exact honward.sound
  | infer w =>
      dsimp only
      cases hinfer : inferAssistantTurn j owner w with
      | mk j' result =>
        have hsound' := (infer_focus hsound hinfer).1
        cases result <;> exact hsound'
  | tool name input callId w =>
      have hsound' : Sound (executeToolInner j owner name input callId w).1 :=
        executeToolInner_sound hsound
      dsimp only
      cases htool : executeToolInner j owner name input callId w with
      | mk j' result =>
        rw [htool] at hsound'
        cases result <;> exact hsound'
  | work work =>
      exact (commitPatch_cases hsound
        (Prod.mk.eta (p := commitPatch j work.patch work.world)).symm).1
  | refuse e => exact hsound

/-- The parts of a call keep the journal sound. -/
theorem execute_sound {activities : List Activity} (hsound : Sound j) :
    Sound (execute owner j activities).1 := by
  induction activities generalizing j with
  | nil => exact hsound
  | cons activity rest ih =>
      have hperform : Sound (perform owner j activity).1 := perform_sound hsound
      unfold execute
      cases hresult : perform owner j activity with
      | mk j' result =>
        rw [hresult] at hperform
        cases result with
        | error stop => exact hperform
        | ok done => exact ih hperform

end Soundness

/-! ## What is known of a recorded call -/

section Record

variable [SerdeJson] {j : Journal} {owner : ActorId}

/-- The record of a call: its outcome was journaled between the two journals. -/
structure RanCall.Genuine (owner : ActorId) (r : RanCall) : Prop where
  sound : Sound r.before
  place : r.w.element ≠ staticId "body"
  settled : ∃ name, settleTool r.before owner name r.w = (r.after, .ok ())

/-- A call that is executed has a genuine record. -/
theorem executeToolInner_genuine {call : ToolCallSpec} {w : Invocation} {j' : Journal}
    {callId : ToolCallId} (hsound : Sound j)
    (h : executeToolInner j owner call.name call.arguments (some call.id) w = (j', .ok callId)) :
    callId = call.id ∧
      (⟨⟨call.id, call.name, call.arguments⟩, w, settling owner j call w, j'⟩ :
        RanCall).Genuine owner := by
  unfold executeToolInner at h
  dsimp only [Option.getD_some] at h
  cases hinvoke : invokeTool j owner call.name call.arguments call.id w with
  | mk j₁ invoked =>
      rw [hinvoke] at h
      obtain ⟨hsound₁, hcases⟩ := invoke_focus hsound hinvoke
      rcases hcases with ⟨rfl, hfocus⟩ | ⟨⟨stop, rfl⟩, _⟩
      · dsimp only at h
        cases hsettle : settleTool (workAll j₁ w.work) owner call.name w with
        | mk j₂ settled =>
          rw [hsettle] at h
          cases settled with
          | error stop => cases h
          | ok done =>
            cases h
            have hbefore : settling owner j call w = workAll j₁ w.work := by
              unfold settling
              rw [hinvoke]
            refine ⟨rfl, ?_, body_ne hfocus.wellFormed hfocus.present, call.name, ?_⟩
            · rw [hbefore]
              exact workAll_sound hsound₁
            · rw [hbefore]
              exact hsettle
      · cases h

end Record

/-! ## The body when a call is settled -/

section Settled

variable {s s' : SessionSnapshot} {x : ElementId}

/-- Operations on one element, or under it, leave the rest of the body as it is. -/
theorem applyOps_others {done : List Undo} {ops : List PatchOp} (hwf : WellFormed s)
    (h : s.applyOps done ops = (s', .ok ()))
    (hops : ∀ op ∈ ops, op.into ≠ some (staticId "body") ∧
      (op.target = none ∨ op.target = some x)) :
    (∀ e ∈ s'.getVisibleBody, ∃ e₀ ∈ s.getVisibleBody, e₀.id = e.id ∧ (e.id ≠ x → e₀ = e)) ∧
      ∀ e ∈ s.getVisibleBody, e.id ≠ x → e ∈ s'.getVisibleBody := by
  induction ops generalizing s done with
  | nil =>
      cases h
      exact ⟨fun e he => ⟨e, he, rfl, fun _ => rfl⟩, fun e he _ => he⟩
  | cons op ops ih =>
      obtain ⟨⟨hinto, htarget⟩, hrest⟩ := forall_mem_cons.mp hops
      have hother : ∀ e : ElementSnapshot, e.id ≠ x → op.target ≠ some e.id := by
        intro e hne heq
        rcases htarget with hnone | hsome
        · rw [hnone] at heq
          cases heq
        · exact hne (Option.some.inj (heq.symm.trans hsome))
      unfold applyOps at h
      split at h
      · next s₁ u happly =>
        obtain ⟨hback, hkept⟩ := ih (hwf.applyOne happly) h hrest
        refine ⟨fun e he => ?_, fun e he hne => hkept e
          (applyOne_children_kept hwf happly (.inl (by decide)) (hother e hne) he) hne⟩
        obtain ⟨e₁, he₁, hid₁, hsame₁⟩ := hback e he
        obtain ⟨e₀, he₀, hid₀, hsame₀⟩ := applyOne_mem_children hwf happly hinto he₁
        refine ⟨e₀, he₀, hid₀.trans hid₁, fun hne => ?_⟩
        obtain rfl := hsame₁ hne
        exact hsame₀ (hother e₁ hne)
      · cases h

/-- The status with which a call is settled. -/
def toolStatus (result : ToolExecutionResult) : String :=
  if result.diagnostics.any fun diagnostic => diagnostic.severity = .error then "failed"
  else "succeeded"

/-- Settling writes the status of the element and leaves its other attributes. -/
theorem settleToolOps_attributes (result : ToolExecutionResult) (minted : Nat → ElementId)
    {e : ElementSnapshot} (hid : e.id = x) :
    ((settleToolOps x result minted).foldl PatchOp.rewrite e).attributes =
      e.attributes.insert "status" (.string (toolStatus result)) := by
  unfold settleToolOps
  dsimp only
  rw [foldl_cons, PatchOp.foldl_rewrite_attributes]
  · unfold PatchOp.rewrite
    dsimp only
    rw [if_pos hid.symm]
    rfl
  · intro op hop name
    obtain ⟨child, _, rfl⟩ := mem_map.mp hop
    exact id

/-- Settling a call rewrites its own element only. -/
theorem mem_settled_iff {result : ToolExecutionResult} {minted : Nat → ElementId}
    (hwf : WellFormed s) (hx : x ≠ staticId "body")
    (h : s.applyOps [] (settleToolOps x result minted) = (s', .ok ())) {e : ElementSnapshot} :
    e ∈ s'.getVisibleBody ↔ (e ∈ s.getVisibleBody ∧ e.id ≠ x) ∨
      ∃ e₀ ∈ s.getVisibleBody, e₀.id = x ∧
        (settleToolOps x result minted).foldl PatchOp.rewrite e₀ = e := by
  have hshape : ∀ op ∈ settleToolOps x result minted,
      (op.into ≠ some (staticId "body") ∧ (op.target = none ∨ op.target = some x)) ∧
        ∀ key, ¬ op.Displaces key := by
    intro op hop
    unfold settleToolOps at hop
    rcases mem_cons.mp hop with rfl | hop
    · exact ⟨⟨nofun, .inr rfl⟩, fun _ => id⟩
    · obtain ⟨child, _, rfl⟩ := mem_map.mp hop
      exact ⟨⟨fun heq => hx (Option.some.inj heq), .inl rfl⟩, fun _ => id⟩
  obtain ⟨hback, hkept⟩ := applyOps_others hwf h fun op hop => (hshape op hop).1
  have hrewritten : ∀ e₀ ∈ s.getVisibleBody,
      (settleToolOps x result minted).foldl PatchOp.rewrite e₀ ∈ s'.getVisibleBody :=
    fun e₀ he₀ => applyOps_rewrite hwf h (by decide) (fun op hop => (hshape op hop).2 _) he₀
  constructor
  · intro he
    obtain ⟨e₀, he₀, hid, hsame⟩ := hback e he
    by_cases hne : e.id = x
    · refine .inr ⟨e₀, he₀, hid.trans hne, ?_⟩
      exact (eq_of_mem_children (hwf.applyOps h) (hrewritten e₀ he₀) he
        ((PatchOp.foldl_rewrite_id _ e₀).trans hid)).1
    · exact .inl ⟨hsame hne ▸ he₀, hne⟩
  · rintro (⟨he, hne⟩ | ⟨e₀, he₀, _, rfl⟩)
    · exact hkept e he hne
    · exact hrewritten e₀ he₀

end Settled

/-! ## What is counted -/

/-- The element has the call id and the status of a success. -/
def SucceededAs (e : ElementSnapshot) (callId : ToolCallId) : Prop :=
  readsText e "call_id" callId.value = true ∧ readsText e "status" "succeeded" = true

theorem readsText_iff {e : ElementSnapshot} {name text : String} :
    readsText e name text = true ↔ e.attributes[name]? = some (.string text) := by
  unfold readsText
  split
  · next value hvalue => rw [hvalue, beq_iff_eq, Option.some_inj, TypedValue.string.injEq]
  · next hother =>
    refine iff_of_false Bool.false_ne_true fun hread => hother _ hread

theorem hasSucceeded_iff {s : SessionSnapshot} {callId : ToolCallId} :
    hasSucceeded s callId = true ↔ ∃ e ∈ s.getVisibleBody, SucceededAs e callId := by
  unfold hasSucceeded SucceededAs
  rw [any_eq_true]
  simp only [Bool.and_eq_true]

/-- The state in which the outcome of a call is journaled fits the outcome. -/
structure RanCall.Clear (r : RanCall) : Prop where
  failed : r.succeeded = false → ∀ e ∈ r.before.snapshot.getVisibleBody, e.id ≠ r.w.element →
    ¬ SucceededAs e r.call.id
  succeeded : r.succeeded = true → ∃ e ∈ r.before.snapshot.getVisibleBody,
    (e.id = r.w.element ∧ readsText e "call_id" r.call.id.value = true) ∨
      (e.id ≠ r.w.element ∧ SucceededAs e r.call.id)

section Counting

variable [SerdeJson] {owner : ActorId} {r : RanCall}

/-- A call is counted for another success under its id, or for its own. -/
theorem RanCall.Genuine.counted_iff (h : r.Genuine owner) : r.counted = true ↔
    (∃ e ∈ r.before.snapshot.getVisibleBody, e.id ≠ r.w.element ∧ SucceededAs e r.call.id) ∨
      r.succeeded = true ∧ ∃ e ∈ r.before.snapshot.getVisibleBody, e.id = r.w.element ∧
        readsText e "call_id" r.call.id.value = true := by
  obtain ⟨name, hsettle⟩ := h.settled
  obtain ⟨_, ⟨_, s, hops, hchildren⟩ | ⟨⟨_, hstop⟩, _⟩⟩ := commitPatch_cases h.sound hsettle
  · have hmem := fun e : ElementSnapshot =>
      mem_settled_iff h.sound.wellFormed h.place hops (e := e)
    have hbody : r.after.snapshot.getVisibleBody = s.getVisibleBody := hchildren _
    have hown : ∀ e₀ ∈ r.before.snapshot.getVisibleBody, e₀.id = r.w.element →
        (SucceededAs ((settleToolOps r.w.element (settledResult r.w.execution) r.w.minted).foldl
          PatchOp.rewrite e₀) r.call.id ↔
          r.succeeded = true ∧ readsText e₀ "call_id" r.call.id.value = true) := by
      intro e₀ _ hid
      unfold SucceededAs
      rw [readsText_iff, readsText_iff, settleToolOps_attributes _ _ hid,
        Std.ExtTreeMap.getElem?_insert_self, Std.ExtTreeMap.getElem?_insert, if_neg (by decide),
        readsText_iff, and_comm]
      refine and_congr_left fun _ => ?_
      unfold toolStatus RanCall.succeeded
      cases (settledResult r.w.execution).diagnostics.any fun diagnostic =>
        diagnostic.severity = .error <;> simp
    unfold RanCall.counted
    rw [hasSucceeded_iff, hbody]
    constructor
    · rintro ⟨e, he, hsucceeded⟩
      rcases (hmem e).mp he with ⟨he, hne⟩ | ⟨e₀, he₀, hid, rfl⟩
      · exact .inl ⟨e, he, hne, hsucceeded⟩
      · obtain ⟨hsucceeded, hcall⟩ := (hown e₀ he₀ hid).mp hsucceeded
        exact .inr ⟨hsucceeded, e₀, he₀, hid, hcall⟩
    · rintro (⟨e, he, hne, hsucceeded⟩ | ⟨hsucceeded, e₀, he₀, hid, hcall⟩)
      · exact ⟨e, (hmem e).mpr (.inl ⟨he, hne⟩), hsucceeded⟩
      · exact ⟨_, (hmem _).mpr (.inr ⟨e₀, he₀, hid, rfl⟩),
          (hown e₀ he₀ hid).mpr ⟨hsucceeded, hcall⟩⟩
  · cases hstop

/-- A call is counted for its own outcome exactly when the state fits. -/
theorem RanCall.Genuine.counted_eq_iff (h : r.Genuine owner) :
    r.counted = r.succeeded ↔ r.Clear := by
  have hcounted := h.counted_iff
  cases hsucceeded : r.succeeded with
  | false =>
      rw [hsucceeded] at hcounted
      constructor
      · intro hfalse
        refine ⟨fun _ e he hne hother => ?_, fun htrue => ?_⟩
        · rw [hcounted.mpr (.inl ⟨e, he, hne, hother⟩)] at hfalse
          cases hfalse
        · rw [hsucceeded] at htrue
          cases htrue
      · intro hclear
        refine Bool.eq_false_iff.mpr fun htrue => ?_
        rcases hcounted.mp htrue with ⟨e, he, hne, hother⟩ | ⟨hfalse, _⟩
        · exact hclear.failed hsucceeded e he hne hother
        · cases hfalse
  | true =>
      rw [hsucceeded] at hcounted
      rw [hcounted]
      constructor
      · intro hcases
        refine ⟨fun hfalse => ?_, fun _ => ?_⟩
        · rw [hsucceeded] at hfalse
          cases hfalse
        · rcases hcases with ⟨e, he, hne, hother⟩ | ⟨_, e, he, hid, hcall⟩
          · exact ⟨e, he, .inr ⟨hne, hother⟩⟩
          · exact ⟨e, he, .inl ⟨hid, hcall⟩⟩
      · intro hclear
        obtain ⟨e, he, ⟨hid, hcall⟩ | ⟨hne, hother⟩⟩ := hclear.succeeded hsucceeded
        · exact .inr ⟨rfl, e, he, hid, hcall⟩
        · exact .inl ⟨e, he, hne, hother⟩

end Counting

/-! ## Turns -/

/-- The directors are told of exactly the calls whose own execution has succeeded: these are in the
list, in their order, and each is there for its own outcome. -/
structure Candidate.Attributed (c : Candidate) : Prop where
  executed : c.view.executedTools = (c.ran.filter RanCall.succeeded).map RanCall.call
  counted : ∀ r ∈ c.ran, r.counted = r.succeeded

section Turns

variable [SerdeJson] {j : Journal} {owner : ActorId}

/-- The list of a turn has the calls that were counted, of calls that are genuine. -/
structure OnRecord (owner : ActorId) (executed : List ToolCallInfo) (ran : List RanCall) :
    Prop where
  executed : executed = (ran.filter RanCall.counted).map RanCall.call
  genuine : ∀ r ∈ ran, r.Genuine owner

/-- One more call. -/
theorem OnRecord.push {turn : Turn} {r : RanCall} (h : OnRecord owner turn.executed turn.ran)
    (hgenuine : r.Genuine owner) :
    OnRecord owner (if r.counted then turn.executed ++ [r.call] else turn.executed)
      (turn.ran ++ [r]) := by
  constructor
  · rw [filter_append, map_append, ← h.executed]
    cases hcounted : r.counted <;> simp [hcounted]
  · intro r' hr'
    rcases mem_append.mp hr' with hold | hnew
    · exact h.genuine r' hold
    · obtain rfl := mem_singleton.mp hnew
      exact hgenuine

/-- The calls of an answer keep the record. -/
theorem runCalls_recorded {round : Round} {turn turn' : Turn} {j' : Journal}
    {calls : List (ToolCallSpec × Nat)} (hsound : Sound j)
    (h : OnRecord owner turn.executed turn.ran)
    (hrun : runCalls owner round j turn calls = (j', .ok turn')) :
    Sound j' ∧ OnRecord owner turn'.executed turn'.ran := by
  induction calls generalizing j turn with
  | nil =>
      cases hrun
      exact ⟨hsound, h⟩
  | cons call rest ih =>
      obtain ⟨call, index⟩ := call
      unfold runCalls at hrun
      dsimp only at hrun
      split at hrun
      · cases hrun
      · next j₁ callId hcall =>
        obtain ⟨rfl, hgenuine⟩ := executeToolInner_genuine hsound hcall
        have hsound₁ : Sound (executeToolInner j owner call.name call.arguments (some call.id)
            (round.invocation index)).1 := executeToolInner_sound hsound
        rw [hcall] at hsound₁
        exact ih hsound₁ (h.push hgenuine) hrun

/-- What the directors are given in the loop is on record. -/
theorem turnLoop_recorded {maxTurnSteps : Nat} {rounds : Nat → Round} {fuel : Nat} {turn : Turn}
    (hsound : Sound j) (h : OnRecord owner turn.executed turn.ran) :
    ∀ c ∈ (turnLoop owner maxTurnSteps rounds fuel j turn).1,
      c.view.toolCalls = [] ∧ OnRecord owner c.view.executedTools c.ran := by
  induction fuel generalizing j turn with
  | zero => exact fun c hc => absurd hc not_mem_nil
  | succ fuel ih =>
      unfold turnLoop
      dsimp only
      have hopening : Sound (execute owner j (rounds fuel).opening).1 := execute_sound hsound
      rcases hopened : execute owner j (rounds fuel).opening with ⟨j₁, stop | ⟨⟩⟩
      · exact fun c hc => absurd hc not_mem_nil
      · rw [hopened] at hopening
        dsimp only
        cases (rounds fuel).inference.result with
        | error e => exact fun c hc => absurd hc not_mem_nil
        | ok answer =>
          dsimp only
          split
          · rcases hcalls : runCalls owner (rounds fuel) j₁ turn answer.toolCalls.zipIdx with
              ⟨j₂, stop | turn'⟩
            · exact fun c hc => absurd hc not_mem_nil
            · obtain ⟨hsound₂, h₂⟩ := runCalls_recorded hopening h hcalls
              exact ih hsound₂ h₂
          · have hclosing : Sound (execute owner j₁ (rounds fuel).closing).1 :=
              execute_sound hopening
            rcases hclosed : execute owner j₁ (rounds fuel).closing with ⟨j₂, stop | ⟨⟩⟩
            · intro c hc
              obtain rfl := mem_singleton.mp hc
              exact ⟨rfl, h⟩
            · rw [hclosed] at hclosing
              dsimp only
              split
              · intro c hc
                rcases mem_cons.mp hc with rfl | hc
                · exact ⟨rfl, h⟩
                · exact ih hclosing h c hc
              · intro c hc
                obtain rfl := mem_singleton.mp hc
                exact ⟨rfl, h⟩

/-- What the directors are given in a call of the host is on record. -/
theorem candidates_recorded {call : HostCall} {c : Candidate} (hsound : Sound j)
    (hc : c ∈ candidates owner j call) :
    c.view.toolCalls = [] ∧ OnRecord owner c.view.executedTools c.ran := by
  cases call with
  | executeTool name input w => exact absurd hc not_mem_nil
  | runTurn maxTurnSteps hydrated id message world rounds =>
      unfold candidates at hc
      dsimp only at hc
      have hopening : Sound (execute owner j
          (checkpoint hydrated ++ [.userMessage id message world])).1 := execute_sound hsound
      rcases hopened : execute owner j (checkpoint hydrated ++ [.userMessage id message world])
        with ⟨j₁, stop | ⟨⟩⟩
      · rw [hopened] at hc
        exact absurd hc not_mem_nil
      · rw [hopened] at hc hopening
        exact turnLoop_recorded hopening ⟨rfl, fun r hr => absurd hr not_mem_nil⟩ c hc

/-- The list has the calls that have succeeded when each was counted for its own outcome. -/
theorem OnRecord.attributed_iff {c : Candidate} (h : OnRecord owner c.view.executedTools c.ran) :
    c.Attributed ↔ ∀ r ∈ c.ran, r.Clear := by
  constructor
  · exact fun hattributed r hr => (h.genuine r hr).counted_eq_iff.mp (hattributed.counted r hr)
  · intro hclear
    have hcounted : ∀ r ∈ c.ran, r.counted = r.succeeded :=
      fun r hr => (h.genuine r hr).counted_eq_iff.mpr (hclear r hr)
    refine ⟨?_, hcounted⟩
    rw [h.executed, filter_congr hcounted]

omit [SerdeJson] in
/-- A required tool is found among the calls that have succeeded. -/
theorem Candidate.Attributed.onYield_done_iff {c : Candidate} (h : c.Attributed)
    (hcalls : c.view.toolCalls = []) (d : ForceTool) :
    (d.onYield c.view).1 = .done ↔ ∃ r ∈ c.ran, r.succeeded = true ∧ r.call.name = d.tool := by
  have hfound : (c.view.executedTools.any (fun call => call.name == d.tool) ||
      c.view.toolCalls.any (fun call => call.name == d.tool)) = true ↔
      ∃ r ∈ c.ran, r.succeeded = true ∧ r.call.name = d.tool := by
    rw [hcalls, any_nil, Bool.or_false, h.executed, any_map, any_filter,
      any_eq_true]
    simp
  rw [← hfound]
  unfold ForceTool.onYield
  split
  · next hinvoked => exact iff_of_true rfl hinvoked
  · next hinvoked =>
    refine iff_of_false ?_ hinvoked
    dsimp only
    split
    · exact nofun
    · split <;> exact nofun

/-- In every call of the host on every journal, the directors are told of exactly the calls whose
own execution has succeeded if and only if every call of the turn was settled in a state that fits
its outcome. Then a director that requires a tool is satisfied by a success of this turn only. -/
theorem candidates_attributed_iff (hsound : Sound j) (call : HostCall) {c : Candidate}
    (hc : c ∈ candidates owner j call) :
    (c.Attributed ↔ ∀ r ∈ c.ran, r.Clear) ∧
      (c.Attributed → ∀ d : ForceTool, (d.onYield c.view).1 = .done ↔
        ∃ r ∈ c.ran, r.succeeded = true ∧ r.call.name = d.tool) := by
  obtain ⟨hcalls, hrecorded⟩ := candidates_recorded hsound hc
  exact ⟨hrecorded.attributed_iff, fun h d => h.onYield_done_iff hcalls d⟩

end Turns

end Omp2.Control

/-! ## A call id that is used twice in a turn -/

namespace Omp2.Control

open Omp2.Json Omp2.Json.Compact Omp2.State Journal

/-- A file that obeys. -/
def obedient : Option Outside := some ⟨.ok 7, .done⟩

/-- What is decided about an inference that streams nothing. -/
def plainInference (element : ElementId) (calls : List ToolCallSpec) : Inference where
  element
  started := obedient
  flushes := []
  result := .ok ⟨"", none, calls, .object [], "stop"⟩
  last := ⟨"", "", element, none⟩
  diag := element
  settled := obedient

/-- What is decided about a call of a tool. -/
def plainInvocation (element input result diag : ElementId)
    (execution : Except StructuredError ToolExecutionResult) : Invocation where
  mintedCall := ⟨"call_0", Eq.refl true⟩
  element
  input
  invoked := obedient
  work := []
  execution
  minted := fun index => if index = 0 then result else diag
  settled := obedient

/-- The first call of the answer reads a file and succeeds. -/
def readCall : ToolCallSpec := ⟨⟨"call_1", Eq.refl true⟩, "Read", .object []⟩

/-- The second call of the answer writes a file and fails. -/
def writeCall (id : ToolCallId) : ToolCallSpec := ⟨id, "Write", .object []⟩

/-- What is decided about the calls. -/
def readThenWrite : Nat → Invocation
  | 0 => plainInvocation ⟨"read", Eq.refl true⟩ ⟨"read-input", Eq.refl true⟩ ⟨"read-result", Eq.refl true⟩
      ⟨"read-diag", Eq.refl true⟩ (.ok ⟨⟨"text", none, false, .text⟩, [], none, []⟩)
  | _ => plainInvocation ⟨"write", Eq.refl true⟩ ⟨"write-input", Eq.refl true⟩
      ⟨"write-result", Eq.refl true⟩ ⟨"write-diag", Eq.refl true⟩
      (.error (.new "tool_execution_failed" "no such directory" false))

/-- What is decided about a round with an answer. -/
def plainRound (inference : Inference) : Round where
  polled := []
  cancelled := none
  config := none
  draws := obedientDraws ⟨"minted", Eq.refl true⟩
  prepared := .ok ()
  inference
  invocation := readThenWrite
  yielded := .ok ()
  synced := []
  decision := .done

/-- The rounds: an answer with both calls, and an answer without any. -/
def readWriteRounds (id : ToolCallId) : Nat → Round
  | 0 => plainRound (plainInference ⟨"second", Eq.refl true⟩ [])
  | _ => plainRound (plainInference ⟨"first", Eq.refl true⟩ [readCall, writeCall id])

/-- A turn that reads and writes. -/
def readWriteTurn (id : ToolCallId) : HostCall :=
  .runTurn 2 (.ok ()) ⟨"prompt", Eq.refl true⟩ "write it" obedient (readWriteRounds id)

/-- The document of an outcome that has not stopped. -/
def Draft.Outcome.done {α : Type} : Draft.Outcome α → Option SessionSnapshot
  | some (s, .ok _) => some s
  | _ => none

/-- What the body says about each call id after its call, where the whole turn is known. -/
def readWriteLookups (id : ToolCallId) : Option (Bool × Bool) := do
  let s ← (Draft.execute owner (.empty exampleSession)
    [.userMessage ⟨"prompt", Eq.refl true⟩ "write it" obedient]).done
  let s ← (Draft.execute owner s (readWriteRounds id 1).opening).done
  let read ← (Draft.executeToolInner s owner "Read" (.object []) (some readCall.id)
    (readThenWrite 0)).done
  let write ← (Draft.executeToolInner read owner "Write" (.object []) (some id)
    (readThenWrite 1)).done
  let _ ← (Draft.execute owner write (readWriteRounds id 0).opening).done
  pure (hasSucceeded read readCall.id, hasSucceeded write id)

/-- What is known on the document happens to the journal. -/
theorem Follows.of_done {α : Type} {outcome : Draft.Outcome α} {actual : Journal × Except Stop α}
    {s : SessionSnapshot} (h : Follows outcome actual) (hdone : outcome.done = some s) :
    ∃ j a, actual = (j, .ok a) ∧ Ready j s := by
  obtain ⟨j, result⟩ := actual
  rcases outcome with _ | ⟨s', stop | a⟩
  · cases hdone
  · cases hdone
  · cases hdone
    obtain ⟨hready, hresult⟩ := h s _ rfl
    exact ⟨j, a, by rw [← show result = .ok a from hresult], hready⟩

/-- The turn comes to its yield, with both calls on record. -/
theorem exists_readWrite (id : ToolCallId) (read write : Bool)
    (h : readWriteLookups id = some (read, write)) : ∃ j₀ c j₁ j₂ j₃ j₄,
      Journal.create exampleSession = .ok j₀ ∧ Sound j₀ ∧
      c ∈ candidates owner j₀ (readWriteTurn id) ∧
      c.ran = [⟨⟨readCall.id, "Read", .object []⟩, readThenWrite 0, j₁, j₂⟩,
        ⟨⟨id, "Write", .object []⟩, readThenWrite 1, j₃, j₄⟩] ∧
      hasSucceeded j₂.snapshot readCall.id = read ∧ hasSucceeded j₄.snapshot id = write := by
  obtain ⟨j₀, hcreate⟩ := exists_create_exampleSession
  have hready := exists_ready exampleSession hcreate
  unfold readWriteLookups at h
  obtain ⟨s₁, hprompt, h⟩ := Option.bind_eq_some_iff.mp h
  obtain ⟨s₂, hanswer, h⟩ := Option.bind_eq_some_iff.mp h
  obtain ⟨s₃, hread, h⟩ := Option.bind_eq_some_iff.mp h
  obtain ⟨s₄, hwrite, h⟩ := Option.bind_eq_some_iff.mp h
  obtain ⟨s₅, hlast, h⟩ := Option.bind_eq_some_iff.mp h
  obtain ⟨rfl, rfl⟩ := Prod.mk.inj (Option.some.inj h)
  obtain ⟨j₁, _, hprompted, hready₁⟩ := (hready.execute _ _).of_done hprompt
  obtain ⟨j₂, _, hanswered, hready₂⟩ := (hready₁.execute _ _).of_done hanswer
  obtain ⟨j₃, call₃, hreads, hready₃⟩ := (hready₂.executeToolInner _ _ _ _ _).of_done hread
  obtain ⟨j₄, call₄, hwrites, hready₄⟩ := (hready₃.executeToolInner _ _ _ _ _).of_done hwrite
  obtain ⟨j₅, _, hended, _⟩ := (hready₄.execute _ _).of_done hlast
  obtain ⟨hid₃, _⟩ := executeToolInner_genuine hready₂.sound
    (show executeToolInner j₂ owner readCall.name readCall.arguments (some readCall.id) _ = _
      from hreads)
  obtain ⟨hid₄, _⟩ := executeToolInner_genuine hready₃.sound
    (show executeToolInner j₃ owner (writeCall id).name (writeCall id).arguments
      (some (writeCall id).id) _ = _ from hwrites)
  rw [hid₃] at hreads
  rw [hid₄] at hwrites
  have hcalls : ∃ executed, runCalls owner (readWriteRounds id 1) j₂ .new
      [(readCall, 0), (writeCall id, 1)] = (j₄, .ok ⟨executed,
        [⟨⟨readCall.id, "Read", .object []⟩, readThenWrite 0,
          settling owner j₂ readCall (readThenWrite 0), j₃⟩,
          ⟨⟨id, "Write", .object []⟩, readThenWrite 1,
            settling owner j₃ (writeCall id) (readThenWrite 1), j₄⟩]⟩) := by
    have hreads' : executeToolInner j₂ owner readCall.name readCall.arguments (some readCall.id)
        ((readWriteRounds id 1).invocation 0) = (j₃, .ok readCall.id) := hreads
    have hwrites' : executeToolInner j₃ owner (writeCall id).name (writeCall id).arguments
        (some (writeCall id).id) ((readWriteRounds id 1).invocation 1) =
          (j₄, .ok (writeCall id).id) := hwrites
    simp only [runCalls, hreads', hwrites']
    exact ⟨_, rfl⟩
  obtain ⟨executed, hcalls⟩ := hcalls
  refine ⟨j₀, ⟨⟨some "", [], executed⟩, _⟩, settling owner j₂ readCall (readThenWrite 0), j₃,
    settling owner j₃ (writeCall id) (readThenWrite 1), j₄, hcreate, hready.sound, ?_, rfl, ?_, ?_⟩
  · unfold candidates readWriteTurn
    dsimp only
    rw [show checkpoint (.ok ()) ++ [Activity.userMessage ⟨"prompt", Eq.refl true⟩ "write it"
      obedient] = [.userMessage ⟨"prompt", Eq.refl true⟩ "write it" obedient] from rfl, hprompted]
    dsimp only
    unfold turnLoop
    dsimp only
    rw [hanswered]
    dsimp only
    rw [show (readWriteRounds id 1).inference.result =
      .ok ⟨"", none, [readCall, writeCall id], .object [], "stop"⟩ from rfl]
    dsimp only
    rw [if_pos (show ¬ [readCall, writeCall id].isEmpty = true from Bool.false_ne_true),
      show [readCall, writeCall id].zipIdx =
      [(readCall, 0), (writeCall id, 1)] from rfl, hcalls]
    dsimp only
    unfold turnLoop
    dsimp only
    rw [hended]
    dsimp only
    rw [show (readWriteRounds id 0).inference.result = .ok ⟨"", none, [], .object [], "stop"⟩
      from rfl]
    dsimp only
    rw [if_neg (by decide)]
    split
    · exact List.mem_cons_self
    · split
      · exact List.mem_cons_self
      · exact List.mem_cons_self
  · rw [hready₃.snapshot]
  · rw [hready₄.snapshot]

/-- Both calls have the same call id. The second fails and is counted for the success of the
first. -/
theorem not_attributed_repeatedId : ¬ ∀ (owner : ActorId) (j : Journal), Sound j →
    ∀ (call : HostCall), ∀ c ∈ candidates owner j call, c.Attributed := by
  intro h
  obtain ⟨j₀, c, j₁, j₂, j₃, j₄, _, hsound, hc, hran, _, hwrite⟩ :=
    exists_readWrite readCall.id true true (by decide +kernel)
  have hcounted := (h owner j₀ hsound _ c hc).counted
  rw [hran] at hcounted
  have hsame := hcounted _ (List.mem_cons_of_mem _ List.mem_cons_self)
  unfold RanCall.counted at hsame
  rw [show hasSucceeded j₄.snapshot readCall.id = true from hwrite] at hsame
  exact absurd (show true = false from hsame) (by decide)

/-- With two call ids the directors are told of the first call only, and one that requires the
second is not satisfied. -/
theorem candidates_attributed_twoIds : ∃ j₀ c, Journal.create exampleSession = .ok j₀ ∧
    c ∈ candidates owner j₀ (readWriteTurn ⟨"call_2", Eq.refl true⟩) ∧ (∀ r ∈ c.ran, r.Clear) ∧
    ∀ d : ForceTool, d.tool = "Write" → (d.onYield c.view).1 ≠ .done := by
  obtain ⟨j₀, c, j₁, j₂, j₃, j₄, hcreate, hsound, hc, hran, hread, hwrite⟩ :=
    exists_readWrite ⟨"call_2", Eq.refl true⟩ true false (by decide +kernel)
  obtain ⟨_, hrecorded⟩ := candidates_recorded hsound hc
  have hcounted : ∀ r ∈ c.ran, r.counted = r.succeeded := by
    rw [hran]
    intro r hr
    rcases List.mem_cons.mp hr with rfl | hr
    · exact hread
    · obtain rfl := List.mem_singleton.mp hr
      exact hwrite
  have hattributed : c.Attributed :=
    ⟨by rw [hrecorded.executed, List.filter_congr hcounted], hcounted⟩
  obtain ⟨hiff, hforce⟩ := candidates_attributed_iff hsound _ hc
  refine ⟨j₀, c, hcreate, hc, hiff.mp hattributed, fun d hd hdone => ?_⟩
  obtain ⟨r, hr, hsucceeded, hname⟩ := (hforce hattributed d).mp hdone
  rw [hran] at hr
  rcases List.mem_cons.mp hr with rfl | hr
  · rw [hd] at hname
    exact absurd (show "Read" = "Write" from hname) (by decide)
  · obtain rfl := List.mem_singleton.mp hr
    exact absurd (show false = true from hsucceeded) (by decide)

end Omp2.Control
