import Omp2.Control.Projection

/-!
# The budget and the wire

`collect_entries` and `derive_inference_request` decide in two places which body elements count.
They decide alike: the planner has an entry that is not covered for exactly the elements of which a
message is sent, and it counts the same children of a tool call.
-/

namespace Omp2.Control

open Omp2.Json Omp2.State SessionSnapshot

variable [SerdeJson]

variable {s : SessionSnapshot} {compaction : CompactionOutcome} {e : ElementSnapshot}
  {entry : BodyEntry}

theorem elementMessages_covered (hcollect : collectEntry s e = some entry)
    (hcovered : compaction.covered.contains entry.id = true) :
    elementMessages s compaction e = [] := by
  unfold elementMessages
  rw [← (collectEntry_some hcollect).1, if_pos hcovered]

/-- Something is sent of an element that has an entry and is not covered. -/
theorem elementMessages_ne_nil (hcollect : collectEntry s e = some entry)
    (hcovered : ¬ compaction.covered.contains entry.id = true) :
    elementMessages s compaction e ≠ [] := by
  unfold elementMessages
  rw [← (collectEntry_some hcollect).1, if_neg hcovered]
  unfold collectEntry at hcollect
  dsimp only at hcollect
  split at hcollect
  · next hkind =>
    rw [hkind]
    exact List.cons_ne_nil _ _
  · next hkind =>
    split at hcollect
    · cases hcollect
    · next hcompleted =>
      rw [hkind]
      dsimp only
      rw [if_neg hcompleted]
      exact List.cons_ne_nil _ _
  · next hkind =>
    rw [hkind]
    cases hcall : usableCallId e with
    | none =>
      rw [hcall] at hcollect
      cases hcollect
    | some callId => exact List.cons_ne_nil _ _
  · next hkind =>
    rw [hkind]
    exact List.cons_ne_nil _ _
  · next hkind =>
    rw [hkind]
    exact List.cons_ne_nil _ _
  · cases hcollect

/-- The entries that are not covered are those of the elements of which something is sent. -/
theorem uncovered_entries (body : List ElementSnapshot) :
    ((body.filterMap (collectEntry s)).filter fun entry =>
      !compaction.covered.contains entry.id).map BodyEntry.id =
    (body.filter fun e => !(elementMessages s compaction e).isEmpty).map ElementSnapshot.id := by
  induction body with
  | nil => rfl
  | cons e body ih =>
      cases hcollect : collectEntry s e with
      | none =>
        have hnothing : elementMessages s compaction e = [] := elementMessages_nil hcollect
        rw [List.filterMap_cons_none hcollect, List.filter_cons_of_neg (by simp [hnothing])]
        exact ih
      | some entry =>
        rw [List.filterMap_cons_some hcollect]
        by_cases hcovered : compaction.covered.contains entry.id = true
        · have hnothing := elementMessages_covered hcollect hcovered
          rw [List.filter_cons_of_neg (by simp [hcovered]),
            List.filter_cons_of_neg (by simp [hnothing])]
          exact ih
        · have hsent := elementMessages_ne_nil hcollect hcovered
          rw [List.filter_cons_of_pos (by rw [Bool.eq_false_iff.mpr hcovered]; rfl),
            List.filter_cons_of_pos (by simpa using hsent), List.map_cons, List.map_cons, ih,
            (collectEntry_some hcollect).1]

/-- The children of a tool call whose payload and text are counted are those that are sent. -/
structure CountsSentChildren (s : SessionSnapshot) (compaction : CompactionOutcome)
    (e : ElementSnapshot) (entry : BodyEntry) : Prop where
  arguments : entry.argsTokens = estimateTokens
    ((((childOfKind s e "input").bind ElementSnapshot.payload).map Value.display).getD "")
  result : entry.textTokens =
    estimateTokens (((childOfKind s e "result").map ElementSnapshot.text).getD "")
  sent : ∃ callId : ToolCallId, elementMessages s compaction e =
    { SemanticMessage.assistant "" with
      toolCalls := [⟨callId, (toolName e).getD "unknown",
        if compaction.omitsArguments e.id then omittedArguments
        else ((childOfKind s e "input").bind ElementSnapshot.payload).getD .null⟩] } ::
    ((childOfKind s e "result").map fun result =>
      SemanticMessage.toolResult callId (compaction.projectText e.id result.text)).toList

/-- The planner counts what is sent of a tool call. -/
theorem countsSentChildren (hcollect : collectEntry s e = some entry) (hkind : e.kind = "tool_call")
    (hcovered : ¬ compaction.covered.contains entry.id = true) :
    CountsSentChildren s compaction e entry := by
  have hid := (collectEntry_some hcollect).1
  unfold collectEntry at hcollect
  rw [hkind] at hcollect
  dsimp only at hcollect
  cases hcall : usableCallId e with
  | none =>
      rw [hcall] at hcollect
      cases hcollect
  | some callId =>
      rw [hcall] at hcollect
      cases hcollect
      refine ⟨rfl, rfl, callId, ?_⟩
      unfold elementMessages
      rw [if_neg hcovered, hkind]
      dsimp only
      rw [hcall]
      cases childOfKind s e "result" <;> rfl

/-- The planner keeps an entry for exactly the body elements of which a message is sent, in their
order, and it counts the children of a tool call that are sent. -/
theorem budget_matches_wire (s : SessionSnapshot) (compaction : CompactionOutcome) :
    ((collectEntries s).filter fun entry => !compaction.covered.contains entry.id).map
        BodyEntry.id =
      (s.getVisibleBody.filter fun e => !(elementMessages s compaction e).isEmpty).map
        ElementSnapshot.id ∧
    ∀ e ∈ s.getVisibleBody, ∀ entry, collectEntry s e = some entry → e.kind = "tool_call" →
      ¬ compaction.covered.contains entry.id = true →
      CountsSentChildren s compaction e entry :=
  ⟨uncovered_entries s.getVisibleBody,
    fun _ _ _ hcollect hkind hcovered => countsSentChildren hcollect hkind hcovered⟩

end Omp2.Control
