import Omp2.Library.Slices
import Omp2.Control.Elision

/-!
# The request of a turn

`derive_inference_request` of `omp-control/src/host.rs`, as far as it reads the document: the
messages of the visible body under the outcome of a pass, and the folds of the pass. The planner
counts the tokens of this request without rendering it. Its count is a bound up to the markers that
it does not price: what a fold says beyond the header of a node, and what stands for omitted
arguments.
-/

namespace Omp2.Control

open Omp2.Json Omp2.State SessionSnapshot List

/-! ## Messages -/

/-- `MessageRole`. -/
inductive MessageRole where
  | system | developer | user | assistant | tool
deriving DecidableEq, Repr

/-- `ToolCallSpec`. -/
structure ToolCallSpec where
  id : ToolCallId
  name : String
  arguments : Value

/-- `SemanticMessage`, whose content is a text. -/
structure SemanticMessage where
  role : MessageRole
  content : String
  toolCalls : List ToolCallSpec
  toolCallId : Option ToolCallId
  name : Option String

namespace SemanticMessage

/-- `user`. -/
def user (text : String) : SemanticMessage :=
  ⟨.user, text, [], none, none⟩

/-- `assistant`. -/
def assistant (text : String) : SemanticMessage :=
  ⟨.assistant, text, [], none, none⟩

/-- `system`. -/
def system (text : String) : SemanticMessage :=
  ⟨.system, text, [], none, none⟩

/-- `tool_result`. -/
def toolResult (toolCallId : ToolCallId) (content : String) : SemanticMessage :=
  ⟨.tool, content, [], some toolCallId, none⟩

end SemanticMessage

/-- The marker that stands for omitted arguments. -/
def omittedArguments : Value :=
  .object [("omitted",
    .string "arguments elided to fit the context window; the journal keeps them")]

/-- The call id that an assistant message carries. -/
def assistantCallId (elem : ElementSnapshot) : Option ToolCallId :=
  match elem.attributes["tool_call_id"]? with
  | some (.string callId) => (Id.new callId).toOption
  | _ => none

/-- The round of `derive_inference_request` for one element. -/
def elementMessages (s : SessionSnapshot) (compaction : CompactionOutcome)
    (elem : ElementSnapshot) : List SemanticMessage :=
  if compaction.covered.contains elem.id then []
  else match elem.kind with
  | "user" => [.user (compaction.projectText elem.id elem.text)]
  | "assistant" =>
    if isInterrupted elem then []
    else [{ SemanticMessage.assistant (compaction.projectText elem.id elem.text) with
      toolCallId := assistantCallId elem }]
  | "tool_call" =>
    match usableCallId elem with
    | none => []
    | some callId =>
      let args := (((childOfKind s elem "input").bind ElementSnapshot.payload).getD .null)
      let args := if compaction.omitsArguments elem.id then omittedArguments else args
      { SemanticMessage.assistant "" with
        toolCalls := [⟨callId, (toolName elem).getD "unknown", args⟩] } ::
      match childOfKind s elem "result" with
      | some result => [.toolResult callId (compaction.projectText elem.id result.text)]
      | none => []
  | "steering" | "system" => [.system elem.text]
  | _ => []

/-- The messages of `derive_inference_request`. -/
def deriveMessages (s : SessionSnapshot) (compaction : CompactionOutcome) :
    List SemanticMessage :=
  s.getVisibleBody.flatMap (elementMessages s compaction)

/-! ## What is sent -/

section Sent

variable [SerdeJson]

/-- The tokens of a message: its content and the arguments of its calls. -/
def SemanticMessage.tokens (message : SemanticMessage) : Nat :=
  estimateTokens message.content +
    (message.toolCalls.map fun call => estimateTokens call.arguments.display).sum

/-- The tokens of a rendered fold. -/
def MessageFold.tokens : MessageFold → Nat
  | .handoff summary _ _ => estimateTokens summary
  | .shake .. => 0
  | .remoteState .. => 0

/-- The tokens of what the host sends for an outcome. -/
def sentTokens (s : SessionSnapshot) (compaction : CompactionOutcome) (overhead : Nat) : Nat :=
  overhead + (compaction.folds.map MessageFold.tokens).sum +
    ((deriveMessages s compaction).map SemanticMessage.tokens).sum

end Sent

/-! ## Estimates -/

theorem charTokens_add_le (ascii wide ascii' wide' : Nat) :
    charTokens (ascii + ascii') (wide + wide') ≤ charTokens ascii wide + charTokens ascii' wide' := by
  unfold charTokens
  omega

theorem estimateTokens_append {text text' : String} {bound bound' : Nat}
    (h : estimateTokens text ≤ bound) (h' : estimateTokens text' ≤ bound') :
    estimateTokens (text ++ text') ≤ bound + bound' := by
  refine Nat.le_trans ?_ (Nat.add_le_add h h')
  unfold estimateTokens
  rw [String.toList_append, countP_append, countP_append]
  exact charTokens_add_le ..

/-- No text is estimated at more tokens than it has bytes. -/
theorem estimateTokens_le_bytes (text : String) : estimateTokens text ≤ text.utf8ByteSize := by
  rw [Text.utf8ByteSize_eq]
  unfold estimateTokens
  induction text.toList with
  | nil => exact Nat.le_refl 0
  | cons c cs ih =>
      have hone : charTokens (if c.val < 128 then 1 else 0) (if c.val < 128 then 0 else 1) ≤
          c.utf8Size := by
        have hpos := c.utf8Size_pos
        split
        · exact hpos
        · next hwide =>
          show 2 ≤ c.utf8Size
          unfold Char.utf8Size
          dsimp only
          split
          · next hle => exact absurd (UInt32.lt_of_le_of_lt hle (by decide)) hwide
          · split
            · exact Nat.le_refl 2
            · split <;> omega
      rw [countP_cons, countP_cons]
      refine (charTokens_add_le ..).trans ?_
      unfold Text.byteLength at ih ⊢
      rw [map_cons, sum_cons]
      by_cases hascii : c.val < 128
      · simp only [hascii, decide_true, not_true, decide_false, if_true, if_false,
          Bool.false_eq_true] at hone ih ⊢
        omega
      · simp only [hascii, decide_false, not_false_eq_true, decide_true, if_true, if_false,
          Bool.false_eq_true] at hone ih ⊢
        omega

theorem estimateTokens_le_length (text : String) : estimateTokens text ≤ 2 * text.length := by
  have hsplit := length_eq_countP_add_countP (fun c : Char => c.val < 128) (l := text.toList)
  simp only [String.length_toList, decide_eq_true_eq] at hsplit
  unfold estimateTokens charTokens
  omega

theorem textPrefix_size_le (text : String) (limit : Nat) :
    (textPrefix text limit).utf8ByteSize ≤ limit := by
  unfold textPrefix
  split
  · next hfits => exact hfits
  · unfold Text.truncate
    rw [Text.utf8ByteSize_ofList]
    exact Slices.byteLength_truncateChars_le ..

theorem textSuffix_size_le (text : String) (limit : Nat) :
    (textSuffix text limit).utf8ByteSize ≤ limit := by
  unfold textSuffix
  split
  · next hfits => exact hfits
  · unfold Text.suffix
    rw [Text.utf8ByteSize_ofList, show ∀ cs : List Char, Text.byteLength cs.reverse =
      Text.byteLength cs from fun cs => by unfold Text.byteLength; rw [map_reverse,
        sum_reverse]]
    exact Slices.byteLength_truncateChars_le ..

theorem estimateTokens_digits_le (n : UInt64) : estimateTokens (toString n) ≤ 40 := by
  refine (estimateTokens_le_length _).trans ?_
  have hdigits : (toString n).length ≤ 20 := by
    refine (Nat.length_repr_le_iff (by decide)).mpr ?_
    exact Nat.lt_trans n.toNat_lt (by decide)
  omega

/-- A text that is cut to its ends costs no more than the planner counts for it. -/
theorem estimateTokens_truncateForProjection_le (text : String) :
    estimateTokens (truncateForProjection text) ≤ reducedTokens := by
  unfold truncateForProjection
  split
  · next hshort =>
    exact ((estimateTokens_le_bytes text).trans hshort).trans (by decide)
  · dsimp only
    generalize UInt64.ofNat _ = dropped
    have hhead := (estimateTokens_le_bytes _).trans (textPrefix_size_le text truncatedHeadChars)
    have htail := (estimateTokens_le_bytes _).trans (textSuffix_size_le text truncatedTailChars)
    have hdigits := estimateTokens_digits_le dropped
    have hopen : estimateTokens "\n[…" ≤ 3 := by decide
    have hmiddle : estimateTokens " chars truncated to fit the context window; " ≤ 11 := by decide
    have hclose : estimateTokens "the journal keeps the full text]\n" ≤ 9 := by decide
    have hall := estimateTokens_append (estimateTokens_append (estimateTokens_append
      (estimateTokens_append hhead hopen) hdigits) hmiddle) (estimateTokens_append hclose htail)
    exact hall.trans (by decide)

/-! ## What an entry costs -/

/-- What the planner counts for an entry. -/
def entryCost (reductions : Reductions) (entry : BodyEntry) : Nat :=
  match reductions[entry.id]? with
  | none => entry.tokens
  | some reduction =>
    let cost := entry.tokens - if reduction.omittedArguments then entry.argsTokens else 0
    cost - if reduction.cappedText then entry.textTokens - reducedTokens else 0

theorem entryCost_eq (reductions : Reductions) (entry : BodyEntry) :
    entryCost reductions entry = (entry.tokens -
      if (reductions[entry.id]?).any Reduction.omittedArguments then entry.argsTokens else 0) -
      if (reductions[entry.id]?).any Reduction.cappedText then
        entry.textTokens - reducedTokens else 0 := by
  unfold entryCost
  cases reductions[entry.id]? <;> rfl

theorem projectedTokens_eq (entries : List BodyEntry) (covered : Std.ExtTreeSet ElementId)
    (dag : SummaryDag) (reductions : Reductions) (overhead : Nat) :
    projectedTokens entries covered dag reductions overhead = overhead +
      ((entries.filter fun entry => !covered.contains entry.id).map (entryCost reductions)).sum +
      dag.projectionTokens :=
  rfl

/-- The reductions of a pass do not touch instructions, and they cap only what costs more. -/
def Fair (reductions : Reductions) (entry : BodyEntry) : Prop :=
  ∀ reduction, reductions[entry.id]? = some reduction → entry.role ≠ .instructions ∧
    (reduction.cappedText = true → reducedTokens < entry.textTokens)

theorem Fair.none {reductions : Reductions} {entry : BodyEntry} (h : Fair reductions entry)
    (hrole : entry.role = .instructions) : reductions[entry.id]? = none := by
  cases hreduction : reductions[entry.id]? with
  | none => rfl
  | some reduction => exact absurd hrole (h reduction hreduction).1

/-- The text that is sent costs what is left of it after the savings. -/
theorem projectText_tokens_le (compaction : CompactionOutcome) (id : ElementId) (text : String)
    (hfair : ∀ reduction, compaction.reductions[id]? = some reduction →
      reduction.cappedText = true → reducedTokens < estimateTokens text) :
    estimateTokens (compaction.projectText id text) ≤ estimateTokens text -
      if (compaction.reductions[id]?).any Reduction.cappedText then
        estimateTokens text - reducedTokens else 0 := by
  unfold CompactionOutcome.projectText
  cases hreduction : compaction.reductions[id]? with
  | none => exact Nat.le_refl _
  | some reduction =>
      dsimp only [Option.any_some]
      by_cases hcapped : reduction.cappedText = true
      · have hmore := hfair reduction hreduction hcapped
        have hcut := estimateTokens_truncateForProjection_le text
        rw [if_pos hcapped, if_pos hcapped]
        omega
      · rw [if_neg hcapped, if_neg hcapped]
        exact Nat.le_refl _

section Cost

variable [SerdeJson] {s : SessionSnapshot} {e : ElementSnapshot} {entry : BodyEntry}
  {compaction : CompactionOutcome}

/-- What the marker of omitted arguments costs, for which the planner counts nothing. -/
def omissionTokens (reductions : Reductions) (entry : BodyEntry) : Nat :=
  if (reductions[entry.id]?).any Reduction.omittedArguments then
    estimateTokens omittedArguments.display
  else 0

theorem arguments_tokens_le (hnull : Value.null.display = "null") (payload : Option Value) :
    estimateTokens (payload.getD .null).display ≤
      estimateTokens ((payload.map Value.display).getD "") + 8 := by
  cases payload with
  | none =>
      show estimateTokens Value.null.display ≤ estimateTokens "" + 8
      rw [hnull]
      decide
  | some value => exact Nat.le_add_right _ _

omit [SerdeJson] in
theorem saved_le {text : Nat} (capped : Bool) :
    (if capped then text - reducedTokens else 0) ≤ text := by
  split
  · exact Nat.sub_le ..
  · exact Nat.zero_le _

omit [SerdeJson] in
/-- A call and its result cost no more than what the planner counts for them and the marker. -/
theorem call_tokens_le {args text sentArgs sentText saved marker : Nat} (omitted : Bool)
    (hargs : sentArgs ≤ args + 8) (hsaved : saved ≤ text) (htext : sentText ≤ text - saved) :
    (if omitted then marker else sentArgs) + sentText ≤
      (args + text + 8 - if omitted then args else 0) - saved +
        if omitted then marker else 0 := by
  cases omitted
  · rw [if_neg Bool.false_ne_true, if_neg Bool.false_ne_true, if_neg Bool.false_ne_true]
    omega
  · rw [if_pos rfl, if_pos rfl, if_pos rfl]
    omega

/-- An element is sent for what the planner counts, apart from the marker. -/
theorem elementMessages_tokens_le (hnull : Value.null.display = "null")
    (hcollect : collectEntry s e = some entry) (hfair : Fair compaction.reductions entry) :
    ((elementMessages s compaction e).map SemanticMessage.tokens).sum ≤
      entryCost compaction.reductions entry + omissionTokens compaction.reductions entry := by
  unfold elementMessages
  split
  · exact Nat.zero_le _
  · unfold collectEntry at hcollect
    dsimp only at hcollect
    rw [entryCost_eq]
    unfold omissionTokens BodyEntry.tokens
    split at hcollect
    · next hkind =>
      cases hcollect
      have htext := projectText_tokens_le compaction e.id e.text
        fun reduction hreduction => (hfair reduction hreduction).2
      simp only [hkind, map_cons, map_nil, sum_cons, sum_nil,
        SemanticMessage.tokens, SemanticMessage.user, reduceCtorEq, if_false, ite_self,
        Nat.sub_zero, Nat.zero_add, Nat.add_zero]
      exact htext.trans (Nat.le_add_right _ _)
    · next hkind =>
      split at hcollect
      · cases hcollect
      · next hcompleted =>
        cases hcollect
        have htext := projectText_tokens_le compaction e.id e.text
          fun reduction hreduction => (hfair reduction hreduction).2
        simp only [hkind, if_neg hcompleted, map_cons, map_nil, sum_cons,
          sum_nil, SemanticMessage.tokens, SemanticMessage.assistant, reduceCtorEq,
          if_false, ite_self, Nat.sub_zero, Nat.zero_add, Nat.add_zero]
        exact htext.trans (Nat.le_add_right _ _)
    · next hkind =>
      split at hcollect
      · cases hcollect
      · next callId hcall =>
        cases hcollect
        have hargs := arguments_tokens_le hnull
          ((childOfKind s e "input").bind ElementSnapshot.payload)
        have hempty : estimateTokens "" = 0 := rfl
        have hsent : ∀ args : Value, estimateTokens (if compaction.omitsArguments e.id = true
            then omittedArguments else args).display =
            if (compaction.reductions[e.id]?).any Reduction.omittedArguments then
              estimateTokens omittedArguments.display
            else estimateTokens args.display := by
          intro args
          unfold CompactionOutcome.omitsArguments
          split <;> rfl
        cases hresult : childOfKind s e "result" with
        | none =>
          simp only [hkind, hcall, map_cons, map_nil, sum_cons,
            sum_nil, SemanticMessage.tokens, SemanticMessage.assistant, hsent, hempty,
            if_true, Nat.add_zero, Nat.zero_add]
          exact call_tokens_le _ hargs (saved_le _) (Nat.zero_le _)
        | some result =>
          rw [hresult] at hfair
          have htext := projectText_tokens_le compaction e.id result.text
            fun reduction hreduction => (hfair reduction hreduction).2
          simp only [hkind, hcall, map_cons, map_nil, sum_cons,
            sum_nil, SemanticMessage.tokens, SemanticMessage.assistant,
            SemanticMessage.toolResult, hsent, hempty, if_true, Nat.add_zero, Nat.zero_add]
          exact call_tokens_le _ hargs (saved_le _) htext
    · next hkind =>
      cases hcollect
      have hnone : compaction.reductions[e.id]? = none := hfair.none rfl
      simp [hkind, hnone, SemanticMessage.tokens, SemanticMessage.system]
    · next hkind =>
      cases hcollect
      have hnone : compaction.reductions[e.id]? = none := hfair.none rfl
      simp [hkind, hnone, SemanticMessage.tokens, SemanticMessage.system]
    · cases hcollect

/-- The planner has an entry for every element that is sent. -/
theorem elementMessages_nil (hcollect : collectEntry s e = none) :
    elementMessages s compaction e = [] := by
  unfold collectEntry at hcollect
  dsimp only at hcollect
  unfold elementMessages
  split
  · rfl
  · split
    · next hkind =>
      rw [hkind] at hcollect
      cases hcollect
    · next hkind =>
      simp only [hkind] at hcollect
      split at hcollect
      · next hinterrupted => rw [if_pos hinterrupted]
      · cases hcollect
    · next hkind =>
      simp only [hkind] at hcollect
      cases hcall : usableCallId e with
      | none => rfl
      | some callId =>
        rw [hcall] at hcollect
        cases hcollect
    · next hkind =>
      rw [hkind] at hcollect
      cases hcollect
    · next hkind =>
      rw [hkind] at hcollect
      cases hcollect
    · rfl

/-- A body is sent for what the planner counts, apart from the markers. -/
theorem body_tokens_le (hnull : Value.null.display = "null") (body : List ElementSnapshot)
    (hfair : ∀ entry ∈ body.filterMap (collectEntry s), Fair compaction.reductions entry) :
    ((body.flatMap (elementMessages s compaction)).map SemanticMessage.tokens).sum ≤
      (((body.filterMap (collectEntry s)).filter fun entry =>
        !compaction.covered.contains entry.id).map (entryCost compaction.reductions)).sum +
      ((body.filterMap (collectEntry s)).map (omissionTokens compaction.reductions)).sum := by
  induction body with
  | nil => exact Nat.le_refl 0
  | cons e body ih =>
      rw [flatMap_cons, map_append, sum_append]
      cases hcollect : collectEntry s e with
      | none =>
        rw [filterMap_cons_none hcollect] at hfair ⊢
        rw [elementMessages_nil hcollect, map_nil, sum_nil, Nat.zero_add]
        exact ih hfair
      | some entry =>
        rw [filterMap_cons_some hcollect] at hfair ⊢
        obtain ⟨hentry, hrest⟩ := forall_mem_cons.mp hfair
        have hbody := ih hrest
        rw [map_cons, sum_cons]
        by_cases hcovered : compaction.covered.contains entry.id = true
        · have hnothing : elementMessages s compaction e = [] := by
            unfold elementMessages
            rw [← (collectEntry_some hcollect).1, if_pos hcovered]
          rw [hnothing, map_nil, sum_nil, filter_cons_of_neg (by simp [hcovered])]
          omega
        · have hsent := elementMessages_tokens_le hnull hcollect hentry
          rw [filter_cons_of_pos (by rw [Bool.eq_false_iff.mpr hcovered]; rfl), map_cons, sum_cons]
          omega

end Cost

/-! ## What a fold costs -/

namespace SummaryDag

/-- The marker in front of the text of a node. -/
def foldMarker (dag : SummaryDag) (id : ElementId) : String :=
  let node := (dag.nodes[id]?).getD default
  let elements := max (expandCovered dag.nodes id).length node.covered.length
  s!"[compacted {elements} earlier elements, ~{node.coveredTokens} tokens. " ++
    s!"Expand the originals with Read summary://{id.value}]\n"

/-- What the markers of the roots cost beyond their headers. -/
def markerTokens (dag : SummaryDag) : Nat :=
  (dag.roots.map fun id => estimateTokens (dag.foldMarker id) - nodeHeaderTokens).sum

/-- A fold is its marker and the text of the node. -/
theorem fold_tokens_le (dag : SummaryDag) (id : ElementId) :
    (dag.fold id).tokens ≤ estimateTokens (dag.foldMarker id) + estimateTokens (dag.textOf id) := by
  have hrender : (dag.fold id).tokens =
      estimateTokens (dag.foldMarker id ++ dag.textOf id) := by
    refine congrArg estimateTokens ?_
    dsimp only [renderFold, foldMarker]
    simp only [String.append_assoc]
    rfl
  rw [hrender]
  exact estimateTokens_append (Nat.le_refl _) (Nat.le_refl _)

/-- The folds cost what the planner counts for them, apart from their markers. -/
theorem folds_tokens_le (dag : SummaryDag) :
    (dag.folds.map MessageFold.tokens).sum ≤ dag.projectionTokens + dag.markerTokens := by
  unfold folds projectionTokens markerTokens
  induction dag.roots with
  | nil => exact Nat.le_refl 0
  | cons id ids ih =>
      have hfold := dag.fold_tokens_le id
      have htext : ((dag.texts[id]?).map estimateTokens).getD 0 = estimateTokens (dag.textOf id) := by
        unfold textOf
        cases dag.texts[id]? <;> rfl
      simp only [map_cons, sum_cons, htext]
      omega

end SummaryDag

/-! ## The reductions of a pass -/

section Reduce

variable {entries : List BodyEntry} {covered : Std.ExtTreeSet ElementId} {dag : SummaryDag}
  {config : CompactionConfig} {reductions : Reductions}

theorem firstBest_mem {candidates : List (BodyEntry × Reduction × Nat)}
    {best : BodyEntry × Reduction × Nat} (h : firstBest candidates = some best) :
    best ∈ candidates := by
  have hfold : ∀ (rest : List (BodyEntry × Reduction × Nat)) (first : BodyEntry × Reduction × Nat),
      rest.foldl (fun best next =>
        if truncationRank next.1.role < truncationRank best.1.role ∨
            truncationRank next.1.role = truncationRank best.1.role ∧ best.2.2 < next.2.2 then next
        else best) first ∈ first :: rest := by
    intro rest
    induction rest with
    | nil => exact fun first => mem_cons_self
    | cons next rest ih =>
      intro first
      rw [foldl_cons]
      split
      · exact mem_cons_of_mem _ (ih next)
      · rcases mem_cons.mp (ih first) with hfirst | hrest
        · exact mem_cons.mpr (.inl hfirst)
        · exact mem_cons_of_mem _ (mem_cons_of_mem _ hrest)
  cases candidates with
  | nil => cases h
  | cons first rest =>
      cases h
      exact hfold rest first

/-- A reduction of an entry caps its text only if that saves something. -/
theorem BodyEntry.nextReduction_capped {entry : BodyEntry} {applied : Option Reduction}
    {reduction : Reduction} {savings : Nat}
    (happlied : ∀ before, applied = some before → before.cappedText = true →
      reducedTokens < entry.textTokens)
    (h : entry.nextReduction applied = some (reduction, savings)) :
    reduction.cappedText = true → reducedTokens < entry.textTokens := by
  unfold nextReduction at h
  dsimp only at h
  generalize (if (applied.getD default).cappedText = true then _ else _) = effectiveText at h
  split at h
  · cases h
    intro hcapped
    cases applied with
    | none => cases hcapped
    | some before => exact happlied before rfl hcapped
  · split at h
    · next hmore =>
      cases h
      exact fun _ => hmore.2
    · cases h

/-- The next reduction is that of an entry which is no instruction. -/
theorem nextReduction_some {entry : BodyEntry} {reduction : Reduction} {savings : Nat}
    (h : nextReduction entries covered reductions = some (entry, reduction, savings)) :
    entry ∈ entries ∧ entry.role ≠ .instructions ∧
      entry.nextReduction reductions[entry.id]? = some (reduction, savings) := by
  unfold nextReduction at h
  obtain ⟨candidate, hcandidate, hnext⟩ := mem_filterMap.mp (firstBest_mem h)
  obtain ⟨next, hreduction, heq⟩ := Option.map_eq_some_iff.mp hnext
  cases heq
  obtain ⟨hentries, hrole⟩ := mem_filter.mp hcandidate
  exact ⟨(mem_filter.mp hentries).1, by simpa using hrole, hreduction⟩

/-- The loop of the third stage makes fair reductions. -/
theorem reduce_fair (hnodup : (entries.map BodyEntry.id).Nodup) (fuel : Nat)
    (hfair : ∀ entry ∈ entries, Fair reductions entry) :
    ∀ entry ∈ entries, Fair (reduce entries covered dag config fuel reductions) entry := by
  induction fuel generalizing reductions with
  | zero => exact hfair
  | succ fuel ih =>
      unfold reduce
      split
      · split
        · exact hfair
        · next entry reduction savings hnext =>
          obtain ⟨hentry, hrole, hreduction⟩ := nextReduction_some hnext
          refine ih fun other hother r hr => ?_
          rw [Std.ExtTreeMap.getElem?_insert] at hr
          split at hr
          · next hsame =>
            cases hr
            obtain rfl := inj_on_of_nodup_map hnodup hentry hother
              (Std.LawfulEqOrd.eq_of_compare hsame)
            exact ⟨hrole, BodyEntry.nextReduction_capped
              (fun before hbefore => (hfair entry hentry before hbefore).2) hreduction⟩
          · exact hfair other hother r hr
      · exact hfair

end Reduce

/-! ## The journal after a pass -/

section Pass

variable [SerdeJson] {j j' : Journal}

/-- The order of the nodes names elements under `summaries`. -/
def SummaryDag.Listed (dag : SummaryDag) (s : SessionSnapshot) : Prop :=
  ∀ id ∈ dag.order, id ∈ (summaries s).map ElementSnapshot.id

omit [SerdeJson] in
theorem SummaryDag.load_listed (s : SessionSnapshot) : (SummaryDag.load s).Listed s := by
  have hfold : ∀ (es : List ElementSnapshot) (dag : SummaryDag),
      ∀ id ∈ (es.foldl add dag).order, id ∈ dag.order ∨ id ∈ es.map ElementSnapshot.id := by
    intro es
    induction es with
    | nil => exact fun dag id hid => .inl hid
    | cons e es ih =>
      intro dag id hid
      rw [map_cons, mem_cons]
      rcases ih (dag.add e) id hid with hid | hid
      · unfold add at hid
        split at hid
        · exact .inl hid
        · rcases mem_append.mp hid with hid | hid
          · exact .inl hid
          · exact .inr (.inl (mem_singleton.mp hid))
      · exact .inr (.inr hid)
  intro id hid
  exact (hfold _ _ id hid).resolve_left not_mem_nil

/-- The commit of an elision. -/
theorem commitElision_onward {owner : ActorId} {entries : List BodyEntry} {ids : List ElementId}
    {dag : SummaryDag} {draw : Draw} {result : Except StructuredError SummaryDag}
    (hsound : Sound j) (hlisted : dag.Listed j.snapshot)
    (hcommit : commitElision j owner entries ids dag draw = (j', result)) :
    Onward j j' ∧ ∀ dag', result = .ok dag' → dag'.Listed j'.snapshot := by
  unfold commitElision at hcommit
  split at hcommit
  · cases hcommit
    exact ⟨.same hsound rfl, fun dag' hok => Except.ok.inj hok ▸ hlisted⟩
  · dsimp only at hcommit
    split at hcommit
    · next hcreate =>
      cases hcommit
      refine ⟨?_, nofun⟩
      rcases createNode_cases hsound hcreate with ⟨_, hok, _⟩ | ⟨_, hsound', hsame⟩
      · cases hok
      · exact .same hsound' hsame
    · next id hcreate =>
      cases hcommit
      rcases createNode_cases hsound hcreate with ⟨_, hok, honward, _, hperm⟩ | ⟨⟨_, herror⟩, _⟩
      · cases hok
        refine ⟨honward, fun dag' hok other hother => ?_⟩
        cases hok
        rcases mem_append.mp hother with hother | hother
        · exact honward.listed other (hlisted other hother)
        · obtain rfl := mem_singleton.mp hother
          exact (hperm.map ElementSnapshot.id).mem_iff.mpr mem_cons_self
      · cases herror

/-- The loop that condenses. -/
theorem condense_onward {owner : ActorId} {maxRoots fuel : Nat} {draws : Nat → Draw}
    {dag : SummaryDag} {result : Except StructuredError SummaryDag} (hsound : Sound j)
    (hlisted : dag.Listed j.snapshot)
    (hcondense : condense owner maxRoots draws fuel j dag = (j', result)) :
    Onward j j' ∧ ∀ dag', result = .ok dag' → dag'.Listed j'.snapshot := by
  refine condense_rule (P := fun j' result => Onward j j' ∧
    ∀ dag', result = .ok dag' → dag'.Listed j'.snapshot) ?_
    ⟨.same hsound rfl, fun _ hok => Except.ok.inj hok ▸ hlisted⟩ hcondense
  rintro j₁ dag₁ node text draw j₂ result ⟨honward, -⟩ - - hcreate
  rcases createNode_cases honward.sound hcreate with
    ⟨_, rfl, honward', _⟩ | ⟨⟨_, rfl⟩, hsound', hsame⟩
  · exact ⟨honward.trans honward', fun _ hok => Except.ok.inj hok ▸ SummaryDag.load_listed _⟩
  · exact ⟨honward.trans (.same hsound' hsame), nofun⟩

/-- The loop that caps the texts of roots changes texts alone. -/
theorem capTexts_onward {owner : ActorId} {entries : List BodyEntry}
    {covered : Std.ExtTreeSet ElementId} {reductions : Reductions} {config : CompactionConfig}
    {worlds : Nat → Journal.Outside} {fuel : Nat} {dag : SummaryDag}
    {result : Except StructuredError SummaryDag} (hsound : Sound j) (hlisted : dag.Listed j.snapshot)
    (hcap : capTexts owner entries covered reductions config worlds fuel j dag = (j', result)) :
    Onward j j' ∧ ∀ dag', result = .ok dag' → dag'.order = dag.order ∧
      dag'.children = dag.children ∧ dag'.nodes = dag.nodes := by
  have hall := capTexts_rule (P := fun j' result => Onward j j' ∧ ∀ dag', result = .ok dag' →
    dag'.Listed j'.snapshot ∧ dag'.order = dag.order ∧ dag'.children = dag.children ∧
      dag'.nodes = dag.nodes) ?_
    ⟨.same hsound rfl, fun _ hok => Except.ok.inj hok ▸ ⟨hlisted, rfl, rfl, rfl⟩⟩ hcap
  · exact ⟨hall.1, fun dag' hok => (hall.2 dag' hok).2⟩
  · rintro j₁ dag₁ id text world j₂ result ⟨honward, hkept⟩ hroot hreplace
    obtain ⟨hlisted₁, hsame₁⟩ := hkept _ rfl
    rcases replaceNodeText_cases honward.sound (hlisted₁ id (mem_filter.mp hroot).1) hreplace with
      ⟨rfl, honward', _⟩ | ⟨⟨_, rfl⟩, hsound', hsame⟩
    · refine ⟨honward.trans honward', fun dag' hok => ?_⟩
      cases hok
      exact ⟨fun other hother => honward'.listed other (hlisted₁ other hother), hsame₁⟩
    · exact ⟨honward.trans (.same hsound' hsame), nofun⟩

/-- A pass goes on under `summaries` alone, whatever comes of it. -/
theorem planStages_onward {owner : ActorId} {config : CompactionConfig} {draws : Draws}
    {result : Except StructuredError Planned} (hsound : Sound j)
    (hplan : planStages j owner config draws = (j', result)) : Onward j j' := by
  unfold planStages at hplan
  dsimp only at hplan
  split at hplan
  · cases hplan
    exact .same hsound rfl
  · split at hplan
    · next hcommit =>
      cases hplan
      exact (commitElision_onward hsound (SummaryDag.load_listed _) hcommit).1
    · next hcommit =>
      obtain ⟨honward₁, hlisted₁⟩ :=
        commitElision_onward hsound (SummaryDag.load_listed _) hcommit
      split at hplan
      · next hcondense =>
        cases hplan
        exact honward₁.trans (condense_onward honward₁.sound (hlisted₁ _ rfl) hcondense).1
      · next hcondense =>
        obtain ⟨honward₂, hlisted₂⟩ :=
          condense_onward honward₁.sound (hlisted₁ _ rfl) hcondense
        split at hplan
        · next hcap =>
          cases hplan
          exact (honward₁.trans honward₂).trans
            (capTexts_onward honward₂.sound (hlisted₂ _ rfl) hcap).1
        · next hcap =>
          cases hplan
          exact (honward₁.trans honward₂).trans
            (capTexts_onward honward₂.sound (hlisted₂ _ rfl) hcap).1

/-- A pass that ends with a count has counted what it has decided. -/
theorem planStages_counted {owner : ActorId} {config : CompactionConfig} {draws : Draws}
    {planned : Planned} {projected : Nat} (hsound : Sound j)
    (hplan : planStages j owner config draws = (j', .ok planned))
    (hprojected : planned.projected = some projected) :
    (∀ entry ∈ collectEntries j.snapshot, Fair planned.reductions entry) ∧
      projected = projectedTokens (collectEntries j.snapshot) planned.covered planned.dag
        planned.reductions config.fixedOverheadTokens := by
  have hnodup : ((collectEntries j.snapshot).map BodyEntry.id).Nodup :=
    (nodup_children hsound.wellFormed (staticId "body")).sublist collectEntries_sublist
  unfold planStages at hplan
  dsimp only at hplan
  split at hplan
  · cases hplan
    cases hprojected
  · split at hplan
    · cases hplan
    · split at hplan
      · cases hplan
      · split at hplan
        · cases hplan
        · cases hplan
          cases hprojected
          refine ⟨?_, rfl⟩
          exact reduce_fair hnodup _ fun _ _ _ hnone => by simp at hnone

omit [SerdeJson] in
theorem deriveMessages_kept {s s' : SessionSnapshot} (hkept : Kept s s') (hwf : WellFormed s)
    (compaction : CompactionOutcome) :
    deriveMessages s' compaction = deriveMessages s compaction := by
  obtain ⟨hbody, helements⟩ := hkept.body hwf
  unfold deriveMessages
  rw [hbody]
  refine flatMap_congr fun e he => ?_
  unfold elementMessages childOfKind
  rw [(helements e he).2]

/-- The request costs no more than the count of the pass and the markers. -/
theorem sentTokens_le (hnull : Value.null.display = "null") {owner : ActorId}
    {config : CompactionConfig} {draws : Draws} {planned : Planned} {projected : Nat}
    (hsound : Sound j) (hplan : planStages j owner config draws = (j', .ok planned))
    (hprojected : planned.projected = some projected) :
    sentTokens j'.snapshot planned.outcome config.fixedOverheadTokens ≤
      projected + planned.dag.markerTokens +
        ((collectEntries j.snapshot).map (omissionTokens planned.reductions)).sum := by
  have honward := planStages_onward hsound hplan
  obtain ⟨hfair, rfl⟩ := planStages_counted hsound hplan hprojected
  have hfolds := planned.dag.folds_tokens_le
  have hbody := body_tokens_le hnull j.snapshot.getVisibleBody
    (show ∀ entry ∈ collectEntries j.snapshot, Fair planned.outcome.reductions entry from hfair)
  unfold sentTokens
  rw [deriveMessages_kept honward.kept hsound.wellFormed, projectedTokens_eq]
  unfold deriveMessages
  unfold collectEntries
  dsimp only [Planned.outcome] at hbody ⊢
  omega

/-! ## What is not priced -/

section Within

variable {config : CompactionConfig} {entries : List BodyEntry}
  {covered : Std.ExtTreeSet ElementId} {dag : SummaryDag}

omit [SerdeJson] in
theorem reduce_within {reductions : Reductions}
    (hwithin : projectedTokens entries covered dag reductions config.fixedOverheadTokens ≤
      config.budget.hardTokens) (fuel : Nat) :
    reduce entries covered dag config fuel reductions = reductions := by
  cases fuel with
  | zero => rfl
  | succ fuel =>
      unfold reduce CompactionBudget.exceedsHardBound
      rw [if_neg (by simpa using hwithin)]

/-- Nothing is capped within the hard bound. -/
theorem capTexts_within {reductions : Reductions} {owner : ActorId}
    {worlds : Nat → Journal.Outside}
    (hwithin : projectedTokens entries covered dag reductions config.fixedOverheadTokens ≤
      config.budget.hardTokens) (fuel : Nat) (j : Journal) :
    capTexts owner entries covered reductions config worlds fuel j dag = (j, .ok dag) := by
  cases fuel with
  | zero => rfl
  | succ fuel =>
      unfold capTexts CompactionBudget.exceedsHardBound
      rw [if_neg (by simpa using hwithin)]

end Within

/-- The count of a pass bounds the request that is made of its outcome. -/
def BoundsRequest (config : CompactionConfig) (pass : Journal × Except StructuredError Planned) :
    Prop :=
  ∀ planned projected, pass.2 = .ok planned → planned.projected = some projected →
    projected ≤ config.budget.hardTokens →
    sentTokens pass.1.snapshot planned.outcome config.fixedOverheadTokens ≤
      config.budget.hardTokens

/-- A pass over the document renders no marker that it does not price: the marker of every root fits
into its header, no node is minted for an elision or a condensation, and no arguments are omitted. -/
structure Quiet (s : SessionSnapshot) (config : CompactionConfig) : Prop where
  headers : ∀ id ∈ (SummaryDag.load s).roots,
    estimateTokens ((SummaryDag.load s).foldMarker id) ≤ nodeHeaderTokens
  elides : select (collectEntries s) (SummaryDag.load s).covered config
    (projectedTokens (collectEntries s) (SummaryDag.load s).covered (SummaryDag.load s) ∅
      config.fixedOverheadTokens) = []
  condenses : (SummaryDag.load s).roots.length ≤ max config.maxRootNodes 1
  omits : ∀ entry ∈ collectEntries s,
    ((reduce (collectEntries s) (SummaryDag.load s).covered (SummaryDag.load s) config
      (2 * (collectEntries s).length) ∅)[entry.id]?).any Reduction.omittedArguments = false

theorem condense_few {owner : ActorId} {maxRoots : Nat} {draws : Nat → Draw} {dag : SummaryDag}
    (hfew : dag.roots.length ≤ max maxRoots 1) (fuel : Nat) (j : Journal) :
    condense owner maxRoots draws fuel j dag = (j, .ok dag) := by
  cases fuel with
  | zero => rfl
  | succ fuel =>
      unfold condense
      rw [if_pos hfew]

theorem commitElision_nil (j : Journal) (owner : ActorId) (entries : List BodyEntry)
    (dag : SummaryDag) (draw : Draw) : commitElision j owner entries [] dag draw = (j, .ok dag) := by
  unfold commitElision
  exact if_pos rfl

/-- Where no node is minted, a pass only caps the texts of the nodes. -/
theorem planStages_unminted {config : CompactionConfig}
    (hreadable : (SummaryDag.load j.snapshot).unreadable = 0)
    (helides : select (collectEntries j.snapshot) (SummaryDag.load j.snapshot).covered config
      (projectedTokens (collectEntries j.snapshot) (SummaryDag.load j.snapshot).covered
        (SummaryDag.load j.snapshot) ∅ config.fixedOverheadTokens) = [])
    (hcondenses : (SummaryDag.load j.snapshot).roots.length ≤ max config.maxRootNodes 1)
    (owner : ActorId) (draws : Draws) :
    planStages j owner config draws =
      let entries := collectEntries j.snapshot
      let dag := SummaryDag.load j.snapshot
      let reductions := reduce entries dag.covered dag config (2 * entries.length) ∅
      match capTexts owner entries dag.covered reductions config draws.cap dag.roots.length j dag with
      | (j, .error e) => (j, .error e)
      | (j, .ok dag') =>
        (j, .ok ⟨dag', dag.covered, reductions,
          some (projectedTokens entries dag.covered dag' reductions config.fixedOverheadTokens)⟩) := by
  unfold planStages
  dsimp only
  rw [if_neg (by rw [hreadable]; exact Nat.lt_irrefl 0), helides, commitElision_nil]
  dsimp only
  rw [condense_few hcondenses]
  rfl

/-- Over a journal where no marker is rendered that is not priced, the count of a pass bounds its
request. -/
theorem Quiet.boundsRequest {config : CompactionConfig} (hnull : Value.null.display = "null")
    (hsound : Sound j) (h : Quiet j.snapshot config) (owner : ActorId) (draws : Draws) :
    BoundsRequest config (planStages j owner config draws) := by
  intro planned projected hok hprojected hbound
  obtain ⟨j', hplan⟩ : ∃ j', planStages j owner config draws = (j', .ok planned) :=
    ⟨_, Prod.ext rfl hok⟩
  refine Nat.le_trans ?_ hbound
  rw [hplan]
  refine (sentTokens_le hnull hsound hplan hprojected).trans ?_
  have hreadable : (SummaryDag.load j.snapshot).unreadable = 0 := by
    by_contra hunreadable
    unfold planStages at hplan
    dsimp only at hplan
    rw [if_pos (Nat.pos_of_ne_zero hunreadable)] at hplan
    cases hplan
    cases hprojected
  rw [planStages_unminted hreadable h.elides h.condenses] at hplan
  dsimp only at hplan
  split at hplan
  · cases hplan
  · next hcap =>
      obtain ⟨horder, hchildren, hnodes⟩ :=
        (capTexts_onward hsound (SummaryDag.load_listed j.snapshot) hcap).2 _ rfl
      cases hplan
      have hmarkers : ∀ dag : SummaryDag, dag.order = (SummaryDag.load j.snapshot).order →
          dag.children = (SummaryDag.load j.snapshot).children →
          dag.nodes = (SummaryDag.load j.snapshot).nodes → dag.markerTokens = 0 := by
        intro dag horder hchildren hnodes
        have hroots : dag.roots = (SummaryDag.load j.snapshot).roots := by
          unfold SummaryDag.roots
          rw [horder, hchildren]
        unfold SummaryDag.markerTokens
        rw [hroots]
        refine List.sum_eq_zero_iff_forall_eq_nat.mpr fun n hn => ?_
        obtain ⟨id, hid, rfl⟩ := List.mem_map.mp hn
        refine Nat.sub_eq_zero_of_le ?_
        unfold SummaryDag.foldMarker
        rw [hnodes]
        exact h.headers id hid
      have homits : ((collectEntries j.snapshot).map (omissionTokens
          (reduce (collectEntries j.snapshot) (SummaryDag.load j.snapshot).covered
            (SummaryDag.load j.snapshot) config (2 * (collectEntries j.snapshot).length) ∅))).sum =
          0 := by
        refine List.sum_eq_zero_iff_forall_eq_nat.mpr fun n hn => ?_
        obtain ⟨entry, hentry, rfl⟩ := List.mem_map.mp hn
        unfold omissionTokens
        rw [h.omits entry hentry]
        rfl
      rw [hmarkers _ horder hchildren hnodes, homits]
      exact Nat.le_refl _

end Pass

end Omp2.Control

/-! ## A bound that fails, and one that holds -/

namespace Omp2.Control

open Omp2.Json.Compact Omp2.State Journal

/-- The document that a patch makes of an empty one. -/
def firstSnapshot (patch : Patch) : SessionSnapshot :=
  { (SessionSnapshot.applyPatch (.empty exampleSession) patch).1 with selectedBranch := mainBranch }

/-- A new journal with one patch. -/
theorem exists_first (patch : Patch) (hresult : patch.resultOffset.toNat = 1)
    (happlies : (SessionSnapshot.applyPatch (.empty exampleSession) patch).2.isOk = true)
    (hfits : (({ blank exampleSession [] with
      snapshot := { SessionSnapshot.empty exampleSession with offset := 0 } } : Journal).newRecord
        patch mainBranch 7).payload.length ≤ maxWireBytes) :
    ∃ j, Sound j ∧ j.snapshot = firstSnapshot patch := by
  obtain ⟨j₀, hcreate⟩ := exists_create_exampleSession
  have hcoherent := create_coherent hcreate
  obtain ⟨rfl, _⟩ := create_eq_ok hcreate
  obtain ⟨j, r, _, hr⟩ :=
    exists_appended_next hcoherent _ _ 0 rfl rfl rfl hresult happlies hfits
  obtain ⟨s, happly, hsnapshot⟩ := hr.applied
  refine ⟨j, ⟨_, _, hr.coherent⟩, ?_⟩
  unfold firstSnapshot
  rw [hsnapshot, show SessionSnapshot.applyPatch (.empty exampleSession) patch = (s, .ok ()) from
    happly]
  rfl

/-- The node that a pass has made for the first message. -/
def firstNode : SummaryNode where
  covered := [⟨"first", Eq.refl true⟩]
  children := []
  coveredTokens := 2
  createdOffset := 0

/-- Two messages of the user, the first of which is elided. -/
def elidedPatch : Patch where
  baseOffset := 0
  resultOffset := 1
  author := .actor owner
  reason := "two turns"
  ops := [
    .create (staticId "body") 0
      { ElementSnapshot.new ⟨"first", Eq.refl true⟩ "user" with text := "Hello" },
    .create (staticId "body") 1 (ElementSnapshot.new ⟨"second", Eq.refl true⟩ "user"),
    .create (staticId "summaries") 0 (firstNode.toElement
      ⟨"sum-018f6b2c-7a51-7c3e-9d42-5b8e0f1a2c3d", Eq.refl true⟩ .leaf
      "Elided transcript elements (originals retrievable by id):\n- user: Hello\n")]

/-- A configuration whose bounds are what is counted for these messages. -/
def exactConfig : CompactionConfig where
  budget := ⟨42, 42⟩
  keepRecentTurns := 2
  maxRootNodes := 8
  fixedOverheadTokens := 0

/-- The count of a pass over the elided message is the bound, and the marker of its fold, which
names the node, exceeds the bound. -/
theorem not_boundsRequest_elided : ¬ ∀ (j : Journal) (config : CompactionConfig) (owner : ActorId)
    (draws : Draws), Sound j → BoundsRequest config (planStages j owner config draws) := by
  intro h
  obtain ⟨j, hsound, hsnapshot⟩ :=
    exists_first elidedPatch rfl (by decide +kernel) (fits_of_draft (by decide +kernel))
  have hcount : projectedTokens (collectEntries (firstSnapshot elidedPatch))
      (SummaryDag.load (firstSnapshot elidedPatch)).covered
      (SummaryDag.load (firstSnapshot elidedPatch)) ∅ exactConfig.fixedOverheadTokens ≤
        exactConfig.budget.hardTokens := by
    decide +kernel
  have hplan : planStages j owner exactConfig (obedientDraws ⟨"minted", Eq.refl true⟩) = _ :=
    planStages_unminted (by rw [hsnapshot]; decide +kernel) (by rw [hsnapshot]; decide +kernel)
      (by rw [hsnapshot]; decide +kernel) owner _
  rw [hsnapshot] at hplan
  dsimp only at hplan
  rw [reduce_within hcount, capTexts_within hcount] at hplan
  have hbound := h j exactConfig owner (obedientDraws ⟨"minted", Eq.refl true⟩) hsound
  rw [hplan] at hbound
  have hsent := hbound _ _ rfl rfl hcount
  rw [hsnapshot] at hsent
  exact absurd hsent (by decide +kernel)

/-- A configuration that has room for these messages. -/
def roomyConfig : CompactionConfig where
  budget := ⟨100, 200⟩
  keepRecentTurns := 1
  maxRootNodes := 8
  fixedOverheadTokens := 0

/-- Two messages make no marker. -/
theorem boundsRequest_messages : ∃ j : Journal, Sound j ∧
    BoundsRequest roomyConfig
      (planStages j owner roomyConfig (obedientDraws ⟨"minted", Eq.refl true⟩)) := by
  obtain ⟨j, hsound, hsnapshot⟩ :=
    exists_first messagesPatch rfl (by decide +kernel) (fits_of_draft (by decide +kernel))
  have hquiet : Quiet (firstSnapshot messagesPatch) roomyConfig :=
    ⟨by decide +kernel, by decide +kernel, by decide +kernel, by decide +kernel⟩
  exact ⟨j, hsound, Quiet.boundsRequest (by decide +kernel) hsound (hsnapshot ▸ hquiet) owner _⟩

end Omp2.Control
