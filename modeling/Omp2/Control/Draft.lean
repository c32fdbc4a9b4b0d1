import Omp2.Control.Turn

/-!
# The host over a document

What the parts of a call do to the document alone, for a file that obeys and patches that are known
to fit into a frame. A journal that is open for appends does with its document what is computed here
without it.
-/

namespace Omp2.Control

open Omp2.Json Omp2.Json.Compact Omp2.State Journal

/-- A journal that is open for appends, with its document. -/
structure Ready (j : Journal) (s : SessionSnapshot) : Prop where
  sound : Sound j
  failed : j.failed = false
  recovery : j.recovery = none
  snapshot : j.snapshot = s

theorem exists_ready (sessionId : SessionId) {j : Journal}
    (hcreate : Journal.create sessionId = .ok j) : Ready j (.empty sessionId) := by
  have hcoherent := create_coherent hcreate
  obtain ⟨rfl, _⟩ := create_eq_ok hcreate
  exact ⟨⟨_, _, hcoherent⟩, rfl, rfl, rfl⟩

namespace Draft

/-- The outcome of a part of a call on the document, where it is known. -/
abbrev Outcome (α : Type) : Type := Option (SessionSnapshot × Except Stop α)

/-- The next part, after one that has not stopped. -/
def Outcome.next {α β : Type} (outcome : Outcome α) (f : SessionSnapshot → α → Outcome β) :
    Outcome β :=
  match outcome with
  | some (s, .ok a) => f s a
  | some (s, .error stop) => some (s, .error stop)
  | none => none

/-- The record of a patch is known to fit into a frame. -/
def fits (s : SessionSnapshot) (patch : Patch) (now : UInt64) : Bool :=
  decide (bytesBound (toValue (({ blank s.sessionId [] with snapshot := s } : Journal).draft patch
    s.selectedBranch now)) + 24 * 64 ≤ maxWireBytes)

/-- `commitPatch` on the document. -/
def commitPatch (s : SessionSnapshot) (patch : Patch) : Option Outside → Outcome Unit
  | some ⟨.ok now, .done⟩ =>
    if patch.resultOffset = s.offset + 1 ∧ fits s patch now then
      match s.applyPatch patch with
      | (_, .error e) => some (s, .error (.failed e.structured))
      | (s', .ok ()) => some ({ s' with selectedBranch := s.selectedBranch }, .ok ())
    else none
  | _ => none

/-- `commit` on the document. -/
def commit (s : SessionSnapshot) (owner : ActorId) (reason : String) (ops : List PatchOp)
    (world : Option Outside) : Outcome Unit :=
  commitPatch s ⟨s.offset, s.offset + 1, .actor owner, reason, ops⟩ world

/-- `appendElement` on the document. -/
def appendElement (s : SessionSnapshot) (owner : ActorId) (reason : String)
    (element : ElementSnapshot) (more : List PatchOp) (world : Option Outside) : Outcome Unit :=
  commit s owner reason (.create (staticId "body")
    (UInt32.ofNat s.getVisibleBody.length) element :: more) world

/-- `flush_stream_buffers` on the document. -/
def flushStreamBuffers (s : SessionSnapshot) (owner : ActorId) (element : ElementId)
    (flush : Flush) : Outcome Unit :=
  if flush.text.isEmpty && flush.thinking.isEmpty then some (s, .ok ())
  else commit s owner "assistant stream delta" (flushOps s element flush) flush.world

/-- The spills on the document. -/
def streamAll (owner : ActorId) (element : ElementId) : SessionSnapshot → List Flush → Outcome Unit
  | s, [] => some (s, .ok ())
  | s, flush :: rest =>
    (flushStreamBuffers s owner element flush).next fun s _ => streamAll owner element s rest

/-- `settleTurn` on the document. -/
def settleTurn (s : SessionSnapshot) (owner : ActorId) (w : Inference)
    (result : Except StructuredError CanonicalTurn) : Outcome CanonicalTurn :=
  (flushStreamBuffers s owner w.element w.last).next fun s _ =>
    (commit s owner "settle assistant stream" (settleTurnOps s w.element w.diag result)
      w.settled).next fun s _ => some (s, result.mapError .failed)

/-- `infer_assistant_turn` on the document, for a stream whose spills are taken. -/
def inferAssistantTurn (s : SessionSnapshot) (owner : ActorId) (w : Inference) :
    Outcome CanonicalTurn :=
  (appendElement s owner "start assistant stream" (assistantElement w.element) [] w.started).next
    fun s _ =>
      match streamAll owner w.element s w.flushes with
      | some (s, .ok ()) => settleTurn s owner w w.result
      | _ => none

/-- `execute_tool_inner` on the document, for a tool that journals nothing itself. -/
def executeToolInner (s : SessionSnapshot) (owner : ActorId) (name : String) (input : Value)
    (callId : Option ToolCallId) (w : Invocation) : Outcome ToolCallId :=
  let callId := callId.getD w.mintedCall
  if w.work.isEmpty then
    (appendElement s owner ("invoke tool " ++ name) (toolCallElement w.element callId name input)
      [.create w.element 0 (inputElement w.input input)] w.invoked).next fun s _ =>
        (commit s owner ("settle tool " ++ name)
          (settleToolOps w.element (settledResult w.execution) w.minted) w.settled).next
            fun s _ => some (s, .ok callId)
  else none

/-- A part of a call on the document, where it is known. -/
def perform (owner : ActorId) (s : SessionSnapshot) : Activity → Outcome Unit
  | .userMessage id message world =>
    appendElement s owner "user turn" (userElement id message) [] world
  | .plan none _ => some (s, .ok ())
  | .infer w => (inferAssistantTurn s owner w).next fun s _ => some (s, .ok ())
  | .tool name input callId w =>
    (executeToolInner s owner name input callId w).next fun s _ => some (s, .ok ())
  | .work work => commitPatch s work.patch work.world
  | .refuse e => some (s, .error (.failed e))
  | .steering .. | .plan (some _) _ => none

/-- The parts of a call on the document. -/
def execute (owner : ActorId) : SessionSnapshot → List Activity → Outcome Unit
  | s, [] => some (s, .ok ())
  | s, activity :: rest => (perform owner s activity).next fun s _ => execute owner s rest

end Draft

/-- The journal does what its document does: it ends with this result, and open for appends. -/
def Follows {α : Type} (outcome : Draft.Outcome α) (actual : Journal × Except Stop α) : Prop :=
  ∀ s result, outcome = some (s, result) → Ready actual.1 s ∧ actual.2 = result

section Following

variable {j : Journal} {s : SessionSnapshot} (owner : ActorId)

theorem Ready.nextOffset (h : Ready j s) : j.nextOffset = s.offset + 1 := by
  obtain ⟨_, log, hlog⟩ := h.sound
  have hoffset : s.offset.toNat = log.length := by
    rw [← h.snapshot]
    exact (hlog.at_version hlog.live).offset
  have hlatest : j.latestOffset = s.offset :=
    UInt64.toNat_inj.mp (hlog.latestOffset.trans hoffset.symm)
  unfold Journal.nextOffset
  rw [hlatest]

/-- A patch that does not apply is refused and leaves the journal alone. -/
theorem Ready.refused {s₁ : SessionSnapshot} {patch : Patch} {now : UInt64} {e : StateError}
    (h : Ready j s) (hnext : patch.resultOffset = j.nextOffset)
    (hfits : (j.newRecord patch j.snapshot.selectedBranch now).payload.length ≤ maxWireBytes)
    (happly : s.applyPatch patch = (s₁, .error e)) :
    j.appendPatch patch ⟨.ok now, .done⟩ = (j, .error e) := by
  have hopen : ¬ (j.failed = true ∨ j.recovery.isSome = true) := by
    simp [h.failed, h.recovery]
  have hshort := Nat.not_lt.mpr hfits
  unfold JournalRecord.payload at hshort
  have hsame : s₁ = s := by
    rcases SessionSnapshot.applyPatch_cases (h.snapshot ▸ h.sound.wellFormed) happly with
      ⟨hok, _⟩ | ⟨_, hsame⟩
    · cases hok
    · exact hsame
  unfold appendPatch appendOn
  rw [if_neg hopen, if_neg (not_not.mpr hnext)]
  dsimp only
  rw [if_neg hshort, show (j.newRecord patch j.snapshot.selectedBranch now).patch = patch from rfl,
    h.snapshot, happly, hsame, ← h.snapshot]

/-- A patch that is known to fit is appended when it applies, and refused otherwise. -/
theorem Ready.commitPatch (h : Ready j s) (patch : Patch) (world : Option Outside) :
    Follows (Draft.commitPatch s patch world) (Control.commitPatch j patch world) := by
  intro s' result houtcome
  unfold Draft.commitPatch at houtcome
  split at houtcome
  · next now =>
    split at houtcome
    · next hnext =>
      obtain ⟨hresult, hfits⟩ := hnext
      have hoffset : patch.resultOffset = j.nextOffset := hresult.trans h.nextOffset.symm
      have hshort : (j.newRecord patch j.snapshot.selectedBranch now).payload.length ≤
          maxWireBytes := by
        rw [h.snapshot, show j.newRecord patch s.selectedBranch now =
          ({ blank s.sessionId [] with snapshot := s } : Journal).newRecord patch
            s.selectedBranch now by unfold newRecord; rw [h.snapshot]]
        exact fits_of_draft (of_decide_eq_true hfits)
      unfold Control.commitPatch
      dsimp only
      split at houtcome
      · next s₁ e happly =>
        cases houtcome
        rw [h.refused hoffset hshort happly]
        exact ⟨h, rfl⟩
      · next s₁ happly =>
        cases houtcome
        obtain ⟨_, log, hlog⟩ := h.sound
        obtain ⟨j', r, happend, hr⟩ := exists_appended hlog h.failed h.recovery hoffset
          (h.snapshot.symm ▸ happly) hshort
        rw [happend]
        refine ⟨⟨⟨_, _, hr.coherent⟩, hr.failed.trans h.failed,
          hr.recovery.trans h.recovery, ?_⟩, rfl⟩
        obtain ⟨s₂, happly₂, hsnapshot⟩ := hr.applied
        rw [h.snapshot, happly] at happly₂
        cases happly₂
        rw [hsnapshot, h.snapshot]
    · cases houtcome
  · cases houtcome

/-- A part that stops is not followed by another. -/
theorem Follows.stopped {α β : Type} {outcome : Draft.Outcome α}
    {f : SessionSnapshot → α → Draft.Outcome β} {stop : Stop}
    (h : Follows outcome (j, .error stop)) :
    Follows (outcome.next f) (j, .error stop) := by
  intro s' result hnext
  rcases outcome with _ | ⟨s, stop' | a⟩
  · cases hnext
  · obtain ⟨hready, hresult⟩ := h s _ rfl
    cases hresult
    cases hnext
    exact ⟨hready, rfl⟩
  · obtain ⟨_, hresult⟩ := h s _ rfl
    cases hresult

/-- A part that does not stop is followed by another. -/
theorem Follows.passed {α β : Type} {outcome : Draft.Outcome α} {a : α}
    {f : SessionSnapshot → α → Draft.Outcome β} {last : Journal × Except Stop β}
    (h : Follows outcome (j, .ok a)) (hok : ∀ s, Ready j s → Follows (f s a) last) :
    Follows (outcome.next f) last := by
  intro s' result hnext
  rcases outcome with _ | ⟨s, stop | a'⟩
  · cases hnext
  · obtain ⟨_, hresult⟩ := h s _ rfl
    cases hresult
  · obtain ⟨hready, hresult⟩ := h s _ rfl
    cases hresult
    exact hok s hready s' result hnext

theorem Ready.follows {α : Type} (h : Ready j s) (result : Except Stop α) :
    Follows (some (s, result)) (j, result) := by
  rintro s' result' heq
  cases heq
  exact ⟨h, rfl⟩

theorem Ready.commit (h : Ready j s) (reason : String) (ops : List PatchOp)
    (world : Option Outside) : Follows (Draft.commit s owner reason ops world)
      (Control.commit j owner j.snapshot.offset reason ops world) := by
  unfold Draft.commit Control.commit
  dsimp only
  rw [h.nextOffset, h.snapshot]
  exact h.commitPatch _ _

theorem Ready.appendElement (h : Ready j s) (reason : String) (element : ElementSnapshot)
    (more : List PatchOp) (world : Option Outside) :
    Follows (Draft.appendElement s owner reason element more world)
      (Control.appendElement j owner j.snapshot.offset reason element more world) := by
  unfold Draft.appendElement Control.appendElement
  have hcommit := h.commit owner reason (.create (staticId "body")
    (UInt32.ofNat s.getVisibleBody.length) element :: more) world
  rw [h.snapshot] at hcommit ⊢
  exact hcommit

theorem Ready.flushStreamBuffers (h : Ready j s) (element : ElementId) (flush : Flush) :
    Follows (Draft.flushStreamBuffers s owner element flush)
      (Control.flushStreamBuffers j owner element flush) := by
  unfold Draft.flushStreamBuffers Control.flushStreamBuffers
  split
  · exact h.follows _
  · have hcommit := h.commit owner "assistant stream delta" (flushOps s element flush)
      flush.world
    rw [h.snapshot] at hcommit ⊢
    exact hcommit

theorem Ready.streamAll (h : Ready j s) (element : ElementId) (flushes : List Flush) :
    Follows (Draft.streamAll owner element s flushes)
      (Control.streamAll owner element j flushes) := by
  induction flushes generalizing j s with
  | nil => exact h.follows _
  | cons flush rest ih =>
      unfold Draft.streamAll Control.streamAll
      have hflush := h.flushStreamBuffers owner element flush
      rcases hfirst : Control.flushStreamBuffers j owner element flush with ⟨j₁, stop | ⟨⟩⟩
      · rw [hfirst] at hflush
        exact hflush.stopped
      · rw [hfirst] at hflush
        exact hflush.passed fun _ hready => ih hready

theorem Ready.settleTurn (h : Ready j s) (w : Inference)
    (result : Except StructuredError CanonicalTurn) :
    Follows (Draft.settleTurn s owner w result) (Control.settleTurn j owner w result) := by
  unfold Draft.settleTurn Control.settleTurn
  have hflush := h.flushStreamBuffers owner w.element w.last
  rcases hfirst : Control.flushStreamBuffers j owner w.element w.last with ⟨j₁, stop | ⟨⟩⟩
  · rw [hfirst] at hflush
    exact hflush.stopped
  · rw [hfirst] at hflush
    refine hflush.passed fun s₁ hready => ?_
    have hcommit := hready.commit owner "settle assistant stream"
      (settleTurnOps s₁ w.element w.diag result) w.settled
    dsimp only at hcommit ⊢
    rw [show j₁.snapshot = s₁ from hready.snapshot] at hcommit ⊢
    rcases hsecond : Control.commit j₁ owner s₁.offset "settle assistant stream"
        (settleTurnOps s₁ w.element w.diag result) w.settled with ⟨j₂, stop | ⟨⟩⟩
    · rw [hsecond] at hcommit
      exact hcommit.stopped
    · rw [hsecond] at hcommit
      exact hcommit.passed fun _ hready => hready.follows _

theorem Ready.inferAssistantTurn (h : Ready j s) (w : Inference) :
    Follows (Draft.inferAssistantTurn s owner w) (Control.inferAssistantTurn j owner w) := by
  unfold Draft.inferAssistantTurn Control.inferAssistantTurn
  have hstart := h.appendElement owner "start assistant stream"
    (assistantElement w.element) [] w.started
  rcases hfirst : Control.appendElement j owner j.snapshot.offset "start assistant stream"
      (assistantElement w.element) [] w.started with ⟨j₁, stop | ⟨⟩⟩
  · rw [hfirst] at hstart
    exact hstart.stopped
  · rw [hfirst] at hstart
    refine hstart.passed fun s₁ hready => ?_
    have hstream := hready.streamAll owner w.element w.flushes
    intro s' result houtcome
    split at houtcome
    · next s₂ hdraft =>
      obtain ⟨hready₂, hresult⟩ := hstream s₂ _ hdraft
      dsimp only at hready₂ hresult ⊢
      rcases hsecond : Control.streamAll owner w.element j₁ w.flushes with ⟨j₂, stop | ⟨⟩⟩
      · rw [hsecond] at hresult
        cases hresult
      · rw [hsecond] at hready₂
        exact hready₂.settleTurn owner w w.result s' result houtcome
    · cases houtcome

theorem Ready.executeToolInner (h : Ready j s) (name : String) (input : Value)
    (callId : Option ToolCallId) (w : Invocation) :
    Follows (Draft.executeToolInner s owner name input callId w)
      (Control.executeToolInner j owner name input callId w) := by
  unfold Draft.executeToolInner
  dsimp only
  split
  · next hwork =>
    unfold Control.executeToolInner invokeTool
    dsimp only
    rw [List.isEmpty_iff.mp hwork]
    have hinvoke := h.appendElement owner ("invoke tool " ++ name)
      (toolCallElement w.element (callId.getD w.mintedCall) name input)
      [.create w.element 0 (inputElement w.input input)] w.invoked
    rcases hfirst : Control.appendElement j owner j.snapshot.offset ("invoke tool " ++ name)
        (toolCallElement w.element (callId.getD w.mintedCall) name input)
        [.create w.element 0 (inputElement w.input input)] w.invoked with ⟨j₁, stop | ⟨⟩⟩
    · rw [hfirst] at hinvoke
      exact hinvoke.stopped
    · rw [hfirst] at hinvoke
      refine hinvoke.passed fun s₁ hready => ?_
      have hsettle := hready.commit owner ("settle tool " ++ name)
        (settleToolOps w.element (settledResult w.execution) w.minted) w.settled
      unfold workAll settleTool
      dsimp only at hsettle ⊢
      rcases hsecond : Control.commit j₁ owner j₁.snapshot.offset ("settle tool " ++ name)
          (settleToolOps w.element (settledResult w.execution) w.minted) w.settled with
        ⟨j₂, stop | ⟨⟩⟩
      · rw [hsecond] at hsettle
        exact hsettle.stopped
      · rw [hsecond] at hsettle
        exact hsettle.passed fun _ hready => hready.follows _
  · rintro s' result heq
    cases heq

/-- A part of a call does with the journal what it does with the document. -/
theorem Ready.perform (h : Ready j s) (activity : Activity) :
    Follows (Draft.perform owner s activity) (Control.perform owner j activity) := by
  unfold Draft.perform Control.perform
  cases activity with
  | userMessage id message world => exact h.appendElement owner _ _ _ _
  | steering id prompt world => exact fun _ _ heq => by cases heq
  | plan config draws =>
      cases config with
      | none => exact h.follows _
      | some config => exact fun _ _ heq => by cases heq
  | infer w =>
      have hinfer := h.inferAssistantTurn owner w
      dsimp only
      rcases hresult : Control.inferAssistantTurn j owner w with ⟨j₁, stop | turn⟩
      · rw [hresult] at hinfer
        exact hinfer.stopped
      · rw [hresult] at hinfer
        exact hinfer.passed fun _ hready => hready.follows _
  | tool name input callId w =>
      have htool := h.executeToolInner owner name input callId w
      dsimp only
      rcases hresult : Control.executeToolInner j owner name input callId w with ⟨j₁, stop | call⟩
      · rw [hresult] at htool
        exact htool.stopped
      · rw [hresult] at htool
        exact htool.passed fun _ hready => hready.follows _
  | work work => exact h.commitPatch _ _
  | refuse e => exact h.follows _

/-- The parts of a call do with the journal what they do with the document. -/
theorem Ready.execute (h : Ready j s) (activities : List Activity) :
    Follows (Draft.execute owner s activities) (Control.execute owner j activities) := by
  induction activities generalizing j s with
  | nil => exact h.follows _
  | cons activity rest ih =>
      unfold Draft.execute Control.execute
      have hperform := h.perform owner activity
      rcases hresult : Control.perform owner j activity with ⟨j₁, stop | ⟨⟩⟩
      · rw [hresult] at hperform
        exact hperform.stopped
      · rw [hresult] at hperform
        exact hperform.passed fun _ hready => ih hready

end Following

end Omp2.Control
