import Omp2.Control.Attribution
import Omp2.State.Accepted

/-!
# Settling what a call has begun

An append of the host is taken when the file obeys, the patch keeps the limits of a patch and of a
frame, and its operations apply. The operations that spill and settle the elements of a call always
apply, as long as the identifiers that they bring are fresh, so the limits alone decide.
-/

namespace Omp2.Control

open Omp2.Json Omp2.State SessionSnapshot Journal

section Taken

variable [SerdeJson] {j j' : Journal} {owner : ActorId}

/-! ## Appends that are taken -/

/-- The journal is open for appends. -/
structure Usable (j : Journal) : Prop where
  failed : j.failed = false
  recovery : j.recovery = none

/-- The file obeys and the clock is read. -/
def Obeys (world : Option Outside) : Prop :=
  ∃ now, world = some ⟨.ok now, .done⟩

/-- The patch that the host appends. -/
def hostPatch (j : Journal) (owner : ActorId) (reason : String) (ops : List PatchOp) : Patch where
  baseOffset := j.snapshot.offset
  resultOffset := j.nextOffset
  author := .actor owner
  reason
  ops

/-- The patch keeps its limits, and its record fits into a frame. -/
def WithinLimits (j : Journal) (patch : Patch) (world : Option Outside) : Prop :=
  patch.validate = .ok () ∧ ∀ now, world = some ⟨.ok now, .done⟩ →
    (j.newRecord patch j.snapshot.selectedBranch now).payload.length ≤ maxWireBytes

/-- An append to an obedient file leaves the journal open. -/
theorem commitPatch_open {patch : Patch} {world : Option Outside} (hworld : Obeys world)
    (h : Usable j) : Usable (commitPatch j patch world).1 := by
  obtain ⟨now, rfl⟩ := hworld
  have happend : Usable (j.appendPatch patch ⟨.ok now, .done⟩).1 := by
    unfold appendPatch appendOn
    dsimp only
    split
    · exact h
    · split
      · exact h
      · split
        · exact h
        · next hshort =>
          split
          · exact ⟨h.failed, h.recovery⟩
          · unfold writeFrame
            dsimp only
            rw [if_neg hshort]
            exact ⟨h.failed, h.recovery⟩
  unfold commitPatch
  dsimp only
  split
  · next hresult =>
    rw [hresult] at happend
    exact happend
  · next hresult =>
    rw [hresult] at happend
    exact happend

/-- An append that has been taken finds the journal open, and leaves it so. -/
theorem open_of_taken {patch : Patch} {world : Option Outside}
    (h : commitPatch j patch world = (j', .ok ())) : Usable j' := by
  unfold commitPatch at h
  split at h
  · cases h
  · split at h
    · cases h
    · next world j₁ offset happend =>
      cases h
      unfold appendPatch appendOn at happend
      dsimp only at happend
      split at happend
      · cases happend
      · next hopen =>
        have hopen' : Usable j := by
          refine ⟨?_, ?_⟩
          · exact Bool.eq_false_iff.mpr fun hfailed => hopen (.inl hfailed)
          · exact Option.not_isSome_iff_eq_none.mp fun hrecovery => hopen (.inr hrecovery)
        split at happend
        · cases happend
        · split at happend
          · cases happend
          · split at happend
            · cases happend
            · split at happend
              · cases happend
              · split at happend
                · cases happend
                  exact ⟨hopen'.failed, hopen'.recovery⟩
                · split at happend <;> cases happend

/-- An append of the host that has been taken is within the limits. -/
theorem withinLimits_of_taken {reason : String} {ops : List PatchOp} {world : Option Outside}
    (hsound : Sound j) (hopen : Usable j) (hworld : Obeys world)
    (htaken : (commit j owner j.snapshot.offset reason ops world).2 = .ok ()) :
    WithinLimits j (hostPatch j owner reason ops) world := by
  obtain ⟨now, rfl⟩ := hworld
  have hcommit : commit j owner j.snapshot.offset reason ops (some ⟨.ok now, .done⟩) =
      commitPatch j (hostPatch j owner reason ops) (some ⟨.ok now, .done⟩) := rfl
  rw [hcommit] at htaken
  have hfits : ¬ maxWireBytes < (SerdeJson.toVec (toValue
      (j.newRecord (hostPatch j owner reason ops) j.snapshot.selectedBranch now))).length := by
    intro hlong
    unfold commitPatch appendPatch appendOn at htaken
    dsimp only at htaken
    have hnext : ¬ (hostPatch j owner reason ops).resultOffset ≠ j.nextOffset := not_not.mpr rfl
    rw [if_neg (by simp [hopen.failed, hopen.recovery]), if_neg hnext, if_pos hlong] at htaken
    cases htaken
  refine ⟨?_, fun now' hnow => ?_⟩
  · cases happend : commitPatch j (hostPatch j owner reason ops) (some ⟨.ok now, .done⟩) with
    | mk j' result =>
      rw [happend] at htaken
      obtain rfl : result = .ok () := htaken
      unfold commitPatch at happend
      dsimp only at happend
      split at happend
      · cases happend
      · next j₁ offset hok =>
        obtain ⟨_, hcases⟩ := hsound.append_cases hok
        rcases hcases with ⟨s₁, _, _, _, happly, _⟩ | ⟨⟨_, herror⟩, _⟩
        · exact (applyPatch_ok happly).1
        · cases herror
  · cases hnow
    exact Nat.le_of_not_lt hfits

/-- An append of the host whose operations apply is taken exactly within the limits. -/
theorem commit_taken_iff {reason : String} {ops : List PatchOp} {world : Option Outside}
    {s : SessionSnapshot} (hsound : Sound j) (hopen : Usable j) (hworld : Obeys world)
    (happlies : j.snapshot.applyOps [] ops = (s, .ok ())) :
    (commit j owner j.snapshot.offset reason ops world).2 = .ok () ↔
      WithinLimits j (hostPatch j owner reason ops) world := by
  refine ⟨withinLimits_of_taken hsound hopen hworld, ?_⟩
  rintro ⟨hvalid, hfits⟩
  obtain ⟨now, rfl⟩ := hworld
  obtain ⟨_, log, hlog⟩ := hsound
  have hpatch : j.snapshot.applyPatch (hostPatch j owner reason ops) =
      ({ s with offset := j.nextOffset }, .ok ()) := by
    unfold applyPatch
    have hbase : ¬ (hostPatch j owner reason ops).baseOffset ≠ j.snapshot.offset :=
      not_not.mpr rfl
    have hops : j.snapshot.applyOps [] (hostPatch j owner reason ops).ops = (s, .ok ()) := happlies
    rw [hvalid]
    dsimp only
    rw [if_neg hbase, hops]
    rfl
  obtain ⟨j', r, happend, _⟩ := exists_appended hlog hopen.failed hopen.recovery rfl hpatch
    (hfits now rfl)
  have hcommit : commit j owner j.snapshot.offset reason ops (some ⟨.ok now, .done⟩) =
      commitPatch j (hostPatch j owner reason ops) (some ⟨.ok now, .done⟩) := rfl
  rw [hcommit]
  unfold commitPatch
  dsimp only
  rw [happend]

/-! ## Tool calls -/

omit [SerdeJson] in
/-- The one result among the elements that settle a call is the output of the tool. -/
theorem settledChildren_result (result : ToolExecutionResult) (minted : Nat → ElementId)
    (c : ElementSnapshot) : c ∈ settledChildren result minted ∧ c.kind = "result" ↔
      c = resultElement (minted 0) result.output := by
  unfold settledChildren
  dsimp only
  rw [List.append_assoc, List.append_assoc, List.singleton_append, List.zipIdx_cons, List.map_cons,
    List.mem_cons]
  constructor
  · rintro ⟨rfl | hrest, hkind⟩
    · rfl
    · obtain ⟨⟨child, index⟩, hchild, rfl⟩ := List.mem_map.mp hrest
      have hmem := List.fst_mem_of_mem_zipIdx hchild
      simp only [List.mem_append, List.mem_map] at hmem
      rcases hmem with ⟨diagnostic, _, rfl⟩ | ⟨usage, _, rfl⟩ | ⟨artifact, _, rfl⟩
      · exact absurd hkind (show "diag" ≠ "result" by decide)
      · exact absurd hkind (show "usage" ≠ "result" by decide)
      · exact absurd hkind (show "artifact_ref" ≠ "result" by decide)
  · rintro rfl
    exact ⟨.inl rfl, rfl⟩

omit [SerdeJson] in
/-- What settles a call adds its outcome to what the element holds. -/
theorem exists_settleTool {s : SessionSnapshot} {e : ElementSnapshot} (hwf : WellFormed s)
    (he : e ∈ s.getVisibleBody) (hheld : s.children e.id ≠ []) (result : ToolExecutionResult)
    (minted : Nat → ElementId)
    (hfresh : ∀ c ∈ settledChildren result minted, c.id ∉ s.usedIds)
    (hapart : ((settledChildren result minted).map ElementSnapshot.id).Nodup) :
    ∃ s', s.applyOps [] (settleToolOps e.id result minted) = (s', .ok ()) ∧
      ∀ c, c ∈ s'.children e.id ↔ c ∈ s.children e.id ∨ c ∈ settledChildren result minted := by
  have hwrites : PatchOp.WritesTo e.id
      (.setAttribute e.id "status" (.string (toolStatus result))) := ⟨rfl, id⟩
  obtain ⟨s₁, u, happly, hplaces⟩ := exists_writeTo hwf he hwrites
  have hwf₁ := hwf.applyOne happly
  obtain ⟨e₁, he₁, hid⟩ := hplaces.child he
  have hup : ∃ n, s₁.nodes[e.id]? = some n := by
    obtain ⟨n, hn, _⟩ := (mem_children_iff hwf₁).mp he₁
    exact ⟨n, hid ▸ hn⟩
  have hstart : 0 + 1 ≤ (s₁.children e.id).length := by
    rw [hplaces.length]
    exact List.length_pos_iff.mpr hheld
  have hfresh₁ : ∀ c ∈ settledChildren result minted, c.id ∉ s₁.usedIds :=
    fun c hc => hplaces.used ▸ hfresh c hc
  obtain ⟨s', hs', hchildren⟩ := exists_creates [u] hwf₁ hup hstart hfresh₁ hapart
  refine ⟨s', ?_, fun c => (hchildren c).trans (or_congr_left ?_)⟩
  · unfold settleToolOps
    dsimp only
    rw [SessionSnapshot.applyOps]
    unfold toolStatus at happly
    rw [happly]
    exact hs'
  · -- the status is written to the call, which is none of the elements that it holds
    have hback : ∀ c ∈ s₁.children e.id, c ∈ s.children e.id := by
      intro c hc
      obtain ⟨c₀, hc₀, _, hsame⟩ := applyOne_mem_children hwf happly (by rintro ⟨⟩) hc
      refine hsame (fun heq => ?_) ▸ hc₀
      have hid' : c.id = e₁.id := (Option.some.inj heq).symm.trans hid.symm
      exact body_ne hwf he (eq_of_mem_children hwf₁ hc he₁ hid').2
    refine ⟨hback c, fun hc => ?_⟩
    obtain ⟨c', hc', hid'⟩ := hplaces.child hc
    exact (eq_of_mem_children hwf (hback c' hc') hc hid').1 ▸ hc'

/-- The elements are new to the document, and no two have the same identifier. -/
structure Fresh (s : SessionSnapshot) (elements : List ElementSnapshot) : Prop where
  unused : ∀ c ∈ elements, c.id ∉ s.usedIds
  apart : (elements.map ElementSnapshot.id).Nodup

/-- A call that has been journaled holds its input alone. -/
theorem invoked_children {name : String} {input : Value} {callId : ToolCallId} {w : Invocation}
    (hsound : Sound j) (hinvoke : invokeTool j owner name input callId w = (j', .ok ()))
    (c : ElementSnapshot) :
    c ∈ j'.snapshot.children w.element ↔ c = inputElement w.input input := by
  obtain ⟨_, hcases⟩ := commitPatch_cases hsound hinvoke
  rcases hcases with ⟨_, s, hops, hchildren⟩ | ⟨⟨_, hstop⟩, _⟩
  · rw [hchildren]
    dsimp only at hops
    unfold applyOps at hops
    split at hops
    · next s₁ u₁ hcall =>
      unfold applyOps at hops
      split at hops
      · next s₂ u₂ hinput =>
        cases hops
        have hwf₁ := hsound.wellFormed.applyOne hcall
        have hnode := (applyCreate_created hsound.wellFormed hcall).node
        have hempty : s₁.children w.element = [] := by
          unfold SessionSnapshot.children
          rw [show s₁.nodes[w.element]? = _ from hnode]
          rfl
        rw [(applyCreate_created hwf₁ hinput).children.mem_iff, hempty, List.mem_singleton]
      · cases hops
    · cases hops
  · cases hstop

/-- The call has been settled: it has succeeded or failed, and it holds one result. -/
structure CallSettled (s : SessionSnapshot) (e : ElementSnapshot) : Prop where
  status : e.attributes["status"]? = some (.string "succeeded") ∨
    e.attributes["status"]? = some (.string "failed")
  result : ∃! c, c ∈ s.children e.id ∧ c.kind = "result"

/-- The journal when the outcome of a tool is about to be journaled. -/
def ranTool (j : Journal) (owner : ActorId) (name : String) (input : Value)
    (callId : Option ToolCallId) (w : Invocation) : Journal :=
  workAll (invokeTool j owner name input (callId.getD w.mintedCall) w).1 w.work

/-- What the outside does for a tool call: the other parts of the host touch no element of the
body, the file obeys, and the minted identifiers are new. -/
structure ToolSane (owner : ActorId) (j : Journal) (name : String) (input : Value)
    (callId : Option ToolCallId) (w : Invocation) : Prop where
  offside : Machine.Along workStep (fun j work => work.Offside j)
    (invokeTool j owner name input (callId.getD w.mintedCall) w).1 w.work
  obeys : Machine.Along workStep (fun _ work => Obeys work.world)
    (invokeTool j owner name input (callId.getD w.mintedCall) w).1 w.work
  settled : Obeys w.settled
  fresh : Fresh (ranTool j owner name input callId w).snapshot
    (settledChildren (settledResult w.execution) w.minted)

/-- The outcome of a tool call is within the limits of a patch and of a frame. -/
def ToolLimited (owner : ActorId) (j : Journal) (name : String) (input : Value)
    (callId : Option ToolCallId) (w : Invocation) : Prop :=
  let ran := ranTool j owner name input callId w
  WithinLimits ran (hostPatch ran owner ("settle tool " ++ name)
    (settleToolOps w.element (settledResult w.execution) w.minted)) w.settled

theorem workAll_open {works : List Work} (hopen : Usable j)
    (hobeys : Machine.Along workStep (fun _ work => Obeys work.world) j works) :
    Usable (workAll j works) := by
  rw [workAll_eq]
  exact Machine.invariant_along (P := Usable) (fun j' work h hwork => commitPatch_open hwork h) hopen
    hobeys

omit [SerdeJson] in
/-- What settles a call is about its element. -/
theorem settleToolOps_about (s : SessionSnapshot) (element : ElementId)
    (result : ToolExecutionResult) (minted : Nat → ElementId) :
    ∀ op ∈ settleToolOps element result minted, About s element op := by
  intro op hop
  unfold settleToolOps at hop
  rcases List.mem_cons.mp hop with rfl | hop
  · exact ⟨.inl rfl, .inr (.inl rfl), id⟩
  · obtain ⟨child, _, rfl⟩ := List.mem_map.mp hop
    exact ⟨.inr rfl, .inl rfl, id⟩

omit [SerdeJson] in
theorem settleToolOps_status (result : ToolExecutionResult) (minted : Nat → ElementId)
    (e : ElementSnapshot) :
    ((settleToolOps e.id result minted).foldl PatchOp.rewrite e).attributes["status"]? =
      some (.string (toolStatus result)) := by
  rw [settleToolOps_attributes result minted rfl, Std.ExtTreeMap.getElem?_insert_self]

omit [SerdeJson] in
theorem toolStatus_cases (result : ToolExecutionResult) :
    toolStatus result = "succeeded" ∨ toolStatus result = "failed" := by
  unfold toolStatus
  split
  · exact .inr rfl
  · exact .inl rfl

/-- A tool call within the limits is settled. -/
theorem tool_settled {name : String} {input : Value} {callId : Option ToolCallId} {w : Invocation}
    {result : Except Stop ToolCallId} (hsound : Sound j)
    (hsane : (invokeTool j owner name input (callId.getD w.mintedCall) w).2 = .ok () →
      ToolSane owner j name input callId w)
    (hlimited : (invokeTool j owner name input (callId.getD w.mintedCall) w).2 = .ok () →
      ToolLimited owner j name input callId w)
    (htool : executeToolInner j owner name input callId w = (j', result)) :
    Sound j' ∧ (j'.snapshot = j.snapshot ∨ ∃ e, Focus j.snapshot j'.snapshot e ∧
      e.kind = "tool_call" ∧ CallSettled j'.snapshot e) := by
  unfold executeToolInner at htool
  dsimp only at htool
  unfold ToolLimited ranTool at hlimited
  cases hinvoke : invokeTool j owner name input (callId.getD w.mintedCall) w with
  | mk j₁ invoked =>
      rw [hinvoke] at htool hsane hlimited
      obtain ⟨hsound₁, hcases⟩ := invoke_focus hsound hinvoke
      rcases hcases with ⟨rfl, hfocus₁⟩ | ⟨⟨stop, rfl⟩, hsame⟩
      · obtain ⟨hoffside, hworld, hobeys, hfresh⟩ := hsane rfl
        have hlimits := hlimited rfl
        unfold ranTool at hfresh
        rw [hinvoke] at hoffside hworld hfresh
        dsimp only at hoffside hworld hfresh hlimits htool
        obtain ⟨hsound₂, hspared⟩ := workAll_spared hsound₁ hoffside
        have hopen₂ := workAll_open (open_of_taken hinvoke) hworld
        have hfocus₂ := hfocus₁.spare hsound₂.wellFormed hspared
        -- other parts of the host have left the input as the one thing that the call holds
        have hheld : ∀ c, c ∈ (workAll j₁ w.work).snapshot.children w.element ↔
            c = inputElement w.input input := fun c =>
          (hspared.children _ hfocus₁.present trivial c).trans (invoked_children hsound hinvoke c)
        have hsome : (workAll j₁ w.work).snapshot.children w.element ≠ [] :=
          List.ne_nil_of_mem ((hheld _).mpr rfl)
        obtain ⟨s, hops, hchildren⟩ := exists_settleTool hsound₂.wellFormed hfocus₂.present hsome
          (settledResult w.execution) w.minted hfresh.unused hfresh.apart
        have htaken := (commit_taken_iff hsound₂ hopen₂ hobeys hops).mpr hlimits
        cases hsettle : settleTool (workAll j₁ w.work) owner name w with
        | mk j₃ settled =>
          obtain rfl : settled = .ok () := by
            have hresult : (settleTool (workAll j₁ w.work) owner name w).2 = .ok () := htaken
            rw [hsettle] at hresult
            exact hresult
          rw [hsettle] at htool
          cases htool
          obtain ⟨hsound₃, hcases⟩ := commit_focus hsound₂ hfocus₂
            (settleToolOps_about _ _ _ _) hsettle
          rcases hcases with ⟨_, hfocus₃, s₁, hops₁, hsame⟩ | ⟨⟨_, hstop⟩, _⟩
          · refine ⟨hsound₃, .inr ⟨_, hfocus₃, PatchOp.foldl_rewrite_kind _ _, ?_, ?_⟩⟩
            · have hstatus := settleToolOps_status (settledResult w.execution) w.minted
                (toolCallElement w.element (callId.getD w.mintedCall) name input)
              rcases toolStatus_cases (settledResult w.execution) with heq | heq
              · exact .inl (by rw [← heq]; exact hstatus)
              · exact .inr (by rw [← heq]; exact hstatus)
            · have hall : ∀ c, c ∈ j'.snapshot.children w.element ↔
                  c = inputElement w.input input ∨
                    c ∈ settledChildren (settledResult w.execution) w.minted := by
                intro c
                rw [hsame]
                have heq : s₁ = s := by
                  have hpair := hops₁.symm.trans hops
                  exact congrArg Prod.fst hpair
                rw [heq]
                exact (hchildren c).trans (or_congr_left (hheld c))
              rw [PatchOp.foldl_rewrite_id]
              refine ⟨resultElement (w.minted 0) (settledResult w.execution).output, ?_, ?_⟩
              · have hresult := (settledChildren_result (settledResult w.execution) w.minted _).mpr
                  rfl
                exact ⟨(hall _).mpr (.inr hresult.1), hresult.2⟩
              · rintro c ⟨hc, hkind⟩
                rcases (hall c).mp hc with rfl | hc
                · exact absurd hkind (show "input" ≠ "result" by decide)
                · exact (settledChildren_result _ _ c).mp ⟨hc, hkind⟩
          · cases hstop
      · cases htool
        exact ⟨hsound₁, .inl hsame⟩

end Taken

end Omp2.Control
