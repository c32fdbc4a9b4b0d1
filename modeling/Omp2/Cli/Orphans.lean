import Omp2.Control.Settlement
import Omp2.State.Additions

/-!
# Orphans of a worker that has gone

`reconcile_orphans` from `omp-cli/src/worker.rs`: what a restarted worker writes about the jobs,
subagents, tool calls and assistant turns that the worker before it has left unfinished. Each of
these families is recognised by a test of its own, and all repairs go into one patch.
-/

namespace Omp2.Cli

open Omp2.Json Omp2.State SessionSnapshot

/-! ## Recognising orphans -/

/-- The `is_running` tests. -/
def isRunning (e : ElementSnapshot) : Bool :=
  match e.attributes["status"]? with
  | some (.string status) => status ∈ ["queued", "running", "cancel_requested"]
  | _ => false

/-- The `is_streaming` test. -/
def isStreaming (e : ElementSnapshot) : Bool :=
  match e.attributes["streaming"]? with
  | some (.bool streaming) => streaming
  | _ => false

/-- The `has_result` test. -/
def hasResult (s : SessionSnapshot) (e : ElementSnapshot) : Bool :=
  (s.children e.id).any fun c => c.kind == "result"

/-- The test for an assistant turn. -/
def isAssistant (e : ElementSnapshot) : Bool :=
  e.kind == "assistant" || e.kind == "message" && match e.attributes["role"]? with
    | some (.string role) => role == "assistant"
    | _ => false

/-! ## Repairs -/

/-- The operation that cancels an element. -/
def cancelOp (e : ElementSnapshot) : PatchOp :=
  .setAttribute e.id "status" (.string "cancelled")

/-- The result of a tool call that has none. -/
def orphanResult (id : ElementId) : ElementSnapshot :=
  { ElementSnapshot.new id "result" with text := "Tool call cancelled due to process termination" }

/-- The note about a repair. -/
def restartDiag (id : ElementId) (text : String) : ElementSnapshot :=
  let e := ElementSnapshot.new id "diag"
  { e with text, attributes := e.attributes.insert "code" (.string "worker_restart_cancelled") }

/-- The end of the children of an element, as an index. -/
def childEnd (s : SessionSnapshot) (e : ElementSnapshot) : UInt32 :=
  UInt32.ofNat (s.children e.id).length

/-- The branch for a tool call. -/
def callRepairs (s : SessionSnapshot) (e : ElementSnapshot) (result diag : ElementId) :
    List PatchOp :=
  if isRunning e || !hasResult s e then
    [cancelOp e] ++
      (if hasResult s e then [] else [.create e.id (childEnd s e) (orphanResult result)]) ++
      -- the count is taken from the snapshot again, so the note comes before a new result
      [.create e.id (childEnd s e)
        (restartDiag diag "Tool execution cancelled by process restart")]
  else []

/-- The branch for an assistant turn. -/
def assistantRepairs (s : SessionSnapshot) (e : ElementSnapshot) (diag : ElementId) :
    List PatchOp :=
  if isRunning e || isStreaming e then
    [cancelOp e, .setAttribute e.id "streaming" (.bool false),
      .create e.id (childEnd s e)
        (restartDiag diag "Assistant inference interrupted by process restart")]
  else []

/-- The body of the loop over the visible body. -/
def bodyRepairs (s : SessionSnapshot) (e : ElementSnapshot) (result diag : ElementId) :
    List PatchOp :=
  if e.kind == "tool_call" then callRepairs s e result diag
  else if isAssistant e then assistantRepairs s e diag
  else []

/-- The operations of `reconcile_orphans`, with two minted identifiers for each element. -/
def orphanOps (s : SessionSnapshot) (minted : Nat → ElementId) : List PatchOp :=
  s.activeJobs.map cancelOp ++
    ((s.children (staticId "actors")).filter fun actor =>
      actor.kind == "subagent" && !isTerminal actor).map cancelOp ++
    s.getVisibleBody.zipIdx.flatMap fun (e, i) =>
      bodyRepairs s e (minted (2 * i)) (minted (2 * i + 1))

/-- The reason of the patch. -/
def reconcileReason : String :=
  "reconcile orphan jobs, tool calls, and assistant turns after restart"

variable [SerdeJson]

/-- `reconcile_orphans`. -/
def reconcileOrphans (j : Journal) (owner : ActorId) (minted : Nat → ElementId)
    (world : Journal.Outside) : Journal × Except StateError Unit :=
  let ops := orphanOps j.snapshot minted
  if ops.isEmpty then (j, .ok ())
  else
    let patch : Patch := {
      baseOffset := j.snapshot.offset
      resultOffset := j.nextOffset
      author := .actor owner
      reason := reconcileReason
      ops }
    match j.appendPatch patch world with
    | (j, .error e) => (j, .error e)
    | (j, .ok _) => (j, .ok ())

end Omp2.Cli

namespace Omp2.Cli

open Omp2.Json Omp2.State SessionSnapshot

variable {s s' : SessionSnapshot} {e : ElementSnapshot} {minted : Nat → ElementId}

/-! ## Families -/

/-- What a worker leaves behind. -/
inductive Family where
  | job | subagent | call | assistant
deriving DecidableEq

/-- The elements of a family in the selected branch. -/
def Family.members (s : SessionSnapshot) : Family → List ElementSnapshot
  | job => s.children (staticId "jobs")
  | subagent => (s.children (staticId "actors")).filter fun e => e.kind == "subagent"
  | call => s.getVisibleBody.filter fun e => e.kind == "tool_call"
  | assistant => s.getVisibleBody.filter isAssistant

/-- The element has come to its end, and a tool call has a result. -/
def Family.settled (s : SessionSnapshot) (e : ElementSnapshot) : Family → Bool
  | call => isTerminal e && hasResult s e
  | _ => isTerminal e

/-- What the code takes for an orphan. -/
def Family.orphaned (s : SessionSnapshot) (e : ElementSnapshot) : Family → Bool
  | job | subagent => !isTerminal e
  | call => isRunning e || !hasResult s e
  | assistant => isRunning e || isStreaming e

/-- There are two fresh identifiers for each element of the body. -/
structure Minted (s : SessionSnapshot) (minted : Nat → ElementId) : Prop where
  fresh : ∀ k < 2 * s.getVisibleBody.length, minted k ∉ s.usedIds
  apart : ∀ k < 2 * s.getVisibleBody.length, ∀ l < 2 * s.getVisibleBody.length,
    minted k = minted l → k = l

/-- A repair of an orphan. -/
inductive Repairs (s : SessionSnapshot) (minted : Nat → ElementId) (e : ElementSnapshot) :
    Family → PatchOp → Prop where
  | cancel (f : Family) : Repairs s minted e f (cancelOp e)
  | calm : Repairs s minted e .assistant (.setAttribute e.id "streaming" (.bool false))
  | result (k : Nat) : k < 2 * s.getVisibleBody.length → hasResult s e = false →
      Repairs s minted e .call (.create e.id (childEnd s e) (orphanResult (minted k)))
  | note {f : Family} (k : Nat) (text : String) : k < 2 * s.getVisibleBody.length →
      f = .call ∨ f = .assistant → text.utf8ByteSize ≤ 50 →
      Repairs s minted e f (.create e.id (childEnd s e) (restartDiag (minted k) text))

/-! ## What the operations are -/

theorem ne_call_of_assistant (h : isAssistant e = true) : e.kind ≠ "tool_call" := by
  unfold isAssistant at h
  rcases Bool.or_eq_true_iff.mp h with hkind | hmessage
  · rw [beq_iff_eq.mp hkind]
    decide
  · rw [beq_iff_eq.mp (Bool.and_eq_true_iff.mp hmessage).1]
    decide

theorem mem_zipIdx_body (he : e ∈ s.getVisibleBody) : ∃ i, (e, i) ∈ s.getVisibleBody.zipIdx := by
  obtain ⟨i, hi⟩ := List.mem_iff_getElem?.mp he
  exact ⟨i, List.mem_zipIdx_iff_getElem?.mpr hi⟩

/-- Every operation repairs an orphan. -/
theorem repairs_of_mem {op : PatchOp} (h : op ∈ orphanOps s minted) :
    ∃ f, ∃ e ∈ Family.members s f, f.orphaned s e = true ∧ Repairs s minted e f op := by
  unfold orphanOps at h
  rcases List.mem_append.mp h with hcancelled | hbody
  · rcases List.mem_append.mp hcancelled with hjob | hactor
    · obtain ⟨e, he, rfl⟩ := List.mem_map.mp hjob
      obtain ⟨hmem, hopen⟩ := List.mem_filter.mp he
      exact ⟨.job, e, hmem, hopen, .cancel _⟩
    · obtain ⟨e, he, rfl⟩ := List.mem_map.mp hactor
      obtain ⟨hmem, htests⟩ := List.mem_filter.mp he
      obtain ⟨hkind, hopen⟩ := Bool.and_eq_true_iff.mp htests
      exact ⟨.subagent, e, List.mem_filter.mpr ⟨hmem, hkind⟩, hopen, .cancel _⟩
  · obtain ⟨⟨e, i⟩, hmem, hop⟩ := List.mem_flatMap.mp hbody
    have he : e ∈ s.getVisibleBody := List.fst_mem_of_mem_zipIdx hmem
    have hi : i < s.getVisibleBody.length := List.snd_lt_of_mem_zipIdx hmem
    unfold bodyRepairs at hop
    dsimp only at hop
    split at hop
    · next hkind =>
      unfold callRepairs at hop
      split at hop
      · next horphan =>
        refine ⟨.call, e, List.mem_filter.mpr ⟨he, hkind⟩, horphan, ?_⟩
        simp only [List.mem_append, List.mem_singleton] at hop
        rcases hop with (rfl | hresult) | rfl
        · exact .cancel _
        · split at hresult
          · cases hresult
          · next hnone =>
            obtain rfl := List.mem_singleton.mp hresult
            exact .result _ (by omega) (Bool.eq_false_iff.mpr hnone)
        · exact .note _ _ (by omega) (.inl rfl) (by decide)
      · cases hop
    · split at hop
      · next hassistant =>
        unfold assistantRepairs at hop
        split at hop
        · next horphan =>
          refine ⟨.assistant, e, List.mem_filter.mpr ⟨he, hassistant⟩, horphan, ?_⟩
          simp only [List.mem_cons, List.not_mem_nil, or_false] at hop
          rcases hop with rfl | rfl | rfl
          · exact .cancel _
          · exact .calm
          · exact .note _ _ (by omega) (.inr rfl) (by decide)
        · cases hop
      · cases hop

/-- The repairs of an assistant turn. -/
theorem bodyRepairs_of_assistant (hassistant : isAssistant e = true)
    (horphan : (isRunning e || isStreaming e) = true) (result diag : ElementId) :
    bodyRepairs s e result diag = [cancelOp e, .setAttribute e.id "streaming" (.bool false),
      .create e.id (childEnd s e)
        (restartDiag diag "Assistant inference interrupted by process restart")] := by
  have hkind : ¬ (e.kind == "tool_call") = true :=
    fun h => ne_call_of_assistant hassistant (beq_iff_eq.mp h)
  unfold bodyRepairs assistantRepairs
  rw [if_neg hkind, if_pos hassistant, if_pos horphan]

/-- The repairs of a tool call. -/
theorem bodyRepairs_of_call (hkind : (e.kind == "tool_call") = true)
    (horphan : (isRunning e || !hasResult s e) = true) (result diag : ElementId) :
    bodyRepairs s e result diag = [cancelOp e] ++
      (if hasResult s e then [] else [.create e.id (childEnd s e) (orphanResult result)]) ++
      [.create e.id (childEnd s e)
        (restartDiag diag "Tool execution cancelled by process restart")] := by
  unfold bodyRepairs callRepairs
  rw [if_pos hkind, if_pos horphan]

theorem mem_of_bodyRepairs (he : e ∈ s.getVisibleBody) :
    ∃ i, ∀ op ∈ bodyRepairs s e (minted (2 * i)) (minted (2 * i + 1)), op ∈ orphanOps s minted := by
  obtain ⟨i, hi⟩ := mem_zipIdx_body he
  exact ⟨i, fun op hop => List.mem_append_right _ (List.mem_flatMap.mpr ⟨_, hi, hop⟩)⟩

/-- Every orphan is cancelled. -/
theorem cancelOp_mem {f : Family} (he : e ∈ f.members s) (horphan : f.orphaned s e = true) :
    cancelOp e ∈ orphanOps s minted := by
  cases f with
  | job =>
      refine List.mem_append_left _ (List.mem_append_left _ (List.mem_map_of_mem ?_))
      exact List.mem_filter.mpr ⟨he, horphan⟩
  | subagent =>
      obtain ⟨hmem, hkind⟩ := List.mem_filter.mp he
      refine List.mem_append_left _ (List.mem_append_right _ (List.mem_map_of_mem ?_))
      exact List.mem_filter.mpr ⟨hmem, Bool.and_eq_true_iff.mpr ⟨hkind, horphan⟩⟩
  | call =>
      obtain ⟨hmem, hkind⟩ := List.mem_filter.mp he
      obtain ⟨i, hi⟩ := mem_of_bodyRepairs hmem
      refine hi _ ?_
      rw [bodyRepairs_of_call hkind horphan]
      exact List.mem_append_left _ (List.mem_append_left _ (List.mem_singleton_self _))
  | assistant =>
      obtain ⟨hmem, hassistant⟩ := List.mem_filter.mp he
      obtain ⟨i, hi⟩ := mem_of_bodyRepairs hmem
      refine hi _ ?_
      rw [bodyRepairs_of_assistant hassistant horphan]
      exact List.mem_cons_self

theorem calm_mem (he : e ∈ Family.assistant.members s)
    (horphan : Family.assistant.orphaned s e = true) :
    .setAttribute e.id "streaming" (.bool false) ∈ orphanOps s minted := by
  obtain ⟨hmem, hassistant⟩ := List.mem_filter.mp he
  obtain ⟨i, hi⟩ := mem_of_bodyRepairs hmem
  refine hi _ ?_
  rw [bodyRepairs_of_assistant hassistant horphan]
  exact List.mem_cons_of_mem _ List.mem_cons_self

/-- A tool call without a result is given one. -/
theorem result_mem (he : e ∈ Family.call.members s) (hnone : hasResult s e = false) :
    ∃ c, c.kind = "result" ∧ .create e.id (childEnd s e) c ∈ orphanOps s minted := by
  obtain ⟨hmem, hkind⟩ := List.mem_filter.mp he
  obtain ⟨i, hi⟩ := mem_of_bodyRepairs hmem
  refine ⟨orphanResult (minted (2 * i)), rfl, hi _ ?_⟩
  have horphan : (isRunning e || !hasResult s e) = true := by
    rw [hnone, Bool.not_false, Bool.or_true]
  rw [bodyRepairs_of_call hkind horphan, if_neg (Bool.eq_false_iff.mp hnone)]
  exact List.mem_append_left _ (List.mem_append_right _ (List.mem_singleton_self _))

/-- Without orphans there is nothing to do. -/
theorem orphanOps_eq_nil_iff : orphanOps s minted = [] ↔
    ∀ f, ∀ e ∈ Family.members s f, f.orphaned s e = false := by
  constructor
  · intro hnil f e he
    refine Bool.eq_false_iff.mpr fun horphan => ?_
    have hmem : cancelOp e ∈ orphanOps s minted := cancelOp_mem he horphan
    rw [hnil] at hmem
    cases hmem
  · intro hnone
    refine List.eq_nil_iff_forall_not_mem.mpr fun op hop => ?_
    obtain ⟨f, e, he, horphan, _⟩ := repairs_of_mem hop
    rw [hnone f e he] at horphan
    cases horphan

/-! ## The identifiers -/

/-- Two identifiers for each place. -/
theorem zipIdx_slots (elements : List ElementSnapshot) (k : Nat) :
    ((elements.zipIdx k).flatMap fun (_, i) => [minted (2 * i), minted (2 * i + 1)]) =
      (List.range' (2 * k) (2 * elements.length)).map minted := by
  induction elements generalizing k with
  | nil => rfl
  | cons e elements ih =>
      have hlength : 2 * (e :: elements).length = 2 * elements.length + 1 + 1 := by
        rw [List.length_cons]
        omega
      have hnext : 2 * (k + 1) = 2 * k + 1 + 1 := by omega
      rw [List.zipIdx_cons, List.flatMap_cons, ih, hlength, List.range'_succ, List.range'_succ,
        hnext]
      rfl

/-- The identifiers that the repairs of an element bring. -/
theorem bodyRepairs_created (s : SessionSnapshot) (e : ElementSnapshot) (result diag : ElementId) :
    ((bodyRepairs s e result diag).filterMap PatchOp.createdId).Sublist [result, diag] := by
  unfold bodyRepairs callRepairs assistantRepairs
  split
  · split
    · split
      · exact List.sublist_cons_self result [diag]
      · exact .refl _
    · exact List.nil_sublist _
  · split
    · split
      · exact List.sublist_cons_self result [diag]
      · exact List.nil_sublist _
    · exact List.nil_sublist _

/-- The identifiers that the operations bring are different. -/
theorem orphanOps_apart (hminted : Minted s minted) :
    ((orphanOps s minted).filterMap PatchOp.createdId).Nodup := by
  have hcancelled : ∀ elements : List ElementSnapshot,
      (elements.map cancelOp).filterMap PatchOp.createdId = [] := by
    intro elements
    refine List.filterMap_eq_nil_iff.mpr fun op hop => ?_
    obtain ⟨e, _, rfl⟩ := List.mem_map.mp hop
    rfl
  have hslots : ((s.getVisibleBody.zipIdx 0).flatMap fun (_, i) =>
      [minted (2 * i), minted (2 * i + 1)]).Nodup := by
    rw [zipIdx_slots]
    refine List.Nodup.map_on (fun k hk l hl => ?_) List.nodup_range'
    have hbound : ∀ k ∈ List.range' (2 * 0) (2 * s.getVisibleBody.length),
        k < 2 * s.getVisibleBody.length := by
      intro k hk
      have hlt := (List.mem_range'_1.mp hk).2
      omega
    exact hminted.apart k (hbound k hk) l (hbound l hl)
  unfold orphanOps
  rw [List.filterMap_append, List.filterMap_append, hcancelled, hcancelled, List.nil_append,
    List.nil_append, List.filterMap_flatMap]
  refine hslots.sublist ?_
  generalize s.getVisibleBody.zipIdx 0 = places
  induction places with
  | nil => exact .refl _
  | cons place places ih =>
      rw [List.flatMap_cons, List.flatMap_cons]
      exact (bodyRepairs_created s place.1 _ _).append ih

/-! ## The operations apply -/

theorem Family.mem_children {f : Family} (he : e ∈ f.members s) :
    ∃ up ∈ roots, e ∈ s.children up := by
  cases f with
  | job => exact ⟨staticId "jobs", by decide, he⟩
  | subagent => exact ⟨staticId "actors", by decide, (List.mem_filter.mp he).1⟩
  | call => exact ⟨staticId "body", by decide, (List.mem_filter.mp he).1⟩
  | assistant => exact ⟨staticId "body", by decide, (List.mem_filter.mp he).1⟩

/-- Every repair only adds. -/
theorem orphanOps_add (hwf : WellFormed s) (hminted : Minted s minted) :
    ∀ op ∈ orphanOps s minted, Adds s op := by
  intro op hop
  obtain ⟨f, e, he, _, hrepairs⟩ := repairs_of_mem hop
  obtain ⟨up, _, hchild⟩ := Family.mem_children he
  obtain ⟨n, hn, _⟩ := (mem_children_iff hwf).mp hchild
  have hindex : (childEnd s e).toNat ≤ n.children.length := by
    have hlength : (s.children e.id).length ≤ n.children.length := by
      unfold SessionSnapshot.children
      rw [hn]
      exact List.length_filterMap_le _ _
    unfold childEnd
    rw [UInt32.toNat_ofNat']
    exact (Nat.mod_le _ _).trans hlength
  cases hrepairs with
  | cancel => exact .write _ _ hn
  | calm => exact .write _ _ hn
  | result k hk _ => exact .create hn hindex (hminted.fresh k hk)
  | note k _ hk _ _ => exact .create hn hindex (hminted.fresh k hk)

/-! ## The number of the operations -/

/-- The number of repairs of an element of the body. -/
def repairCost (s : SessionSnapshot) (e : ElementSnapshot) : Nat :=
  if e.kind = "tool_call" then
    if hasResult s e then (if isRunning e then 2 else 0) else 3
  else if isAssistant e && (isRunning e || isStreaming e) then 3
  else 0

/-- The number of repairs that a restart makes. -/
def repairCount (s : SessionSnapshot) : Nat :=
  s.activeJobs.length +
    ((s.children (staticId "actors")).filter fun actor =>
      actor.kind == "subagent" && !isTerminal actor).length +
    (s.getVisibleBody.map (repairCost s)).sum

theorem bodyRepairs_length (s : SessionSnapshot) (e : ElementSnapshot) (result diag : ElementId) :
    (bodyRepairs s e result diag).length = repairCost s e := by
  unfold bodyRepairs callRepairs assistantRepairs repairCost
  simp only [beq_iff_eq]
  split
  · cases hasResult s e <;> cases isRunning e <;> rfl
  · cases isAssistant e <;> cases isRunning e <;> cases isStreaming e <;> rfl

theorem orphanOps_length (s : SessionSnapshot) (minted : Nat → ElementId) :
    (orphanOps s minted).length = repairCount s := by
  have hbody : ∀ (elements : List ElementSnapshot) (k : Nat),
      ((elements.zipIdx k).flatMap fun (e, i) =>
        bodyRepairs s e (minted (2 * i)) (minted (2 * i + 1))).length =
        (elements.map (repairCost s)).sum := by
    intro elements
    induction elements with
    | nil => exact fun _ => rfl
    | cons e elements ih =>
      intro k
      rw [List.zipIdx_cons, List.flatMap_cons, List.length_append, ih, List.map_cons,
        List.sum_cons]
      exact congrArg (· + _) (bodyRepairs_length s e _ _)
  unfold orphanOps repairCount
  rw [List.length_append, List.length_append, List.length_map, List.length_map]
  exact congrArg _ (hbody s.getVisibleBody 0)

end Omp2.Cli
