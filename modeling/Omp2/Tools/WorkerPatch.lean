import Omp2.Control.Elision
import Omp2.State.Regions

/-!
# Patches of a worker

The `patch` request of `handle_python_request` in `omp-tools/src/host.rs`. Each operation of the
request is judged on a copy of the document on which the earlier ones have run, and the whole list is
appended as one patch. So the patch changes nothing outside of the `todo` and `views` subtrees.
-/

namespace Omp2

/-- The elements of an operation that a worker must be granted. -/
def PatchOp.grants : PatchOp → List ElementId
  | .create parent _ _ => [parent]
  | .move element parent _ => [element, parent]
  | .delete element | .setAttribute element _ _ | .removeAttribute element _
  | .replaceText element _ | .appendText element _ | .replacePayload element _ => [element]

/-- The operation deletes or moves an element. -/
def PatchOp.displaces : PatchOp → Bool
  | .delete _ | .move .. => true
  | _ => false

end Omp2

namespace Omp2.Tools

open Omp2.Json Omp2.State Omp2.Control SessionSnapshot OrderedTree

/-- The containers that are granted to a worker. -/
def isGranted (id : ElementId) : Bool :=
  id.value = "todo" || id.value = "views"

/-- The climb from a target: it ends at the first granted container. -/
def allowed (s : SessionSnapshot) : Nat → Option ElementId → Bool
  | _, none => false
  | 0, some _ => false
  | fuel + 1, some id =>
    if isGranted id then true else allowed s fuel ((s.nodes[id]?).bind Node.parent)

/-- Whether an operation is refused because of one of its targets. -/
def refuses (s : SessionSnapshot) (op : PatchOp) (target : ElementId) : Bool :=
  !allowed s (s.nodes.size + 1) (some target) || (op.displaces && isGranted target)

/-- The error of a target that is not granted. -/
def deniedError : StructuredError :=
  .new "capability_denied" "Worker patches are limited to todo and presentation subtrees" false

/-- The error of a request that cannot be read. -/
def invalidRequest (message : String) : StructuredError :=
  .new "sdk_request" message false

section Requests

variable [SerdeJson]

/-- The loop over the operations, on a staged copy of the document. -/
def stageOps (owner : ActorId) : SessionSnapshot → List PatchOp → Except StructuredError Unit
  | _, [] => .ok ()
  | staged, op :: rest =>
    if op.grants.any (refuses staged op) then .error deniedError
    else
      let patch : Patch := {
        baseOffset := staged.offset
        resultOffset := staged.offset + 1
        author := .actor owner
        reason := "validate SDK patch"
        ops := [op] }
      match staged.applyPatch patch with
      | (_, .error e) => .error e.structured
      | (staged, .ok ()) => stageOps owner staged rest

/-- The operations of a request, if all of them are accepted. -/
def acceptOps (owner : ActorId) (s : SessionSnapshot) (request : Value) :
    Except StructuredError (List PatchOp) :=
  match (fromValue ((request.get "ops").getD .null) : Except String (List PatchOp)) with
  | .error message => .error (invalidRequest message)
  | .ok ops =>
    match stageOps owner s ops with
    | .error e => .error e
    | .ok () => .ok ops

/-- The `patch` request of `handle_python_request`. -/
def handlePatchRequest (j : Journal) (owner : ActorId) (request : Value)
    (world : Journal.Outside) : Journal × Except StructuredError UInt64 :=
  match acceptOps owner j.snapshot request with
  | .error e => (j, .error e)
  | .ok ops =>
    let patch : Patch := {
      baseOffset := j.snapshot.offset
      resultOffset := j.nextOffset
      author := .actor owner
      reason := ((request.get "reason").bind Value.asStr).getD "SDK patch"
      ops }
    match j.appendPatch patch world with
    | (j, .error e) => (j, .error e.structured)
    | (j, .ok _) => (j, .ok j.snapshot.offset)

end Requests

/-! ## Confinement -/

/-- The granted containers. -/
def Granted (id : ElementId) : Prop :=
  isGranted id = true

instance : DecidablePred Granted :=
  fun id => inferInstanceAs (Decidable (isGranted id = true))

theorem granted_iff {id : ElementId} :
    Granted id ↔ id = staticId "todo" ∨ id = staticId "views" := by
  unfold Granted isGranted
  rw [Bool.or_eq_true, decide_eq_true_iff, decide_eq_true_iff, Id.ext_iff, Id.ext_iff]
  rfl

/-- What a worker's patch leaves alone. -/
structure Confined (s s' : SessionSnapshot) : Prop where
  /-- The elements outside of the granted subtrees, with their contents, parents and child order. -/
  outside : SameAbove Granted s s'
  /-- The granted containers keep their place among the children of their parents. -/
  containers : ∀ c, Granted c → ∃ n n' up upNode, s.nodes[c]? = some n ∧ s'.nodes[c]? = some n' ∧
    n.parent = some up ∧ n'.parent = some up ∧ s.nodes[up]? = some upNode ∧
    s'.nodes[up]? = some upNode
  /-- No element has come into the granted subtrees or has left them. -/
  settled : ∀ key n n', s.nodes[key]? = some n → s'.nodes[key]? = some n' →
    (Below s.links Granted key ↔ Below s'.links Granted key)

variable {s s' : SessionSnapshot} {op : PatchOp}

/-- An allowed target is in a granted subtree. -/
theorem below_of_allowed {fuel : Nat} {key : ElementId}
    (h : allowed s fuel (some key) = true) : Below s.links Granted key := by
  induction fuel generalizing key with
  | zero => cases h
  | succ fuel ih =>
      unfold allowed at h
      split at h
      · next hkey => exact .of_mem hkey
      · cases hn : s.nodes[key]? with
        | none =>
          rw [hn] at h
          cases fuel <;> cases h
        | some n =>
          rw [hn, Option.bind_some] at h
          cases hparent : n.parent with
          | none =>
            rw [hparent] at h
            cases fuel <;> cases h
          | some up =>
            rw [hparent] at h
            exact (ih h).climb ⟨_, linksOf_of_get hn, hparent⟩

theorem allowed_over (s t : SessionSnapshot) (fuel : Nat) (key : Option ElementId) :
    allowed (s.over t) fuel key = allowed s fuel key := by
  induction fuel generalizing key with
  | zero => cases key <;> rfl
  | succ fuel ih =>
      cases key with
      | none => rfl
      | some key =>
        unfold allowed
        rw [ih]
        rfl

/-- An operation that is not refused leaves everything outside of the granted subtrees alone. -/
theorem applyOne_granted {u : Undo} (hwf : WellFormed s) (h : s.applyOne op = (s', .ok u))
    (hgrants : op.grants.any (refuses s op) = false) : SameAbove Granted s s' := by
  have hgrant : ∀ key ∈ op.grants, Below s.links Granted key ∧
      (op.displaces = true → ¬ Granted key) := by
    intro key hkey
    have hnot := List.any_eq_false.mp hgrants key hkey
    unfold refuses at hnot
    rw [Bool.or_eq_true, not_or, Bool.not_eq_true', Bool.not_eq_false] at hnot
    refine ⟨below_of_allowed hnot.1, fun hdisplaces hgranted => hnot.2 ?_⟩
    rw [hdisplaces]
    exact hgranted
  refine applyOne_sameAbove hwf h (by decide) (fun up hinto => ?_) (fun key htarget => ?_)
    fun key hplace => ?_
  · cases op with
    | create => cases hinto; exact (hgrant _ (List.mem_singleton_self _)).1
    | move => cases hinto; exact (hgrant _ (List.mem_cons_of_mem _ (List.mem_singleton_self _))).1
    | _ => cases hinto
  · cases op with
    | create => cases htarget
    | _ => cases htarget; exact (hgrant _ List.mem_cons_self).1
  · cases op with
    | delete => cases hplace; exact (hgrant _ List.mem_cons_self).2 rfl
    | move => cases hplace; exact (hgrant _ List.mem_cons_self).2 rfl
    | _ => cases hplace

/-- A document that is the same outside of the granted subtrees. -/
theorem confined_of_sameAbove (hwf : WellFormed s) (hwf' : WellFormed s')
    (h : SameAbove Granted s s') : Confined s s' := by
  have htop : ¬ Granted rootId := by decide
  have hroot : ¬ Below s.links Granted rootId := hwf.tree.not_below_top htop
  have hmeta : ¬ Below s.links Granted (staticId "meta") := by
    intro hbelow
    obtain ⟨n, hn, hparent⟩ := hwf.containers (staticId "meta") (by decide)
    exact hroot (hbelow.parent (by decide) ⟨_, linksOf_of_get hn, hparent⟩)
  refine ⟨h, fun c hc => ?_, fun key n n' hn hn' => ?_⟩
  · have hplace : ∀ up, c ∈ roots → up ∈ roots → containerParent c = some up →
        ¬ Below s.links Granted up → ∃ n n' up upNode, s.nodes[c]? = some n ∧
          s'.nodes[c]? = some n' ∧ n.parent = some up ∧ n'.parent = some up ∧
          s.nodes[up]? = some upNode ∧ s'.nodes[up]? = some upNode := by
      intro up hmem hupMem hcontainer hout
      obtain ⟨n, hn, hparent⟩ := hwf.containers c hmem
      obtain ⟨n', hn', hparent'⟩ := hwf'.containers c hmem
      obtain ⟨upNode, hup, _⟩ := hwf.containers up hupMem
      exact ⟨n, n', up, upNode, hn, hn', hparent.trans hcontainer, hparent'.trans hcontainer, hup,
        ((h up upNode).mp ⟨hup, hout⟩).1⟩
    rcases granted_iff.mp hc with rfl | rfl
    · exact hplace (staticId "meta") (by decide) (by decide) (by decide) hmeta
    · exact hplace rootId (by decide) (by decide) (by decide) hroot
  · constructor
    · intro hbelow
      by_contra hout
      exact ((h key n').mpr ⟨hn', hout⟩).2 hbelow
    · intro hbelow
      by_contra hout
      exact ((h key n).mp ⟨hn, hout⟩).2 hbelow

section Requests

variable [SerdeJson]

/-- The operations run on the document as they ran on the staged copies. -/
theorem applyOps_granted {owner : ActorId} {staged : SessionSnapshot} {done : List Undo}
    {ops : List PatchOp} (hwf : WellFormed s) (hstaged : staged = s.over staged)
    (hstage : stageOps owner staged ops = .ok ()) (h : s.applyOps done ops = (s', .ok ())) :
    SameAbove Granted s s' := by
  induction ops generalizing s staged done with
  | nil =>
      cases h
      exact .refl _ _
  | cons op ops ih =>
      unfold stageOps at hstage
      split at hstage
      · cases hstage
      · next hgrants =>
        dsimp only at hstage
        split at hstage
        · cases hstage
        · next staged' happly =>
          obtain ⟨_, _, staged₁, hops, rfl⟩ := applyPatch_ok happly
          unfold applyOps at h
          split at h
          · next s₁ u hop =>
            have hover := applyOne_over s staged op
            rw [← hstaged, hop] at hover
            unfold applyOps applyOps at hops
            rw [hover] at hops
            cases hops
            have hsame : refuses staged op = refuses s op := by
              funext target
              rw [hstaged]
              unfold refuses
              rw [allowed_over]
              rfl
            rw [hsame] at hgrants
            exact (applyOne_granted hwf hop (Bool.eq_false_iff.mpr hgrants)).trans
              (ih (hwf.applyOne hop) rfl hstage h)
          · cases h

/-- Whatever a worker asks for, everything outside of the granted subtrees is as it was, and a
request that is rejected at any operation leaves the journal unchanged. -/
theorem handlePatchRequest_confined {j : Journal} (hsound : Sound j) (owner : ActorId)
    (request : Value) (world : Journal.Outside) :
    Confined j.snapshot (handlePatchRequest j owner request world).1.snapshot ∧
      ∀ e, acceptOps owner j.snapshot request = .error e →
        handlePatchRequest j owner request world = (j, .error e) := by
  generalize h : handlePatchRequest j owner request world = response
  obtain ⟨j', result⟩ := response
  unfold handlePatchRequest at h
  split at h
  · next e haccept =>
      cases h
      refine ⟨confined_of_sameAbove hsound.wellFormed hsound.wellFormed (.refl _ _), ?_⟩
      intro e' he'
      rw [haccept] at he'
      cases he'
      rfl
  · next ops haccept =>
      refine ⟨?_, fun e he => by rw [haccept] at he; cases he⟩
      have hstage : stageOps owner j.snapshot ops = .ok () := by
        unfold acceptOps at haccept
        split at haccept
        · cases haccept
        · split at haccept
          · cases haccept
          · next hstage =>
              cases haccept
              exact hstage
      dsimp only at h
      split at h <;> next happend =>
        cases h
        obtain ⟨hsound', hcases⟩ := hsound.append_cases happend
        refine confined_of_sameAbove hsound.wellFormed hsound'.wellFormed ?_
        rcases hcases with ⟨s, _, _, _, happly, hsnapshot⟩ | ⟨_, hsame⟩
        · obtain ⟨_, _, s₁, hops, rfl⟩ := applyPatch_ok happly
          have hgranted := applyOps_granted hsound.wellFormed rfl hstage hops
          rw [hsnapshot]
          exact hgranted
        · rw [hsame]
          exact .refl _ _

end Requests

end Omp2.Tools

/-! ## A request -/

namespace Omp2.Tools

open Omp2.Json Omp2.Json.Compact Omp2.State Journal Omp2.Control

/-- A request that adds an entry under `todo` and names it. -/
def todoRequest : Value :=
  .object [("ops", toValue [
      PatchOp.create (staticId "todo") 0 (ElementSnapshot.new ⟨"entry", Eq.refl true⟩ "todo_item"),
      .replaceText ⟨"entry", Eq.refl true⟩ "Read the source"]),
    ("reason", .string "plan")]

/-- The operations of the request are accepted on a new document. -/
example : (acceptOps owner (SessionSnapshot.empty exampleSession) todoRequest).isOk = true := by
  decide +kernel

/-- The request is confined on a new journal. -/
theorem todoRequest_confined : ∃ j, Journal.create exampleSession = .ok j ∧
    Confined j.snapshot (handlePatchRequest j owner todoRequest ⟨.ok 7, .done⟩).1.snapshot ∧
    ∀ e, acceptOps owner j.snapshot todoRequest = .error e →
      handlePatchRequest j owner todoRequest ⟨.ok 7, .done⟩ = (j, .error e) := by
  obtain ⟨j, hcreate⟩ := exists_create_exampleSession
  exact ⟨j, hcreate,
    handlePatchRequest_confined ⟨_, _, create_coherent hcreate⟩ owner todoRequest ⟨.ok 7, .done⟩⟩

end Omp2.Tools
