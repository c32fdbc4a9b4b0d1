import Omp2.Cli.Orphans

/-!
# What a restart leaves of its orphans

After the repairs every member of a family has come to its end, unless the test of its family has
missed it. The repairs reach no other node, and a restart that finds no orphan appends nothing.
-/

namespace Omp2.Cli

open Omp2.Json Omp2.State SessionSnapshot Control List

variable {s s' : SessionSnapshot} {e e' : ElementSnapshot} {f g : Family}
  {minted : Nat → ElementId}

/-! ## The claim on a restart -/

/-- Every member of a family has come to its end and streams no more. -/
def Complete (s : SessionSnapshot) : Prop :=
  ∀ f : Family, ∀ e ∈ f.members s, f.settled s e = true ∧ isStreaming e = false

/-- A node stays as it is unless its element is of a family that had not come to its end. -/
def Minimal (s s' : SessionSnapshot) : Prop :=
  ∀ (key : ElementId) (n : Node), s.nodes[key]? = some n →
    (∀ f : Family, n.element ∈ f.members s → f.settled s n.element = true) →
    s'.nodes[key]? = some n

/-- Every element keeps its kind, its text and its payload. -/
def Preserved (s s' : SessionSnapshot) : Prop :=
  ∀ key e, s.element key = some e → ∃ e', s'.element key = some e' ∧ e'.kind = e.kind ∧
    e'.text = e.text ∧ e'.payload = e.payload

/-- The tests of the code miss no member of a family and take no settled one for an orphan. -/
structure Recognised (s : SessionSnapshot) : Prop where
  call : ∀ e ∈ s.getVisibleBody, e.kind = "tool_call" → hasResult s e = true →
    isTerminal e = true ∨ isRunning e = true
  assistant : ∀ e ∈ s.getVisibleBody, isAssistant e = true →
    (isTerminal e = true ↔ ¬ (isRunning e = true ∨ isStreaming e = true))
  calm : ∀ f : Family, f ≠ .assistant → ∀ e ∈ f.members s, isStreaming e = false

/-! ## Families apart -/

/-- The container of a family. -/
def Family.container : Family → ElementId
  | job => staticId "jobs"
  | subagent => staticId "actors"
  | call | assistant => staticId "body"

theorem Family.container_mem (f : Family) : f.container ∈ roots := by
  cases f <;> decide

theorem Family.child (he : e ∈ f.members s) : e ∈ s.children f.container := by
  cases f with
  | job => exact he
  | subagent => exact (mem_filter.mp he).1
  | call => exact (mem_filter.mp he).1
  | assistant => exact (mem_filter.mp he).1

theorem Family.not_root (hwf : WellFormed s) (he : e ∈ f.members s) : e.id ∉ roots := by
  have hno : ∀ key ∈ roots, containerParent key ≠ some f.container := by
    cases f <;> decide
  obtain ⟨n, hn, rfl, hup⟩ := (mem_children_iff hwf).mp (Family.child he)
  intro hroot
  obtain ⟨held, hheld, hparent⟩ := hwf.containers _ hroot
  rw [hn] at hheld
  cases hheld
  exact hno _ hroot (hparent.symm.trans hup)

/-- An element is a member of one family at most. -/
theorem Family.unique (hwf : WellFormed s) (he : e ∈ f.members s) (he' : e' ∈ g.members s)
    (hid : e.id = e'.id) : e = e' ∧ f = g := by
  obtain ⟨rfl, hcontainer⟩ := eq_of_mem_children hwf (Family.child he) (Family.child he') hid
  refine ⟨rfl, ?_⟩
  have hcall : e ∈ Family.call.members s → e ∉ Family.assistant.members s := by
    intro hcall hassistant
    exact ne_call_of_assistant (mem_filter.mp hassistant).2
      (beq_iff_eq.mp (mem_filter.mp hcall).2)
  cases f <;> cases g <;>
    first
    | rfl
    | exact absurd hcontainer (by decide)
    | exact absurd he' (hcall he)
    | exact absurd he (hcall he')

theorem Family.terminal_of_settled (h : f.settled s e = true) : isTerminal e = true := by
  cases f with
  | call => exact (Bool.and_eq_true_iff.mp h).1
  | job => exact h
  | subagent => exact h
  | assistant => exact h

theorem not_terminal_of_running (h : isRunning e = true) : isTerminal e = false := by
  obtain ⟨status, hstatus, hlive⟩ : ∃ status, e.attributes["status"]? = some (.string status) ∧
      status ∈ ["queued", "running", "cancel_requested"] := by
    unfold isRunning at h
    split at h
    · next status hstatus => exact ⟨status, hstatus, of_decide_eq_true h⟩
    · cases h
  unfold isTerminal
  rw [hstatus]
  simp only [mem_cons, not_mem_nil, or_false] at hlive
  rcases hlive with rfl | rfl | rfl <;> rfl

/-- A settled orphan is an assistant turn that streams. -/
theorem Family.streaming_of_settled (hsettled : f.settled s e = true)
    (horphan : f.orphaned s e = true) : f = .assistant ∧ isStreaming e = true := by
  have hterminal := Family.terminal_of_settled hsettled
  have hrests : isRunning e = false := by
    refine Bool.eq_false_iff.mpr fun hrunning => ?_
    rw [not_terminal_of_running hrunning] at hterminal
    cases hterminal
  cases f with
  | job =>
      have hopen : (!isTerminal e) = true := horphan
      rw [hterminal] at hopen
      cases hopen
  | subagent =>
      have hopen : (!isTerminal e) = true := horphan
      rw [hterminal] at hopen
      cases hopen
  | call =>
      have hopen : (isRunning e || !hasResult s e) = true := horphan
      rw [hrests, (Bool.and_eq_true_iff.mp hsettled).2] at hopen
      cases hopen
  | assistant =>
      have hopen : (isRunning e || isStreaming e) = true := horphan
      rw [hrests, Bool.false_or] at hopen
      exact ⟨rfl, hopen⟩

/-! ## What the repairs write -/

theorem Repairs.about {op : PatchOp} {key : ElementId} (h : Repairs s minted e f op) :
    (op.target = some key → e.id = key) ∧ (op.into = some key → e.id = key) := by
  cases h with
  | cancel => exact ⟨Option.some.inj, nofun⟩
  | calm => exact ⟨Option.some.inj, nofun⟩
  | result => exact ⟨nofun, Option.some.inj⟩
  | note => exact ⟨nofun, Option.some.inj⟩

/-- An operation that writes an attribute of a member repairs it. -/
theorem writes_of_mem {op : PatchOp} {name : String} (hwf : WellFormed s) (he : e ∈ f.members s)
    (hop : op ∈ orphanOps s minted) (hwrites : op.Writes e.id name) : f.orphaned s e = true ∧
      (name = "status" ∧ op = cancelOp e ∨ name = "streaming" ∧ f = .assistant ∧
        op = .setAttribute e.id "streaming" (.bool false)) := by
  obtain ⟨g, e', he', horphan, hrepairs⟩ := repairs_of_mem hop
  cases hrepairs with
  | cancel =>
      obtain ⟨hid, rfl⟩ : e'.id = e.id ∧ "status" = name := hwrites
      obtain ⟨rfl, rfl⟩ := Family.unique hwf he he' hid.symm
      exact ⟨horphan, .inl ⟨rfl, rfl⟩⟩
  | calm =>
      obtain ⟨hid, rfl⟩ : e'.id = e.id ∧ "streaming" = name := hwrites
      obtain ⟨rfl, rfl⟩ := Family.unique hwf he he' hid.symm
      exact ⟨horphan, .inr ⟨rfl, rfl, rfl⟩⟩
  | result => exact hwrites.elim
  | note => exact hwrites.elim

/-- What the repairs make of an element. -/
def repaired (s : SessionSnapshot) (minted : Nat → ElementId) (e : ElementSnapshot) :
    ElementSnapshot :=
  (orphanOps s minted).foldl PatchOp.rewrite e

/-- The repairs write no other attribute. -/
theorem repaired_attribute (e : ElementSnapshot) {name : String} (hstatus : name ≠ "status")
    (hstreaming : name ≠ "streaming") :
    (repaired s minted e).attributes[name]? = e.attributes[name]? := by
  have hnone : ∀ op ∈ orphanOps s minted, ¬ op.Writes e.id name := by
    intro op hop hwrites
    obtain ⟨_, _, _, _, hrepairs⟩ := repairs_of_mem hop
    cases hrepairs with
    | cancel => exact hstatus hwrites.2.symm
    | calm => exact hstreaming hwrites.2.symm
    | result => exact hwrites
    | note => exact hwrites
  have hvalue : ∀ op ∈ orphanOps s minted, op.Writes e.id name →
      op = .setAttribute e.id name .null := fun op hop hwrites => absurd hwrites (hnone op hop)
  rcases PatchOp.foldl_rewrite_attribute hvalue with ⟨_, hkept⟩ | ⟨hmem, _⟩
  · exact hkept
  · exact absurd ⟨rfl, rfl⟩ (hnone _ hmem)

theorem repaired_assistant (e : ElementSnapshot) :
    isAssistant (repaired s minted e) = isAssistant e := by
  have hkind : (repaired s minted e).kind = e.kind := PatchOp.foldl_rewrite_kind _ e
  unfold isAssistant
  rw [hkind, repaired_attribute e (by decide) (by decide)]

/-- An orphan is cancelled, and another member has the status that it had. -/
theorem repaired_terminal (hwf : WellFormed s) (he : e ∈ f.members s) :
    isTerminal (repaired s minted e) = (f.orphaned s e || isTerminal e) := by
  have hvalue : ∀ op ∈ orphanOps s minted, op.Writes e.id "status" →
      op = .setAttribute e.id "status" (.string "cancelled") := by
    intro op hop hwrites
    rcases (writes_of_mem hwf he hop hwrites).2 with ⟨_, hop⟩ | ⟨hname, _⟩
    · exact hop
    · exact absurd hname (by decide)
  unfold repaired isTerminal
  rcases PatchOp.foldl_rewrite_attribute hvalue with ⟨hnone, hkept⟩ | ⟨hmem, hcancelled⟩
  · have hcalm : f.orphaned s e = false := by
      refine Bool.eq_false_iff.mpr fun horphan => ?_
      exact hnone _ (cancelOp_mem he horphan) ⟨rfl, rfl⟩
    rw [hkept, hcalm, Bool.false_or]
  · rw [hcancelled, (writes_of_mem hwf he hmem ⟨rfl, rfl⟩).1, Bool.true_or]
    rfl

/-- An orphaned assistant turn streams no more, and another member streams as it did. -/
theorem repaired_streaming (hwf : WellFormed s) (he : e ∈ f.members s) :
    isStreaming (repaired s minted e) =
      (isStreaming e && !(decide (f = .assistant) && f.orphaned s e)) := by
  have hvalue : ∀ op ∈ orphanOps s minted, op.Writes e.id "streaming" →
      op = .setAttribute e.id "streaming" (.bool false) := by
    intro op hop hwrites
    rcases (writes_of_mem hwf he hop hwrites).2 with ⟨hname, _⟩ | ⟨_, _, hop⟩
    · exact absurd hname (by decide)
    · exact hop
  unfold repaired isStreaming
  rcases PatchOp.foldl_rewrite_attribute hvalue with ⟨hnone, hkept⟩ | ⟨hmem, hcalm⟩
  · have hother : (decide (f = .assistant) && f.orphaned s e) = false := by
      refine Bool.eq_false_iff.mpr fun hboth => ?_
      obtain ⟨hfamily, horphan⟩ := Bool.and_eq_true_iff.mp hboth
      obtain rfl := of_decide_eq_true hfamily
      exact hnone _ (calm_mem he horphan) ⟨rfl, rfl⟩
    rw [hkept, hother, Bool.not_false, Bool.and_true]
  · obtain ⟨horphan, ⟨hname, _⟩ | ⟨_, rfl, _⟩⟩ := writes_of_mem hwf he hmem ⟨rfl, rfl⟩
    · exact absurd hname (by decide)
    · rw [hcalm, horphan]
      dsimp only
      exact (Bool.and_false _).symm

/-! ## The document after the repairs -/

section Repaired

variable (hwf : WellFormed s) (h : Enlarged s s' (orphanOps s minted))

include hwf h

/-- The members of a family are the repaired ones. -/
theorem members_after (f : Family) : f.members s' = (f.members s).map (repaired s minted) := by
  have hchildren : s'.children f.container = (s.children f.container).map (repaired s minted) := by
    obtain ⟨n, hn, _⟩ := hwf.containers _ f.container_mem
    refine h.children hwf hn fun op hop heq => ?_
    obtain ⟨g, e, he, _, hrepairs⟩ := repairs_of_mem hop
    exact Family.not_root hwf he (hrepairs.about.2 heq ▸ f.container_mem)
  have hkind : ∀ e, (repaired s minted e).kind = e.kind := PatchOp.foldl_rewrite_kind _
  have hfilter : ∀ p : ElementSnapshot → Bool, (∀ e, p (repaired s minted e) = p e) →
      (s'.children f.container).filter p =
        ((s.children f.container).filter p).map (repaired s minted) := by
    intro p hp
    rw [hchildren, filter_map]
    exact congrArg _ (filter_congr fun e _ => hp e)
  cases f with
  | job => exact hchildren
  | subagent => exact hfilter _ fun e => by rw [hkind]
  | call => exact hfilter _ fun e => by rw [hkind]
  | assistant => exact hfilter _ repaired_assistant

/-- Every tool call has a result after the repairs. -/
theorem result_after (he : e ∈ Family.call.members s) :
    hasResult s' (repaired s minted e) = true := by
  have hid : (repaired s minted e).id = e.id := PatchOp.foldl_rewrite_id _ e
  unfold hasResult
  rw [hid]
  refine any_eq_true.mpr ?_
  cases hfound : hasResult s e with
  | true =>
      obtain ⟨c, hc, hkind⟩ := any_eq_true.mp hfound
      refine ⟨_, h.child hwf hc, ?_⟩
      rw [PatchOp.foldl_rewrite_kind]
      exact hkind
  | false =>
      obtain ⟨c, hkind, hmem⟩ := result_mem he hfound
      exact ⟨c, h.created_child hmem, beq_iff_eq.mpr hkind⟩

/-- A member is settled after the repairs if it was, or if it was taken for an orphan. -/
theorem settled_after (he : e ∈ f.members s) :
    f.settled s' (repaired s minted e) = (f.orphaned s e || f.settled s e) := by
  have hterminal : isTerminal (repaired s minted e) = (f.orphaned s e || isTerminal e) :=
    repaired_terminal hwf he
  cases f with
  | job => exact hterminal
  | subagent => exact hterminal
  | assistant => exact hterminal
  | call =>
      unfold Family.settled
      dsimp only
      rw [hterminal, result_after hwf h he, Bool.and_true]
      unfold Family.orphaned
      cases hasResult s e <;> simp

/-- The repairs are complete exactly when every member was settled or is an orphan. -/
theorem complete_iff : Complete s' ↔ ∀ f : Family, ∀ e ∈ f.members s,
    (f.orphaned s e = true ∨ f.settled s e = true) ∧
      (isStreaming e = true → f = .assistant ∧ f.orphaned s e = true) := by
  have hmember : ∀ f : Family, ∀ e ∈ f.members s,
      (f.settled s' (repaired s minted e) = true ∧ isStreaming (repaired s minted e) = false ↔
        (f.orphaned s e = true ∨ f.settled s e = true) ∧
          (isStreaming e = true → f = .assistant ∧ f.orphaned s e = true)) := by
    intro f e he
    rw [settled_after hwf h he, repaired_streaming hwf he, Bool.or_eq_true_iff]
    refine and_congr_right fun _ => ?_
    cases isStreaming e <;> cases f.orphaned s e <;> simp
  unfold Complete
  constructor
  · intro hcomplete f e he
    refine (hmember f e he).mp (hcomplete f _ ?_)
    rw [members_after hwf h]
    exact mem_map_of_mem he
  · intro hmembers f e' he'
    rw [members_after hwf h] at he'
    obtain ⟨e, he, rfl⟩ := mem_map.mp he'
    exact (hmember f e he).mpr (hmembers f e he)

/-- The repairs are minimal exactly when no orphan was settled. -/
theorem minimal_iff (hadds : ∀ op ∈ orphanOps s minted, Adds s op) : Minimal s s' ↔
    ∀ f : Family, ∀ e ∈ f.members s, f.settled s e = true → f.orphaned s e = false := by
  constructor
  · intro hminimal f e he hsettled
    refine Bool.eq_false_iff.mpr fun horphan => ?_
    obtain ⟨rfl, hstreams⟩ := Family.streaming_of_settled hsettled horphan
    obtain ⟨n, hn, rfl, _⟩ := (mem_children_iff hwf).mp (Family.child he)
    have hsame := hminimal _ n hn fun g hg => by
      obtain ⟨_, rfl⟩ := Family.unique hwf he hg rfl
      exact hsettled
    have helement : repaired s minted n.element = n.element := by
      have hrepaired := h.kept _ n hn
      rw [hsame] at hrepaired
      have hnode := congrArg Node.element (Option.some.inj hrepaired)
      rw [(PatchOp.foldl_extend _ _ n).1] at hnode
      exact hnode.symm
    have hstreaming : isStreaming (repaired s minted n.element) = _ := repaired_streaming hwf he
    rw [helement, hstreams, horphan] at hstreaming
    cases hstreaming
  · intro hnone key n hn hsettled
    have hapart : ∀ op ∈ orphanOps s minted, op.target ≠ some key ∧ op.into ≠ some key := by
      intro op hop
      obtain ⟨f, e, he, horphan, hrepairs⟩ := repairs_of_mem hop
      have hne : e.id ≠ key := by
        rintro rfl
        obtain ⟨m, hm, rfl, _⟩ := (mem_children_iff hwf).mp (Family.child he)
        rw [hm] at hn
        cases hn
        rw [hnone f _ he (hsettled f he)] at horphan
        cases horphan
      exact ⟨fun heq => hne (hrepairs.about.1 heq), fun heq => hne (hrepairs.about.2 heq)⟩
    exact h.untouched hwf hadds hn (fun op hop => (hapart op hop).1) fun op hop => (hapart op hop).2

omit hwf in
theorem preserved_after (hadds : ∀ op ∈ orphanOps s minted, Adds s op) : Preserved s s' := by
  intro key e he
  obtain ⟨htext, hpayload⟩ := foldl_rewrite_kept (e := e) hadds
  exact ⟨_, h.element he, PatchOp.foldl_rewrite_kind _ e, htext, hpayload⟩

end Repaired

/-- The tests of the code tell the settled members from the others. -/
theorem recognised_iff : Recognised s ↔ ∀ f : Family, ∀ e ∈ f.members s,
    (f.orphaned s e = true ↔ f.settled s e = false) ∧
      (isStreaming e = true → f = .assistant ∧ f.orphaned s e = true) := by
  have hcall : ∀ e : ElementSnapshot,
      (Family.call.orphaned s e = true ↔ Family.call.settled s e = false) ↔
        (hasResult s e = true → isTerminal e = true ∨ isRunning e = true) := by
    intro e
    unfold Family.orphaned Family.settled
    dsimp only
    have hrunning : isRunning e = true → isTerminal e = false := not_terminal_of_running
    revert hrunning
    cases hasResult s e <;> cases isTerminal e <;> cases isRunning e <;> simp
  have hassistant : ∀ e : ElementSnapshot,
      (Family.assistant.orphaned s e = true ↔ Family.assistant.settled s e = false) ↔
        (isTerminal e = true ↔ ¬ (isRunning e = true ∨ isStreaming e = true)) := by
    intro e
    unfold Family.orphaned Family.settled
    dsimp only
    cases isTerminal e <;> cases isRunning e <;> cases isStreaming e <;> simp
  constructor
  · rintro ⟨hcalls, hassistants, hcalm⟩ f e he
    refine ⟨?_, fun hstreams => ?_⟩
    · cases f with
      | job => exact Iff.of_eq (Bool.not_eq_true' _)
      | subagent => exact Iff.of_eq (Bool.not_eq_true' _)
      | call =>
        obtain ⟨hmem, hkind⟩ := mem_filter.mp he
        exact (hcall e).mpr (hcalls e hmem (beq_iff_eq.mp hkind))
      | assistant =>
        obtain ⟨hmem, hkind⟩ := mem_filter.mp he
        exact (hassistant e).mpr (hassistants e hmem hkind)
    · by_cases hfamily : f = .assistant
      · subst hfamily
        refine ⟨rfl, ?_⟩
        unfold Family.orphaned
        dsimp only
        rw [hstreams, Bool.or_true]
      · rw [hcalm f hfamily e he] at hstreams
        cases hstreams
  · intro h
    refine ⟨fun e he hkind => ?_, fun e he hkind => ?_, fun f hfamily e he => ?_⟩
    · exact (hcall e).mp (h .call e (mem_filter.mpr ⟨he, beq_iff_eq.mpr hkind⟩)).1
    · exact (hassistant e).mp (h .assistant e (mem_filter.mpr ⟨he, hkind⟩)).1
    · exact Bool.eq_false_iff.mpr fun hstreams => hfamily ((h f e he).2 hstreams).1

/-! ## The patch of the repairs -/

section Patched

variable [SerdeJson] {j j' : Journal} {owner : ActorId} {world : Journal.Outside}

/-- Creating a short result or note keeps the limits of an operation. -/
theorem validateOp_create (up : ElementId) (index : UInt32) (hversion : e.schemaVersion = 1)
    (hkind : e.kind = "result" ∨ e.kind = "diag") (hshort : e.text.utf8ByteSize ≤ 50) :
    Patch.validateOp (.create up index e) = .ok () := by
  have hfits : Patch.tooLong e.text = false := by
    refine decide_eq_false fun hlong => ?_
    have hlimit : Patch.maxOpTextBytes = 1048576 := rfl
    omega
  have hshape : ¬ (e.schemaVersion ≠ 1 ∨ e.kind.isEmpty ∨ 128 < e.kind.utf8ByteSize ∨
      ¬ e.kind.toList.all Patch.kindChar) := by
    rw [hversion]
    rcases hkind with hkind | hkind <;> rw [hkind] <;> decide
  unfold Patch.validateOp
  dsimp only
  rw [if_neg hshape, hfits]
  rfl

/-- Every repair keeps the limits of an operation. -/
theorem orphanOps_valid : ∀ op ∈ orphanOps s minted, Patch.validateOp op = .ok () := by
  intro op hop
  obtain ⟨_, _, _, _, hrepairs⟩ := repairs_of_mem hop
  cases hrepairs with
  | cancel => rfl
  | calm => rfl
  | result =>
      exact validateOp_create _ _ rfl (.inl rfl)
        (show "Tool call cancelled due to process termination".utf8ByteSize ≤ 50 by decide)
  | note _ _ _ _ hshort => exact validateOp_create _ _ rfl (.inr rfl) hshort

theorem validateOps_of_forall {ops : List PatchOp}
    (h : ∀ op ∈ ops, Patch.validateOp op = .ok ()) : Patch.validateOps ops = .ok () := by
  induction ops with
  | nil => rfl
  | cons op ops ih =>
      obtain ⟨hfirst, hrest⟩ := forall_mem_cons.mp h
      unfold Patch.validateOps
      rw [hfirst]
      exact ih hrest

/-- The patch of the repairs is valid if the offset goes on and there are not too many of them. -/
theorem restart_valid_iff :
    (Control.hostPatch j owner reconcileReason (orphanOps j.snapshot minted)).validate = .ok () ↔
      j.snapshot.offset < j.nextOffset ∧ repairCount j.snapshot ≤ maxPatchOps := by
  have hreason : ¬ (Text.trim reconcileReason).isEmpty = true := by decide
  have hshort : ¬ 4096 < reconcileReason.utf8ByteSize := by decide
  rw [← orphanOps_length j.snapshot minted]
  unfold Patch.validate Control.hostPatch
  dsimp only
  constructor
  · intro hvalid
    split at hvalid
    · cases hvalid
    · next hlimits =>
      refine ⟨UInt64.not_le.mp fun hle => hlimits (.inl hle), Nat.le_of_not_lt fun hlong => ?_⟩
      exact hlimits (.inr (.inr (.inr hlong)))
  · rintro ⟨hoffset, hcount⟩
    rw [if_neg, validateOps_of_forall orphanOps_valid]
    rintro (hle | hempty | hlong | hmany)
    · exact UInt64.not_le.mpr hoffset hle
    · exact hreason hempty
    · exact hshort hlong
    · exact Nat.not_lt.mpr hcount hmany

/-- A restart with orphans is the append of their repairs. -/
theorem reconcile_ok_iff (hsome : orphanOps j.snapshot minted ≠ []) :
    (reconcileOrphans j owner minted world).2 = .ok () ↔
      (Control.commit j owner j.snapshot.offset reconcileReason (orphanOps j.snapshot minted)
        (some world)).2 = .ok () := by
  have hcommit : Control.commit j owner j.snapshot.offset reconcileReason
      (orphanOps j.snapshot minted) (some world) = Control.commitPatch j
        (Control.hostPatch j owner reconcileReason (orphanOps j.snapshot minted)) (some world) :=
    rfl
  rw [hcommit]
  unfold reconcileOrphans Control.commitPatch
  dsimp only
  rw [if_neg (by simpa using hsome)]
  cases happend : j.appendPatch
      (Control.hostPatch j owner reconcileReason (orphanOps j.snapshot minted)) world with
  | mk j' result =>
      have hsame : j.appendPatch ({
          baseOffset := j.snapshot.offset
          resultOffset := j.nextOffset
          author := .actor owner
          reason := reconcileReason
          ops := orphanOps j.snapshot minted } : Patch) world = (j', result) := happend
      rw [hsame]
      cases result with
      | ok offset => exact ⟨fun _ => rfl, fun _ => rfl⟩
      | error e => exact ⟨nofun, nofun⟩

/-- A restart that succeeds has applied its repairs. -/
theorem reconciled (hsound : Control.Sound j) (hminted : Minted j.snapshot minted)
    (h : reconcileOrphans j owner minted world = (j', .ok ())) :
    Enlarged j.snapshot j'.snapshot (orphanOps j.snapshot minted) := by
  have hwf := hsound.wellFormed
  have hadds := orphanOps_add hwf hminted
  obtain ⟨s₁, hops, henlarged⟩ : ∃ s₁,
      j.snapshot.applyOps [] (orphanOps j.snapshot minted) = (s₁, .ok ()) ∧
        Enlarged j.snapshot s₁ (orphanOps j.snapshot minted) :=
    exists_enlarged hwf hadds (orphanOps_apart hminted)
  unfold reconcileOrphans at h
  dsimp only at h
  split at h
  · next hnone =>
    cases h
    have hnil := isEmpty_iff.mp hnone
    rw [hnil] at hops henlarged ⊢
    cases hops
    exact henlarged
  · split at h
    · cases h
    · next j₁ offset happend =>
      cases h
      obtain ⟨hsound', hcases⟩ := hsound.append_cases happend
      rcases hcases with ⟨s, _, _, _, happly, hsnapshot⟩ | ⟨⟨_, herror⟩, _⟩
      · obtain ⟨_, _, s₂, hops₂, rfl⟩ := applyPatch_ok happly
        have hsame : (s₁, Except.ok ()) = (s₂, (.ok () : Except StateError Unit)) :=
          hops.symm.trans hops₂
        cases hsame
        have hnodes : j'.snapshot.nodes = s₁.nodes := by rw [hsnapshot]
        refine ⟨hsound'.wellFormed, fun key n hn => ?_, fun up index e hmem => ?_⟩
        · rw [hnodes]
          exact henlarged.kept key n hn
        · rw [hnodes]
          exact henlarged.created up index e hmem
      · cases herror

/-- Where everything is complete, a restart appends nothing. -/
theorem reconcile_of_complete (h : Complete j.snapshot) :
    reconcileOrphans j owner minted world = (j, .ok ()) := by
  have hnone : orphanOps j.snapshot minted = [] := by
    refine orphanOps_eq_nil_iff.mpr fun f e he => Bool.eq_false_iff.mpr fun horphan => ?_
    obtain ⟨hsettled, hcalm⟩ := h f e he
    rw [(Family.streaming_of_settled hsettled horphan).2] at hcalm
    cases hcalm
  unfold reconcileOrphans
  rw [hnone]
  rfl

/-! ## The claim and its condition -/

/-- A restart succeeds and is complete and minimal, and one after it appends nothing. -/
def Reconciles (j : Journal) (owner : ActorId) (minted : Nat → ElementId)
    (world : Journal.Outside) : Prop :=
  ∃ j', reconcileOrphans j owner minted world = (j', .ok ()) ∧ Complete j'.snapshot ∧
    Minimal j.snapshot j'.snapshot ∧ Preserved j.snapshot j'.snapshot ∧
    ∀ (owner' : ActorId) (minted' : Nat → ElementId) (world' : Journal.Outside),
      reconcileOrphans j' owner' minted' world' = (j', .ok ())

/-- There is nothing to repair, or the repairs go into one patch and its record into a frame. -/
def Room (j : Journal) (owner : ActorId) (minted : Nat → ElementId) (world : Journal.Outside) :
    Prop :=
  repairCount j.snapshot = 0 ∨
    (j.snapshot.offset < j.nextOffset ∧ repairCount j.snapshot ≤ maxPatchOps) ∧
      ∀ now, world = ⟨.ok now, .done⟩ →
        (j.newRecord (hostPatch j owner reconcileReason (orphanOps j.snapshot minted))
          j.snapshot.selectedBranch now).payload.length ≤ maxWireBytes

/-- A restart succeeds exactly when there is room for the repairs. -/
theorem reconcile_succeeds_iff (hsound : Control.Sound j) (hopen : Usable j) (hworld : Obeys (some world))
    (hminted : Minted j.snapshot minted) :
    (reconcileOrphans j owner minted world).2 = .ok () ↔ Room j owner minted world := by
  have hlength := orphanOps_length j.snapshot minted
  unfold Room
  by_cases hnone : orphanOps j.snapshot minted = []
  · have hcount : repairCount j.snapshot = 0 := by rw [← hlength, hnone]; rfl
    unfold reconcileOrphans
    rw [hnone]
    exact ⟨fun _ => .inl hcount, fun _ => rfl⟩
  · have hcount : repairCount j.snapshot ≠ 0 := by
      rw [← hlength]
      exact fun hzero => hnone (length_eq_zero_iff.mp hzero)
    obtain ⟨s₁, hops, _⟩ : ∃ s₁,
        j.snapshot.applyOps [] (orphanOps j.snapshot minted) = (s₁, .ok ()) ∧
          Enlarged j.snapshot s₁ (orphanOps j.snapshot minted) :=
      exists_enlarged hsound.wellFormed (orphanOps_add hsound.wellFormed hminted)
        (orphanOps_apart hminted)
    rw [reconcile_ok_iff hnone, commit_taken_iff hsound hopen hworld hops, WithinLimits,
      restart_valid_iff, or_iff_right hcount]
    refine and_congr_right fun _ => forall_congr' fun now => ?_
    rw [Option.some_inj]

/-- A restart meets the claim exactly when the tests of the code recognise the orphans and there is
room for the repairs. -/
theorem reconciles_iff (owner : ActorId) (hsound : Control.Sound j) (hopen : Usable j)
    (hworld : Obeys (some world)) (hminted : Minted j.snapshot minted) :
    Reconciles j owner minted world ↔ Recognised j.snapshot ∧ Room j owner minted world := by
  have hwf := hsound.wellFormed
  have hadds := orphanOps_add hwf hminted
  rw [← reconcile_succeeds_iff hsound hopen hworld hminted, recognised_iff]
  constructor
  · rintro ⟨j', hsuccess, hcomplete, hminimal, _⟩
    have henlarged := reconciled hsound hminted hsuccess
    rw [complete_iff hwf henlarged] at hcomplete
    rw [minimal_iff hwf henlarged hadds] at hminimal
    refine ⟨fun f e he => ?_, congrArg Prod.snd hsuccess⟩
    obtain ⟨hreached, hstreams⟩ := hcomplete f e he
    refine ⟨⟨fun horphan => ?_, fun hopen => ?_⟩, hstreams⟩
    · refine Bool.eq_false_iff.mpr fun hsettled => ?_
      rw [hminimal f e he hsettled] at horphan
      cases horphan
    · refine hreached.resolve_right fun hsettled => ?_
      rw [hsettled] at hopen
      cases hopen
  · rintro ⟨hrecognised, hsuccess⟩
    obtain ⟨j', hj'⟩ : ∃ j', reconcileOrphans j owner minted world = (j', .ok ()) :=
      ⟨_, Prod.ext rfl hsuccess⟩
    have henlarged := reconciled hsound hminted hj'
    have hcomplete : Complete j'.snapshot := by
      refine (complete_iff hwf henlarged).mpr fun f e he => ?_
      obtain ⟨horphans, hstreams⟩ := hrecognised f e he
      refine ⟨?_, hstreams⟩
      cases hsettled : f.settled j.snapshot e with
      | true => exact .inr rfl
      | false => exact .inl (horphans.mpr hsettled)
    have hminimal : Minimal j.snapshot j'.snapshot := by
      refine (minimal_iff hwf henlarged hadds).mpr fun f e he hsettled => ?_
      refine Bool.eq_false_iff.mpr fun horphan => ?_
      rw [(hrecognised f e he).1.mp horphan] at hsettled
      cases hsettled
    exact ⟨j', hj', hcomplete, hminimal, preserved_after henlarged hadds,
      fun _ _ _ => reconcile_of_complete hcomplete⟩

end Patched

/-! ## A call that runs, and one whose status is not known -/

open Json.Compact

/-- Identifiers for the repairs of one call. -/
def restartIds : Nat → ElementId
  | 0 => ⟨"restart-result", Eq.refl true⟩
  | _ => ⟨"restart-diag", Eq.refl true⟩

/-- A call that runs without a result is settled. -/
theorem reconciles_running : ∃ j, Reconciles j owner restartIds ⟨.ok 8, .done⟩ := by
  obtain ⟨j₀, j, _, _, _, _, hcoherent, hsnapshot, hfailed, hrecovery⟩ := exists_invoked
  have hready : Ready j (firstSnapshot invokePatch) :=
    ⟨⟨_, _, hcoherent⟩, hfailed, hrecovery, hsnapshot⟩
  have hopen : Usable j := ⟨hfailed, hrecovery⟩
  have hminted : Minted j.snapshot restartIds := by
    have hone : (firstSnapshot invokePatch).getVisibleBody.length = 1 := by decide +kernel
    rw [hsnapshot]
    refine ⟨?_, ?_⟩
    · rw [hone]
      decide +kernel
    · rw [hone]
      decide
  refine ⟨j, (reconciles_iff owner hready.sound hopen ⟨8, rfl⟩ hminted).mpr ⟨?_, ?_⟩⟩
  · rw [hsnapshot]
    refine ⟨by decide +kernel, by decide +kernel, fun f _ => ?_⟩
    cases f <;> decide +kernel
  · have hfits : ((Draft.commit (firstSnapshot invokePatch) owner reconcileReason
        (orphanOps (firstSnapshot invokePatch) restartIds) (some ⟨.ok 8, .done⟩)).map
          fun r => r.2.isOk) = some true := by
      decide +kernel
    obtain ⟨⟨s, result⟩, houtcome, hok⟩ := Option.map_eq_some_iff.mp hfits
    have htaken := (hready.commit owner _ _ _ s result houtcome).2
    cases result with
    | error stop => cases hok
    | ok done =>
      rw [← hsnapshot] at htaken
      have hlimits := withinLimits_of_taken hready.sound hopen ⟨8, rfl⟩ htaken
      refine .inr ⟨restart_valid_iff.mp hlimits.1, fun now hnow => ?_⟩
      exact hlimits.2 now (congrArg some hnow)

/-- A patch with a tool call that has a result and a status that is no terminal one. -/
def activePatch : Patch where
  baseOffset := 0
  resultOffset := 1
  author := .actor owner
  reason := "invoke tool bash"
  ops := [
    .create (staticId "body") 0 { ElementSnapshot.new ⟨"first-call", Eq.refl true⟩ "tool_call" with
      attributes := (∅ : Attributes).insert "status" (.string "active") },
    .create ⟨"first-call", Eq.refl true⟩ 0 (ElementSnapshot.new ⟨"first-result", Eq.refl true⟩ "result")]

/-- A tool call that has a partial result and the status `active` is left as it is. -/
theorem not_reconciles_active : ¬ ∀ (j : Journal) (owner : ActorId) (minted : Nat → ElementId)
    (world : Journal.Outside), Control.Sound j → Usable j → Obeys (some world) →
      Minted j.snapshot minted → Reconciles j owner minted world := by
  intro h
  obtain ⟨j₀, hcreate⟩ := Journal.exists_create_exampleSession
  have hstart := exists_ready _ hcreate
  have hfacts : ((Draft.commitPatch (.empty Journal.exampleSession) activePatch
      (some ⟨.ok 7, .done⟩)).map fun r => (r.1.getVisibleBody.length,
        (Family.call.members r.1).all fun e => isTerminal e, (orphanOps r.1 restartIds).length,
        decide (restartIds 0 ∈ r.1.usedIds), decide (restartIds 1 ∈ r.1.usedIds))) =
      some (1, false, 0, false, false) := by
    decide +kernel
  obtain ⟨⟨s, result⟩, houtcome, hactive⟩ := Option.map_eq_some_iff.mp hfacts
  simp only [Prod.mk.injEq, decide_eq_false_iff_not] at hactive
  obtain ⟨hbody, hopen, hnone, hfirst, hsecond⟩ := hactive
  obtain ⟨hready, _⟩ := hstart.commitPatch activePatch _ s result houtcome
  generalize (commitPatch j₀ activePatch (some ⟨.ok 7, .done⟩)).1 = j at hready
  have hminted : Minted j.snapshot restartIds := by
    rw [hready.snapshot]
    refine ⟨?_, ?_⟩
    · rw [hbody]
      intro k hk
      match k, hk with
      | 0, _ => exact hfirst
      | 1, _ => exact hsecond
    · rw [hbody]
      decide
  obtain ⟨j', hsuccess, hcomplete, _⟩ := h j owner restartIds ⟨.ok 8, .done⟩ hready.sound
    ⟨hready.failed, hready.recovery⟩ ⟨8, rfl⟩ hminted
  -- nothing is repaired
  have hsame : j' = j := by
    unfold reconcileOrphans at hsuccess
    rw [hready.snapshot, length_eq_zero_iff.mp hnone] at hsuccess
    exact (congrArg Prod.fst hsuccess).symm
  rw [hsame, hready.snapshot] at hcomplete
  obtain ⟨e, he, hrests⟩ := all_eq_false.mp hopen
  exact hrests (Family.terminal_of_settled (hcomplete .call e he).1)

end Omp2.Cli
