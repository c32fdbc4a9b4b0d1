import Omp2.State.Inspected
import Omp2.State.Subtrees

/-!
# Sessions that can be inspected

What the validator admits is not what XML admits: a kind may begin with a digit or a hyphen, texts
may have characters that no XML text may have, an identifier may have two hyphens in a row, and an
element may be created with a number that is not finite. Along accepted patches that do none of
this, a session is always printed as an XML document, and no session with another tree is printed
like it.
-/

namespace Omp2

open Omp2.Json State

/-! ## Legible patches -/

/-- A kind that begins with a letter or an underscore. -/
def BeginsName (kind : String) : Prop :=
  ∃ c ∈ kind.toList.head?, c.isAlpha = true ∨ c = '_'

instance (kind : String) : Decidable (BeginsName kind) :=
  decidable_of_iff (kind.toList.head?.any fun c => c.isAlpha = true ∨ c = '_') (by
    unfold BeginsName
    cases kind.toList.head? <;> simp)

variable [SerdeJson]

/-- An element whose kind begins a name, whose texts are made of characters of XML, and whose
numbers are finite. -/
structure ElementSnapshot.Legible (element : ElementSnapshot) : Prop where
  kind : BeginsName element.kind
  attributes : ∀ (name : String) (value : TypedValue), element.attributes[name]? = some value →
    Clean name ∧ CleanValue (toValue value) ∧ value.Durable
  text : Clean element.text
  payload : ∀ payload ∈ element.payload, CleanValue payload

/-- An operation that brings in a legible element, or characters of XML. -/
def PatchOp.Legible : PatchOp → Prop
  | .create _ _ element => element.Legible
  | .setAttribute _ name value => Clean name ∧ CleanValue (toValue value)
  | .replaceText _ text | .appendText _ text => Clean text
  | .replacePayload _ payload => CleanValue payload
  | .delete _ | .move .. | .removeAttribute .. => True

/-- A patch whose operations are legible. -/
def Patch.Legible (patch : Patch) : Prop :=
  ∀ op ∈ patch.ops, op.Legible

/-! ## What the validator admits -/

/-- The kind of a created element is valid, and the number of an attribute that is set is
finite. -/
def PatchOp.Valid : PatchOp → Prop
  | .create _ _ element => ValidKind element.kind
  | .setAttribute _ _ value => value.Durable
  | _ => True

/-- The validator admits valid operations only. -/
theorem Patch.validateOp_ok {op : PatchOp} (h : Patch.validateOp op = .ok ()) : op.Valid := by
  cases op with
  | create parent index element =>
      dsimp only [validateOp] at h
      split at h
      · cases h
      · next hbad =>
        have hall : element.kind.toList.all kindChar = true := by
          by_contra hnot
          exact hbad (.inr (.inr (.inr hnot)))
        exact List.all_eq_true.mp hall
  | setAttribute key name value =>
      dsimp only [validateOp] at h
      split at h
      · cases h
      · cases value with
        | number x =>
          dsimp only at h
          split at h
          · next hfinite => exact hfinite
          · cases h
        | null => trivial
        | bool _ => trivial
        | integer _ => trivial
        | string _ => trivial
        | json _ => trivial
  | delete _ => trivial
  | move _ _ _ => trivial
  | removeAttribute _ _ => trivial
  | replaceText _ _ => trivial
  | appendText _ _ => trivial
  | replacePayload _ _ => trivial

/-- A valid patch has valid operations. -/
theorem Patch.validate_valid {patch : Patch} (h : patch.validate = .ok ()) :
    ∀ op ∈ patch.ops, op.Valid := by
  have hops : ∀ ops : List PatchOp, validateOps ops = .ok () → ∀ op ∈ ops, op.Valid := by
    intro ops
    induction ops with
    | nil => exact fun _ _ hop => absurd hop List.not_mem_nil
    | cons op ops ih =>
      intro h
      unfold validateOps at h
      cases hop : validateOp op with
      | error e =>
        rw [hop] at h
        cases h
      | ok _ =>
        rw [hop] at h
        exact List.forall_mem_cons.mpr ⟨validateOp_ok hop, ih h⟩
  unfold validate at h
  split at h
  · cases h
  · exact hops patch.ops h

end Omp2

namespace Omp2.State.SessionSnapshot

open Omp2.Json OrderedTree

variable {s s' : SessionSnapshot} {u : Undo} {P : ElementSnapshot → Prop}

/-! ## Every element along patches -/

/-- Every element of a session has a property. -/
def Every (P : ElementSnapshot → Prop) (s : SessionSnapshot) : Prop :=
  ∀ (key : ElementId) (node : Node), s.nodes[key]? = some node → P node.element

/-- A change of contents that keeps a property. -/
theorem Every.content {key : ElementId} {op : PatchOp} {change : ElementSnapshot → ElementSnapshot}
    (h : Every P s) (hwf : WellFormed s)
    (hrewrite : ∀ e : ElementSnapshot, e.id = key → change e = op.rewrite e)
    (hop : ∀ e, P e → P (op.rewrite e)) : Every P (s.modifyNode key (setElement change)) := by
  intro x node hnode
  obtain ⟨old, hold, rfl⟩ := getElem?_modify_eq_some.mp hnode
  split
  · next heq =>
    have hid : old.element.id = key := (hwf.named hold).trans heq.symm
    show P (change old.element)
    rw [hrewrite _ hid]
    exact hop _ (h x old hold)
  · exact h x old hold

/-- An accepted operation keeps a property that created elements have and that it keeps. -/
theorem Every.applyOne {op : PatchOp} (h : Every P s) (hwf : WellFormed s)
    (hcreate : ∀ parent index e, op = .create parent index e → P e)
    (hop : ∀ e, P e → P (op.rewrite e)) (happly : s.applyOne op = (s', .ok u)) : Every P s' := by
  cases op with
  | create parent index e =>
      obtain ⟨_, _, rfl, _⟩ := applyCreate_ok happly
      intro x node hnode
      dsimp only at hnode
      rw [getElem?_insert] at hnode
      split at hnode
      · cases hnode
        exact hcreate parent index e rfl
      · obtain ⟨old, hold, rfl⟩ := getElem?_modify_eq_some.mp hnode
        split
        · exact h x old hold
        · exact h x old hold
  | delete element =>
      rcases applyDelete_cases hwf happly with ⟨_, hr, _⟩ |
        ⟨_, _, _, _, _, _, _, _, _, _, _, hgone, rfl, _⟩
      · cases hr
      · intro x node hnode
        obtain ⟨_, old, hold, helement, _⟩ := get_of_removed hgone hnode
        exact helement ▸ h x old hold
  | move element parent index =>
      obtain ⟨_, _, _, _, _, _, _, _, _, _, _, _, _, rfl, _⟩ := applyMove_ok happly
      intro x node hnode
      obtain ⟨n₂, hn₂, rfl⟩ := getElem?_modify_eq_some.mp hnode
      obtain ⟨n₁, hn₁, rfl⟩ := getElem?_modify_eq_some.mp hn₂
      obtain ⟨n, hn, rfl⟩ := getElem?_modify_eq_some.mp hn₁
      have hold := h x n hn
      split <;> split <;> split <;> exact hold
  | setAttribute key name value =>
      dsimp only [SessionSnapshot.applyOne] at happly
      obtain ⟨_, _, _, rfl⟩ := applyContent_ok happly
      exact h.content hwf (fun e hid => by rw [PatchOp.rewrite, if_pos hid.symm]) hop
  | removeAttribute key name =>
      dsimp only [SessionSnapshot.applyOne] at happly
      obtain ⟨_, _, _, rfl⟩ := applyContent_ok happly
      exact h.content hwf (fun e hid => by rw [PatchOp.rewrite, if_pos hid.symm]) hop
  | replaceText key text =>
      dsimp only [SessionSnapshot.applyOne] at happly
      obtain ⟨_, _, _, rfl⟩ := applyContent_ok happly
      exact h.content hwf (fun e hid => by rw [PatchOp.rewrite, if_pos hid.symm]) hop
  | appendText key text =>
      dsimp only [SessionSnapshot.applyOne] at happly
      obtain ⟨_, _, _, rfl⟩ := applyContent_ok happly
      exact h.content hwf (fun e hid => by rw [PatchOp.rewrite, if_pos hid.symm]) hop
  | replacePayload key payload =>
      dsimp only [SessionSnapshot.applyOne] at happly
      obtain ⟨_, _, _, rfl⟩ := applyContent_ok happly
      exact h.content hwf (fun e hid => by rw [PatchOp.rewrite, if_pos hid.symm]) hop

/-- Accepted operations keep a property. -/
theorem Every.applyOps {done : List Undo} {ops : List PatchOp} (h : Every P s)
    (hwf : WellFormed s)
    (hcreate : ∀ op ∈ ops, ∀ parent index e, op = .create parent index e → P e)
    (hops : ∀ op ∈ ops, ∀ e, P e → P (op.rewrite e))
    (happly : s.applyOps done ops = (s', .ok ())) : Every P s' := by
  induction ops generalizing s done with
  | nil =>
      cases happly
      exact h
  | cons op ops ih =>
      obtain ⟨hop, hmore⟩ := List.forall_mem_cons.mp hops
      obtain ⟨hfirst, hrest⟩ := List.forall_mem_cons.mp hcreate
      unfold SessionSnapshot.applyOps at happly
      split at happly
      · next s₁ u hone =>
        exact ih (h.applyOne hwf hfirst hop hone) (hwf.applyOne hone) hrest hmore happly
      · cases happly

variable [SerdeJson]

/-- A call of `apply_patch` keeps a property that its operations keep when it is accepted. -/
theorem Every.patchStep {patch : Patch} (h : Every P s) (hwf : WellFormed s)
    (hpatch : (s.applyPatch patch).2 = .ok () → patch.validate = .ok () →
      (∀ op ∈ patch.ops, ∀ parent index e, op = .create parent index e → P e) ∧
        ∀ op ∈ patch.ops, ∀ e, P e → P (op.rewrite e)) : Every P (s.patchStep patch) := by
  rcases applyPatch_cases hwf (Prod.mk.eta (p := s.applyPatch patch)).symm with
    ⟨hok, _⟩ | ⟨_, hsame⟩
  · obtain ⟨hvalid, _, s₁, hops, hs₁⟩ := applyPatch_ok (Prod.ext rfl hok)
    obtain ⟨hcreate, hrewrite⟩ := hpatch hok hvalid
    have hevery := h.applyOps hwf hcreate hrewrite hops
    have hnodes := congrArg SessionSnapshot.nodes hs₁
    exact fun key node hnode => hevery key node (hnodes ▸ hnode)
  · have hnodes := congrArg SessionSnapshot.nodes hsame
    exact fun key node hnode => h key node (hnodes ▸ hnode)

omit [SerdeJson] in
theorem every_empty (sessionId : SessionId)
    (h : ∀ key ∈ roots, P (ElementSnapshot.new key key.value)) : Every P (empty sessionId) := by
  intro key node hnode
  rw [(seeded_empty sessionId).get] at hnode
  split at hnode
  · next hkey =>
    cases hnode
    exact h key hkey
  · cases hnode

/-! ## Valid kinds -/

/-- Along any patches every kind is valid. -/
theorem every_validKind (sessionId : SessionId) (patches : List Patch) :
    Every (fun e => ValidKind e.kind) (afterPatches sessionId patches) := by
  have hboth := Machine.invariant_run
    (P := fun s => WellFormed s ∧ Every (fun e => ValidKind e.kind) s)
    (fun s patch h => ⟨h.1.patchStep patch, h.2.patchStep h.1 fun _ hvalid =>
      ⟨fun op hop parent index e heq => ?_, fun op _ e he => ?_⟩⟩) patches
    ⟨empty_wellFormed sessionId, every_empty sessionId ?_⟩
  · exact hboth.2
  · have hvalidOp := Patch.validate_valid hvalid op hop
    rw [heq] at hvalidOp
    exact hvalidOp
  · rw [PatchOp.rewrite_kind]
    exact he
  · decide +kernel

theorem named_afterPatches (sessionId : SessionId) (patches : List Patch) :
    Named (afterPatches sessionId patches).nodes :=
  ⟨fun _ _ h => (afterPatches_wellFormed sessionId patches).named h,
    every_validKind sessionId patches⟩

/-! ## Legible runs -/

/-- A call of `apply_patch` that is refused, or whose patch is legible. -/
def LegibleStep (s : SessionSnapshot) (patch : Patch) : Prop :=
  (s.applyPatch patch).2 = .ok () → patch.Legible

/-- A legible operation keeps an element legible. -/
theorem legible_rewrite {op : PatchOp} (hop : op.Legible) (hvalid : op.Valid)
    {e : ElementSnapshot} (he : e.Legible) : (op.rewrite e).Legible := by
  cases op with
  | create _ _ _ => exact he
  | delete _ => exact he
  | move _ _ _ => exact he
  | setAttribute key name value =>
      unfold PatchOp.rewrite
      dsimp only
      split
      · refine ⟨he.kind, fun other v hv => ?_, he.text, he.payload⟩
        rw [Std.ExtTreeMap.getElem?_insert] at hv
        split at hv
        · next heq =>
          cases hv
          obtain rfl : name = other := by simpa using heq
          exact ⟨hop.1, hop.2, hvalid⟩
        · exact he.attributes other v hv
      · exact he
  | removeAttribute key name =>
      unfold PatchOp.rewrite
      dsimp only
      split
      · refine ⟨he.kind, fun other v hv => ?_, he.text, he.payload⟩
        rw [Std.ExtTreeMap.getElem?_erase] at hv
        split at hv
        · cases hv
        · exact he.attributes other v hv
      · exact he
  | replaceText key text =>
      unfold PatchOp.rewrite
      dsimp only
      split
      · exact ⟨he.kind, he.attributes, hop, he.payload⟩
      · exact he
  | appendText key text =>
      unfold PatchOp.rewrite
      dsimp only
      split
      · refine ⟨he.kind, he.attributes, fun c hc => ?_, he.payload⟩
        dsimp only at hc
        rw [String.toList_append] at hc
        exact (List.mem_append.mp hc).elim (he.text c) (hop c)
      · exact he
  | replacePayload key payload =>
      unfold PatchOp.rewrite
      dsimp only
      split
      · refine ⟨he.kind, he.attributes, he.text, fun v hv => ?_⟩
        cases hv
        exact hop
      · exact he

/-- Along legible patches every element is legible. -/
theorem every_legible {sessionId : SessionId} {patches : List Patch}
    (h : Machine.Along SessionSnapshot.patchStep LegibleStep (empty sessionId) patches) :
    Every ElementSnapshot.Legible (afterPatches sessionId patches) := by
  have hboth := Machine.invariant_along
    (P := fun s => WellFormed s ∧ Every ElementSnapshot.Legible s)
    (fun s patch h hstep => ⟨h.1.patchStep patch, h.2.patchStep h.1 fun hok hvalid =>
      ⟨fun op hop parent index e heq => ?_, fun op hop e he =>
        legible_rewrite (hstep hok op hop) (Patch.validate_valid hvalid op hop) he⟩⟩)
    ⟨empty_wellFormed sessionId, every_empty sessionId ?_⟩ h
  · exact hboth.2
  · have hlegible := hstep hok op hop
    rw [heq] at hlegible
    exact hlegible
  · intro key hkey
    have hkind : BeginsName key.value := by
      revert key
      decide +kernel
    exact ⟨hkind, fun name value hvalue => absurd hvalue (by simp [ElementSnapshot.new]),
      fun c hc => absurd hc List.not_mem_nil, fun v hv => absurd hv (Option.not_mem_none v)⟩

/-- A legible element of a valid kind can be written. -/
theorem writable_of_legible {e : ElementSnapshot} (hkind : ValidKind e.kind) (h : e.Legible) :
    Writable e := by
  refine ⟨?_, fun entry hentry => ?_, h.text, h.payload⟩
  · obtain ⟨first, hfirst, hbegins⟩ := h.kind
    unfold ValidKind at hkind
    cases hchars : e.kind.toList with
    | nil =>
      rw [hchars] at hfirst
      cases hfirst
    | cons c cs =>
      rw [hchars] at hfirst hkind
      cases hfirst
      refine ⟨hbegins.elim (fun h => .inr (.inl h)) fun h => .inr (.inr (.inl h)), fun d hd => ?_⟩
      have hd := hkind d (List.mem_cons_of_mem _ hd)
      unfold Patch.kindChar at hd
      rw [Bool.or_eq_true, Bool.or_eq_true, beq_iff_eq, beq_iff_eq, Char.isAlphanum,
        Bool.or_eq_true] at hd
      rcases hd with ((hd | hd) | hd) | hd
      · exact .inl (.inr (.inl hd))
      · exact .inr (.inr (.inr (.inl hd)))
      · exact .inl (.inr (.inr (.inl hd)))
      · exact .inr (.inl hd)
  · obtain ⟨hname, hvalue, _⟩ := h.attributes entry.1 entry.2
      (Std.ExtTreeMap.mem_toList_iff_getElem?_eq_some.mp hentry)
    exact ⟨hname, hvalue⟩

/-- Patches keep the session. -/
theorem sessionId_afterPatches (sessionId : SessionId) (patches : List Patch) :
    (afterPatches sessionId patches).sessionId = sessionId := by
  have hboth := Machine.invariant_run
    (P := fun s => WellFormed s ∧ s.sessionId = sessionId)
    (fun s patch h => ⟨h.1.patchStep patch, ?_⟩) patches
    ⟨empty_wellFormed sessionId, (empty_rest sessionId).1⟩
  · exact hboth.2
  · rcases applyPatch_cases h.1 (Prod.mk.eta (p := s.applyPatch patch)).symm with
      ⟨hok, _⟩ | ⟨_, hsame⟩
    · exact (applyPatch_rest (Prod.ext rfl hok)).1.trans h.2
    · exact (congrArg SessionSnapshot.sessionId hsame).trans h.2

/-- A snapshot as it is shown on a branch. -/
def shownOn (s : SessionSnapshot) (branch : BranchId) : SessionSnapshot :=
  { s with selectedBranch := branch }

end Omp2.State.SessionSnapshot

namespace Omp2.State

open SessionSnapshot Json

/-- After legible patches, a session whose identifier and branch have no two hyphens in a row is
printed as an XML document, and any session that is printed like it has its tree. -/
theorem inspectXml_legible [SerdeDistinct] (sessionId : SessionId) (branch : BranchId)
    (patches : List Patch) (hsession : SingleHyphens sessionId.value.toList)
    (hbranch : SingleHyphens branch.value.toList)
    (hlegible : Machine.Along patchStep LegibleStep (SessionSnapshot.empty sessionId) patches) :
    Xml.Document ((afterPatches sessionId patches).shownOn branch).inspectXml ∧
      ∀ (sessionId' : SessionId) (branch' : BranchId) (patches' : List Patch),
        ((afterPatches sessionId patches).shownOn branch).inspectXml =
            ((afterPatches sessionId' patches').shownOn branch').inspectXml →
          (afterPatches sessionId patches).nodes = (afterPatches sessionId' patches').nodes := by
  have hwf (sessionId : SessionId) (branch : BranchId) (patches : List Patch) :
      WellFormed ((afterPatches sessionId patches).shownOn branch) :=
    have h := afterPatches_wellFormed sessionId patches
    ⟨h.tree, h.containers, h.named, h.used⟩
  have hevery := every_legible hlegible
  have hkinds := every_validKind sessionId patches
  constructor
  · have hid : ((afterPatches sessionId patches).shownOn branch).sessionId = sessionId :=
      sessionId_afterPatches sessionId patches
    exact document_inspectXml (hwf sessionId branch patches) (by rw [hid]; exact hsession) hbranch
      fun key node hnode => writable_of_legible (hkinds key node hnode) (hevery key node hnode)
  · intro sessionId' branch' patches' h
    have hfinite : Finite (afterPatches sessionId patches).nodes := fun key node hnode entry
      hentry => ((hevery key node hnode).attributes entry.1 entry.2
        (Std.ExtTreeMap.mem_toList_iff_getElem?_eq_some.mp hentry)).2.2
    have hnodes := nodes_eq_of_inspectXml (hwf sessionId branch patches)
      (hwf sessionId' branch' patches') (named_afterPatches sessionId patches)
      (named_afterPatches sessionId' patches') hfinite h
    exact hnodes

/-- A session of one note. -/
def noteSession : SessionId :=
  ⟨"session", Eq.refl true⟩

/-- A patch that creates a note. -/
def notePatch (text : String) : Patch where
  baseOffset := 0
  resultOffset := 1
  author := .actor ⟨"user", Eq.refl true⟩
  reason := "note"
  ops := [.create (staticId "body") 0
    { ElementSnapshot.new (staticId "note") "note" with text }]

section Notes

open scoped Json.Compact

theorem inspectXml_legible_note :
    Xml.Document ((afterPatches noteSession [notePatch "a < b"]).shownOn mainBranch).inspectXml ∧
      ∀ (sessionId' : SessionId) (branch' : BranchId) (patches' : List Patch),
        ((afterPatches noteSession [notePatch "a < b"]).shownOn mainBranch).inspectXml =
            ((afterPatches sessionId' patches').shownOn branch').inspectXml →
          (afterPatches noteSession [notePatch "a < b"]).nodes =
            (afterPatches sessionId' patches').nodes := by
  have hkind : BeginsName "note" := by
    decide
  have htext : Clean "a < b" := by
    decide
  have hlegible : (notePatch "a < b").Legible := by
    refine List.forall_mem_singleton.mpr ⟨hkind, fun name value hvalue => ?_, htext,
      fun v hv => absurd hv (Option.not_mem_none v)⟩
    exact absurd hvalue (by simp [ElementSnapshot.new])
  exact inspectXml_legible noteSession mainBranch [notePatch "a < b"]
    (by unfold SingleHyphens; decide) (by unfold SingleHyphens; decide)
    ⟨fun _ => hlegible, trivial⟩

/-- A note with an escape sequence of a terminal is printed with it, which no XML text may have. -/
theorem not_document_escape : ¬ ∀ (sessionId : SessionId) (branch : BranchId)
    (patches : List Patch),
    Xml.Document ((afterPatches sessionId patches).shownOn branch).inspectXml := by
  intro h
  have hescape : '\x1b' ∈
      ((afterPatches noteSession [notePatch "\x1b[31m"]).shownOn mainBranch).inspectXml := by
    decide +kernel
  have hchar := (h noteSession mainBranch [notePatch "\x1b[31m"]).chars _ hescape
  exact absurd hchar (by decide)

end Notes

end Omp2.State
