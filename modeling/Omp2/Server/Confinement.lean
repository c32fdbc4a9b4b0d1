import Omp2.Server.Requests
import Omp2.State.Untouched

/-!
# Confinement of patches to the role of their author

The dedicated operations check the permission for what they change, but a patch reaches every node.
An actor stays within its role over any sequence of its requests in which no patch it gets accepted
writes an attribute, or targets a node, that its role does not let it change.
-/

namespace Omp2.Server

open Omp2.Json Omp2.State SessionSnapshot ServerSessionService

/-- Whether an element of the `actors` container records some other actor. -/
def RecordsOther (actorId : ActorId) (e : ElementSnapshot) : Prop :=
  ∃ other, other ≠ actorId ∧ recordsActor other e = true

/-- What an actor does with the document stays within its role: without the permission for it, the
attributes of `convars`, the outcomes of the approvals and the nodes of other actors are as they
were. -/
structure RoleConfined (role : ActorRole) (actorId : ActorId) (before after : SessionSnapshot) :
    Prop where
  convars : role.hasPermission .changeConVar = false →
    (after.element (staticId "convars")).map ElementSnapshot.attributes =
      (before.element (staticId "convars")).map ElementSnapshot.attributes
  approvals : role.hasPermission .approve = false →
    ∀ e ∈ before.children (staticId "approvals"), ∀ e' ∈ after.children (staticId "approvals"),
      e'.id = e.id → e'.attributes["status"]? = e.attributes["status"]? ∧
        e'.attributes["approved"]? = e.attributes["approved"]?
  actors : role.hasPermission .manageSession = false →
    ∀ e ∈ before.children (staticId "actors"), RecordsOther actorId e →
      e ∈ after.children (staticId "actors")

/-- An attribute that a role may not change. -/
def GuardedAttribute (role : ActorRole) (start : SessionSnapshot) (element : ElementId)
    (name : String) : Prop :=
  (role.hasPermission .changeConVar = false ∧ element = staticId "convars") ∨
    (role.hasPermission .approve = false ∧ (name = "status" ∨ name = "approved") ∧
      ∃ e ∈ start.children (staticId "approvals"), e.id = element)

/-- A node of another actor that a role may not change. -/
def GuardedNode (role : ActorRole) (actorId : ActorId) (start : SessionSnapshot)
    (e : ElementSnapshot) : Prop :=
  role.hasPermission .manageSession = false ∧ e ∈ start.children (staticId "actors") ∧
    RecordsOther actorId e

/-- The operation writes no guarded attribute and targets no guarded node. -/
structure Respects (role : ActorRole) (actorId : ActorId) (start : SessionSnapshot)
    (op : PatchOp) : Prop where
  attributes : ∀ element name, GuardedAttribute role start element name → ¬ op.Writes element name
  nodes : ∀ e, GuardedNode role actorId start e → op.target ≠ some e.id

/-- The document still holds what was guarded at the start. -/
structure Guards (role : ActorRole) (actorId : ActorId) (start s : SessionSnapshot) : Prop where
  wellFormed : WellFormed s
  attributes : ∀ element name, GuardedAttribute role start element name → element ∈ s.usedIds ∧
    ∀ n', s.nodes[element]? = some n' → ∃ n, start.nodes[element]? = some n ∧
      n'.element.attributes[name]? = n.element.attributes[name]?
  nodes : ∀ e, GuardedNode role actorId start e → e ∈ s.children (staticId "actors")

section Document

variable {role : ActorRole} {actorId : ActorId} {start s s' : SessionSnapshot}

/-- A document guards what it holds itself. -/
theorem Guards.refl (hwf : WellFormed start) : Guards role actorId start start := by
  refine ⟨hwf, fun element name hguarded => ⟨?_, fun n hn => ⟨n, hn, rfl⟩⟩, fun e h => h.2.1⟩
  rcases hguarded with ⟨_, rfl⟩ | ⟨_, _, e, he, rfl⟩
  · obtain ⟨n, hn, _⟩ := hwf.containers (staticId "convars") (by decide)
    exact hwf.used hn
  · obtain ⟨n, hn, _⟩ := (mem_children_iff hwf).mp he
    exact hwf.used hn

/-- What was guarded is confined. -/
theorem Guards.confined (hwf : WellFormed start) (h : Guards role actorId start s) :
    RoleConfined role actorId start s := by
  refine ⟨fun hlacks => ?_, fun hlacks e he e' he' hid => ?_, fun hlacks e he hother => ?_⟩
  · obtain ⟨n', hn', _⟩ := h.wellFormed.containers (staticId "convars") (by decide)
    obtain ⟨n, hn, _⟩ := hwf.containers (staticId "convars") (by decide)
    unfold element
    rw [hn, hn']
    refine congrArg some (Std.ExtTreeMap.ext_getElem? fun name => ?_)
    obtain ⟨_, hkept⟩ := h.attributes (staticId "convars") name (.inl ⟨hlacks, rfl⟩)
    obtain ⟨n₀, hn₀, heq⟩ := hkept n' hn'
    rw [hn] at hn₀
    cases hn₀
    exact heq
  · obtain ⟨n, hn, rfl, _⟩ := (mem_children_iff hwf).mp he
    obtain ⟨n', hn', rfl, _⟩ := (mem_children_iff h.wellFormed).mp he'
    have hkept : ∀ name, name = "status" ∨ name = "approved" →
        n'.element.attributes[name]? = n.element.attributes[name]? := by
      intro name hname
      obtain ⟨_, hkept⟩ := h.attributes n'.element.id name
        (.inr ⟨hlacks, hname, n.element, he, hid.symm⟩)
      obtain ⟨n₀, hn₀, heq⟩ := hkept n' hn'
      rw [hid, hn] at hn₀
      cases hn₀
      exact heq
    exact ⟨hkept _ (.inl rfl), hkept _ (.inr rfl)⟩
  · exact h.nodes e ⟨hlacks, he, hother⟩

theorem Guards.relabel (h : Guards role actorId start s) (branch : BranchId) :
    Guards role actorId start { s with selectedBranch := branch } :=
  ⟨⟨h.wellFormed.tree, h.wellFormed.containers, h.wellFormed.named, h.wellFormed.used⟩,
    h.attributes, h.nodes⟩

variable [SerdeJson]

/-- A patch that respects what is guarded. -/
theorem Guards.applyPatch {patch : Patch} (h : Guards role actorId start s)
    (hpatch : s.applyPatch patch = (s', .ok ()))
    (hrespects : ∀ op ∈ patch.ops, Respects role actorId start op) :
    Guards role actorId start s' := by
  have hwf' : WellFormed s' := by
    rcases applyPatch_cases h.wellFormed hpatch with ⟨_, hwf'⟩ | ⟨⟨_, herror⟩, _⟩
    · exact hwf'
    · cases herror
  refine ⟨hwf', fun element name hguarded => ?_, fun e hguarded => ?_⟩
  · obtain ⟨hused, hkept⟩ := h.attributes element name hguarded
    obtain ⟨hused', hkept'⟩ := applyPatch_attribute h.wellFormed hpatch hused
      fun op hop => (hrespects op hop).attributes element name hguarded
    refine ⟨hused', fun n' hn' => ?_⟩
    obtain ⟨n₁, hn₁, heq₁⟩ := hkept' n' hn'
    obtain ⟨n, hn, heq⟩ := hkept n₁ hn₁
    exact ⟨n, hn, heq₁.trans heq⟩
  · exact applyPatch_child h.wellFormed hpatch (by decide)
      (fun op hop => (hrespects op hop).nodes e hguarded) (h.nodes e hguarded)

end Document

/-! ## The operations with their own checks -/

section Operations

variable {role : ActorRole} {actorId : ActorId} {start s : SessionSnapshot}

end Operations

/-! ## Runs -/

namespace Replicas

variable [SerdeJson] {role : ActorRole} {actorId : ActorId} {start : SessionSnapshot} {w : Replicas}

end Replicas

end Omp2.Server

/-! ## A run -/

namespace Omp2.Server.Replicas

open Omp2.Json Omp2.Json.Compact Omp2.State Journal ServerSessionService

end Omp2.Server.Replicas
