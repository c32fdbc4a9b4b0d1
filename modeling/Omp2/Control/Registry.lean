import Omp2.Control.Providers
import Omp2.State.Containers

/-!
# The registry is a map

The registry of a document as a map from names to records, and what the commands do to it. Every
element of the registry is kept under the identifier that is made from the name of its record, so
recording, forgetting and every other patch of the commands can be read off the children of the
`providers` container.
-/

namespace Omp2.Control

open Omp2.Json Omp2.State SessionSnapshot ProviderRecord List

/-! ## Registries as maps -/

/-- A registry: the record of each name. -/
abbrev Registry := String → Option ProviderRecord

namespace Registry

/-- The registry of a new session. -/
def empty : Registry := fun _ => none

/-- Adding a record replaces the record of its name and the records of its endpoint. -/
def add (registry : Registry) (record : ProviderRecord) : Registry := fun name =>
  if name = record.name then some record
  else (registry name).filter fun r => !r.matchesEndpoint record.adapter record.endpoint

/-- Removing a name. -/
def remove (registry : Registry) (name : String) : Registry := fun other =>
  if other = name then none else registry other

end Registry

/-- The registry that a document holds. -/
def registryOf (s : SessionSnapshot) : Registry := fun name =>
  (providers s).find? fun r => r.name = name

/-! ## The elements of the registry -/

variable {s s' : SessionSnapshot} {record : ProviderRecord}

/-- The elements of the registry hold records that point at different endpoints, each under the
identifier of its name. -/
structure Registered (s : SessionSnapshot) : Prop where
  wellFormed : WellFormed s
  record : ∀ e ∈ providerElements s, ∃ r, fromElement e = some r ∧
    e.id.value = "provider-" ++ r.name
  apart : ∀ e ∈ providerElements s, ∀ e' ∈ providerElements s, ∀ r r', fromElement e = some r →
    fromElement e' = some r' → r.Meets r' → e = e'

theorem providerElements_empty (sessionId : SessionId) :
    providerElements (SessionSnapshot.empty sessionId) = [] := by
  have hget := (seeded_empty sessionId).get (staticId "providers")
  rw [if_pos (by decide)] at hget
  unfold providerElements SessionSnapshot.children
  rw [hget]
  rfl

/-- A new session has an empty registry. -/
theorem registered_empty (sessionId : SessionId) :
    Registered (SessionSnapshot.empty sessionId) ∧
      registryOf (SessionSnapshot.empty sessionId) = Registry.empty := by
  refine ⟨⟨empty_wellFormed sessionId, fun e he => ?_, fun e he => ?_⟩, ?_⟩
  · rw [providerElements_empty] at he
    cases he
  · rw [providerElements_empty] at he
    cases he
  · funext name
    unfold registryOf providers
    rw [providerElements_empty]
    rfl

/-- The record of an element of a registry is the one that its identifier names. -/
theorem Registered.eq_of_name (h : Registered s) {e e' : ElementSnapshot} {r r' : ProviderRecord}
    (he : e ∈ providerElements s) (he' : e' ∈ providerElements s) (hr : fromElement e = some r)
    (hr' : fromElement e' = some r') (hname : r.name = r'.name) : e = e' := by
  obtain ⟨r₁, hr₁, hid⟩ := h.record e he
  obtain ⟨r₂, hr₂, hid'⟩ := h.record e' he'
  rw [hr] at hr₁
  rw [hr'] at hr₂
  cases hr₁
  cases hr₂
  refine (eq_of_mem_children h.wellFormed he he' ?_).1
  cases hval : e.id with
  | mk value valid =>
      cases hval' : e'.id with
      | mk value' valid' =>
        rw [hval] at hid
        rw [hval'] at hid'
        congr 1
        exact hid.trans (hname ▸ hid'.symm)

/-- What the registry holds under a name. -/
theorem Registered.registryOf_eq_some (h : Registered s) {name : String} :
    registryOf s name = some record ↔
      record.name = name ∧ ∃ e ∈ providerElements s, fromElement e = some record := by
  have hmem : ∀ r, r ∈ providers s ↔ ∃ e ∈ providerElements s, fromElement e = some r :=
    fun r => mem_filterMap
  unfold registryOf
  constructor
  · intro hfound
    have hname := find?_some hfound
    exact ⟨by simpa using hname, (hmem record).mp (mem_of_find?_eq_some hfound)⟩
  · rintro ⟨rfl, e, he, hr⟩
    cases hfound : (providers s).find? fun r => r.name = record.name with
    | none =>
      have hnone := find?_eq_none.mp hfound record ((hmem record).mpr ⟨e, he, hr⟩)
      simp at hnone
    | some r =>
      have hname : r.name = record.name := by simpa using find?_some hfound
      obtain ⟨e', he', hr'⟩ := (hmem r).mp (mem_of_find?_eq_some hfound)
      obtain rfl := h.eq_of_name he' he hr' hr hname
      exact hr'.symm.trans hr

/-- The element of a name holds the record of the name. -/
theorem findProvider_eq_some {name : String} {e : ElementSnapshot}
    (h : findProvider s name = some e) :
    e ∈ providerElements s ∧ ∃ r, fromElement e = some r ∧ r.name = name := by
  have hname := find?_some h
  refine ⟨mem_of_find?_eq_some h, ?_⟩
  cases hr : fromElement e with
  | none =>
      rw [hr] at hname
      cases hname
  | some r =>
      rw [hr] at hname
      exact ⟨r, rfl, by simpa using hname⟩

theorem findProvider_eq_none {name : String} (h : findProvider s name = none) :
    ∀ e ∈ providerElements s, ∀ r, fromElement e = some r → r.name ≠ name := by
  intro e he r hr hname
  have hnot := find?_eq_none.mp h e he
  rw [hr] at hnot
  simp [hname] at hnot

/-- An element of the registry is no container. -/
theorem not_root_of_provider (hwf : WellFormed s) {e : ElementSnapshot}
    (he : e ∈ providerElements s) : e.id ∉ roots := by
  have hleaf : ∀ key ∈ roots, containerParent key ≠ some (staticId "providers") := by
    decide +kernel
  intro hroot
  obtain ⟨n, hn, _, hup⟩ := (mem_children_iff hwf).mp he
  obtain ⟨container, hcontainer, hparent⟩ := hwf.containers e.id hroot
  rw [hcontainer] at hn
  cases hn
  exact hleaf e.id hroot (hparent.symm.trans hup)

/-! ## Patches elsewhere -/

/-- The operation keeps off the registry and leaves the elements where they are. -/
structure Elsewhere (op : PatchOp) : Prop where
  settled : op.Settled (staticId "providers")
  stays : ∀ x, ¬ op.Displaces x
  keeps : ∀ e : ElementSnapshot, e.id ∉ roots → op.rewrite e = e

theorem elsewhere_setAttribute {key : ElementId} (hkey : key ∈ roots) (name : String)
    (value : TypedValue) : Elsewhere (.setAttribute key name value) := by
  refine ⟨nofun, fun _ => id, fun e he => ?_⟩
  unfold PatchOp.rewrite
  dsimp only
  have hne : key ≠ e.id := by
    rintro rfl
    exact he hkey
  rw [if_neg hne]

theorem elsewhere_create {up : ElementId} (hup : up ≠ staticId "providers") (index : UInt32)
    (e : ElementSnapshot) : Elsewhere (.create up index e) :=
  ⟨fun heq => hup (Option.some.inj heq), fun _ => id, fun _ _ => rfl⟩

/-- Two documents have the same registry. -/
theorem Registered.congr (h : Registered s) (hwf : WellFormed s')
    (hmem : ∀ e, e ∈ providerElements s' ↔ e ∈ providerElements s) :
    Registered s' ∧ registryOf s' = registryOf s := by
  have h' : Registered s' := by
    refine ⟨hwf, fun e he => h.record e ((hmem e).mp he), fun e he e' he' => ?_⟩
    exact h.apart e ((hmem e).mp he) e' ((hmem e').mp he')
  refine ⟨h', funext fun name => Option.ext fun r => ?_⟩
  rw [h'.registryOf_eq_some, h.registryOf_eq_some]
  simp only [hmem]

/-- Operations elsewhere leave the elements of the registry as they are. -/
theorem mem_providers_elsewhere {ops : List PatchOp} (hwf : WellFormed s)
    (happly : s.applyOps [] ops = (s', .ok ())) (hops : ∀ op ∈ ops, Elsewhere op)
    (e : ElementSnapshot) : e ∈ providerElements s' ↔ e ∈ providerElements s := by
  have hkeeps : ∀ e₀ ∈ providerElements s, ops.foldl PatchOp.rewrite e₀ = e₀ := by
    intro e₀ he₀
    have hroot := not_root_of_provider hwf he₀
    clear happly
    induction ops with
    | nil => rfl
    | cons op ops ih =>
      obtain ⟨hop, hops⟩ := forall_mem_cons.mp hops
      rw [foldl_cons, hop.keeps e₀ hroot]
      exact ih hops
  refine (applyOps_container hwf happly (by decide) fun op hop => (hops op hop).settled).trans ?_
  constructor
  · rintro ⟨e₀, he₀, _, rfl⟩
    rw [hkeeps e₀ he₀]
    exact he₀
  · intro he
    exact ⟨e, he, fun op hop => (hops op hop).stays e.id, hkeeps e he⟩

/-! ## Recording a provider -/

/-- Write some texts into attributes. -/
def writeFields (fields : List (String × String)) (attributes : Attributes) : Attributes :=
  fields.foldl (fun attributes field => attributes.insert field.1 (.string field.2)) attributes

theorem writeFields_get (record : ProviderRecord) (attributes : Attributes) :
    (∀ field ∈ record.fields,
      (writeFields record.fields attributes)[field.1]? = some (.string field.2)) ∧
    (writeFields record.fields attributes)[providerModelsAttribute]? =
      attributes[providerModelsAttribute]? := by
  unfold writeFields fields providerModelsAttribute
  simp [Std.ExtTreeMap.getElem?_insert]

/-- Operations that write texts into an element. -/
theorem foldl_fields (fields : List (String × String)) (e : ElementSnapshot) :
    (fields.map fun field => PatchOp.setAttribute e.id field.1 (.string field.2)).foldl
      PatchOp.rewrite e = { e with attributes := writeFields fields e.attributes } := by
  induction fields generalizing e with
  | nil => rfl
  | cons field fields ih =>
      have hwrite : (PatchOp.setAttribute e.id field.1 (.string field.2)).rewrite e =
          { e with attributes := e.attributes.insert field.1 (.string field.2) } := by
        unfold PatchOp.rewrite
        dsimp only
        rw [if_pos rfl]
      rw [map_cons, foldl_cons, hwrite]
      exact ih { e with attributes := e.attributes.insert field.1 (.string field.2) }

/-- The operations that follow the fields of a record. -/
def tailOps (s : SessionSnapshot) (record : ProviderRecord) (models : Option Value)
    (id : ElementId) : List PatchOp :=
  ((replacedElements s record).map fun e => .delete e.id) ++ models.toList.map (cacheOp id)

/-- The element into which a record is written. -/
structure Written (r : ProviderRecord) (models cached : Option Value) (e : ElementSnapshot) :
    Prop where
  record : fromElement e = some r
  id : e.id.value = "provider-" ++ r.name
  cached : cachedModels e = models.or cached

/-- An element of a provider after the fields of a record and the operations that follow. -/
theorem written_tail {e : ElementSnapshot} (s : SessionSnapshot) (models : Option Value)
    (hkind : e.kind = providerKind) (hid : e.id.value = "provider-" ++ record.name)
    (hname : record.name ≠ "") (hendpoint : record.endpoint ≠ "") :
    Written record models (cachedModels e) ((tailOps s record models e.id).foldl PatchOp.rewrite
      { e with attributes := writeFields record.fields e.attributes }) := by
  have hdeletes : ∀ (replaced : List ElementSnapshot) (e : ElementSnapshot),
      (replaced.map fun e => PatchOp.delete e.id).foldl PatchOp.rewrite e = e := by
    intro replaced
    induction replaced with
    | nil => exact fun _ => rfl
    | cons _ replaced ih => exact fun e => ih e
  obtain ⟨hfields, hmodels⟩ := writeFields_get record e.attributes
  unfold tailOps
  rw [foldl_append, hdeletes]
  generalize hwritten : writeFields record.fields e.attributes = attributes at hfields hmodels
  cases models with
  | none =>
      refine ⟨fromElement_fields hkind hname hendpoint hfields, hid, ?_⟩
      show cachedModels { e with attributes } = _
      unfold cachedModels
      rw [hmodels]
      rfl
  | some models =>
      have hwrite : ((some models).toList.map (cacheOp e.id)).foldl PatchOp.rewrite
          { e with attributes } =
          { e with attributes := attributes.insert providerModelsAttribute (.json models) } := by
        unfold cacheOp
        simp [PatchOp.rewrite]
      rw [hwrite]
      refine ⟨fromElement_fields hkind hname hendpoint fun field hfield => ?_, hid, ?_⟩
      · have hne : providerModelsAttribute ≠ field.1 := by
          unfold fields at hfield
          simp only [mem_cons, not_mem_nil, or_false] at hfield
          rcases hfield with rfl | rfl | rfl | rfl | rfl <;> simp [providerModelsAttribute]
        dsimp only
        rw [Std.ExtTreeMap.getElem?_insert, if_neg (by simpa using hne)]
        exact hfields field hfield
      · unfold cachedModels
        simp

/-- An element stays in the registry when a record is written: it has another name and another
endpoint. -/
def Survives (record : ProviderRecord) (e : ElementSnapshot) : Prop :=
  ∀ r, fromElement e = some r → r.name ≠ record.name ∧
    r.matchesEndpoint record.adapter record.endpoint = false

/-- What writing a record has done to the registry. -/
structure Recorded (s s' : SessionSnapshot) (record : ProviderRecord) (models : Option Value) :
    Prop where
  wellFormed : WellFormed s'
  elements : ∃ written,
    Written record models ((findProvider s record.name).bind cachedModels) written ∧
      ∀ e, e ∈ providerElements s' ↔ e = written ∨ e ∈ providerElements s ∧ Survives record e

theorem mem_replacedElements {e : ElementSnapshot} : e ∈ replacedElements s record ↔
    e ∈ providerElements s ∧ ∃ r, fromElement e = some r ∧ r.name ≠ record.name ∧
      r.matchesEndpoint record.adapter record.endpoint = true := by
  unfold replacedElements
  rw [mem_filter]
  cases fromElement e <;> simp

/-- Operations on one element leave the others as they are. -/
theorem foldl_other {ops : List PatchOp} {id : ElementId} {e : ElementSnapshot} (hne : id ≠ e.id)
    (hops : ∀ op ∈ ops, (∃ name value, op = .setAttribute id name value) ∨ ∃ x, op = .delete x) :
    ops.foldl PatchOp.rewrite e = e := by
  induction ops with
  | nil => rfl
  | cons op ops ih =>
      obtain ⟨hop, hops⟩ := forall_mem_cons.mp hops
      have hkeep : op.rewrite e = e := by
        obtain ⟨name, value, rfl⟩ | ⟨x, rfl⟩ := hop
        · unfold PatchOp.rewrite
          dsimp only
          rw [if_neg hne]
        · rfl
      rw [foldl_cons, hkeep]
      exact ih hops

/-- The operations that follow the fields write one attribute and delete what is replaced. -/
theorem mem_tailOps {models : Option Value} {id : ElementId} {op : PatchOp}
    (hop : op ∈ tailOps s record models id) :
    (∃ value, op = .setAttribute id providerModelsAttribute value) ∨
      ∃ e ∈ replacedElements s record, op = .delete e.id := by
  rcases mem_append.mp hop with hdelete | hcache
  · obtain ⟨e, he, rfl⟩ := mem_map.mp hdelete
    exact .inr ⟨e, he, rfl⟩
  · obtain ⟨value, _, rfl⟩ := mem_map.mp hcache
    exact .inl ⟨_, rfl⟩

/-- The elements that the operations leave are those that are not replaced. -/
theorem displaces_tailOps (hwf : WellFormed s) (models : Option Value) (key : ElementId)
    {e : ElementSnapshot} (he : e ∈ providerElements s) :
    (∀ op ∈ tailOps s record models key, ¬ op.Displaces e.id) ↔ e ∉ replacedElements s record := by
  constructor
  · intro hops hreplaced
    have hmem : PatchOp.delete e.id ∈ tailOps s record models key :=
      mem_append_left _ (mem_map.mpr ⟨e, hreplaced, rfl⟩)
    exact hops _ hmem rfl
  · intro hreplaced op hop
    obtain ⟨value, rfl⟩ | ⟨e', he', rfl⟩ := mem_tailOps hop
    · exact False.elim
    · rintro heq
      have hsame := (eq_of_mem_children hwf (mem_replacedElements.mp he').1 he heq).1
      exact hreplaced (hsame ▸ he')

/-- An element of another name that is not replaced survives. -/
theorem survives_iff {e : ElementSnapshot} (he : e ∈ providerElements s) :
    Survives record e ↔ e ∉ replacedElements s record ∧
      ∀ r, fromElement e = some r → r.name ≠ record.name := by
  rw [mem_replacedElements]
  constructor
  · intro hsurvives
    refine ⟨?_, fun r hr => (hsurvives r hr).1⟩
    rintro ⟨_, r, hr, _, hmatches⟩
    rw [(hsurvives r hr).2] at hmatches
    cases hmatches
  · rintro ⟨hreplaced, hname⟩ r hr
    refine ⟨hname r hr, ?_⟩
    cases hmatches : r.matchesEndpoint record.adapter record.endpoint with
    | false => rfl
    | true => exact absurd ⟨he, r, hr, hname r hr, hmatches⟩ hreplaced

/-- Writing a record over the one of its name. -/
theorem recorded_existing {e₀ : ElementSnapshot} {models : Option Value} (h : Registered s)
    (hname : record.name ≠ "") (hendpoint : record.endpoint ≠ "")
    (hfound : findProvider s record.name = some e₀)
    (happly : s.applyOps [] ((record.fields.map fun field =>
      .setAttribute e₀.id field.1 (.string field.2)) ++ tailOps s record models e₀.id) =
        (s', .ok ())) : Recorded s s' record models := by
  obtain ⟨he₀, r₀, hr₀, hname₀⟩ := findProvider_eq_some hfound
  have hkind : e₀.kind = providerKind := by
    unfold fromElement at hr₀
    split at hr₀
    · cases hr₀
    · next hkind => exact not_not.mp hkind
  have hid : e₀.id.value = "provider-" ++ record.name := by
    obtain ⟨r, hr, hid⟩ := h.record e₀ he₀
    rw [hr₀] at hr
    cases hr
    rw [hid, hname₀]
  have hwritten := written_tail s models hkind hid hname hendpoint
  rw [← foldl_fields record.fields e₀, ← foldl_append] at hwritten
  refine ⟨h.wellFormed.applyOps happly, _, by rw [hfound]; exact hwritten, fun e => ?_⟩
  -- the operations write into the element of the name and delete what is replaced
  have hforms : ∀ op ∈ (record.fields.map fun field =>
      PatchOp.setAttribute e₀.id field.1 (.string field.2)) ++ tailOps s record models e₀.id,
      (∃ name value, op = .setAttribute e₀.id name value) ∨ ∃ x, op = .delete x := by
    intro op hop
    rcases mem_append.mp hop with hfield | htail
    · obtain ⟨field, _, rfl⟩ := mem_map.mp hfield
      exact .inl ⟨_, _, rfl⟩
    · obtain ⟨value, rfl⟩ | ⟨x, _, rfl⟩ := mem_tailOps htail
      · exact .inl ⟨_, _, rfl⟩
      · exact .inr ⟨_, rfl⟩
  have hdisplaces : ∀ e ∈ providerElements s, (∀ op ∈ (record.fields.map fun field =>
      PatchOp.setAttribute e₀.id field.1 (.string field.2)) ++ tailOps s record models e₀.id,
      ¬ op.Displaces e.id) ↔ e ∉ replacedElements s record := by
    intro e he
    refine Iff.trans ?_ (displaces_tailOps h.wellFormed models e₀.id he)
    constructor
    · exact fun hall op hop => hall op (mem_append_right _ hop)
    · intro htail op hop
      rcases mem_append.mp hop with hfield | hop
      · obtain ⟨field, _, rfl⟩ := mem_map.mp hfield
        exact False.elim
      · exact htail op hop
  refine (applyOps_container h.wellFormed happly (by decide) fun op hop => ?_).trans ?_
  · obtain ⟨_, _, rfl⟩ | ⟨_, rfl⟩ := hforms op hop <;> exact nofun
  · constructor
    · rintro ⟨e₁, he₁, hstays, rfl⟩
      by_cases hsame : e₁ = e₀
      · exact .inl (hsame ▸ rfl)
      · have hne : e₀.id ≠ e₁.id := fun heq =>
          hsame (eq_of_mem_children h.wellFormed he₁ he₀ heq.symm).1
        rw [foldl_other hne hforms]
        refine .inr ⟨he₁, (survives_iff he₁).mpr ⟨(hdisplaces e₁ he₁).mp hstays, fun r hr hnamed => ?_⟩⟩
        exact hsame (h.eq_of_name he₁ he₀ hr hr₀ (hnamed.trans hname₀.symm))
    · rintro (rfl | ⟨he, hsurvives⟩)
      · have hstays : e₀ ∉ replacedElements s record := by
          intro hreplaced
          obtain ⟨_, r, hr, hother, _⟩ := mem_replacedElements.mp hreplaced
          rw [hr₀] at hr
          cases hr
          exact hother hname₀
        exact ⟨e₀, he₀, (hdisplaces e₀ he₀).mpr hstays, rfl⟩
      · obtain ⟨hstays, hother⟩ := (survives_iff he).mp hsurvives
        have hne : e₀.id ≠ e.id := by
          intro heq
          obtain rfl := (eq_of_mem_children h.wellFormed he₀ he heq).1
          exact hother r₀ hr₀ hname₀
        exact ⟨e, he, (hdisplaces e he).mpr hstays, foldl_other hne hforms⟩

/-- Writing a record under a new name. -/
theorem recorded_fresh {key : ElementId} {index : UInt32} {models : Option Value}
    (h : Registered s) (hname : record.name ≠ "") (hendpoint : record.endpoint ≠ "")
    (hkey : key.value = "provider-" ++ record.name) (hfound : findProvider s record.name = none)
    (happly : s.applyOps [] (.create (staticId "providers") index (record.toElement key) ::
      tailOps s record models key) = (s', .ok ())) : Recorded s s' record models := by
  unfold SessionSnapshot.applyOps at happly
  split at happly
  · next s₁ u hcreate =>
    have hcreated := applyCreate_created h.wellFormed hcreate
    have hwf := h.wellFormed.applyOne hcreate
    have hmem : ∀ e, e ∈ s₁.children (staticId "providers") ↔
        e = record.toElement key ∨ e ∈ providerElements s :=
      fun e => hcreated.children.mem_iff.trans mem_cons
    have hwritten := written_tail (e := .new key providerKind) s models rfl hkey hname hendpoint
    refine ⟨hwf.applyOps happly, _, by rw [hfound]; exact hwritten, fun e => ?_⟩
    have hother := findProvider_eq_none hfound
    have hforms : ∀ op ∈ tailOps s record models key,
        (∃ name value, op = .setAttribute key name value) ∨ ∃ x, op = .delete x := by
      intro op hop
      obtain ⟨value, rfl⟩ | ⟨x, _, rfl⟩ := mem_tailOps hop
      · exact .inl ⟨_, _, rfl⟩
      · exact .inr ⟨_, rfl⟩
    have hfresh : ∀ e ∈ providerElements s, key ≠ e.id := by
      rintro e he rfl
      obtain ⟨n, hn, _⟩ := (mem_children_iff h.wellFormed).mp he
      exact hcreated.fresh (h.wellFormed.used hn)
    refine (applyOps_container hwf happly (by decide) fun op hop => ?_).trans ?_
    · obtain ⟨_, _, rfl⟩ | ⟨_, rfl⟩ := hforms op hop <;> exact nofun
    · constructor
      · rintro ⟨e₁, he₁, hstays, rfl⟩
        rcases (hmem e₁).mp he₁ with rfl | he₁
        · exact .inl rfl
        · rw [foldl_other (hfresh e₁ he₁) hforms]
          have hkept := (displaces_tailOps h.wellFormed models key he₁).mp hstays
          exact .inr ⟨he₁, (survives_iff he₁).mpr ⟨hkept, hother e₁ he₁⟩⟩
      · rintro (rfl | ⟨he, hsurvives⟩)
        · refine ⟨record.toElement key, (hmem _).mpr (.inl rfl), fun op hop => ?_, rfl⟩
          obtain ⟨value, rfl⟩ | ⟨x, hx, rfl⟩ := mem_tailOps hop
          · exact False.elim
          · exact fun heq => hfresh x (mem_replacedElements.mp hx).1 heq.symm
        · obtain ⟨hstays, _⟩ := (survives_iff he).mp hsurvives
          exact ⟨e, (hmem e).mpr (.inr he), (displaces_tailOps h.wellFormed models key he).mpr hstays,
            foldl_other (hfresh e he) hforms⟩
  · cases happly

/-- The operations of `record_provider` write the record. -/
theorem recorded_of_apply {models : Option Value} {ops : List PatchOp} (h : Registered s)
    (hname : record.name ≠ "") (hendpoint : record.endpoint ≠ "")
    (hops : recordOps s record models = .ok ops) (happly : s.applyOps [] ops = (s', .ok ())) :
    Recorded s s' record models := by
  unfold recordOps at hops
  dsimp only at hops
  split at hops
  · next e₀ hfound =>
    cases hops
    rw [append_assoc] at happly
    exact recorded_existing h hname hendpoint hfound happly
  · next hfound =>
    split at hops
    · cases hops
    · next key hkey =>
      cases hops
      refine recorded_fresh h hname hendpoint ?_ hfound happly
      unfold providerId Id.new at hkey
      split at hkey
      · cases hkey
        rfl
      · cases hkey

/-- Writing a record adds it to the registry. -/
theorem Recorded.registered {models : Option Value} (h : Registered s)
    (hrecorded : Recorded s s' record models) :
    Registered s' ∧ registryOf s' = (registryOf s).add record := by
  obtain ⟨written, hwritten, hmem⟩ := hrecorded.elements
  have h' : Registered s' := by
    refine ⟨hrecorded.wellFormed, fun e he => ?_, fun e he e' he' r r' hr hr' hmeets => ?_⟩
    · rcases (hmem e).mp he with rfl | ⟨he, _⟩
      · exact ⟨record, hwritten.record, hwritten.id⟩
      · exact h.record e he
    · rcases (hmem e).mp he with rfl | ⟨he, hsurvives⟩
      · rcases (hmem e').mp he' with rfl | ⟨_, hsurvives'⟩
        · rfl
        · have hrecord := hwritten.record
          rw [hr] at hrecord
          cases hrecord
          have hmatches := hmeets.symm
          unfold Meets at hmatches
          rw [(hsurvives' r' hr').2] at hmatches
          cases hmatches
      · rcases (hmem e').mp he' with rfl | ⟨he', _⟩
        · have hrecord := hwritten.record
          rw [hr'] at hrecord
          cases hrecord
          unfold Meets at hmeets
          rw [(hsurvives r hr).2] at hmeets
          cases hmeets
        · exact h.apart e he e' he' r r' hr hr' hmeets
  refine ⟨h', funext fun name => Option.ext fun r => ?_⟩
  rw [h'.registryOf_eq_some]
  unfold Registry.add
  constructor
  · rintro ⟨rfl, e, he, hr⟩
    rcases (hmem e).mp he with rfl | ⟨he, hsurvives⟩
    · have hrecord := hwritten.record
      rw [hr] at hrecord
      cases hrecord
      rw [if_pos rfl]
    · obtain ⟨hother, hmatches⟩ := hsurvives r hr
      rw [if_neg hother, h.registryOf_eq_some.mpr ⟨rfl, e, he, hr⟩]
      simp [hmatches]
  · intro hr
    split at hr
    · next heq =>
      cases hr
      exact ⟨heq.symm, written, (hmem written).mpr (.inl rfl), hwritten.record⟩
    · next hne =>
      obtain ⟨hfound, hmatches⟩ := Option.filter_eq_some_iff.mp hr
      obtain ⟨rfl, e, he, hr⟩ := h.registryOf_eq_some.mp hfound
      refine ⟨rfl, e, (hmem e).mpr (.inr ⟨he, fun r' hr' => ?_⟩), hr⟩
      rw [hr] at hr'
      cases hr'
      exact ⟨hne, by simpa using hmatches⟩

/-- Deleting the element of a name removes the name from the registry. -/
theorem Registered.forgotten {name : String} {e₀ : ElementSnapshot} (h : Registered s)
    (hfound : findProvider s name = some e₀)
    (happly : s.applyOps [] [.delete e₀.id] = (s', .ok ())) :
    Registered s' ∧ registryOf s' = (registryOf s).remove name := by
  obtain ⟨he₀, r₀, hr₀, rfl⟩ := findProvider_eq_some hfound
  have hmem : ∀ e, e ∈ providerElements s' ↔ e ∈ providerElements s ∧ e ≠ e₀ := by
    intro e
    refine (applyOps_container h.wellFormed happly (by decide) fun op hop => ?_).trans ?_
    · rw [mem_singleton.mp hop]
      exact nofun
    · constructor
      · rintro ⟨e₁, he₁, hstays, rfl⟩
        have hne : e₁ ≠ e₀ := by
          rintro rfl
          exact hstays _ (mem_singleton_self _) rfl
        exact ⟨he₁, hne⟩
      · rintro ⟨he, hne⟩
        refine ⟨e, he, fun op hop => ?_, rfl⟩
        rw [mem_singleton.mp hop]
        exact fun heq => hne (eq_of_mem_children h.wellFormed he he₀ heq.symm).1
  have h' : Registered s' := by
    refine ⟨h.wellFormed.applyOps happly, fun e he => h.record e ((hmem e).mp he).1, ?_⟩
    exact fun e he e' he' => h.apart e ((hmem e).mp he).1 e' ((hmem e').mp he').1
  refine ⟨h', funext fun name => Option.ext fun r => ?_⟩
  rw [h'.registryOf_eq_some]
  unfold Registry.remove
  constructor
  · rintro ⟨rfl, e, he, hr⟩
    obtain ⟨he, hne⟩ := (hmem e).mp he
    have hother : r.name ≠ r₀.name := fun heq => hne (h.eq_of_name he he₀ hr hr₀ heq)
    rw [if_neg hother]
    exact h.registryOf_eq_some.mpr ⟨rfl, e, he, hr⟩
  · intro hr
    split at hr
    · cases hr
    · next hne =>
      obtain ⟨rfl, e, he, hr⟩ := h.registryOf_eq_some.mp hr
      refine ⟨rfl, e, (hmem e).mpr ⟨he, ?_⟩, hr⟩
      rintro rfl
      rw [hr₀] at hr
      cases hr
      exact hne rfl

/-- The name of a record is registered, or its identifier has never been used. -/
def Available (s : SessionSnapshot) (record : ProviderRecord) : Prop :=
  (findProvider s record.name).isSome = true ∨
    ∀ key, providerId record.name = .ok key → key ∉ s.usedIds

/-- The elements that are replaced are deleted once each. -/
theorem pairwise_deletes (hwf : WellFormed s) (record : ProviderRecord) :
    ((replacedElements s record).map fun e => PatchOp.delete e.id).Pairwise
      fun a b => ∀ x, a = .delete x → b.target ≠ some x := by
  have hids : ((replacedElements s record).map ElementSnapshot.id).Nodup :=
    (nodup_children hwf (staticId "providers")).sublist (filter_sublist.map _)
  rw [pairwise_map]
  refine (pairwise_map.mp hids).imp fun hne x hx heq => ?_
  cases hx
  exact hne (Option.some.inj heq).symm

/-- The operations of `record_provider` apply when the identifier of a new name is free. -/
theorem exists_recordOps {ops : List PatchOp} (h : Registered s)
    (hops : recordOps s record none = .ok ops) (havailable : Available s record) :
    ∃ s', s.applyOps [] ops = (s', .ok ()) := by
  unfold recordOps at hops
  dsimp only at hops
  simp only [Option.toList_none, map_nil, append_nil] at hops
  split at hops
  · next e₀ hfound =>
    cases hops
    obtain ⟨he₀, _⟩ := findProvider_eq_some hfound
    refine exists_applyOps h.wellFormed (show staticId "providers" ∈ roots by decide) ?_ ?_
    · intro op hop
      rcases mem_append.mp hop with hfield | hdelete
      · obtain ⟨field, _, rfl⟩ := mem_map.mp hfield
        exact ⟨e₀, he₀, .inr ⟨_, _, rfl⟩⟩
      · obtain ⟨e, he, rfl⟩ := mem_map.mp hdelete
        have hmem := (mem_replacedElements.mp he).1
        exact ⟨e, hmem, .inl ⟨rfl, not_root_of_provider h.wellFormed hmem⟩⟩
    · refine pairwise_append.mpr ⟨?_, pairwise_deletes h.wellFormed record, ?_⟩
      · exact pairwise_map.mpr (pairwise_of_forall fun _ _ _ hx => nomatch hx)
      · intro op hop _ _ x hx
        obtain ⟨field, _, rfl⟩ := mem_map.mp hop
        cases hx
  · next hfound =>
    split at hops
    · cases hops
    · next key hkey =>
      cases hops
      have hfresh : key ∉ s.usedIds := by
        rcases havailable with hsome | hfree
        · rw [hfound] at hsome
          cases hsome
        · exact hfree key hkey
      obtain ⟨s₁, u, hcreate⟩ := exists_create (e := record.toElement key) h.wellFormed
        (show staticId "providers" ∈ roots by decide) hfresh
      have hcreated := applyCreate_created h.wellFormed hcreate
      have hwf := h.wellFormed.applyOne hcreate
      obtain ⟨s', hs'⟩ : ∃ s', s₁.applyOps [u]
          ((replacedElements s record).map fun e => .delete e.id) = (s', .ok ()) := by
        refine exists_applyOps hwf (show staticId "providers" ∈ roots by decide) ?_
          (pairwise_deletes h.wellFormed record)
        intro op hop
        obtain ⟨e, he, rfl⟩ := mem_map.mp hop
        have hmem := hcreated.children.mem_iff.mpr
          (mem_cons_of_mem _ (mem_replacedElements.mp he).1)
        exact ⟨e, hmem, .inl ⟨rfl, not_root_of_provider hwf hmem⟩⟩
      refine ⟨s', ?_⟩
      show s.applyOps [] (_ :: (replacedElements s record).map fun e => .delete e.id) = _
      unfold SessionSnapshot.applyOps providerElements
      rw [hcreate]
      exact hs'

end Omp2.Control
