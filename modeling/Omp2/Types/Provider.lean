import Omp2.Types.Patch

/-!
# Provider records

The registry entries of `omp-types/src/provider.rs`: how a record is kept in an element, the form in
which endpoints are compared, and when a record points at an endpoint.
-/

namespace Omp2

/-! ## Endpoints -/

/-- The second part of an endpoint that is split at `://`, or the whole endpoint. -/
def withoutScheme (endpoint : List Char) : List Char :=
  match Text.splitOnce "://".toList endpoint with
  | none => endpoint
  | some (_, rest) =>
    match Text.splitOnce "://".toList rest with
    | none => rest
    | some (second, _) => second

/-- `trim_end_matches('/')`. -/
def trimSlashes (cs : List Char) : List Char :=
  (cs.reverse.dropWhile (· = '/')).reverse

/-- `strip_suffix`. -/
def stripSuffix (cs suffix : List Char) : Option (List Char) :=
  if suffix.isSuffixOf cs then some (cs.take (cs.length - suffix.length)) else none

/-- `normalize_endpoint`. -/
def normalizeEndpoint (endpoint : String) : String :=
  let path := (withoutScheme endpoint.toList).takeWhile fun c => c ≠ '?' && c ≠ '#'
  let trimmed := trimSlashes path
  let base := (stripSuffix trimmed "/chat/completions".toList).getD
    ((stripSuffix trimmed "/models".toList).getD trimmed)
  String.ofList ((trimSlashes base).map Char.toLower)

/-- `endpoint_host`. -/
def endpointHost (endpoint : String) : String :=
  let authority := (withoutScheme endpoint.toList).takeWhile fun c => c ≠ '/' && c ≠ '?'
  let host := (authority.reverse.takeWhile (· ≠ '@')).reverse
  String.ofList (host.takeWhile (· ≠ ':'))

/-! ## Records -/

/-- `PROVIDERS_CONTAINER`. -/
def providersContainer : String := "providers"

/-- `PROVIDER_KIND`. -/
def providerKind : String := "provider"

/-- `PROVIDER_MODELS_ATTRIBUTE`. -/
def providerModelsAttribute : String := "models"

/-- `ProviderRecord`. -/
structure ProviderRecord where
  name : String
  adapter : String
  endpoint : String
  keyEnv : String
  model : String
deriving DecidableEq, Repr

namespace ProviderRecord

/-- The attributes in which a record is kept. -/
def fields (r : ProviderRecord) : List (String × String) :=
  [("name", r.name), ("adapter", r.adapter), ("endpoint", r.endpoint), ("key_env", r.keyEnv),
    ("model", r.model)]

/-- `to_element`. -/
def toElement (r : ProviderRecord) (id : ElementId) : ElementSnapshot :=
  { ElementSnapshot.new id providerKind with
    attributes := r.fields.foldl (fun attributes field =>
      attributes.insert field.1 (.string field.2)) ∅ }

/-- The text of an attribute, or nothing when it is absent or no text. -/
def attributeText (e : ElementSnapshot) (name : String) : String :=
  match e.attributes[name]? with
  | some (.string value) => value
  | _ => ""

/-- `from_element`. -/
def fromElement (e : ElementSnapshot) : Option ProviderRecord :=
  if e.kind ≠ providerKind then none
  else if (attributeText e "name").isEmpty || (attributeText e "endpoint").isEmpty then none
  else some {
    name := attributeText e "name"
    adapter := attributeText e "adapter"
    endpoint := attributeText e "endpoint"
    keyEnv := attributeText e "key_env"
    model := attributeText e "model" }

/-- `matches_endpoint`. -/
def matchesEndpoint (r : ProviderRecord) (adapter endpoint : String) : Bool :=
  normalizeEndpoint r.endpoint = normalizeEndpoint endpoint &&
    (r.adapter.isEmpty || adapter.isEmpty || r.adapter = adapter)

/-- Two records point at the same place. -/
def Meets (r r' : ProviderRecord) : Prop :=
  r.matchesEndpoint r'.adapter r'.endpoint = true

theorem Meets.symm {r r' : ProviderRecord} (h : r.Meets r') : r'.Meets r := by
  unfold Meets matchesEndpoint at h ⊢
  simp only [Bool.and_eq_true, Bool.or_eq_true, decide_eq_true_eq] at h ⊢
  obtain ⟨hendpoint, (hleft | hright) | heq⟩ := h
  · exact ⟨hendpoint.symm, .inl (.inr hleft)⟩
  · exact ⟨hendpoint.symm, .inl (.inl hright)⟩
  · exact ⟨hendpoint.symm, .inr heq.symm⟩

/-- The attributes of a record, written over others, are read back. -/
theorem fromElement_fields {r : ProviderRecord} {e : ElementSnapshot}
    (hkind : e.kind = providerKind) (hname : r.name ≠ "") (hendpoint : r.endpoint ≠ "")
    (h : ∀ field ∈ r.fields, e.attributes[field.1]? = some (.string field.2)) :
    fromElement e = some r := by
  have htext : ∀ field ∈ r.fields, attributeText e field.1 = field.2 := by
    intro field hfield
    unfold attributeText
    rw [h field hfield]
  unfold fields at htext
  simp only [List.forall_mem_cons, List.not_mem_nil, false_implies, implies_true, and_true] at htext
  obtain ⟨hn, ha, he, hk, hm⟩ := htext
  unfold fromElement
  rw [if_neg (not_not.mpr hkind), hn, ha, he, hk, hm]
  rw [if_neg (by simp [hname, hendpoint])]

end ProviderRecord

end Omp2
