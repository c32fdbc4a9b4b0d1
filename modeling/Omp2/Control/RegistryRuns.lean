import Omp2.Control.Opened
import Omp2.Control.Registry

/-!
# The registry over a session

A session is followed together with the registry that each of its offsets should have by the
commands that led to it. In a run in which no removed name is added again, no record with cached
models is moved, and every client that is used is registered, the documents hold these registries.
-/

namespace Omp2.Control

open Omp2.Json Omp2.State VersionTree SessionSnapshot ProviderRecord Journal List

variable [SerdeJson]

/-- A session: its journal, and the registry that the commands give to each offset. -/
structure ProviderSession where
  journal : Journal
  ledger : List Registry

namespace ProviderSession

/-- A session without commands. -/
def new (j : Journal) : ProviderSession :=
  ⟨j, [Registry.empty]⟩

/-- The registry of an offset. -/
def lookup (session : ProviderSession) (offset : UInt64) : Registry :=
  session.ledger.getD offset.toNat Registry.empty

/-- The registry of the selected branch. -/
def current (session : ProviderSession) : Registry :=
  session.lookup session.journal.snapshot.offset

/-- The registry that an event asks for. -/
def next (session : ProviderSession) : ProviderEvent → Registry
  | .add record _ _ => session.current.add record.toProviderRecord
  | .use _ _ => session.current
  | .remove name _ _ _ => session.current.remove name
  | .fork offset _ _ _ => session.lookup offset
  | .select branch _ => session.lookup ((session.journal.branchTip branch).getD 0)

/-- A session with a longer journal, whose new offsets have a registry. -/
def follow (session : ProviderSession) (registry : Registry) (j : Journal) : ProviderSession where
  journal := j
  ledger := session.ledger ++
    .replicate (j.latestOffset.toNat - session.journal.latestOffset.toNat) registry

/-- A session after an event. -/
def step (owner : ActorId) (session : ProviderSession) (event : ProviderEvent) : ProviderSession :=
  session.follow (session.next event) (event.apply owner session.journal).1

/-- A session after some events. -/
def after (owner : ActorId) (session : ProviderSession) (events : List ProviderEvent) :
    ProviderSession :=
  Machine.run (step owner) session events

end ProviderSession

/-- The event is a command on the registry. -/
def ProviderEvent.IsCommand : ProviderEvent → Prop
  | .add .. | .use .. | .remove .. => True
  | .fork .. | .select .. => False

/-! ## Journals that grow -/

variable {sessionId : SessionId} {log more : List JournalRecord} {j j' : Journal}
  {registry : Registry} {session : ProviderSession}

/-- Every offset of a session has a registry, and it is the one of the ledger. -/
structure Ledgered (sessionId : SessionId) (log : List JournalRecord)
    (session : ProviderSession) : Prop where
  coherent : Coherent sessionId session.journal log
  length : session.ledger.length = log.length + 1
  registered : ∀ w s, w ≤ log.length → At (recordStore sessionId) log w s →
    Registered s ∧ session.ledger[w]? = some (registryOf s)

/-- A journal has grown by records after which the documents have a registry. -/
structure Grown (sessionId : SessionId) (log : List JournalRecord) (registry : Registry)
    (j : Journal) (more : List JournalRecord) : Prop where
  coherent : Coherent sessionId j (log ++ more)
  registered : ∀ w s, log.length < w → w ≤ (log ++ more).length →
    At (recordStore sessionId) (log ++ more) w s → Registered s ∧ registryOf s = registry

/-- The document of a journal has a registry. -/
def Holds (j : Journal) (registry : Registry) : Prop :=
  Registered j.snapshot ∧ registryOf j.snapshot = registry

theorem Grown.start (h : Coherent sessionId j log) (registry : Registry) :
    Grown sessionId log registry j [] := by
  refine ⟨by rw [append_nil]; exact h, fun w s hlow hhigh => ?_⟩
  rw [append_nil] at hhigh
  omega

theorem Grown.refused {world : Outside} (h : Grown sessionId log registry j more)
    (hrefused : Refused j world j') : Grown sessionId log registry j' more :=
  ⟨h.coherent.congr hrefused.records hrefused.snapshot, h.registered⟩

/-- An append of a document with the registry. -/
theorem Grown.appended {patch : Patch} {branch : BranchId} {world : Outside} {r : JournalRecord}
    {s₀ : SessionSnapshot} (h : Grown sessionId log registry j more)
    (hr : Appended sessionId { j with snapshot := s₀ } (log ++ more) patch branch world j' r)
    (hholds : Holds j' registry) : Grown sessionId log registry j' (more ++ [r]) := by
  have hcoherent := hr.coherent
  rw [append_assoc] at hcoherent
  refine ⟨hcoherent, fun w s hlow hhigh hat => ?_⟩
  by_cases hlast : w = (log ++ (more ++ [r])).length
  · subst hlast
    rw [At.unique hat hcoherent.live]
    exact hholds
  · rw [← append_assoc] at hat hhigh hlast
    have hle : w ≤ (log ++ more).length := by
      rw [length_append, length_singleton] at hhigh hlast
      omega
    have hordered := hr.coherent.complete.ordered
    exact h.registered w s hlow hle (At.restrict hordered hat hle)

/-- A session follows a journal that has grown. -/
theorem Ledgered.follow (h : Ledgered sessionId log session)
    (hgrown : Grown sessionId log registry j more) :
    Ledgered sessionId (log ++ more) (session.follow registry j) := by
  have hcount : j.latestOffset.toNat - session.journal.latestOffset.toNat = more.length := by
    rw [hgrown.coherent.latestOffset, h.coherent.latestOffset, length_append]
    omega
  unfold ProviderSession.follow
  rw [hcount]
  refine ⟨hgrown.coherent, ?_, fun w s hw hat => ?_⟩
  · rw [length_append, h.length, length_replicate, length_append]
    omega
  · by_cases hold : w ≤ log.length
    · have hat' := At.restrict hgrown.coherent.complete.ordered hat hold
      obtain ⟨hregistered, hledger⟩ := h.registered w s hold hat'
      refine ⟨hregistered, ?_⟩
      rw [getElem?_append_left (by rw [h.length]; omega)]
      exact hledger
    · obtain ⟨hregistered, rfl⟩ := hgrown.registered w s (by omega) hw hat
      refine ⟨hregistered, ?_⟩
      rw [length_append] at hw
      rw [getElem?_append_right (by rw [h.length]; omega), h.length,
        getElem?_replicate_of_lt (by omega)]

theorem Ledgered.current (h : Ledgered sessionId log session) :
    Holds session.journal session.current := by
  obtain ⟨hregistered, hledger⟩ := h.registered _ _ (Nat.le_refl _) h.coherent.live
  refine ⟨hregistered, ?_⟩
  unfold ProviderSession.current ProviderSession.lookup
  rw [(h.coherent.at_version h.coherent.live).offset, getD_eq_getElem?_getD, hledger]
  rfl

/-! ## Appending patches -/

/-- An accepted append puts the operations into the document. -/
theorem appended_document {patch : Patch} {branch : BranchId} {world : Outside}
    {r : JournalRecord} (hr : Appended sessionId j log patch branch world j' r) :
    ∃ s', j.snapshot.applyOps [] patch.ops = (s', .ok ()) ∧ j'.snapshot.nodes = s'.nodes ∧
      (Registered s' → Holds j' (registryOf s')) := by
  obtain ⟨s, hpatch, hsnapshot⟩ := hr.applied
  obtain ⟨_, _, s', hops, rfl⟩ := applyPatch_ok hpatch
  refine ⟨s', hops, by rw [hsnapshot], fun hregistered => ?_⟩
  unfold Holds
  rw [hsnapshot]
  have hwf := hregistered.wellFormed
  exact ⟨⟨⟨hwf.tree, hwf.containers, hwf.named, hwf.used⟩, hregistered.record,
    hregistered.apart⟩, rfl⟩

/-- Operations that are submitted are appended or refused. -/
theorem submit_cases {owner : ActorId} {reason : String} {ops : List PatchOp} {outside : Outside}
    {result : Except StructuredError Unit} (h : Coherent sessionId j log)
    (hsubmit : submit j owner reason ops outside = (j', result)) :
    (result = .ok () ∧ ∃ r, Appended sessionId j log (providerPatch j owner reason ops)
      j.snapshot.selectedBranch outside j' r) ∨
      (∃ e, result = .error e) ∧ Refused j outside j' := by
  unfold submit at hsubmit
  split at hsubmit
  · next j₁ e happend =>
    cases hsubmit
    rcases h.appendOn_cases happend with ⟨_, hok, _⟩ | ⟨_, hrefused⟩
    · cases hok
    · exact .inr ⟨⟨_, rfl⟩, hrefused⟩
  · next j₁ o happend =>
    cases hsubmit
    rcases h.appendOn_cases happend with ⟨r, _, hr⟩ | ⟨⟨_, herror⟩, _⟩
    · exact .inl ⟨rfl, r, hr⟩
    · cases herror

/-- Where a command that asks for a registry has led from a document: the journal has grown by
documents with the registry, and it stands at one of them or at the old one. -/
structure Led (sessionId : SessionId) (log : List JournalRecord) (registry : Registry)
    (s : SessionSnapshot) (j : Journal) : Prop where
  grown : ∃ more, Grown sessionId log registry j more
  stands : Holds j registry ∨ j.snapshot = s

variable {s : SessionSnapshot} {owner : ActorId} {result : Except StructuredError Unit}

theorem Led.start (h : Coherent sessionId j log) (registry : Registry) :
    Led sessionId log registry j.snapshot j :=
  ⟨⟨[], .start h registry⟩, .inr rfl⟩

/-- Submitting operations that give the registry. -/
theorem Led.submit {reason : String} {ops : List PatchOp} {outside : Outside}
    (h : Led sessionId log registry s j)
    (hsubmit : Control.submit j owner reason ops outside = (j', result))
    (hops : ∀ s', j.snapshot.applyOps [] ops = (s', .ok ()) →
      Registered s' ∧ registryOf s' = registry) :
    Led sessionId log registry s j' ∧ (result = .ok () → Holds j' registry) := by
  obtain ⟨more, hgrown⟩ := h.grown
  rcases submit_cases hgrown.coherent hsubmit with ⟨_, r, hr⟩ | ⟨⟨e, rfl⟩, hrefused⟩
  · obtain ⟨s', happly, _, hdocument⟩ := appended_document hr
    obtain ⟨hregistered, rfl⟩ := hops s' happly
    have hholds := hdocument hregistered
    exact ⟨⟨⟨_, hgrown.appended hr hholds⟩, .inl hholds⟩, fun _ => hholds⟩
  · refine ⟨⟨⟨more, hgrown.refused hrefused⟩, ?_⟩, nofun⟩
    unfold Holds
    rw [hrefused.snapshot]
    exact h.stands

/-- Submitting operations elsewhere, from a document with the registry. -/
theorem Led.elsewhere {reason : String} {ops : List PatchOp} {outside : Outside}
    (h : Led sessionId log registry s j) (hholds : Holds j registry)
    (hsubmit : Control.submit j owner reason ops outside = (j', result))
    (hops : ∀ op ∈ ops, Elsewhere op) :
    Led sessionId log registry s j' ∧ Holds j' registry ∧
      ∀ e, e ∈ providerElements j'.snapshot ↔ e ∈ providerElements j.snapshot := by
  obtain ⟨hregistered, rfl⟩ := hholds
  have hkeeps : ∀ s', j.snapshot.applyOps [] ops = (s', .ok ()) →
      Registered s' ∧ registryOf s' = registryOf j.snapshot := fun s' happly =>
    hregistered.congr (hregistered.wellFormed.applyOps happly)
      (mem_providers_elsewhere hregistered.wellFormed happly hops)
  obtain ⟨more, hgrown⟩ := h.grown
  refine ⟨(h.submit hsubmit hkeeps).1, ?_⟩
  rcases submit_cases hgrown.coherent hsubmit with ⟨rfl, r, hr⟩ | ⟨_, hrefused⟩
  · refine ⟨(h.submit hsubmit hkeeps).2 rfl, fun e => ?_⟩
    obtain ⟨s', happly, hnodes, _⟩ := appended_document hr
    rw [← mem_providers_elsewhere hregistered.wellFormed happly hops e]
    unfold providerElements SessionSnapshot.children SessionSnapshot.element
    rw [hnodes]
  · unfold Holds
    rw [hrefused.snapshot]
    exact ⟨⟨hregistered, rfl⟩, fun _ => .rfl⟩

omit [SerdeJson] in
theorem elsewhere_reportOp (s : SessionSnapshot) (id : ElementId) (text : String) :
    Elsewhere (reportOp s id text) :=
  elsewhere_create (by decide) _ _

omit [SerdeJson] in
/-- The settings of a client go to other containers. -/
theorem elsewhere_commitOps (s : SessionSnapshot) (selection : Selection) (keyEnv : String)
    (diag : ElementId) : ∀ op ∈ commitOps s selection keyEnv diag, Elsewhere op := by
  intro op hop
  unfold commitOps at hop
  rcases mem_append.mp hop with hsetting | hrest
  · obtain ⟨setting, _, rfl⟩ := mem_map.mp hsetting
    exact elsewhere_setAttribute (by decide) _ _
  · simp only [mem_cons, not_mem_nil, or_false] at hrest
    obtain rfl | rfl | rfl := hrest
    · exact elsewhere_setAttribute (by decide) _ _
    · exact elsewhere_setAttribute (by decide) _ _
    · exact elsewhere_reportOp s diag selection.report

/-! ## The commands -/

theorem Led.report {text : String} {w : ReportWorld} (h : Led sessionId log registry s j)
    (hholds : Holds j registry)
    (hemit : emitProviderDiagnostic j owner text w = (j', result)) :
    Led sessionId log registry s j' ∧ Holds j' registry ∧
      ∀ e, e ∈ providerElements j'.snapshot ↔ e ∈ providerElements j.snapshot :=
  h.elsewhere hholds hemit fun _ hop => mem_singleton.mp hop ▸ elsewhere_reportOp ..

/-- Recording a provider leads to the registry with the record. -/
theorem Led.record {record : ProviderRecord} {models : Option Value} {outside : Outside}
    (h : Led sessionId log registry s j) (hregistered : Registered j.snapshot)
    (hname : record.name ≠ "") (hendpoint : record.endpoint ≠ "")
    (hregistry : (registryOf j.snapshot).add record = registry)
    (hrecord : recordProvider j owner record models outside = (j', result)) :
    Led sessionId log registry s j' ∧ (result = .ok () → Holds j' registry ∧
      ∃ s', Recorded j.snapshot s' record models ∧ j'.snapshot.nodes = s'.nodes) := by
  unfold recordProvider at hrecord
  split at hrecord
  · cases hrecord
    exact ⟨h, nofun⟩
  · next ops hops =>
    have hrecorded : ∀ s', j.snapshot.applyOps [] ops = (s', .ok ()) →
        Recorded j.snapshot s' record models :=
      fun s' happly => recorded_of_apply hregistered hname hendpoint hops happly
    obtain ⟨hled, hholds⟩ := h.submit hrecord fun s' happly =>
      hregistry ▸ (hrecorded s' happly).registered hregistered
    refine ⟨hled, fun hok => ⟨hholds hok, ?_⟩⟩
    obtain ⟨more, hgrown⟩ := h.grown
    rcases submit_cases hgrown.coherent hrecord with ⟨_, r, hr⟩ | ⟨⟨e, rfl⟩, _⟩
    · obtain ⟨s', happly, hnodes, _⟩ := appended_document hr
      exact ⟨s', hrecorded s' happly, hnodes⟩
    · cases hok

/-- A record that is refused leaves the document as it is. -/
theorem recordProvider_refused {record : ProviderRecord} {models : Option Value}
    {outside : Outside} {e : StructuredError} (h : Coherent sessionId j log)
    (hrecord : recordProvider j owner record models outside = (j', .error e)) :
    j'.snapshot = j.snapshot := by
  unfold recordProvider at hrecord
  split at hrecord
  · cases hrecord
    rfl
  · rcases submit_cases h hrecord with ⟨hok, _⟩ | ⟨_, hrefused⟩
    · cases hok
    · exact hrefused.snapshot

omit [SerdeJson] in
/-- Recording a registered record again keeps the registry. -/
theorem Registered.add_self (h : Registered s) {record : ProviderRecord}
    (hrecord : registryOf s record.name = some record) :
    (registryOf s).add record = registryOf s := by
  funext name
  unfold Registry.add
  obtain ⟨_, e, he, hr⟩ := h.registryOf_eq_some.mp hrecord
  split
  · next heq => rw [heq, hrecord]
  · next hne =>
    cases hfound : registryOf s name with
    | none => rfl
    | some r =>
      obtain ⟨rfl, e', he', hr'⟩ := h.registryOf_eq_some.mp hfound
      have hmatches : r.matchesEndpoint record.adapter record.endpoint = false := by
        cases hmatches : r.matchesEndpoint record.adapter record.endpoint with
        | false => rfl
        | true =>
          obtain rfl := h.apart e' he' e he r record hr' hr hmatches
          rw [hr] at hr'
          cases hr'
          exact absurd rfl hne
      simp [hmatches]

omit [SerdeJson] in
theorem named_of_fromElement {e : ElementSnapshot} {r : ProviderRecord}
    (h : fromElement e = some r) : r.name ≠ "" ∧ r.endpoint ≠ "" := by
  unfold fromElement at h
  split at h
  · cases h
  · split at h
    · cases h
    · next hempty =>
      cases h
      simpa using hempty

/-- Recording a registered provider again keeps the registry, accepted or refused. -/
theorem Led.again {record : ProviderRecord} {models : Option Value} {outside : Outside}
    (h : Led sessionId log registry s j) (hholds : Holds j registry)
    (hmem : registry record.name = some record)
    (hrecord : recordProvider j owner record models outside = (j', result)) :
    Led sessionId log registry s j' ∧ Holds j' registry := by
  have ⟨hregistered, hregistry⟩ := hholds
  rw [← hregistry] at hmem
  obtain ⟨_, e, he, hr⟩ := hregistered.registryOf_eq_some.mp hmem
  obtain ⟨hname, hendpoint⟩ := named_of_fromElement hr
  have hself := hregistered.add_self hmem
  have hfrom : Led sessionId log registry j.snapshot j := ⟨h.grown, .inr rfl⟩
  obtain ⟨hled, _⟩ := hfrom.record hregistered hname hendpoint (hself.trans hregistry) hrecord
  have hholds' : Holds j' registry := by
    rcases hled.stands with hholds' | hsame
    · exact hholds'
    · unfold Holds
      rw [hsame]
      exact hholds
  exact ⟨⟨hled.grown, .inl hholds'⟩, hholds'⟩

omit [SerdeJson] in
theorem Holds.mem_providers (h : Holds j registry) {record : ProviderRecord} :
    record ∈ providers j.snapshot ↔ registry record.name = some record := by
  obtain ⟨hregistered, rfl⟩ := h
  rw [hregistered.registryOf_eq_some]
  unfold providers
  rw [mem_filterMap]
  exact ⟨fun hmem => ⟨rfl, hmem⟩, fun hmem => hmem.2⟩

/-- The registry has a record at the endpoint of a client. -/
def Knows (registry : Registry) (selection : Selection) : Prop :=
  ∀ endpoint, selection.endpoint = some endpoint →
    ∃ r, registry r.name = some r ∧ r.matchesEndpoint selection.provider endpoint = true

/-- Refreshing the record of the active client keeps the registry, when it knows the client. -/
theorem Led.active {selection : Selection} {keyEnv declared : String} {outside : Outside}
    (h : Led sessionId log registry s j) (hholds : Holds j registry)
    (hknows : Knows registry selection)
    (hactive : recordActiveProvider j owner selection keyEnv declared outside = (j', result)) :
    Led sessionId log registry s j' ∧ Holds j' registry := by
  unfold recordActiveProvider at hactive
  split at hactive
  · cases hactive
    exact ⟨h, hholds⟩
  · next endpoint hendpoint =>
    split at hactive
    · next record hfound =>
      have hmem := hholds.mem_providers.mp (mem_of_find?_eq_some hfound)
      exact h.again hholds hmem hactive
    · next hnone =>
      obtain ⟨r, hr, hmatches⟩ := hknows endpoint hendpoint
      have hmem := hholds.mem_providers.mpr hr
      exact absurd hmatches (find?_eq_none.mp hnone r hmem)

/-- Committing a client that the registry knows keeps the registry. -/
theorem Led.commit {selection : Selection} {keyEnv : String} {w : UseWorld}
    (h : Led sessionId log registry s j) (hholds : Holds j registry)
    (hknows : Knows registry selection)
    (hcommit : commitProvider j owner selection keyEnv w = (j', result)) :
    Led sessionId log registry s j' ∧ Holds j' registry := by
  unfold commitProvider at hcommit
  split at hcommit
  · next j₁ e hsubmit =>
    cases hcommit
    obtain ⟨hled, hholds, _⟩ := h.elsewhere hholds hsubmit (elsewhere_commitOps _ _ _ _)
    exact ⟨hled, hholds⟩
  · next j₁ hsubmit =>
    obtain ⟨hled, hholds, _⟩ := h.elsewhere hholds hsubmit (elsewhere_commitOps _ _ _ _)
    cases hcommit
    exact hled.active hholds hknows (Prod.mk.eta
      (p := recordActiveProvider j₁ owner selection keyEnv w.declared w.active)).symm

/-- A command `use` of a client that the registry knows keeps the registry. -/
theorem Led.use {name : String} {w : UseWorld} (h : Led sessionId log registry s j)
    (hholds : Holds j registry) (hknows : (registry name).isSome = true →
      ∀ selection, w.selected = .ok selection → Knows registry selection)
    (huse : useProvider j owner name w = (j', result)) :
    Led sessionId log registry s j' ∧ Holds j' registry := by
  unfold useProvider at huse
  split at huse
  · cases huse
    exact ⟨h, hholds⟩
  · next record hfound =>
    have hnamed : registry name = some record := by
      rw [← hholds.2]
      exact hfound
    have hname : record.name = name := by simpa using find?_some hfound
    split at huse
    · cases huse
      exact ⟨h, hholds⟩
    · next selection hselected =>
      have hknown := hknows (by rw [hnamed]; rfl) selection hselected
      cases hcommit : commitProvider j owner selection record.keyEnv w with
      | mk j₁ committed =>
        obtain ⟨hled₁, hholds₁⟩ := h.commit hholds hknown hcommit
        rw [hcommit] at huse
        cases committed with
        | error e =>
          cases huse
          exact ⟨hled₁, hholds₁⟩
        | ok _ =>
          dsimp only at huse
          cases hrecord : recordProvider j₁ owner record (some selection.models)
              w.recorded with
          | mk j₂ recorded =>
            obtain ⟨hled₂, hholds₂⟩ :=
              hled₁.again hholds₁ (hname ▸ hnamed) hrecord
            rw [hrecord] at huse
            cases recorded with
            | error e =>
              cases huse
              exact ⟨hled₂, hholds₂⟩
            | ok _ =>
              obtain ⟨hled₃, hholds₃, _⟩ := hled₂.report hholds₂ huse
              exact ⟨hled₃, hholds₃⟩

/-- A command `add` leads to the registry with the record, which is all that it writes there. -/
theorem add_led {record : DeclaredRecord} {outside : Outside} {w : ReportWorld}
    (h : Coherent sessionId j log) (hregistered : Registered j.snapshot)
    (hadd : addProvider j owner record.toProviderRecord outside w = (j', result)) :
    Led sessionId log ((registryOf j.snapshot).add record.toProviderRecord) j.snapshot j' ∧
      (j'.snapshot = j.snapshot ∨ ∃ s₁, Recorded j.snapshot s₁ record.toProviderRecord none ∧
        ∀ e, e ∈ providerElements j'.snapshot ↔ e ∈ providerElements s₁) := by
  have hstart := Led.start h ((registryOf j.snapshot).add record.toProviderRecord)
  unfold addProvider at hadd
  split at hadd
  · cases hadd
    exact ⟨hstart, .inl rfl⟩
  · cases hrecord : recordProvider j owner record.toProviderRecord none outside with
    | mk j₁ recorded =>
      obtain ⟨hled, hholds⟩ :=
        hstart.record hregistered record.name_ne record.endpoint_ne rfl hrecord
      rw [hrecord] at hadd
      cases recorded with
      | error e =>
        cases hadd
        exact ⟨hled, .inl (recordProvider_refused h hrecord)⟩
      | ok _ =>
        obtain ⟨hholds₁, s₁, hs₁, hnodes⟩ := hholds rfl
        obtain ⟨hled', _, hmem⟩ := hled.report hholds₁ hadd
        refine ⟨hled', .inr ⟨s₁, hs₁, fun e => (hmem e).trans ?_⟩⟩
        unfold providerElements SessionSnapshot.children SessionSnapshot.element
        rw [hnodes]

/-- A command `remove` leads to the registry without the name. -/
theorem remove_led {name active : String} {outside : Outside} {w : ReportWorld}
    (h : Coherent sessionId j log) (hregistered : Registered j.snapshot)
    (hremove : removeProvider j owner name active outside w = (j', result)) :
    Led sessionId log ((registryOf j.snapshot).remove name) j.snapshot j' := by
  have hstart := Led.start h ((registryOf j.snapshot).remove name)
  unfold removeProvider forgetProvider at hremove
  cases hfound : findProvider j.snapshot name with
  | none =>
      -- a name that is not registered is absent from the registry already
      have hholds : Holds j ((registryOf j.snapshot).remove name) := by
        refine ⟨hregistered, funext fun other => ?_⟩
        unfold Registry.remove
        split
        · next heq =>
          cases hsome : registryOf j.snapshot other with
          | none => rfl
          | some r =>
            obtain ⟨hname, e, he, hr⟩ := hregistered.registryOf_eq_some.mp hsome
            exact absurd (hname.trans heq) (findProvider_eq_none hfound e he r hr)
        · rfl
      rw [hfound] at hremove
      exact (hstart.report hholds hremove).1
  | some e =>
      rw [hfound] at hremove
      dsimp only at hremove
      cases hsubmit : submit j owner ("forget provider " ++ name) [.delete e.id] outside with
      | mk j₁ forgotten =>
        obtain ⟨hled, hholds⟩ := hstart.submit hsubmit fun s' happly =>
          hregistered.forgotten hfound happly
        rw [hsubmit] at hremove
        cases forgotten with
        | error e =>
          cases hremove
          exact hled
        | ok _ => exact (hled.report (hholds rfl) hremove).1

/-! ## Events -/

/-- An event keeps the registry a map: a name that is added is registered or its identifier is
unused, a record that is moved has no cached models, and a client that is used is registered. -/
def ProviderSession.Orderly (session : ProviderSession) : ProviderEvent → Prop
  | .add record _ _ => Available session.journal.snapshot record.toProviderRecord ∧
      ∀ e r, findProvider session.journal.snapshot record.name = some e → fromElement e = some r →
        r.adapter ≠ record.adapter ∨ r.endpoint ≠ record.endpoint → cachedModels e = none
  | .use name w => (registryOf session.journal.snapshot name).isSome = true →
      ∀ selection, w.selected = .ok selection → Knows (registryOf session.journal.snapshot) selection
  | .remove .. | .fork .. | .select .. => True

/-- Moving to a document of the tree and appending elsewhere leads to its registry. -/
theorem Ledgered.moved {s : SessionSnapshot} {w : Nat} {patch : Patch} {branch : BranchId}
    {world : Outside} {r : JournalRecord} (h : Ledgered sessionId log session) (hw : w ≤ log.length)
    (hat : At (recordStore sessionId) log w s) (hops : ∀ op ∈ patch.ops, Elsewhere op)
    (hr : Appended sessionId { session.journal with snapshot := s } log patch branch world j' r) :
    ∃ registry, session.ledger[w]? = some registry ∧
      Led sessionId log registry session.journal.snapshot j' := by
  obtain ⟨hregistered, hledger⟩ := h.registered w s hw hat
  refine ⟨_, hledger, ?_⟩
  obtain ⟨s', happly, _, hdocument⟩ := appended_document hr
  have hmem := mem_providers_elsewhere hregistered.wellFormed happly hops
  obtain ⟨hregistered', hsame⟩ :=
    hregistered.congr (hregistered.wellFormed.applyOps happly) hmem
  have hholds : Holds j' (registryOf s) := hsame ▸ hdocument hregistered'
  have hstart := Grown.start h.coherent (registryOf s)
  have hr' : Appended sessionId { session.journal with snapshot := s } (log ++ []) patch branch
      world j' r := by
    rw [append_nil]
    exact hr
  exact ⟨⟨_, hstart.appended hr' hholds⟩, .inl hholds⟩

/-- Every orderly event leads to the registry that it asks for. -/
theorem Ledgered.event_led {event : ProviderEvent} (h : Ledgered sessionId log session)
    (owner : ActorId) (horderly : session.Orderly event) :
    Led sessionId log (session.next event) session.journal.snapshot
      (event.apply owner session.journal).1 := by
  obtain ⟨hregistered, hcurrent⟩ := h.current
  have hlookup : ∀ (o : UInt64) registry, session.ledger[o.toNat]? = some registry →
      session.lookup o = registry := by
    intro o registry hledger
    unfold ProviderSession.lookup
    rw [getD_eq_getElem?_getD, hledger]
    rfl
  cases event with
  | add record outside w =>
      have hled := (add_led h.coherent hregistered (Prod.mk.eta
        (p := addProvider session.journal owner record.toProviderRecord outside w)).symm).1
      rw [hcurrent] at hled
      exact hled
  | use name w =>
      refine ((Led.start h.coherent session.current).use h.current ?_ (Prod.mk.eta
        (p := useProvider session.journal owner name w)).symm).1
      rw [← hcurrent]
      exact horderly
  | remove name active outside w =>
      have hled := remove_led h.coherent hregistered (Prod.mk.eta
        (p := removeProvider session.journal owner name active outside w)).symm
      rw [hcurrent] at hled
      exact hled
  | fork offset branch element outside =>
      dsimp only [ProviderEvent.apply, ProviderSession.next]
      cases hfork : session.journal.forkAt offset branch element outside with
      | mk j' result =>
        rcases h.coherent.forkAt_cases hfork with
          ⟨s, patch, r, rfl, hs, ⟨index, hops⟩, hr⟩ | ⟨⟨e, rfl⟩, hrefused⟩
        · obtain ⟨registry, hledger, hled⟩ := h.moved (h.coherent.materialize_le hs)
            (h.coherent.materialize_iff.mp hs)
            (by rw [hops]; exact fun _ hop => mem_singleton.mp hop ▸
              elsewhere_create (by decide) _ _) hr
          rw [hlookup offset registry hledger]
          exact hled
        · exact ⟨⟨[], (Grown.start h.coherent _).refused hrefused⟩, .inr hrefused.snapshot⟩
  | select branch outside =>
      dsimp only [ProviderEvent.apply, ProviderSession.next]
      cases hselect : session.journal.selectBranch branch outside with
      | mk j' result =>
        rcases h.coherent.selectBranch_cases hselect with
          ⟨s, patch, r, rfl, hs, hops, hr⟩ | ⟨⟨e, rfl⟩, hrefused⟩
        · have hmaterialize : session.journal.materialize
              ((session.journal.branchTip branch).getD 0) = .ok s := by
            unfold Journal.materializeBranch at hs
            split at hs
            · next o ho =>
              rw [ho]
              exact hs
            · next hnone =>
              rw [hnone]
              split at hs
              · exact hs
              · cases hs
          obtain ⟨registry, hledger, hled⟩ := h.moved (h.coherent.materialize_le hmaterialize)
            (h.coherent.materialize_iff.mp hmaterialize) (by rw [hops]; exact nofun) hr
          rw [hlookup _ registry hledger]
          exact hled
        · exact ⟨⟨[], (Grown.start h.coherent _).refused hrefused⟩, .inr hrefused.snapshot⟩

theorem Ledgered.step {event : ProviderEvent} (h : Ledgered sessionId log session)
    (horderly : session.Orderly event) :
    ∃ log', Ledgered sessionId log' (session.step owner event) := by
  obtain ⟨more, hgrown⟩ := (h.event_led owner horderly).grown
  exact ⟨_, h.follow hgrown⟩

theorem ledgered_new (hcreate : create sessionId = .ok j) :
    Ledgered sessionId [] (.new j) := by
  refine ⟨create_coherent hcreate, rfl, fun w s hw hat => ?_⟩
  obtain rfl : w = 0 := Nat.le_zero.mp hw
  obtain rfl := At.unique hat At.start
  obtain ⟨hregistered, hempty⟩ := registered_empty sessionId
  exact ⟨hregistered, congrArg some hempty.symm⟩

/-! ## What an event does to the map -/

/-- A journal takes a patch, as far as the operations apply: it is open, the patch is valid and fits
into a frame, and the clock and the file obey. -/
structure Accepts (j : Journal) (patch : Patch) (outside : Outside) : Prop where
  failed : j.failed = false
  recovery : j.recovery = none
  valid : patch.validate = .ok ()
  fits : ∃ now, outside.now = .ok now ∧
    (j.newRecord patch j.snapshot.selectedBranch now).payload.length ≤ maxWireBytes
  outcome : outside.outcome = .done

/-- A command `add` has a valid record, and the journal takes its patches. -/
structure Takes (j : Journal) (owner : ActorId) (record : ProviderRecord) (outside : Outside)
    (w : ReportWorld) : Prop where
  name : validId ("provider-" ++ record.name) = true
  written : ∀ ops, recordOps j.snapshot record none = .ok ops →
    Accepts j (providerPatch j owner ("register provider " ++ record.name) ops) outside
  reported : ∀ j₁, recordProvider j owner record none outside = (j₁, .ok ()) →
    w.diag ∉ j₁.snapshot.usedIds ∧ Accepts j₁ (providerPatch j₁ owner "provider diagnostic"
      [reportOp j₁.snapshot w.diag (addedReport record)]) w.outside

/-- The document of a session holds the map that the commands give, without two names or two
endpoints that are the same. -/
structure HoldsMap (session : ProviderSession) : Prop where
  exact : registryOf session.journal.snapshot = session.current
  names : ((providers session.journal.snapshot).map ProviderRecord.name).Nodup
  endpoints : (providers session.journal.snapshot).Pairwise fun r r' => ¬ r.Meets r'

/-- No models stay cached on a record that an event moves to another adapter or endpoint. -/
def DropsModels (s s' : SessionSnapshot) : Prop :=
  ∀ name e e' r r', findProvider s name = some e → fromElement e = some r →
    findProvider s' name = some e' → fromElement e' = some r' →
    r.adapter ≠ r'.adapter ∨ r.endpoint ≠ r'.endpoint → cachedModels e' = none

/-- The registry behaves as a map in a session: it holds the map before every event and at the end,
a valid record is always added, and no command keeps the models of a record that it moves. -/
structure BehavesAsMap (owner : ActorId) (session : ProviderSession) (events : List ProviderEvent) :
    Prop where
  holds : ∀ before rest, events = before ++ rest →
    HoldsMap (session.after owner before)
  added : ∀ before record outside w rest, events = before ++ .add record outside w :: rest →
    Takes (session.after owner before).journal owner record.toProviderRecord outside w →
    (ProviderEvent.apply owner (session.after owner before).journal (.add record outside w)).2 =
      .ok ()
  models : ∀ before event rest, events = before ++ event :: rest → event.IsCommand →
    DropsModels (session.after owner before).journal.snapshot
      (event.apply owner (session.after owner before).journal).1.snapshot

/-- A session with a ledger holds its map. -/
theorem Ledgered.holdsMap (h : Ledgered sessionId log session) : HoldsMap session := by
  obtain ⟨hregistered, hcurrent⟩ := h.current
  have hids := nodup_children hregistered.wellFormed (staticId "providers")
  have hpairwise : (providerElements session.journal.snapshot).Pairwise fun e e' => e ≠ e' :=
    (pairwise_map.mp hids).imp fun hne heq => hne (congrArg _ heq)
  refine ⟨hcurrent, ?_, ?_⟩
  · unfold List.Nodup providers
    rw [pairwise_map, pairwise_filterMap]
    refine hpairwise.imp_of_mem fun he he' hne r hr r' hr' hname => ?_
    exact hne (hregistered.eq_of_name he he' hr hr' hname)
  · unfold providers
    rw [pairwise_filterMap]
    refine hpairwise.imp_of_mem fun he he' hne r hr r' hr' hmeets => ?_
    exact hne (hregistered.apart _ he _ he' r r' hr hr' hmeets)

omit [SerdeJson] in
/-- Two documents with the same records under their names have moved none. -/
theorem dropsModels_of_eq {s' : SessionSnapshot} (h : Registered s) (h' : Registered s')
    (hsame : ∀ name r r', registryOf s name = some r → registryOf s' name = some r' → r = r') :
    DropsModels s s' := by
  intro name e e' r r' he hr he' hr' hmoved
  obtain ⟨hmem, r₀, hr₀, hname⟩ := findProvider_eq_some he
  obtain ⟨hmem', r₁, hr₁, hname'⟩ := findProvider_eq_some he'
  rw [hr] at hr₀
  rw [hr'] at hr₁
  cases hr₀
  cases hr₁
  obtain rfl := hsame name r r' (h.registryOf_eq_some.mpr ⟨hname, e, hmem, hr⟩)
    (h'.registryOf_eq_some.mpr ⟨hname', e', hmem', hr'⟩)
  rcases hmoved with hne | hne <;> exact absurd rfl hne

/-- A command of an orderly event keeps no models of a record that it moves. -/
theorem Ledgered.dropsModels {event : ProviderEvent} (h : Ledgered sessionId log session)
    (horderly : session.Orderly event)
    (hcommand : event.IsCommand) :
    DropsModels session.journal.snapshot (event.apply owner session.journal).1.snapshot := by
  obtain ⟨hregistered, hcurrent⟩ := h.current
  have hkept : ∀ {j' : Journal}, j'.snapshot = session.journal.snapshot →
      DropsModels session.journal.snapshot j'.snapshot := by
    intro j' hsame
    rw [hsame]
    refine dropsModels_of_eq hregistered hregistered fun name r r' hr hr' => ?_
    exact Option.some.inj (hr.symm.trans hr')
  have hled := h.event_led owner horderly
  cases event with
  | fork => exact hcommand.elim
  | select => exact hcommand.elim
  | use name w =>
      rcases hled.stands with ⟨hregistered', hregistry⟩ | hsame
      · refine dropsModels_of_eq hregistered hregistered' fun name r r' hr hr' => ?_
        rw [hregistry] at hr'
        rw [hcurrent] at hr
        exact Option.some.inj (hr.symm.trans hr')
      · exact hkept hsame
  | remove name active outside w =>
      rcases hled.stands with ⟨hregistered', hregistry⟩ | hsame
      · refine dropsModels_of_eq hregistered hregistered' fun other r r' hr hr' => ?_
        rw [hregistry] at hr'
        rw [hcurrent] at hr
        simp only [ProviderSession.next, Registry.remove] at hr'
        split at hr'
        · cases hr'
        · exact Option.some.inj (hr.symm.trans hr')
      · exact hkept hsame
  | add record outside w =>
      obtain ⟨hadd, hwrites⟩ := add_led h.coherent hregistered (Prod.mk.eta
        (p := addProvider session.journal owner record.toProviderRecord outside w)).symm
      rcases hwrites with hsame | ⟨s₁, hrecorded, hmem⟩
      · exact hkept hsame
      · intro name e e' r r' he hr he' hr' hmoved
        obtain ⟨written, hwritten, helements⟩ := hrecorded.elements
        obtain ⟨hmem', r₁, hr₁, hname'⟩ := findProvider_eq_some he'
        obtain ⟨hmem₀, r₀, hr₀, hname⟩ := findProvider_eq_some he
        rw [hr'] at hr₁
        rw [hr] at hr₀
        cases hr₁
        cases hr₀
        rcases (helements e').mp ((hmem e').mp hmem') with rfl | ⟨hold, hsurvives⟩
        · have hrecord := hwritten.record
          rw [hr'] at hrecord
          cases hrecord
          rw [← hname'] at he
          rw [hwritten.cached, he]
          exact horderly.2 e r he hr hmoved
        · obtain rfl := hregistered.eq_of_name hmem₀ hold hr hr' (hname.trans hname'.symm)
          rw [hr] at hr'
          cases hr'
          rcases hmoved with hne | hne <;> exact absurd rfl hne

/-- A patch of operations that apply is taken. -/
theorem submit_ok {reason : String} {ops : List PatchOp} {outside : Outside}
    (haccepts : Accepts j (providerPatch j owner reason ops) outside)
    (happly : ∃ s', j.snapshot.applyOps [] ops = (s', .ok ())) :
    ∃ j', submit j owner reason ops outside = (j', .ok ()) := by
  obtain ⟨now, hnow, hfits⟩ := haccepts.fits
  obtain ⟨s', hops⟩ := happly
  obtain ⟨_, outcome⟩ := outside
  obtain rfl : outcome = .done := haccepts.outcome
  cases hnow
  have hpatch : j.snapshot.applyPatch (providerPatch j owner reason ops) =
      ({ s' with offset := j.nextOffset }, .ok ()) := by
    unfold SessionSnapshot.applyPatch
    have hbase : ¬ (providerPatch j owner reason ops).baseOffset ≠ j.snapshot.offset :=
      not_not.mpr rfl
    rw [haccepts.valid]
    dsimp only
    rw [if_neg hbase, show (providerPatch j owner reason ops).ops = ops from rfl, hops]
    rfl
  have htaken := accepts_append haccepts.failed haccepts.recovery rfl hpatch hfits
  unfold submit
  replace htaken : (j.appendPatch (providerPatch j owner reason ops)
    ⟨.ok now, .done⟩).2.isOk = true := htaken
  cases happend : j.appendPatch (providerPatch j owner reason ops) ⟨.ok now, .done⟩ with
  | mk j' appended =>
      rw [happend] at htaken
      cases appended with
      | error e => cases htaken
      | ok o => exact ⟨j', rfl⟩

/-- A valid record of an orderly command is added. -/
theorem addProvider_ok {record : DeclaredRecord} {outside : Outside} {w : ReportWorld}
    (h : Coherent sessionId j log) (hregistered : Registered j.snapshot)
    (havailable : Available j.snapshot record.toProviderRecord)
    (htakes : Takes j owner record.toProviderRecord outside w) :
    (addProvider j owner record.toProviderRecord outside w).2 = .ok () := by
  obtain ⟨key, hkey⟩ : ∃ key, providerId record.name = .ok key :=
    ⟨⟨_, htakes.name⟩, by unfold providerId Id.new; rw [dif_pos htakes.name]⟩
  obtain ⟨ops, hops⟩ : ∃ ops, recordOps j.snapshot record.toProviderRecord none = .ok ops := by
    unfold recordOps
    dsimp only
    split
    · exact ⟨_, rfl⟩
    · rw [hkey]
      exact ⟨_, rfl⟩
  obtain ⟨j₁, hsubmit⟩ :=
    submit_ok (htakes.written ops hops) (exists_recordOps hregistered hops havailable)
  have hrecord : recordProvider j owner record.toProviderRecord none outside = (j₁, .ok ()) := by
    unfold recordProvider
    rw [hops]
    exact hsubmit
  obtain ⟨hfresh, haccepts⟩ := htakes.reported j₁ hrecord
  have hwf : WellFormed j₁.snapshot := by
    obtain ⟨_, hholds⟩ := (Led.start h _).record hregistered record.name_ne record.endpoint_ne rfl
      hrecord
    exact (hholds rfl).1.1.wellFormed
  obtain ⟨j₂, hreport⟩ := submit_ok haccepts (by
    obtain ⟨s', u, hcreate⟩ := exists_create (e := diagnosticElement w.diag
      (addedReport record.toProviderRecord)) hwf (show staticId "body" ∈ roots by decide) hfresh
    refine ⟨s', ?_⟩
    unfold SessionSnapshot.applyOps reportOp getVisibleBody
    rw [hcreate]
    rfl)
  unfold addProvider
  rw [hkey, hrecord]
  dsimp only
  unfold emitProviderDiagnostic
  rw [hreport]

/-! ## Runs -/

/-- In a run of orderly events on a new session the registry behaves as a map. -/
theorem run_behavesAsMap (owner : ActorId) (hcreate : create sessionId = .ok j)
    {events : List ProviderEvent}
    (horderly : Machine.Along (ProviderSession.step owner) ProviderSession.Orderly (.new j) events) :
    BehavesAsMap owner (.new j) events := by
  have hledgered : ∀ before rest, events = before ++ rest →
      (∃ log, Ledgered sessionId log ((ProviderSession.new j).after owner before)) ∧
        Machine.Along (ProviderSession.step owner) ProviderSession.Orderly
          ((ProviderSession.new j).after owner before) rest := by
    rintro before rest rfl
    obtain ⟨hbefore, hrest⟩ := (Machine.along_append before rest).mp horderly
    have hstep : ∀ session event, (∃ log, Ledgered sessionId log session) →
        session.Orderly event → ∃ log, Ledgered sessionId log (session.step owner event) :=
      fun session event ⟨_, h⟩ horderly => h.step horderly
    exact ⟨Machine.invariant_along hstep ⟨_, ledgered_new hcreate⟩ hbefore, hrest⟩
  refine ⟨?_, ?_, ?_⟩
  · intro before rest hevents
    obtain ⟨⟨_, h⟩, _⟩ := hledgered before rest hevents
    exact h.holdsMap
  · intro before record outside w rest hevents htakes
    obtain ⟨⟨_, h⟩, horderly, _⟩ := hledgered before _ hevents
    exact addProvider_ok h.coherent h.current.1 horderly.1 htakes
  · intro before event rest hevents hcommand
    obtain ⟨⟨_, h⟩, horderly, _⟩ := hledgered before _ hevents
    exact h.dropsModels horderly hcommand

end Omp2.Control

/-! ## A name that is added again, and a run of orderly events -/

namespace Omp2.Control

open Omp2.Json Omp2.Json.Compact Omp2.State SessionSnapshot ProviderRecord Journal

/-- A provider on the local machine. -/
def localRecord : DeclaredRecord where
  name := "local"
  adapter := "openai_compatible"
  endpoint := "http://localhost:8080/v1"
  keyEnv := "OMP_API_KEY"
  model := ""
  name_ne := by decide
  endpoint_ne := by decide

/-- A report under an identifier. -/
def fineReport (diag : ElementId) : ReportWorld :=
  ⟨diag, fineOutside⟩

/-- Submitting operations that apply to the document. -/
theorem Open.submit {j : Journal} {log : List JournalRecord} {s : SessionSnapshot} (h : Open j log s)
    (reason : String) (ops : List PatchOp)
    (happlies : (s.applyPatch (documentPatch s reason ops)).2.isOk = true)
    (hfits : (({ blank exampleSession [] with snapshot := s } : Journal).newRecord
      (documentPatch s reason ops) s.selectedBranch 7).payload.length ≤ maxWireBytes) :
    ∃ j' r, Control.submit j owner reason ops fineOutside = (j', .ok ()) ∧
      Open j' (log ++ [r]) (documentAfter s reason ops) := by
  have hpatch : providerPatch j owner reason ops = documentPatch s reason ops := by
    unfold providerPatch documentPatch
    rw [h.nextOffset, h.snapshot]
  obtain ⟨j', r, happend, hopen⟩ := h.append reason ops happlies hfits
  refine ⟨j', r, ?_, hopen⟩
  unfold Control.submit
  rw [hpatch, happend]

/-- The identifier of the local provider. -/
def localId : ElementId :=
  ⟨"provider-local", Eq.refl true⟩

/-- The operation that adds the local provider. -/
def addLocal : List PatchOp :=
  [.create (staticId "providers") 0 (localRecord.toElement localId)]

/-- The document with the local provider. -/
def recordedDocument : SessionSnapshot :=
  documentAfter (.empty exampleSession) "register provider local" addLocal

/-- The report of the addition. -/
def reportAdded : PatchOp :=
  reportOp recordedDocument ⟨"diag-1", Eq.refl true⟩ (addedReport localRecord.toProviderRecord)

/-- The document after that report. -/
def reportedDocument : SessionSnapshot :=
  documentAfter recordedDocument "provider diagnostic" [reportAdded]

/-- The document without the local provider. -/
def forgottenDocument : SessionSnapshot :=
  documentAfter reportedDocument "forget provider local" [.delete localId]

/-- The report of the removal. -/
def reportRemoved : PatchOp :=
  reportOp forgottenDocument ⟨"diag-2", Eq.refl true⟩ (removedReport "local" "" true)

/-- The document after that report. -/
def removedDocument : SessionSnapshot :=
  documentAfter forgottenDocument "provider diagnostic" [reportRemoved]

/-- The local provider is added. -/
def addingLocal : ProviderEvent :=
  .add localRecord fineOutside (fineReport ⟨"diag-1", Eq.refl true⟩)

/-- The local provider is removed. -/
def removingLocal : ProviderEvent :=
  .remove "local" "" fineOutside (fineReport ⟨"diag-2", Eq.refl true⟩)

theorem recordOps_local {s : SessionSnapshot} (hfind : (findProvider s "local").isNone = true)
    (hcount : (providerElements s).isEmpty = true) :
    recordOps s localRecord.toProviderRecord none = .ok addLocal := by
  have helements := List.isEmpty_iff.mp hcount
  unfold recordOps replacedElements
  rw [show localRecord.toProviderRecord.name = "local" from rfl,
    Option.isNone_iff_eq_none.mp hfind, helements]
  rfl

/-- The local provider is added to a new session and removed. -/
theorem exists_removed : ∃ j₀ log, create exampleSession = .ok j₀ ∧
    Open ((ProviderSession.new j₀).after owner [addingLocal, removingLocal]).journal log
      removedDocument := by
  obtain ⟨j₀, hcreate, hopen⟩ := exists_open
  obtain ⟨j₁, r₁, hrecord, (h₁ : Open _ _ recordedDocument)⟩ := hopen.submit "register provider local" addLocal
    (by decide +kernel) (fits_of_draft (by decide +kernel))
  obtain ⟨j₂, r₂, hadded, (h₂ : Open _ _ reportedDocument)⟩ := h₁.submit "provider diagnostic" [reportAdded]
    (by decide +kernel) (fits_of_draft (by decide +kernel))
  obtain ⟨j₃, r₃, hforgot, (h₃ : Open _ _ forgottenDocument)⟩ := h₂.submit "forget provider local" [.delete localId]
    (by decide +kernel) (fits_of_draft (by decide +kernel))
  obtain ⟨j₄, r₄, hremoved, (h₄ : Open _ _ removedDocument)⟩ := h₃.submit "provider diagnostic" [reportRemoved]
    (by decide +kernel) (fits_of_draft (by decide +kernel))
  have hadd : addingLocal.apply owner j₀ = (j₂, .ok ()) := by
    show addProvider j₀ owner localRecord.toProviderRecord fineOutside _ = _
    unfold addProvider recordProvider emitProviderDiagnostic
    rw [show providerId localRecord.name = .ok localId from rfl, hopen.snapshot,
      recordOps_local (by decide +kernel) (by decide +kernel)]
    dsimp only
    rw [show "register provider " ++ localRecord.name = "register provider local" by decide,
      hrecord]
    dsimp only
    rw [h₁.snapshot]
    exact hadded
  have hremove : removingLocal.apply owner j₂ = (j₄, .ok ()) := by
    have hfind : (findProvider reportedDocument "local").map ElementSnapshot.id = some localId := by
      decide +kernel
    obtain ⟨e, hfound, hid⟩ := Option.map_eq_some_iff.mp hfind
    show removeProvider j₂ owner "local" "" fineOutside _ = _
    unfold removeProvider forgetProvider emitProviderDiagnostic
    rw [h₂.snapshot, hfound]
    dsimp only
    rw [hid, show "forget provider " ++ "local" = "forget provider local" by decide, hforgot]
    dsimp only
    rw [h₃.snapshot]
    exact hremoved
  have hafter : ((ProviderSession.new j₀).after owner [addingLocal, removingLocal]).journal = j₄ := by
    show (removingLocal.apply owner (addingLocal.apply owner j₀).1).1 = j₄
    rw [hadd, hremove]
  exact ⟨j₀, _, hcreate, hafter ▸ h₄⟩

/-- A provider that was removed is not added again. -/
theorem not_behavesAsMap_readded : ¬ ∀ (sessionId : SessionId) (j : Journal) (owner : ActorId),
    create sessionId = .ok j → ∀ events : List ProviderEvent,
      BehavesAsMap owner (.new j) events := by
  intro h
  obtain ⟨j₀, log, hcreate, hopen⟩ := exists_removed
  have hadded := (h _ j₀ owner hcreate [addingLocal, removingLocal, addingLocal]).added
    [addingLocal, removingLocal] localRecord fineOutside _ [] rfl
  generalize hj : ((ProviderSession.new j₀).after owner [addingLocal, removingLocal]).journal = j
    at hopen hadded
  have hops : recordOps j.snapshot localRecord.toProviderRecord none = .ok addLocal := by
    rw [hopen.snapshot]
    exact recordOps_local (by decide +kernel) (by decide +kernel)
  have hpatch : providerPatch j owner ("register provider " ++ localRecord.name) addLocal =
      documentPatch removedDocument "register provider local" addLocal := by
    unfold providerPatch documentPatch
    rw [hopen.nextOffset, hopen.snapshot]
    rfl
  -- the identifier of the deleted element stays used
  have hrefused : (removedDocument.applyPatch
      (documentPatch removedDocument "register provider local" addLocal)).2.isOk = false := by
    decide +kernel
  have hnot : ∀ j', recordProvider j owner localRecord.toProviderRecord none fineOutside ≠
      (j', .ok ()) := by
    intro j' hrecord
    unfold recordProvider at hrecord
    rw [hops] at hrecord
    rcases submit_cases hopen.coherent hrecord with ⟨_, r, hr⟩ | ⟨⟨_, herror⟩, _⟩
    · obtain ⟨s, happly, _⟩ := hr.applied
      rw [hopen.snapshot] at happly
      rw [show (documentPatch removedDocument "register provider local" addLocal) =
        providerPatch j owner ("register provider " ++ localRecord.name) addLocal from hpatch.symm,
        happly] at hrefused
      cases hrefused
    · cases herror
  have htakes : Takes j owner localRecord.toProviderRecord fineOutside
      (fineReport ⟨"diag-1", Eq.refl true⟩) := by
    refine ⟨by decide, fun ops hrecord => ?_, fun j₁ hrecord => absurd hrecord (hnot j₁)⟩
    rw [hops] at hrecord
    cases hrecord
    rw [show providerPatch j owner ("register provider " ++ localRecord.toProviderRecord.name)
      addLocal = documentPatch removedDocument "register provider local" addLocal from hpatch]
    refine ⟨hopen.failed, hopen.recovery, ?_, ⟨7, rfl, ?_⟩, rfl⟩
    · have hvalid : (documentPatch removedDocument "register provider local"
          addLocal).validate.isOk = true := by decide +kernel
      cases hresult : (documentPatch removedDocument "register provider local" addLocal).validate with
      | error e =>
        rw [hresult] at hvalid
        cases hvalid
      | ok _ => rfl
    · refine fits_of_draft ?_
      unfold draft newRecord
      rw [hopen.snapshot]
      decide +kernel
  have hok : (addProvider j owner localRecord.toProviderRecord fineOutside
      (fineReport ⟨"diag-1", Eq.refl true⟩)).2 = .ok () := hadded htakes
  unfold addProvider at hok
  rw [show providerId localRecord.toProviderRecord.name = .ok localId from rfl] at hok
  dsimp only at hok
  cases hrecord : recordProvider j owner localRecord.toProviderRecord none fineOutside with
  | mk j' result =>
      cases result with
      | error e =>
        rw [hrecord] at hok
        cases hok
      | ok _ => exact hnot j' hrecord

/-- A provider is added, a branch is forked, the provider is removed, and the branch it was added on
is selected again. -/
theorem run_behavesAsMap_local : ∃ j₀, create exampleSession = .ok j₀ ∧
    BehavesAsMap owner (.new j₀) [addingLocal,
      .fork 1 ⟨"side", Eq.refl true⟩ ⟨"branch-1", Eq.refl true⟩ fineOutside, removingLocal,
      .select mainBranch fineOutside] := by
  obtain ⟨j₀, hcreate⟩ := exists_create_exampleSession
  refine ⟨j₀, hcreate, run_behavesAsMap owner hcreate ⟨?_, trivial, trivial, trivial, trivial⟩⟩
  obtain ⟨rfl, _⟩ := create_eq_ok hcreate
  refine ⟨.inr fun key hkey => ?_, fun e r hfound => ?_⟩
  · have hlocal : providerId localRecord.name = .ok localId := rfl
    obtain rfl := Except.ok.inj (hlocal.symm.trans hkey)
    decide +kernel
  · have hnone : (findProvider (.empty exampleSession) "local").isNone = true := by decide +kernel
    have hsome : findProvider (.empty exampleSession) "local" = some e := hfound
    rw [hsome] at hnone
    cases hnone

end Omp2.Control
