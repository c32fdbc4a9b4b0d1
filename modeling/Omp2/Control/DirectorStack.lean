import Mathlib.Data.List.Forall2
import Mathlib.Data.List.Perm.Subperm
import Omp2.Control.Directors
import Omp2.Control.Opened
import Omp2.State.Containers

/-!
# The director stack in the journal

The stack is read from the children of `directors` (`from_session_snapshot` of
`omp-control/src/agent_loop.rs`). After the stack was asked, the journal takes over the states that
changed and deletes the directors that left (`sync_directors_to_journal` of
`omp-control/src/host.rs`). Reading the document again then gives the stack in memory.
-/

namespace Omp2.Control

open Omp2.Json Omp2.State SessionSnapshot List

/-- `active_directors`. -/
def activeDirectors (s : SessionSnapshot) : List ElementSnapshot :=
  s.children (staticId "directors")

namespace DirectorStack

/-- The identifier for an element whose own one is no identifier of a director. -/
def fallbackId : DirectorId := ⟨"director", Eq.refl true⟩

/-- What `from_session_snapshot` makes of an element. -/
def specOf (element : ElementSnapshot) : DirectorSpec where
  id := match Id.new element.id.value with
    | .ok id => id
    | .error _ => fallbackId
  kind := match element.attributes["kind"]? with
    | some (.string kind) => kind
    | _ => element.kind
  state := element.payload.getD .null
  elementId := some element.id

/-- `from_specs`. -/
def fromSpecs : List DirectorSpec → Except StructuredError DirectorStack
  | [] => .ok []
  | spec :: specs =>
    match Director.createFromSpec spec with
    | .error e => .error e
    | .ok d => (fromSpecs specs).map (d :: ·)

/-- `from_session_snapshot`. -/
def fromSessionSnapshot (s : SessionSnapshot) : Except StructuredError DirectorStack :=
  fromSpecs ((activeDirectors s).map specOf)

/-- `to_specs`. -/
def toSpecs (directors : DirectorStack) : List DirectorSpec :=
  directors.map Director.toSpec

/-- The operation that takes over the state of a director, if its element has another one. -/
def updateOp (s : SessionSnapshot) (spec : DirectorSpec) : Option PatchOp :=
  match (match spec.elementId with | some id => Except.ok id | none => Id.new spec.id.value) with
  | .error _ => none
  | .ok id =>
    match s.element id with
    | none => none
    | some existing =>
      if existing.payload.any fun payload => payload.sameAs spec.state then none
      else some (.replacePayload id spec.state)

/-- A specification is that of an element. -/
def names (spec : DirectorSpec) (element : ElementSnapshot) : Bool :=
  spec.elementId == some element.id || spec.id.value == element.id.value

/-- The operations of `sync_directors_to_journal`. -/
def syncOps (s : SessionSnapshot) (specs : List DirectorSpec) : List PatchOp :=
  specs.filterMap (updateOp s) ++
    ((activeDirectors s).filter fun element => !specs.any fun spec => names spec element).map
      fun element => .delete element.id

/-- `sync_directors_to_journal`. -/
def syncDirectorsToJournal [SerdeJson] (directors : DirectorStack) (j : Journal) (owner : ActorId)
    (world : Journal.Outside) : Journal × Except StructuredError Unit :=
  let ops := syncOps j.snapshot directors.toSpecs
  if ops.isEmpty then (j, .ok ())
  else
    let patch : Patch := {
      baseOffset := j.latestOffset
      resultOffset := j.nextOffset
      author := .actor owner
      reason := "sync director states"
      ops }
    match j.appendPatch patch world with
    | (j, .ok _) => (j, .ok ())
    | (j, .error e) => (j, .error e.structured)

/-! ## What is left of the stack -/

/-- The directors that are left are directors of the stack, in its order and in later states. -/
abbrev LeftOf (left directors : DirectorStack) : Prop :=
  List.SublistForall₂ (fun d' d => Director.Continues d d') left directors

instance : Std.Refl fun d' d : Director => Director.Continues d d' :=
  ⟨fun _ => ⟨rfl, rfl, fun hnamed => hnamed⟩⟩

instance : IsTrans Director fun d' d => Director.Continues d d' :=
  ⟨fun _ _ _ h h' => ⟨h.id.trans h'.id, h.kind.trans h'.kind, fun hnamed =>
    h.named (h'.named hnamed)⟩⟩

variable {directors left outer inner : DirectorStack} {d d' : Director}

theorem LeftOf.trans {later : DirectorStack} (h : LeftOf later left) (h' : LeftOf left directors) :
    LeftOf later directors :=
  IsTrans.trans _ _ _ h h'

theorem LeftOf.concat (h : LeftOf left directors) (hd : d.Continues d') :
    LeftOf (left ++ [d']) (directors ++ [d]) := by
  induction h with
  | @nil directors =>
      have hlast : LeftOf [d'] [d] := .cons hd .nil
      exact hlast.trans (sublist_append_right directors [d]).sublistForall₂
  | cons hcontinues _ ih => exact .cons hcontinues ih
  | cons_right _ ih => exact .cons_right ih

theorem leftOf_set {idx : Nat} (hd : directors[idx]? = some d) (h : d.Continues d') :
    LeftOf (directors.set idx d') directors := by
  induction directors generalizing idx with
  | nil => cases hd
  | cons first directors ih =>
      cases idx with
      | zero =>
        cases hd
        exact .cons h (refl directors)
      | succ idx => exact .cons ⟨rfl, rfl, fun hnamed => hnamed⟩ (ih hd)

theorem LeftOf.ids (h : LeftOf left directors) :
    (left.map Director.id).Sublist (directors.map Director.id) := by
  induction h with
  | nil => exact nil_sublist _
  | cons hcontinues _ ih =>
      rw [map_cons, map_cons, hcontinues.id]
      exact ih.cons_cons _
  | cons_right _ ih => exact ih.cons _

theorem LeftOf.exists_of_mem (h : LeftOf left directors) (hd' : d' ∈ left) :
    ∃ d ∈ directors, d.Continues d' := by
  induction h with
  | nil => cases hd'
  | cons hcontinues _ ih =>
      rcases mem_cons.mp hd' with rfl | hd'
      · exact ⟨_, mem_cons_self, hcontinues⟩
      · obtain ⟨d, hd, hcontinues⟩ := ih hd'
        exact ⟨d, mem_cons_of_mem _ hd, hcontinues⟩
  | cons_right _ ih =>
      obtain ⟨d, hd, hcontinues⟩ := ih hd'
      exact ⟨d, mem_cons_of_mem _ hd, hcontinues⟩

section Yield

variable [Text.Unicode] {isAlphanumeric : Char → Bool} {agent : AgentView} {turn : TurnView}

/-- What is left of the stack after it was asked. -/
theorem leftOf_yieldFrom (idx : Nat) (directors : DirectorStack) :
    LeftOf (yieldFrom isAlphanumeric agent turn idx directors).2 directors := by
  induction idx generalizing directors with
  | zero => exact refl directors
  | succ idx ih =>
      unfold yieldFrom
      split
      · exact refl directors
      · next d hd =>
        have hcontinues := Director.continues_onYield isAlphanumeric agent turn d
        split
        · next d' hasked =>
          rw [hasked] at hcontinues
          exact (ih _).trans (leftOf_set hd hcontinues)
        · next d' hasked =>
          have herased : LeftOf (directors.eraseIdx idx) directors :=
            (eraseIdx_sublist directors idx).sublistForall₂
          exact (ih _).trans herased
        · next other d' _ _ hasked =>
          rw [hasked] at hcontinues
          exact leftOf_set hd hcontinues

/-- The stack is asked outwards as long as the directors pass or are done. -/
theorem yieldFrom_inner (outer rest : DirectorStack)
    (h : ∀ x ∈ inner, (x.onYield isAlphanumeric agent turn).1.goesOn = true) :
    ∃ inner', LeftOf inner' inner ∧
      yieldFrom isAlphanumeric agent turn (outer.length + inner.length)
        (outer ++ (inner ++ rest)) =
      yieldFrom isAlphanumeric agent turn outer.length (outer ++ (inner' ++ rest)) := by
  induction inner using reverseRecOn generalizing rest with
  | nil => exact ⟨[], .nil, rfl⟩
  | append_singleton inner x ih =>
      have hinner := fun x hx => h x (mem_append_left _ hx)
      have hlength : outer.length + (inner ++ [x]).length = (outer ++ inner).length + 1 := by
        rw [length_append, length_append, length_singleton, Nat.add_assoc]
      have hsplit : outer ++ (inner ++ [x] ++ rest) = (outer ++ inner) ++ x :: rest := by
        simp only [append_assoc, singleton_append]
      have hget : ((outer ++ inner) ++ x :: rest)[(outer ++ inner).length]? = some x := by
        rw [getElem?_append_right (Nat.le_refl _), Nat.sub_self, getElem?_cons_zero]
      have hgoes := h x (mem_append_right _ mem_cons_self)
      have hcontinues := Director.continues_onYield isAlphanumeric agent turn x
      rw [hlength, hsplit, yieldFrom, hget]
      dsimp only
      cases hasked : x.onYield isAlphanumeric agent turn with
      | mk decision x' =>
        rw [hasked] at hgoes hcontinues
        cases decision with
        | pass =>
          obtain ⟨inner', hleft, hyield⟩ := ih (x' :: rest) hinner
          refine ⟨inner' ++ [x'], ?_, ?_⟩
          · exact hleft.concat hcontinues
          · dsimp only
            rw [set_append_right _ _ (Nat.le_refl _), Nat.sub_self, set_cons_zero,
              length_append, append_assoc, hyield, append_assoc,
              singleton_append]
        | done =>
          obtain ⟨inner', hleft, hyield⟩ := ih rest hinner
          refine ⟨inner', hleft.trans (sublist_append_left inner [x]).sublistForall₂, ?_⟩
          dsimp only
          rw [eraseIdx_append_of_length_le (Nat.le_refl _), Nat.sub_self,
            eraseIdx_cons_zero, length_append, append_assoc, hyield]
        | «continue» => cases hgoes
        | yield => cases hgoes
        | push => cases hgoes
        | fail => cases hgoes

/-- A director that is done is not left, if the directors have names of their own. -/
theorem done_left (hnodup : (directors.map Director.id).Nodup)
    (hsplit : directors = outer ++ d :: inner)
    (hinner : ∀ x ∈ inner, (x.onYield isAlphanumeric agent turn).1.goesOn = true)
    (hdone : (d.onYield isAlphanumeric agent turn).1 = .done) :
    d.id ∉ (handleYield isAlphanumeric directors agent turn).2.map Director.id := by
  subst hsplit
  obtain ⟨inner', hleft, hyield⟩ := yieldFrom_inner (outer ++ [d]) [] hinner
  have hget : (outer ++ d :: inner')[outer.length]? = some d := by
    rw [getElem?_append_right (Nat.le_refl _), Nat.sub_self, getElem?_cons_zero]
  have hrun : handleYield isAlphanumeric (outer ++ d :: inner) agent turn =
      yieldFrom isAlphanumeric agent turn outer.length (outer ++ inner') := by
    simp only [append_nil, append_assoc, singleton_append, length_append,
      length_singleton] at hyield
    unfold handleYield
    rw [length_append, length_cons, Nat.add_comm inner.length 1, ← Nat.add_assoc, hyield,
      yieldFrom, hget]
    dsimp only
    cases hasked : d.onYield isAlphanumeric agent turn with
    | mk decision d' =>
      rw [hasked] at hdone
      dsimp only at hdone
      rw [hdone]
      dsimp only
      rw [eraseIdx_append_of_length_le (Nat.le_refl _), Nat.sub_self,
        eraseIdx_cons_zero]
  rw [hrun]
  intro hmem
  have hrest : d.id ∈ (outer ++ inner').map Director.id :=
    (leftOf_yieldFrom outer.length (outer ++ inner')).ids.subset hmem
  rw [map_append, map_cons] at hnodup
  obtain ⟨_, hcons, hapart⟩ := nodup_append.mp hnodup
  rw [map_append] at hrest
  rcases mem_append.mp hrest with hout | hin
  · exact hapart _ hout _ mem_cons_self rfl
  · exact (nodup_cons.mp hcons).1 (hleft.ids.subset hin)

end Yield

/-! ## What the journal takes over -/

section Sync

variable {s s' : SessionSnapshot} {e e₀ : ElementSnapshot} {specs : List DirectorSpec}

theorem fromSpecs_iff :
    fromSpecs specs = .ok directors ↔
      List.Forall₂ (fun spec d => Director.createFromSpec spec = .ok d) specs directors := by
  induction specs generalizing directors with
  | nil => simp [fromSpecs, eq_comm]
  | cons spec specs ih =>
      unfold fromSpecs
      cases hspec : Director.createFromSpec spec with
      | error e =>
        refine iff_of_false nofun ?_
        rintro (_ | ⟨hfirst, _⟩)
        rw [hspec] at hfirst
        cases hfirst
      | ok d =>
        cases hrest : fromSpecs specs with
        | error e =>
          refine iff_of_false nofun ?_
          rintro (_ | ⟨_, hmore⟩)
          rw [ih.mpr hmore] at hrest
          cases hrest
        | ok rest =>
          constructor
          · intro h
            cases h
            exact .cons hspec (ih.mp hrest)
          · rintro (_ | ⟨hfirst, hmore⟩)
            rw [hspec] at hfirst
            rw [ih.mpr hmore] at hrest
            cases hfirst
            cases hrest
            rfl

theorem fromSessionSnapshot_iff :
    fromSessionSnapshot s = .ok directors ↔
      List.Forall₂ (fun e d => Director.createFromSpec (specOf e) = .ok d) (activeDirectors s)
        directors := by
  unfold fromSessionSnapshot
  rw [fromSpecs_iff, forall₂_map_left_iff]

theorem specOf_id (e : ElementSnapshot) : (specOf e).id.value = e.id.value := by
  unfold specOf
  have hid : (Id.new e.id.value : Except StructuredError DirectorId) =
      .ok ⟨e.id.value, e.id.valid⟩ := Id.new_value ⟨e.id.value, e.id.valid⟩
  rw [hid]

theorem id_of_createFromSpec (h : Director.createFromSpec (specOf e) = .ok d) :
    d.id.value = e.id.value := by
  rw [(Director.createFromSpec_ok h).1, specOf_id]

theorem exists_of_forall₂ {α β : Type*} {R : α → β → Prop} {items : List α} {others : List β}
    (h : List.Forall₂ R items others) {b : β} (hb : b ∈ others) : ∃ a ∈ items, R a b := by
  induction h with
  | nil => cases hb
  | cons hfirst _ ih =>
      rcases mem_cons.mp hb with rfl | hb
      · exact ⟨_, mem_cons_self, hfirst⟩
      · obtain ⟨a, ha, hrel⟩ := ih hb
        exact ⟨a, mem_cons_of_mem _ ha, hrel⟩

theorem ids_of_forall₂ {es : List ElementSnapshot}
    (h : List.Forall₂ (fun e d => Director.createFromSpec (specOf e) = .ok d) es directors) :
    directors.map (fun d => d.id.value) = es.map fun e => e.id.value := by
  induction h with
  | nil => rfl
  | cons hfirst _ ih => rw [map_cons, map_cons, ih, id_of_createFromSpec hfirst]

/-- The state of the director of an element is in the document, or it is written there. -/
theorem updateOp_toSpec (hwf : WellFormed s) (he : e ∈ activeDirectors s)
    (hid : d.id.value = e.id.value) :
    e.payload = some d.state ∧ updateOp s d.toSpec = none ∨
      updateOp s d.toSpec = some (.replacePayload e.id d.state) := by
  obtain ⟨n, hn, rfl, -⟩ := (mem_children_iff hwf).mp he
  have hname : (Id.new d.id.value : Except StructuredError ElementId) = .ok n.element.id := by
    rw [hid]
    exact Id.new_value n.element.id
  have hfound : s.element n.element.id = some n.element := by
    unfold SessionSnapshot.element
    rw [hn]
    rfl
  unfold updateOp Director.toSpec
  dsimp only
  rw [hname]
  dsimp only
  rw [hfound]
  dsimp only
  split
  · next hsame =>
    obtain ⟨payload, hpayload, hsame⟩ := (Option.any_eq_true _ _).mp hsame
    rw [Value.sameAs_iff d.exact_state] at hsame
    exact .inl ⟨hpayload.trans (congrArg some hsame), rfl⟩
  · exact .inr rfl

/-- An update is that of a director. -/
theorem of_updateOp {op : PatchOp} (h : updateOp s d.toSpec = some op) :
    ∃ x : ElementId, x.value = d.id.value ∧ op = .replacePayload x d.state := by
  unfold updateOp Director.toSpec at h
  dsimp only at h
  have hname : (Id.new d.id.value : Except StructuredError ElementId) =
      .ok ⟨d.id.value, d.id.valid⟩ := Id.new_value ⟨d.id.value, d.id.valid⟩
  rw [hname] at h
  dsimp only at h
  split at h
  · cases h
  · split at h
    · cases h
    · exact ⟨_, rfl, (Option.some.inj h).symm⟩

/-- Directors whose state has changed are updated, and those that are gone are deleted. -/
theorem mem_syncOps {op : PatchOp} :
    op ∈ syncOps s left.toSpecs ↔ (∃ d ∈ left, updateOp s d.toSpec = some op) ∨
      ∃ e ∈ activeDirectors s, (∀ d ∈ left, d.id.value ≠ e.id.value) ∧ op = .delete e.id := by
  unfold syncOps toSpecs
  rw [mem_append, filterMap_map, mem_filterMap, mem_map]
  refine or_congr Iff.rfl (exists_congr fun e => ?_)
  rw [mem_filter, any_map, and_assoc, eq_comm (a := op)]
  refine and_congr_right fun _ => and_congr_left fun _ => ?_
  rw [Bool.not_eq_true', Bool.eq_false_iff, ne_eq, any_eq_true]
  simp [names, Director.toSpec]

theorem names_nodup (hwf : WellFormed s) :
    ((activeDirectors s).map fun e => e.id.value).Nodup := by
  have hnodup := nodup_children hwf (staticId "directors")
  have hmapped : (((activeDirectors s).map ElementSnapshot.id).map Id.value).Nodup :=
    hnodup.map fun a b h => Id.ext h
  rwa [map_map] at hmapped

/-- Reading the document after the journal took over the stack gives the stack. -/
theorem synced (hwf : WellFormed s) (hstack : fromSessionSnapshot s = .ok directors)
    (hleft : LeftOf left directors)
    (hops : s.applyOps [] (syncOps s left.toSpecs) = (s', .ok ())) :
    fromSessionSnapshot s' = .ok left := by
  have hcontainer : staticId "directors" ∈ roots := by decide +kernel
  have hwf' := hwf.applyOps hops
  have hread := fromSessionSnapshot_iff.mp hstack
  have hnames := ids_of_forall₂ hread
  have hsettled : ∀ op ∈ syncOps s left.toSpecs, op.Settled (staticId "directors") := by
    intro op hop
    rcases mem_syncOps.mp hop with ⟨d, -, hupdate⟩ | ⟨e, -, -, rfl⟩
    · obtain ⟨x, -, rfl⟩ := of_updateOp hupdate
      exact nofun
    · exact nofun
  have hstays : ∀ e₀ ∈ activeDirectors s, (∀ op ∈ syncOps s left.toSpecs, ¬op.Displaces e₀.id) ↔
      ∃ d ∈ left, d.id.value = e₀.id.value := by
    intro e₀ he₀
    constructor
    · intro hplaces
      by_contra hnone
      refine hplaces (.delete e₀.id) (mem_syncOps.mpr (.inr ⟨e₀, he₀, fun d hd heq => ?_, rfl⟩)) rfl
      exact hnone ⟨d, hd, heq⟩
    · rintro ⟨d, hd, heq⟩ op hop hdisplaces
      rcases mem_syncOps.mp hop with ⟨_, -, hupdate⟩ | ⟨e, -, hgone, rfl⟩
      · obtain ⟨x, -, rfl⟩ := of_updateOp hupdate
        exact hdisplaces
      · have hsame : e.id = e₀.id := hdisplaces
        exact hgone d hd (heq.trans (congrArg Id.value hsame).symm)
  have hkept : ∀ e, e ∈ activeDirectors s' ↔ ∃ e₀ ∈ activeDirectors s,
      (∃ d ∈ left, d.id.value = e₀.id.value) ∧
        (syncOps s left.toSpecs).foldl PatchOp.rewrite e₀ = e := by
    intro e
    refine (applyOps_container hwf hops hcontainer hsettled).trans (exists_congr fun e₀ => ?_)
    exact and_congr_right fun he₀ => and_congr_left fun _ => hstays e₀ he₀
  have hids : left.map (fun d => d.id.value) = (activeDirectors s').map fun e => e.id.value := by
    have hfirst : (left.map fun d => d.id.value).Sublist
        ((activeDirectors s).map fun e => e.id.value) := by
      have hmapped := hleft.ids.map Id.value
      rw [map_map, map_map] at hmapped
      rwa [← hnames]
    have hsecond : ((activeDirectors s').map fun e => e.id.value).Sublist
        ((activeDirectors s).map fun e => e.id.value) := by
      have hmapped := (applyOps_sublist hwf hops hcontainer hsettled).map Id.value
      rwa [map_map, map_map] at hmapped
    refine (List.Nodup.perm_iff_eq_of_sublist (names_nodup hwf) hfirst hsecond).mp
      ((perm_ext_iff_of_nodup ((names_nodup hwf).sublist hfirst) (names_nodup hwf')).mpr
        fun value => ?_)
    constructor
    · intro hvalue
      obtain ⟨e₀, he₀, heq⟩ := mem_map.mp (hfirst.subset hvalue)
      obtain ⟨d, hd, hd'⟩ := mem_map.mp hvalue
      refine mem_map.mpr ⟨_, (hkept _).mpr ⟨e₀, he₀, ⟨d, hd, hd'.trans heq.symm⟩, rfl⟩, ?_⟩
      rw [PatchOp.foldl_rewrite_id]
      exact heq
    · intro hvalue
      obtain ⟨e, he, rfl⟩ := mem_map.mp hvalue
      obtain ⟨e₀, -, ⟨d, hd, heq⟩, rfl⟩ := (hkept e).mp he
      rw [PatchOp.foldl_rewrite_id]
      exact mem_map.mpr ⟨d, hd, heq⟩
  have haligned : List.Forall₂ (fun e d => d.id.value = e.id.value) (activeDirectors s') left := by
    have hequal : List.Forall₂ (· = ·) (left.map fun d => d.id.value)
        ((activeDirectors s').map fun e => e.id.value) := by
      rw [hids]
      exact forall₂_refl _
    rw [forall₂_map_left_iff, forall₂_map_right_iff] at hequal
    exact hequal.flip
  have hnodup : (left.map fun d => d.id.value).Nodup := hids ▸ names_nodup hwf'
  refine fromSessionSnapshot_iff.mpr (forall₂_iff_zip.mpr
    ⟨haligned.length_eq, fun {e d} hpair => ?_⟩)
  have hid := forall₂_zip haligned hpair
  obtain ⟨he, hd⟩ := of_mem_zip hpair
  obtain ⟨e₀, he₀, -, rfl⟩ := (hkept e).mp he
  rw [PatchOp.foldl_rewrite_id] at hid
  obtain ⟨d₀, hd₀, hcontinues⟩ := hleft.exists_of_mem hd
  obtain ⟨e₁, he₁, hcreated⟩ := exists_of_forall₂ hread hd₀
  have hsame : e₁ = e₀ := by
    refine (eq_of_mem_children hwf he₁ he₀ (Id.ext ?_)).1
    rw [← id_of_createFromSpec hcreated, ← hcontinues.id, hid]
  subst hsame
  obtain ⟨-, hkind, hnamed⟩ := Director.createFromSpec_ok hcreated
  have hattributes : ((syncOps s left.toSpecs).foldl PatchOp.rewrite e₁).attributes =
      e₁.attributes := by
    refine PatchOp.foldl_rewrite_attributes fun op hop name hwrites => ?_
    rcases mem_syncOps.mp hop with ⟨_, -, hupdate⟩ | ⟨_, -, -, rfl⟩
    · obtain ⟨x, -, rfl⟩ := of_updateOp hupdate
      exact hwrites
    · exact hwrites
  have hpayload : ((syncOps s left.toSpecs).foldl PatchOp.rewrite e₁).payload = some d.state := by
    refine PatchOp.foldl_rewrite_payload (fun value hvalue => ?_) ?_
    · rcases mem_syncOps.mp hvalue with ⟨d', hd', hupdate⟩ | ⟨_, -, -, hdelete⟩
      · obtain ⟨x, hx, heq⟩ := of_updateOp hupdate
        cases heq
        have hdirector := inj_on_of_nodup_map hnodup hd' hd (hx.symm.trans hid.symm)
        rw [hdirector]
      · cases hdelete
    · rcases updateOp_toSpec hwf he₁ hid with ⟨hpayload, -⟩ | hupdate
      · exact .inl hpayload
      · exact .inr (mem_syncOps.mpr (.inl ⟨d, hd, hupdate⟩))
  refine Director.createFromSpec_state (hcontinues.named hnamed) (Id.ext ?_) ?_ ?_
  · rw [specOf_id, PatchOp.foldl_rewrite_id, hid]
  · rw [hcontinues.kind, hkind]
    unfold specOf
    dsimp only
    rw [hattributes, PatchOp.foldl_rewrite_kind]
  · unfold specOf
    dsimp only
    rw [hpayload]
    rfl

/-- The document takes the operations. -/
theorem exists_synced (hwf : WellFormed s) (hstack : fromSessionSnapshot s = .ok directors)
    (hleft : LeftOf left directors) :
    ∃ s', s.applyOps [] (syncOps s left.toSpecs) = (s', .ok ()) := by
  have hcontainer : staticId "directors" ∈ roots := by decide +kernel
  have hread := fromSessionSnapshot_iff.mp hstack
  have hchild : ∀ d ∈ left, ∃ e ∈ activeDirectors s, e.id.value = d.id.value := by
    intro d hd
    obtain ⟨d₀, hd₀, hcontinues⟩ := hleft.exists_of_mem hd
    obtain ⟨e, he, hcreated⟩ := exists_of_forall₂ hread hd₀
    exact ⟨e, he, by rw [hcontinues.id, id_of_createFromSpec hcreated]⟩
  have hroot : ∀ e ∈ activeDirectors s, e.id ∉ roots := by
    have hparent : ∀ key ∈ roots, containerParent key ≠ some (staticId "directors") := by
      decide +kernel
    intro e he hmem
    obtain ⟨n, hn, -, hup⟩ := (mem_children_iff hwf).mp he
    obtain ⟨n', hn', hup'⟩ := hwf.containers e.id hmem
    rw [hn] at hn'
    cases hn'
    exact hparent e.id hmem (hup'.symm.trans hup)
  refine exists_updates hwf hcontainer (fun op hop => ?_) ?_
  · rcases mem_syncOps.mp hop with ⟨d, hd, hupdate⟩ | ⟨e, he, -, rfl⟩
    · obtain ⟨x, hx, rfl⟩ := of_updateOp hupdate
      obtain ⟨e, he, heq⟩ := hchild d hd
      exact ⟨e, he, Id.ext (hx.trans heq.symm)⟩
    · exact ⟨e, he, rfl, hroot e he⟩
  · have hupdate : ∀ op ∈ left.toSpecs.filterMap (updateOp s), ∀ x, op ≠ .delete x := by
      intro op hop x
      obtain ⟨spec, hspec, hop⟩ := mem_filterMap.mp hop
      obtain ⟨d, -, rfl⟩ := mem_map.mp hspec
      obtain ⟨_, -, rfl⟩ := of_updateOp hop
      exact nofun
    refine pairwise_append.mpr
      ⟨?_, ?_, fun op hop later _ x hx => absurd hx (hupdate op hop x)⟩
    · exact pairwise_of_forall_mem_list fun op hop later _ x hx => absurd hx (hupdate op hop x)
    · have hnodup := (nodup_children hwf (staticId "directors")).sublist
        ((filter_sublist (p := fun element => !left.toSpecs.any fun spec =>
          names spec element)).map _)
      refine pairwise_map.mpr ((pairwise_map.mp hnodup).imp fun hne x hx hupdates => ?_)
      cases hx
      exact hne hupdates.1.symm

variable [SerdeJson]

/-- The journal appends the operations, or the document stays as it is. -/
theorem syncDirectorsToJournal_cases {j : Journal} (hsound : Sound j) (left : DirectorStack)
    (owner : ActorId) (world : Journal.Outside) :
    ((syncDirectorsToJournal left j owner world).2 = .ok () ∧ ∃ s offset branch,
      j.snapshot.applyOps [] (syncOps j.snapshot left.toSpecs) = (s, .ok ()) ∧
        (syncDirectorsToJournal left j owner world).1.snapshot =
          { s with offset, selectedBranch := branch }) ∨
      (∃ e, (syncDirectorsToJournal left j owner world).2 = .error e) ∧
        (syncDirectorsToJournal left j owner world).1.snapshot = j.snapshot := by
  unfold syncDirectorsToJournal
  dsimp only
  split
  · next hempty =>
    rw [isEmpty_iff.mp hempty]
    exact .inl ⟨rfl, j.snapshot, j.snapshot.offset, j.snapshot.selectedBranch, rfl, rfl⟩
  · split
    · next j' offset happend =>
      obtain ⟨-, ⟨s, _, branch, -, happly, hsnapshot⟩ | ⟨⟨e, herror⟩, -⟩⟩ :=
        hsound.append_cases happend
      · obtain ⟨-, -, s₁, hops, rfl⟩ := applyPatch_ok happly
        exact .inl ⟨rfl, s₁, _, branch, hops, hsnapshot⟩
      · cases herror
    · next j' e happend =>
      obtain ⟨-, ⟨_, _, _, hok, -⟩ | ⟨-, hsnapshot⟩⟩ := hsound.append_cases happend
      · cases hok
      · exact .inr ⟨⟨_, rfl⟩, hsnapshot⟩

/-- The stack that is read from a document is asked, and the journal takes over what is left. Then
the document gives the stack in memory, and a director that reported that it is done is in neither.
The document takes the operations, and if the journal refuses them it is as it was. -/
theorem stack_survives [Text.Unicode] {j : Journal}
    (hstart : (∃ sessionId, Journal.create sessionId = .ok j) ∨
      ∃ file, Journal.openFile file = .ok j) (calls : List Journal.Call)
    (hstack : fromSessionSnapshot (j.after calls).snapshot = .ok directors)
    (isAlphanumeric : Char → Bool) (agent : AgentView) (turn : TurnView) (owner : ActorId)
    (world : Journal.Outside) :
    let left := (handleYield isAlphanumeric directors agent turn).2
    let result := syncDirectorsToJournal left (j.after calls) owner world
    (result.2 = .ok () → fromSessionSnapshot result.1.snapshot = .ok left ∧
      ∀ outer d inner, directors = outer ++ d :: inner →
        (∀ x ∈ inner, (x.onYield isAlphanumeric agent turn).1.goesOn = true) →
        (d.onYield isAlphanumeric agent turn).1 = .done →
          d.id ∉ left.map Director.id ∧
            ∀ e ∈ activeDirectors result.1.snapshot, e.id.value ≠ d.id.value) ∧
    (∃ s', (j.after calls).snapshot.applyOps []
      (syncOps (j.after calls).snapshot left.toSpecs) = (s', .ok ())) ∧
    ∀ e, result.2 = .error e → result.1.snapshot = (j.after calls).snapshot := by
  intro left result
  have hsound : Sound (j.after calls) := by
    have hcoherent : ∃ sessionId log, Journal.Coherent sessionId j log := by
      rcases hstart with ⟨sessionId, hcreate⟩ | ⟨file, hopen⟩
      · exact ⟨sessionId, [], Journal.create_coherent hcreate⟩
      · exact Journal.openFile_coherent hopen
    obtain ⟨sessionId, log, hcoherent⟩ := hcoherent
    obtain ⟨more, hafter⟩ := hcoherent.after calls
    exact ⟨_, _, hafter⟩
  have hwf := hsound.wellFormed
  have hleft : LeftOf left directors := leftOf_yieldFrom directors.length directors
  have hnames := ids_of_forall₂ (fromSessionSnapshot_iff.mp hstack)
  have hnodup : (directors.map Director.id).Nodup := by
    have hvalues := names_nodup hwf
    rw [← hnames] at hvalues
    refine List.Nodup.of_map Id.value ?_
    rwa [map_map]
  have hcases := syncDirectorsToJournal_cases hsound left owner world
  have hread : result.2 = .ok () → fromSessionSnapshot result.1.snapshot = .ok left := by
    intro hok
    rcases hcases with ⟨-, s, offset, branch, hops, hsnapshot⟩ | ⟨⟨e, herror⟩, -⟩
    · have hsynced := synced hwf hstack hleft hops
      have hdocument : result.1.snapshot = _ := hsnapshot
      rw [hdocument]
      exact hsynced
    · cases hok.symm.trans herror
  refine ⟨fun hok => ⟨hread hok, fun outer d inner hsplit hinner hdone => ?_⟩,
    exists_synced hwf hstack hleft, ?_⟩
  · have hgone : d.id ∉ left.map Director.id := done_left hnodup hsplit hinner hdone
    refine ⟨hgone, fun e he heq => ?_⟩
    have hlisted := ids_of_forall₂ (fromSessionSnapshot_iff.mp (hread hok))
    have hmem : d.id.value ∈ left.map fun d => d.id.value := by
      rw [hlisted, ← heq]
      exact mem_map_of_mem he
    obtain ⟨d', hd', hsame⟩ := mem_map.mp hmem
    exact hgone (mem_map.mpr ⟨d', hd', Id.ext hsame⟩)
  · intro e herror
    rcases hcases with ⟨hok, -⟩ | ⟨-, hsnapshot⟩
    · cases hok.symm.trans herror
    · exact hsnapshot

end Sync

end DirectorStack

end Omp2.Control

/-! ## A goal that is reached under a tool that is required -/

namespace Omp2.Control.DirectorStack

open Omp2.Json Omp2.Json.Compact Omp2.State SessionSnapshot Journal
open scoped Omp2.Text

/-- The element of a director. -/
def directorElement (id : ElementId) (kind : String) (state : Value) : ElementSnapshot :=
  { ElementSnapshot.new id "director" with
    attributes := .ofList [("kind", TypedValue.string kind)]
    payload := some state }

/-- A required tool, and inside of it a goal that is reached. -/
def pushDirectors : List PatchOp :=
  [.create (staticId "directors") 0 (directorElement ⟨"force", Eq.refl true⟩ "ForceTool"
      (.object [("max_attempts", .number (.posInt 3)), ("tool", .string "Read")])),
    .create (staticId "directors") 1 (directorElement ⟨"goal", Eq.refl true⟩ "GoalCompletion"
      (.object [("completed", .bool true)]))]

/-- The document with the two directors. -/
def directorsDocument : SessionSnapshot :=
  documentAfter (.empty exampleSession) "push" pushDirectors

/-- The stack of the document. -/
def pushedDirectors : DirectorStack :=
  (fromSessionSnapshot directorsDocument).toOption.getD []

/-- What is left of it when a turn ends without a call. -/
def pushedLeft : DirectorStack :=
  (handleYield Char.isAlphanum pushedDirectors ⟨[]⟩ ⟨none, [], []⟩).2

/-- The two directors are read, asked and kept in the journal. -/
theorem stack_survives_pushed : ∃ j calls, (∃ sessionId, Journal.create sessionId = .ok j) ∧
    fromSessionSnapshot (j.after calls).snapshot = .ok pushedDirectors ∧
    pushedDirectors.length = 2 ∧ pushedLeft.length = 1 ∧
    let result := syncDirectorsToJournal pushedLeft (j.after calls) owner fineOutside
    result.2 = .ok () ∧ fromSessionSnapshot result.1.snapshot = .ok pushedLeft := by
  obtain ⟨j, hcreate, hopen⟩ := exists_open
  obtain ⟨j', r, happend, hopen'⟩ := hopen.append "push" pushDirectors (by decide +kernel)
    (fits_of_draft (by decide +kernel))
  let calls : List Journal.Call :=
    [.append (documentPatch (.empty exampleSession) "push" pushDirectors) fineOutside]
  have hafter : j.after calls = j' := by
    show (j.appendPatch _ _).1 = j'
    rw [happend]
  have hsnapshot : (j.after calls).snapshot = directorsDocument := by
    rw [hafter]
    exact hopen'.snapshot
  have hlengths : pushedDirectors.length = 2 ∧ pushedLeft.length = 1 := by decide +kernel
  have hstack : fromSessionSnapshot directorsDocument = .ok pushedDirectors := by
    have hread : (fromSessionSnapshot directorsDocument).isOk = true := by decide +kernel
    unfold pushedDirectors
    cases hcase : fromSessionSnapshot directorsDocument with
    | error e =>
      rw [hcase] at hread
      cases hread
    | ok directors => rfl
  have hstack' : fromSessionSnapshot (j.after calls).snapshot = .ok pushedDirectors := by
    rw [hsnapshot, hstack]
  have hsynced : (syncDirectorsToJournal pushedLeft (j.after calls) owner fineOutside).2 =
      .ok () := by
    have hops : (syncOps directorsDocument pushedLeft.toSpecs).isEmpty = false := by
      decide +kernel
    obtain ⟨_, r', happend', -⟩ := hopen'.append "sync director states"
      (syncOps directorsDocument pushedLeft.toSpecs) (by decide +kernel)
      (fits_of_draft (by decide +kernel))
    have hbase : j'.latestOffset = directorsDocument.offset := by
      refine UInt64.toNat_inj.mp ?_
      have hlast := (hopen'.coherent.at_version hopen'.coherent.live).offset
      have hdocument : j'.snapshot = directorsDocument := hopen'.snapshot
      rw [hdocument] at hlast
      rw [hopen'.coherent.latestOffset, hlast]
    have hnext : j'.nextOffset = directorsDocument.offset + 1 := hopen'.nextOffset
    unfold syncDirectorsToJournal
    rw [hsnapshot, hafter]
    dsimp only
    rw [hops, if_neg Bool.false_ne_true, hbase, hnext]
    have hpatch : j'.appendPatch (documentPatch directorsDocument "sync director states"
      (syncOps directorsDocument pushedLeft.toSpecs)) fineOutside = (_, .ok r'.offset) := happend'
    unfold documentPatch at hpatch
    rw [hpatch]
  have hsurvives := stack_survives (.inl ⟨_, hcreate⟩) calls hstack' Char.isAlphanum ⟨[]⟩
    ⟨none, [], []⟩ owner fineOutside
  exact ⟨j, calls, ⟨_, hcreate⟩, hstack', hlengths.1, hlengths.2, hsynced,
    (hsurvives.1 hsynced).1⟩

end Omp2.Control.DirectorStack
