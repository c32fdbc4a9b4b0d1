import Omp2.Control.Execution
import Omp2.Library.JsonText
import Omp2.State.Untouched

/-!
# Effects and the document

A script changes the live engine and store, and the patch of its effects changes the document. The
two are encodings of one stream of changes: `Mirrors` says that the attributes of the `convars`
container hold what the live side holds, and every command keeps it, so that hydrating from the
patched document gives the live side back. Binds, aliases and variables share the attributes,
which is why the names of the variables matter: `Reserved` keeps them away from the names that
binds and aliases take, and asks that the cheats flag be journaled.
-/

namespace Omp2.Control

open State Json List

/-! ## The attributes of binds and aliases -/

/-- The text at an attribute. -/
def textAt (globals : Attributes) (name : String) : Option String :=
  match globals[name]? with
  | some (.string text) => some text
  | _ => none

/-- What is left of a name after a prefix that it has. -/
theorem stripPrefix_eq_some {name start key : String} (h : Text.stripPrefix name start = some key) :
    name = start ++ key := by
  unfold Text.stripPrefix at h
  split at h
  · next hstart =>
    cases h
    obtain ⟨rest, hrest⟩ := isPrefixOf_iff_prefix.mp hstart
    apply String.toList_injective
    rw [String.toList_append, String.toList_ofList, ← hrest, ← String.length_toList,
      drop_left]
  · cases h

theorem stripPrefix_append (start key : String) :
    Text.stripPrefix (start ++ key) start = some key := by
  unfold Text.stripPrefix
  rw [if_pos (by simp [List.isPrefixOf_iff_prefix]), String.toList_append, ← String.length_toList,
    drop_left, String.ofList_toList]

theorem stripPrefix_other (key : String) :
    Text.stripPrefix (aliasPrefix ++ key) bindPrefix = none := by
  unfold Text.stripPrefix
  rw [if_neg]
  rw [String.toList_append]
  simp [aliasPrefix, bindPrefix, isPrefixOf]

theorem prefixed_inj {start key key' : String} (h : start ++ key = start ++ key') : key = key' := by
  have hstrip := stripPrefix_append start key
  rw [h, stripPrefix_append] at hstrip
  exact (Option.some.inj hstrip).symm

theorem bindName_ne_aliasName (key name : String) : bindPrefix ++ key ≠ aliasPrefix ++ name := by
  intro h
  have hstrip := stripPrefix_other name
  rw [← h, stripPrefix_append] at hstrip
  cases hstrip

/-- An attribute holds the bind of a key when it is a text under the bind's name. -/
theorem bindEntry_eq_some {name key command : String} {value : TypedValue} :
    bindEntry name value = some (key, command) ↔
      name = bindPrefix ++ key ∧ value = .string command := by
  unfold bindEntry
  constructor
  · intro h
    split at h
    · obtain ⟨rest, hrest, hpair⟩ := Option.map_eq_some_iff.mp h
      cases hpair
      exact ⟨stripPrefix_eq_some hrest, rfl⟩
    · cases h
  · rintro ⟨rfl, rfl⟩
    simp [stripPrefix_append]

/-- An attribute holds the alias of a name when it is a text under the alias's name. -/
theorem aliasEntry_eq_some {name key command : String} {value : TypedValue} :
    aliasEntry name value = some (key, command) ↔
      name = aliasPrefix ++ key ∧ value = .string command := by
  unfold aliasEntry
  constructor
  · intro h
    split at h
    · obtain ⟨rest, hrest, hpair⟩ := Option.map_eq_some_iff.mp h
      cases hpair
      exact ⟨stripPrefix_eq_some hrest, rfl⟩
    · cases h
  · rintro ⟨rfl, rfl⟩
    simp [bindEntry, stripPrefix_other, stripPrefix_append]

/-- What a hydrated engine holds when its entries are the texts under a prefix. -/
theorem getElem?_collect_texts {globals : Attributes} {start : String}
    {entry : String → TypedValue → Option (String × String)}
    (hentry : ∀ name key command value, entry name value = some (key, command) ↔
      name = start ++ key ∧ value = .string command) (key : String) :
    (Collect.collect globals entry ∅)[key]? = textAt globals (start ++ key) := by
  unfold textAt
  split
  · next text htext =>
    refine Collect.getElem?_collect_of_some ∅ htext ((hentry _ _ _ _).mpr ⟨rfl, rfl⟩) ?_
    intro name value _ command hname
    exact ((hentry _ _ _ _).mp hname).1
  · next hother =>
    rw [Collect.getElem?_collect_of_none]
    · simp
    · intro name value hget command hname
      obtain ⟨rfl, rfl⟩ := (hentry _ _ _ _).mp hname
      exact hother command hget

theorem CommandEngine.binds_hydrateFromDom (e : CommandEngine) (s : SessionSnapshot)
    (key : String) :
    (e.hydrateFromDom s).binds[key]? = textAt (sessionGlobals s) (bindPrefix ++ key) :=
  getElem?_collect_texts (fun _ _ _ _ => bindEntry_eq_some) key

theorem CommandEngine.aliases_hydrateFromDom (e : CommandEngine) (s : SessionSnapshot)
    (name : String) :
    (e.hydrateFromDom s).aliases[name]? = textAt (sessionGlobals s) (aliasPrefix ++ name) :=
  getElem?_collect_texts (fun _ _ _ _ => aliasEntry_eq_some) name

variable {η κ : Type}

/-- The session variables of a hydrated store. -/
theorem ConVarStore.values_hydrateFromDom {store : ConVarStore η} (s : SessionSnapshot)
    {name : String} {d : ConVarDefinition η} (hd : store.definitions[name]? = some d)
    (hsession : d.flags.contains .session = true) :
    (store.hydrateFromDom s).values[name]? =
      some ((sessionGlobals s)[name]?.getD d.defaultValue) := by
  refine Collect.getElem?_collect_of_some _ hd (by simp [hydratedEntry, hsession]) ?_
  intro key d' _ value hentry
  unfold hydratedEntry at hentry
  split at hentry <;> cases hentry
  rfl

theorem ConVarStore.values_undeclared {store : ConVarStore η} {name : String}
    (h : store.definitions[name]? = none) : store.values[name]? = none := by
  rw [← Option.not_isSome_iff_eq_none, ← Std.ExtTreeMap.mem_iff_isSome_getElem?]
  intro hmem
  have hdefined := Std.ExtTreeMap.mem_iff_isSome_getElem?.mp (store.declared name hmem)
  rw [h] at hdefined
  cases hdefined

/-! ## The document after a patch -/

/-- What an operation makes of the attributes of an element that it writes. -/
def opGlobals (globals : Attributes) : PatchOp → Attributes
  | .setAttribute _ name value => globals.insert name value
  | .removeAttribute _ name => globals.erase name
  | _ => globals

/-- What the effects make of the attributes of the `convars` container. -/
def replayGlobals (globals : Attributes) (effects : List CommandEffect) : Attributes :=
  (effects.flatMap (effectOps (staticId "convars"))).foldl opGlobals globals

theorem replayGlobals_append (globals : Attributes) (effects more : List CommandEffect) :
    replayGlobals globals (effects ++ more) =
      replayGlobals (replayGlobals globals effects) more := by
  simp [replayGlobals, flatMap_append, foldl_append]

/-- A change of the container's contents changes its attributes. -/
theorem sessionGlobals_applyContent {s s' : SessionSnapshot} {u : Undo}
    {change : ElementSnapshot → ElementSnapshot} {old : ElementSnapshot → Undo}
    {f : Attributes → Attributes} (hf : ∀ e, (change e).attributes = f e.attributes)
    (h : s.applyContent (staticId "convars") change old = (s', .ok u)) :
    sessionGlobals s' = f (sessionGlobals s) := by
  obtain ⟨node, hnode, _, rfl⟩ := SessionSnapshot.applyContent_ok h
  have helement : s.element (staticId "convars") = some node.element := by
    unfold SessionSnapshot.element
    rw [hnode]
    rfl
  unfold sessionGlobals
  rw [SessionSnapshot.element_modify, helement]
  simp [hf]

/-- An operation of an effect changes the attributes of the container. -/
theorem sessionGlobals_applyOne {s s' : SessionSnapshot} {u : Undo} {effect : CommandEffect}
    {op : PatchOp} (hop : op ∈ effectOps (staticId "convars") effect)
    (h : s.applyOne op = (s', .ok u)) :
    sessionGlobals s' = opGlobals (sessionGlobals s) op := by
  have hset : ∀ name value, op = .setAttribute (staticId "convars") name value →
      sessionGlobals s' = opGlobals (sessionGlobals s) op := by
    rintro name value rfl
    simp only [SessionSnapshot.applyOne] at h
    exact sessionGlobals_applyContent (f := fun attributes => attributes.insert name value)
      (fun _ => rfl) h
  have hremove : ∀ name, op = .removeAttribute (staticId "convars") name →
      sessionGlobals s' = opGlobals (sessionGlobals s) op := by
    rintro name rfl
    simp only [SessionSnapshot.applyOne] at h
    exact sessionGlobals_applyContent (f := fun attributes => attributes.erase name)
      (fun _ => rfl) h
  cases effect with
  | conVarUpdated name old value flags =>
      simp only [effectOps] at hop
      split at hop
      · exact hset _ _ (mem_singleton.mp hop)
      · cases hop
  | bound key command => exact hset _ _ (mem_singleton.mp hop)
  | aliased key command => exact hset _ _ (mem_singleton.mp hop)
  | unbound key => exact hremove _ (mem_singleton.mp hop)
  | unaliased key => exact hremove _ (mem_singleton.mp hop)
  | _ => cases hop

/-- The operations of effects change the attributes of the container. -/
theorem sessionGlobals_applyOps {s s' : SessionSnapshot} {done : List Undo} {ops : List PatchOp}
    (hops : ∀ op ∈ ops, ∃ effect, op ∈ effectOps (staticId "convars") effect)
    (h : s.applyOps done ops = (s', .ok ())) :
    sessionGlobals s' = ops.foldl opGlobals (sessionGlobals s) := by
  induction ops generalizing s done with
  | nil =>
      cases h
      rfl
  | cons op ops ih =>
      obtain ⟨⟨effect, hop⟩, hrest⟩ := forall_mem_cons.mp hops
      unfold SessionSnapshot.applyOps at h
      split at h
      · next s₁ u happly =>
        rw [ih hrest h, sessionGlobals_applyOne hop happly, foldl_cons]
      · cases h

section Script

variable [SerdeJson]

/-- The patch of a script, if it has one, leads from one document to the other. -/
def Applies (patch : Option Patch) (s s' : SessionSnapshot) : Prop :=
  match patch with
  | none => s' = s
  | some patch => s.applyPatch patch = (s', .ok ())

/-- The attributes of the container after the patch of the effects. -/
theorem Applies.globals {s s' : SessionSnapshot} {effects : List CommandEffect}
    {base result : UInt64} {author : ActorId}
    (h : Applies (commandEffectsToPatch effects base result author (staticId "convars")) s s') :
    sessionGlobals s' = replayGlobals (sessionGlobals s) effects := by
  unfold commandEffectsToPatch at h
  simp only at h
  split at h
  · next hempty =>
    cases h
    simp [replayGlobals, isEmpty_iff.mp hempty]
  · obtain ⟨_, _, s₁, hops, rfl⟩ := SessionSnapshot.applyPatch_ok h
    have hglobals : sessionGlobals s₁ = replayGlobals (sessionGlobals s) effects := by
      refine sessionGlobals_applyOps (fun op hop => ?_) hops
      obtain ⟨effect, _, hop⟩ := mem_flatMap.mp hop
      exact ⟨effect, hop⟩
    exact hglobals

/-! ## The live side and the attributes -/

omit [SerdeJson] in
theorem textAt_insert (globals : Attributes) (name name' : String) (value : TypedValue) :
    textAt (globals.insert name value) name' =
      if name = name' then (match value with | .string text => some text | _ => none)
      else textAt globals name' := by
  unfold textAt
  rw [Std.ExtTreeMap.getElem?_insert]
  by_cases heq : name = name'
  · subst heq
    simp
    cases value <;> rfl
  · simp [heq]

omit [SerdeJson] in
theorem textAt_erase (globals : Attributes) (name name' : String) :
    textAt (globals.erase name) name' = if name = name' then none else textAt globals name' := by
  unfold textAt
  rw [Std.ExtTreeMap.getElem?_erase]
  by_cases heq : name = name'
  · subst heq
    simp
  · simp [heq]

/-- A map holds the texts of the attributes under a prefix. -/
def HoldsTexts (start : String) (globals : Attributes) (m : Std.ExtTreeMap String String) : Prop :=
  ∀ key, m[key]? = textAt globals (start ++ key)

section HoldsTexts

variable {start : String} {globals : Attributes} {m : Std.ExtTreeMap String String}

omit [SerdeJson] in
/-- A text under the prefix is set on both sides. -/
theorem HoldsTexts.insert (h : HoldsTexts start globals m) (key command : String) :
    HoldsTexts start (globals.insert (start ++ key) (.string command)) (m.insert key command) := by
  intro key'
  rw [textAt_insert, Std.ExtTreeMap.getElem?_insert]
  by_cases heq : key = key'
  · simp [heq]
  · have hne : start ++ key ≠ start ++ key' := fun hsame => heq (prefixed_inj hsame)
    rw [if_neg hne, if_neg (by simpa using heq)]
    exact h key'

omit [SerdeJson] in
theorem HoldsTexts.erase (h : HoldsTexts start globals m) (key : String) :
    HoldsTexts start (globals.erase (start ++ key)) (m.erase key) := by
  intro key'
  rw [textAt_erase, Std.ExtTreeMap.getElem?_erase]
  by_cases heq : key = key'
  · simp [heq]
  · have hne : start ++ key ≠ start ++ key' := fun hsame => heq (prefixed_inj hsame)
    rw [if_neg hne, if_neg (by simpa using heq)]
    exact h key'

omit [SerdeJson] in
theorem HoldsTexts.insert_other (h : HoldsTexts start globals m) {name : String}
    (hne : ∀ key, name ≠ start ++ key) (value : TypedValue) :
    HoldsTexts start (globals.insert name value) m := by
  intro key
  rw [textAt_insert, if_neg (hne key)]
  exact h key

omit [SerdeJson] in
theorem HoldsTexts.erase_other (h : HoldsTexts start globals m) {name : String}
    (hne : ∀ key, name ≠ start ++ key) : HoldsTexts start (globals.erase name) m := by
  intro key
  rw [textAt_erase, if_neg (hne key)]
  exact h key

end HoldsTexts

/-- The definitions of the variables by their names. -/
abbrev Definitions (η : Type) := Std.ExtTreeMap String (ConVarDefinition η)

/-- The attributes hold the values of the session variables. -/
def HoldsSession (definitions : Definitions η) (globals : Attributes)
    (values : Std.ExtTreeMap String TypedValue) : Prop :=
  ∀ (name : String) (d : ConVarDefinition η), definitions[name]? = some d →
    d.flags.contains .session = true → values[name]? = some (globals[name]?.getD d.defaultValue)

section HoldsSession

variable {definitions : Definitions η} {globals : Attributes}
  {values : Std.ExtTreeMap String TypedValue}

omit [SerdeJson] in
theorem HoldsSession.insert (h : HoldsSession definitions globals values) (name : String)
    (value : TypedValue) :
    HoldsSession definitions (globals.insert name value) (values.insert name value) := by
  intro key d hd hsession
  rw [Std.ExtTreeMap.getElem?_insert, Std.ExtTreeMap.getElem?_insert]
  by_cases heq : name = key
  · simp [heq]
  · simpa [heq] using h key d hd hsession

omit [SerdeJson] in
/-- A value that is not a session variable's is set. -/
theorem HoldsSession.insert_value (h : HoldsSession definitions globals values) {name : String}
    (hname : ∀ d, definitions[name]? = some d → d.flags.contains .session = false)
    (value : TypedValue) : HoldsSession definitions globals (values.insert name value) := by
  intro key d hd hsession
  have hne : name ≠ key := by
    rintro rfl
    rw [hname d hd] at hsession
    cases hsession
  rw [Std.ExtTreeMap.getElem?_insert, if_neg (by simpa using hne)]
  exact h key d hd hsession

omit [SerdeJson] in
/-- An attribute that is no session variable is set. -/
theorem HoldsSession.insert_other (h : HoldsSession definitions globals values) {name : String}
    (hname : ∀ d, definitions[name]? = some d → d.flags.contains .session = false)
    (value : TypedValue) : HoldsSession definitions (globals.insert name value) values := by
  intro key d hd hsession
  have hne : name ≠ key := by
    rintro rfl
    rw [hname d hd] at hsession
    cases hsession
  rw [Std.ExtTreeMap.getElem?_insert, if_neg (by simpa using hne)]
  exact h key d hd hsession

omit [SerdeJson] in
/-- An attribute that is no session variable is removed. -/
theorem HoldsSession.erase_other (h : HoldsSession definitions globals values) {name : String}
    (hname : ∀ d, definitions[name]? = some d → d.flags.contains .session = false) :
    HoldsSession definitions (globals.erase name) values := by
  intro key d hd hsession
  have hne : name ≠ key := by
    rintro rfl
    rw [hname d hd] at hsession
    cases hsession
  rw [Std.ExtTreeMap.getElem?_erase, if_neg (by simpa using hne)]
  exact h key d hd hsession

end HoldsSession

/-- The session variables keep off the names of binds and aliases, and the cheats flag is one of
them. -/
structure Reserved (definitions : Definitions η) : Prop where
  names : ∀ (name : String) (d : ConVarDefinition η), definitions[name]? = some d →
    d.flags.contains .session = true →
    (∀ key, name ≠ bindPrefix ++ key) ∧ ∀ key, name ≠ aliasPrefix ++ key
  cheats : ∀ d, definitions["sv_cheats"]? = some d → d.flags.contains .session = true

omit [SerdeJson] in
theorem Reserved.bind {definitions : Definitions η} (h : Reserved definitions) (key : String)
    (d : ConVarDefinition η) (hd : definitions[bindPrefix ++ key]? = some d) :
    d.flags.contains .session = false := by
  by_contra hsession
  exact (h.names _ d hd (by simpa using hsession)).1 key rfl

omit [SerdeJson] in
theorem Reserved.alias {definitions : Definitions η} (h : Reserved definitions) (name : String)
    (d : ConVarDefinition η) (hd : definitions[aliasPrefix ++ name]? = some d) :
    d.flags.contains .session = false := by
  by_contra hsession
  exact (h.names _ d hd (by simpa using hsession)).2 name rfl

/-- The attributes hold the session variables, the binds and the aliases of the live side. -/
structure Mirrors (globals : Attributes) (e : CommandEngine) (convars : ConVarStore η) : Prop where
  session : HoldsSession convars.definitions globals convars.values
  binds : HoldsTexts bindPrefix globals e.binds
  aliases : HoldsTexts aliasPrefix globals e.aliases
  cheats : convars.cheatsEnabled = (convars.values["sv_cheats"]?.map cheatsOf).getD false

omit [SerdeJson] in
theorem mirrors_hydrateFromDom (store : ConVarStore η) (e : CommandEngine) (s : SessionSnapshot) :
    Mirrors (sessionGlobals s) (e.hydrateFromDom s) (store.hydrateFromDom s) where
  session _ _ hd hsession := ConVarStore.values_hydrateFromDom s hd hsession
  binds := e.binds_hydrateFromDom s
  aliases := e.aliases_hydrateFromDom s
  cheats := rfl

omit [SerdeJson] in
/-- The flag follows the variable that is set. -/
theorem Mirrors.cheats_write {globals : Attributes} {e : CommandEngine} {convars : ConVarStore η}
    (h : Mirrors globals e convars) (name : String) (value : TypedValue)
    (d : { d : ConVarDefinition η // convars.definitions[name]? = some d }) :
    (convars.write name value d).cheatsEnabled =
      ((convars.write name value d).values["sv_cheats"]?.map cheatsOf).getD false := by
  simp only [ConVarStore.write, Std.ExtTreeMap.getElem?_insert]
  by_cases heq : name = "sv_cheats"
  · simp [heq]
  · simp [heq, h.cheats]

omit [SerdeJson] in
/-- A command and its effects change the live side and the attributes alike. -/
theorem Mirrors.step {globals : Attributes} {e : CommandEngine} {convars : ConVarStore η}
    {step : Executed η} (h : Mirrors globals e convars) (hreserved : Reserved convars.definitions)
    (hstep : Stepped e convars step) :
    Mirrors (replayGlobals globals step.effects) step.engine step.convars ∧
      step.convars.definitions = convars.definitions := by
  refine ⟨?_, by cases hstep <;> rfl⟩
  cases hstep with
  | update name old value d =>
      have hcheats := h.cheats_write name value d
      by_cases hsession : d.val.flags.contains .session = true
      · have hglobals : replayGlobals globals [.conVarUpdated name old value d.val.flags] =
            globals.insert name value := by
          simp [replayGlobals, effectOps, hsession, opGlobals]
        obtain ⟨hbind, halias⟩ := hreserved.names name d.val d.property hsession
        rw [hglobals]
        exact ⟨h.session.insert name value, h.binds.insert_other hbind value,
          h.aliases.insert_other halias value, hcheats⟩
      · have hglobals : replayGlobals globals [.conVarUpdated name old value d.val.flags] =
            globals := by
          simp [replayGlobals, effectOps, hsession]
        rw [hglobals]
        refine ⟨h.session.insert_value (fun d' hd' => ?_) value, h.binds, h.aliases, hcheats⟩
        have hsame : d.val = d' := Option.some.inj (d.property.symm.trans hd')
        rw [← hsame]
        simpa using hsession
  | bind key command =>
      exact ⟨h.session.insert_other (hreserved.bind key) _, h.binds.insert key command,
        h.aliases.insert_other (bindName_ne_aliasName key) _, h.cheats⟩
  | unbind key =>
      exact ⟨h.session.erase_other (hreserved.bind key), h.binds.erase key,
        h.aliases.erase_other (bindName_ne_aliasName key), h.cheats⟩
  | «alias» name command =>
      exact ⟨h.session.insert_other (hreserved.alias name) _,
        h.binds.insert_other (fun key => (bindName_ne_aliasName key name).symm) _,
        h.aliases.insert name command, h.cheats⟩
  | unalias name =>
      exact ⟨h.session.erase_other (hreserved.alias name),
        h.binds.erase_other (fun key => (bindName_ne_aliasName key name).symm),
        h.aliases.erase name, h.cheats⟩
  | quiet effect hquiet =>
      have hglobals : replayGlobals globals [effect] = globals := by
        simp [replayGlobals, hquiet]
      rw [hglobals]
      exact h

/-! ## A whole script -/

/-- What every part of a script keeps: the limits, the definitions and the mirror. -/
structure Replays (limits : ExpansionLimits) (definitions : Definitions η) (globals : Attributes)
    (run : Run η κ) : Prop where
  fixed : run.engine.limits = limits
  definitions : run.convars.definitions = definitions
  mirrors : Mirrors (replayGlobals globals run.effects) run.engine run.convars

/-- Every part of a script keeps the mirror. -/
theorem replays_rule [Text.Unicode] (limits : ExpansionLimits) {definitions : Definitions η}
    (hreserved : Reserved definitions) (globals : Attributes) :
    RunRule (η := η) (κ := κ) limits (fun _ => Replays limits definitions globals)
      (fun _ => True) where
  fixed _ _ h := h.fixed
  stops _ _ _ := trivial
  expands _ _ _ _ _ _ _ _ h _ := ⟨h.fixed, h.definitions, h.mirrors⟩
  fails _ _ _ _ _ _ _ _ _ := trivial
  steps _ run command step h hstep := by
    have hstepped := executeOne_stepped hstep
    obtain ⟨hmirrors, hdefinitions⟩ := h.mirrors.step (h.definitions ▸ hreserved) hstepped
    have hfixed : step.engine.limits = run.engine.limits := by cases hstepped <;> rfl
    refine ⟨hfixed.trans h.fixed, hdefinitions.trans h.definitions, ?_⟩
    show Mirrors (replayGlobals globals (run.effects ++ step.effects)) _ _
    rw [replayGlobals_append]
    exact hmirrors
  counts _ _ h := ⟨h.fixed, h.definitions, h.mirrors⟩
  loads _ _ _ h := ⟨h.fixed, h.definitions, h.mirrors⟩
  enters _ _ _ h _ := ⟨h.fixed, h.definitions, h.mirrors⟩
  emits _ run path h := by
    refine ⟨h.fixed, h.definitions, ?_⟩
    show Mirrors (replayGlobals globals (run.effects ++ [.execRequested path])) _ _
    rw [replayGlobals_append]
    exact h.mirrors

/-- A store that has been hydrated from a document, in a transaction or not. -/
def Hydrated (store : ConVarStore η) (s : SessionSnapshot) (live : ConVarStore η) : Prop :=
  live = store.hydrateFromDom s ∨ live = (store.hydrateFromDom s).beginTransaction

/-- Whatever a script does to the hydrated engine and store, a second store with the same
definitions and a second engine get it back from the document that the patch of the script's
effects gives. -/
def EffectsReplay [Text.Unicode] (store : ConVarStore η) (s : SessionSnapshot) : Prop :=
  ∀ (κ : Type) (load : Loader κ) (loader : κ) (e : CommandEngine) (live : ConVarStore η)
    (fuel : Nat) (script : String) (effects : List CommandEffect) (run : Run η κ)
    (base result : UInt64) (author : ActorId) (s' : SessionSnapshot),
    Hydrated store s live →
    executeLoaded fuel load (e.hydrateFromDom s) live loader script = some (.ok effects, run) →
    Applies (commandEffectsToPatch effects base result author (staticId "convars")) s s' →
    ∀ (fresh : ConVarStore η) (e' : CommandEngine), fresh.definitions = store.definitions →
      (∀ (name : String) (d : ConVarDefinition η), store.definitions[name]? = some d →
        d.flags.contains .session = true →
        (fresh.hydrateFromDom s').get name = run.convars.get name) ∧
      (fresh.hydrateFromDom s').cheatsEnabled = run.convars.cheatsEnabled ∧
      (e'.hydrateFromDom s').binds = run.engine.binds ∧
      (e'.hydrateFromDom s').aliases = run.engine.aliases

omit [SerdeJson] in
/-- Two sides that mirror the same attributes agree. -/
theorem Mirrors.agree {globals : Attributes} {e e' : CommandEngine} {convars fresh : ConVarStore η}
    (h : Mirrors globals e convars) (h' : Mirrors globals e' fresh)
    (hdefinitions : fresh.definitions = convars.definitions)
    (hreserved : Reserved convars.definitions) :
    (∀ (name : String) (d : ConVarDefinition η), convars.definitions[name]? = some d →
      d.flags.contains .session = true → fresh.get name = convars.get name) ∧
    fresh.cheatsEnabled = convars.cheatsEnabled ∧ e'.binds = e.binds ∧
    e'.aliases = e.aliases := by
  have hsession : ∀ (name : String) (d : ConVarDefinition η),
      convars.definitions[name]? = some d → d.flags.contains .session = true →
      fresh.values[name]? = convars.values[name]? := by
    intro name d hd hflag
    rw [h.session name d hd hflag, h'.session name d (hdefinitions ▸ hd) hflag]
  refine ⟨hsession, ?_, ?_, ?_⟩
  · have hcheats : fresh.values["sv_cheats"]? = convars.values["sv_cheats"]? := by
      cases hd : convars.definitions["sv_cheats"]? with
      | some d => exact hsession "sv_cheats" d hd (hreserved.cheats d hd)
      | none =>
        rw [ConVarStore.values_undeclared hd,
          ConVarStore.values_undeclared (hdefinitions ▸ hd)]
    rw [h.cheats, h'.cheats, hcheats]
  · exact Std.ExtTreeMap.ext_getElem? fun key => (h'.binds key).trans (h.binds key).symm
  · exact Std.ExtTreeMap.ext_getElem? fun key => (h'.aliases key).trans (h.aliases key).symm

/-- With reserved names every script replays. -/
theorem effectsReplay_of_reserved [Text.Unicode] (store : ConVarStore η) (s : SessionSnapshot)
    (hreserved : Reserved store.definitions) : EffectsReplay store s := by
  intro κ load loader e live fuel script effects run base result author s' hlive hrun happlies
    fresh e' hfresh
  have hmirrors : Mirrors (sessionGlobals s) (e.hydrateFromDom s) live ∧
      live.definitions = store.definitions := by
    have hhydrated := mirrors_hydrateFromDom store e s
    rcases hlive with rfl | rfl
    · exact ⟨hhydrated, rfl⟩
    · exact ⟨⟨hhydrated.session, hhydrated.binds, hhydrated.aliases, hhydrated.cheats⟩, rfl⟩
  have hstart : Replays (e.hydrateFromDom s).limits store.definitions (sessionGlobals s)
      (startRun (e.hydrateFromDom s) live loader) := by
    unfold startRun
    split
    · exact ⟨rfl, hmirrors.2, hmirrors.1⟩
    · obtain ⟨h, hdefinitions⟩ := hmirrors
      exact ⟨rfl, hdefinitions, h.session, h.binds, h.aliases, h.cheats⟩
  have hsound := executeStream_sound (replays_rule _ hreserved (sessionGlobals s)) load fuel script
    0 _ 0 (Nat.zero_le _) hstart
  unfold executeLoaded at hrun
  split at hrun
  · cases hrun
  · cases hrun
  · next final hstream =>
      rw [hstream] at hsound
      obtain ⟨_, hdefinitions, hfinal⟩ := hsound
      have hresult : effects = final.effects ∧ run.engine = final.engine ∧
          run.convars.definitions = final.convars.definitions ∧
          run.convars.values = final.convars.values ∧
          run.convars.cheatsEnabled = final.convars.cheatsEnabled := by
        split at hrun <;> cases hrun <;> exact ⟨rfl, rfl, rfl, rfl, rfl⟩
      obtain ⟨rfl, hengine, hsame, hvalues, hcheats⟩ := hresult
      have hglobals := Applies.globals happlies
      have hagain := mirrors_hydrateFromDom fresh e' s'
      rw [hglobals] at hagain
      have hagree := hfinal.agree hagain (hfresh.trans hdefinitions.symm)
        (hdefinitions ▸ hreserved)
      rw [hdefinitions] at hagree
      unfold ConVarStore.get at hagree ⊢
      rw [hengine, hvalues, hcheats]
      exact hagree

/-! ## The variables of the program -/

omit [SerdeJson] in
/-- A declared variable is one of the declarations, under its own name. -/
theorem ConVarStore.definitions_declare {definitions : List (ConVarDefinition η)} {name : String}
    {d : ConVarDefinition η} (h : (declare definitions).definitions[name]? = some d) :
    d ∈ definitions ∧ d.name = name := by
  have hfold : ∀ store : ConVarStore η,
      (definitions.foldl registerDef store).definitions[name]? = some d →
      (d ∈ definitions ∧ d.name = name) ∨ store.definitions[name]? = some d := by
    clear h
    induction definitions with
    | nil => exact fun store h => .inr h
    | cons first rest ih =>
      intro store h
      rcases ih _ h with ⟨hmem, hname⟩ | hbefore
      · exact .inl ⟨mem_cons_of_mem _ hmem, hname⟩
      · have hinsert : (store.definitions.insert first.name first)[name]? = some d := hbefore
        rw [Std.ExtTreeMap.getElem?_insert] at hinsert
        split at hinsert
        · next heq =>
          cases hinsert
          exact .inl ⟨mem_cons_self, by simpa using heq⟩
        · exact .inr hinsert
  rcases hfold new h with hmem | hnew
  · exact hmem
  · simp [new] at hnew

/-- The built-in variables keep off the names of binds and aliases. -/
theorem reserved_builtinConvars :
    Reserved (ConVarStore.declare (builtinConvars (η := η))).definitions where
  names name d hd _ := by
    obtain ⟨hmem, rfl⟩ := ConVarStore.definitions_declare hd
    have hcolon := name_builtinConvars d hmem
    constructor
    · intro key heq
      rw [heq, String.toList_append] at hcolon
      exact hcolon (mem_append_left _ (by decide))
    · intro key heq
      rw [heq, String.toList_append] at hcolon
      exact hcolon (mem_append_left _ (by decide))
  cheats d hd := session_builtinConvars d (ConVarStore.definitions_declare hd).1

end Script

open scoped Compact Text in
/-- Every script replays on the built-in variables. -/
theorem effectsReplay_builtinConvars :
    EffectsReplay (η := Unit) (.declare builtinConvars) (.empty ⟨"session", Eq.refl true⟩) :=
  effectsReplay_of_reserved _ _ reserved_builtinConvars

/-- A cheats flag that is not journaled. -/
def unjournaledCheats : ConVarStore Unit :=
  .declare [convar "sv_cheats" (.bool false) "" .notify parseBool none]

/-- A host without scripts to load. -/
def noLoader : Loader Unit := fun loader _ => (.error (.parse "no loader"), loader)

section Unjournaled

open scoped Compact Text

/-- An empty session. -/
def blankSession : SessionSnapshot := .empty ⟨"session", Eq.refl true⟩

/-- A script that sets the flag and a bind. -/
def cheatsScript : Option (Except CommandError (List CommandEffect) × Run Unit Unit) :=
  executeLoaded 18 noLoader (CommandEngine.hydrateFromDom (.withLimits .standard) blankSession)
    (unjournaledCheats.hydrateFromDom blankSession) () "sv_cheats 1; bind k x"

/-- The document after the patch of the script, which only holds the bind. -/
def afterCheats : Option (SessionSnapshot × Except StateError Unit) := do
  let (result, _) ← cheatsScript
  let patch ← commandEffectsToPatch (result.toOption.getD []) 0 1 ⟨"actor", Eq.refl true⟩
    (staticId "convars")
  return blankSession.applyPatch patch

/-- The flag is set on the live side and lost in the document. -/
theorem not_effectsReplay_unjournaledCheats :
    ¬ EffectsReplay unjournaledCheats blankSession := by
  intro h
  have hcheck : (cheatsScript.any fun r => r.1.isOk && r.2.convars.cheatsEnabled) = true ∧
      (afterCheats.any fun r => r.2.isOk &&
        !(unjournaledCheats.hydrateFromDom r.1).cheatsEnabled) = true := by
    decide +kernel
  obtain ⟨hlive, hafter⟩ := hcheck
  cases hrun : cheatsScript with
  | none => simp [hrun] at hlive
  | some final =>
      obtain ⟨result, run⟩ := final
      cases result with
      | error e => simp [hrun, Except.isOk, Except.toBool] at hlive
      | ok effects =>
        cases hpatch : commandEffectsToPatch effects 0 1 ⟨"actor", Eq.refl true⟩
            (staticId "convars") with
        | none => simp [afterCheats, hrun, Except.toOption, hpatch] at hafter
        | some patch =>
          have heq : afterCheats = some (blankSession.applyPatch patch) := by
            simp [afterCheats, hrun, Except.toOption, hpatch]
          cases happly : blankSession.applyPatch patch with
          | mk s' applied =>
            rw [heq, happly] at hafter
            cases applied with
            | error e => simp [Except.isOk, Except.toBool] at hafter
            | ok u =>
              have happlies : Applies (commandEffectsToPatch effects 0 1
                  ⟨"actor", Eq.refl true⟩ (staticId "convars")) blankSession s' := by
                rw [hpatch]
                exact happly
              have hreplay := (h Unit noLoader () (.withLimits .standard) _ 18 _ effects
                run 0 1 _ s' (.inl rfl) hrun happlies unjournaledCheats
                (.withLimits .standard) rfl).2.1
              rw [hrun] at hlive
              simp [Except.isOk, Except.toBool] at hlive hafter
              rw [hlive, hafter] at hreplay
              cases hreplay

end Unjournaled

end Omp2.Control
