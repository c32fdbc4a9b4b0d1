import Mathlib.Data.List.TakeWhile
import Omp2.Library.Python
import Omp2.Python.Remote

/-!
# Imports that the host overlooks

The host reads imports off single lines, and Python reads them off statements. A source is safe with
the host exactly when it is refused anyway, or every prohibited module that a statement imports is
also shown by a line. The list of the client only adds to what is checked.
-/

namespace Omp2.Remote

open Omp2.Text Omp2.Python List

variable {spec : RemoteFunctionSpec} {source : String} {base line : List Char}

/-! ## The checks that pass -/

/-- An import is allowed. -/
def Allowed (spec : RemoteFunctionSpec) (base : String) : Prop :=
  base ∈ prohibitedModules → "import_" ++ base ∈ spec.declaredCapabilities ∨
    "system_all" ∈ spec.declaredCapabilities

theorem overrides_iff (base : String) : overrides spec base = true ↔
    "import_" ++ base ∈ spec.declaredCapabilities ∨ "system_all" ∈ spec.declaredCapabilities := by
  unfold overrides
  simp only [any_eq_true, Bool.or_eq_true, decide_eq_true_eq]
  constructor
  · rintro ⟨c, hc, rfl | rfl⟩
    · exact .inl hc
    · exact .inr hc
  · rintro (hc | hc)
    · exact ⟨_, hc, .inl rfl⟩
    · exact ⟨_, hc, .inr rfl⟩

theorem checkImports_ok_iff (names : List String) :
    checkImports spec names = .ok () ↔ ∀ name ∈ names, Allowed spec (baseModule name) := by
  induction names with
  | nil => exact ⟨fun _ name hname => absurd hname not_mem_nil, fun _ => rfl⟩
  | cons name names ih =>
      unfold checkImports
      rw [forall_mem_cons, ← ih]
      have hallowed : Allowed spec (baseModule name) ↔
          ¬ (baseModule name ∈ prohibitedModules ∧ ¬ overrides spec (baseModule name)) := by
        unfold Allowed
        rw [not_and, not_not, overrides_iff]
      rw [hallowed]
      split
      · next hbad => exact ⟨nofun, fun hgood => absurd hbad hgood.1⟩
      · next hgood => exact ⟨fun h => ⟨hgood, h⟩, fun h => h.2⟩

theorem checkConstructs_ok_iff (constructs : List String) :
    checkConstructs spec constructs = .ok () ↔
      ∀ construct ∈ constructs, containsText spec.sourceCode construct = false := by
  induction constructs with
  | nil => exact ⟨fun _ construct hconstruct => absurd hconstruct not_mem_nil, fun _ => rfl⟩
  | cons construct constructs ih =>
      unfold checkConstructs
      rw [forall_mem_cons, ← ih]
      split
      · next hbad => exact ⟨nofun, fun hgood => by rw [hgood.1] at hbad; cases hbad⟩
      · next hgood => exact ⟨fun h => ⟨Bool.eq_false_iff.mpr hgood, h⟩, fun h => h.2⟩

/-- The checks besides the one of the imports. -/
structure OtherwiseValid (spec : RemoteFunctionSpec) : Prop where
  hash : (trim spec.sourceHash).isEmpty = true ∨ sha256Hex spec.sourceCode = spec.sourceHash
  payload : spec.maxPayloadBytes ≠ 0 ∧ spec.maxPayloadBytes ≤ defaultMaxPayloadBytes
  timeout : spec.timeoutMs ≠ 0 ∧ spec.timeoutMs ≤ maxRemoteTimeoutMs
  nonempty : (trim spec.sourceCode).isEmpty = false
  size : spec.sourceCode.utf8ByteSize ≤ spec.maxPayloadBytes.toNat
  constructs : ∀ construct ∈ forbiddenConstructs, containsText spec.sourceCode construct = false
  files : needsFiles spec.sourceCode = true →
    ∃ c ∈ spec.declaredCapabilities, c ∈ ["fs_read", "fs_write", "fs_all"]
  network : needsNetwork spec.sourceCode = true →
    ∃ c ∈ spec.declaredCapabilities, c ∈ ["net", "net_all"]

theorem ite_ok_iff {p : Prop} [Decidable p] {e : PythonExtensionError}
    {rest : Except PythonExtensionError Unit} :
    (if p then .error e else rest) = .ok () ↔ ¬ p ∧ rest = .ok () := by
  split
  · next h => exact ⟨nofun, fun hgood => absurd h hgood.1⟩
  · next h => exact ⟨fun hrest => ⟨h, hrest⟩, fun hgood => hgood.2⟩

theorem checkCapabilities_ok_iff : checkCapabilities spec = .ok () ↔
    (needsFiles spec.sourceCode = true →
      ∃ c ∈ spec.declaredCapabilities, c ∈ ["fs_read", "fs_write", "fs_all"]) ∧
    (needsNetwork spec.sourceCode = true →
      ∃ c ∈ spec.declaredCapabilities, c ∈ ["net", "net_all"]) := by
  unfold checkCapabilities
  rw [ite_ok_iff, ite_ok_iff, not_and_not_right, not_and_not_right, eq_self_iff_true, and_true]

/-- A specification is accepted exactly when its imports are allowed and the other checks pass. -/
theorem validate_ok_iff : validate spec = .ok () ↔ OtherwiseValid spec ∧
    ∀ name ∈ extractSourceImports spec.sourceCode ++ spec.imports,
      Allowed spec (baseModule name) := by
  have hrest : checkSource spec = .ok () ↔
      checkImports spec (extractSourceImports spec.sourceCode ++ spec.imports) = .ok () ∧
        checkConstructs spec forbiddenConstructs = .ok () ∧ checkCapabilities spec = .ok () := by
    unfold checkSource
    cases checkImports spec (extractSourceImports spec.sourceCode ++ spec.imports) with
    | error e => exact ⟨nofun, nofun⟩
    | ok _ =>
      cases checkConstructs spec forbiddenConstructs with
      | error e => exact ⟨nofun, nofun⟩
      | ok _ => exact ⟨fun h => ⟨rfl, rfl, h⟩, fun h => h.2.2⟩
  rw [← checkImports_ok_iff]
  unfold validate
  rw [ite_ok_iff, ite_ok_iff, ite_ok_iff, ite_ok_iff, ite_ok_iff, hrest, checkConstructs_ok_iff,
    checkCapabilities_ok_iff, not_and_not_right, not_or, not_or, UInt64.not_lt, UInt64.not_lt,
    Nat.not_lt, Bool.not_eq_true]
  constructor
  · rintro ⟨hhash, hpayload, htimeout, hnonempty, hsize, himports, hconstructs, hfiles, hnetwork⟩
    refine ⟨⟨?_, hpayload, htimeout, hnonempty, hsize, hconstructs, hfiles, hnetwork⟩, himports⟩
    cases hempty : (trim spec.sourceHash).isEmpty with
    | true => exact .inl rfl
    | false => exact .inr (hhash hempty)
  · rintro ⟨⟨hhash, hpayload, htimeout, hnonempty, hsize, hconstructs, hfiles, hnetwork⟩, himports⟩
    refine ⟨fun hempty => hhash.resolve_left ?_, hpayload, htimeout, hnonempty, hsize, himports,
      hconstructs, hfiles, hnetwork⟩
    rw [hempty]
    exact Bool.false_ne_true

/-- What the client lists as imports only adds to what is checked. -/
theorem validate_of_more {imports : List String} (hmore : ∀ name ∈ spec.imports, name ∈ imports)
    (h : validate { spec with imports } = .ok ()) : validate spec = .ok () := by
  obtain ⟨hvalid, hallowed⟩ := validate_ok_iff.mp h
  refine validate_ok_iff.mpr ⟨⟨hvalid.hash, hvalid.payload, hvalid.timeout, hvalid.nonempty,
    hvalid.size, hvalid.constructs, hvalid.files, hvalid.network⟩, fun name hname => ?_⟩
  refine hallowed name ?_
  rcases mem_append.mp hname with hsource | hlisted
  · exact mem_append_left _ hsource
  · exact mem_append_right _ (hmore name hlisted)

/-! ## What a line shows -/

theorem stripStart_eq_some_iff {start cs rest : List Char} :
    stripStart start cs = some rest ↔ cs = start ++ rest := by
  unfold stripStart
  split
  · next h =>
    have happend := prefix_iff_eq_append.mp (List.isPrefixOf_iff_prefix.mp h)
    rw [Option.some_inj]
    constructor
    · rintro rfl
      exact happend.symm
    · rintro rfl
      exact drop_left
  · next h =>
    refine ⟨nofun, fun heq => absurd (List.isPrefixOf_iff_prefix.mpr ?_) h⟩
    rw [heq]
    exact prefix_append start rest

/-- The rest of a module path behind its first name. -/
def IsTail (tail : List Char) : Prop :=
  tail = [] ∨ tail.head? = some '.'

/-- A line, cut at its first number sign and trimmed, imports a module by itself: it begins with
`import `, and the first word of a part between commas is a path of the module up to brackets and
semicolons around it, or a path of the module stands between `from ` and the first ` import `. -/
inductive Shows (base line : List Char) : Prop where
  | plain (rest part tail : List Char) : bareLine line = "import ".toList ++ rest →
      part ∈ rest.splitOn ',' → trimMatches ((wordsFrom [] part).headD []) = base ++ tail →
      IsTail tail → Shows base line
  | member (rest module names tail : List Char) : bareLine line = "from ".toList ++ rest →
      splitOnce " import ".toList rest = some (module, names) →
      trimChars module = base ++ tail → IsTail tail → Shows base line

/-- The first name of a path. -/
theorem takeWhile_eq_iff {name : List Char} (hbase : '.' ∉ base) :
    name.takeWhile (· ≠ '.') = base ↔ ∃ tail, name = base ++ tail ∧ IsTail tail := by
  constructor
  · rintro rfl
    refine ⟨name.dropWhile (· ≠ '.'), takeWhile_append_dropWhile.symm, ?_⟩
    unfold IsTail
    cases hrest : name.dropWhile (· ≠ '.') with
    | nil => exact .inl rfl
    | cons c cs =>
      have hhead := head?_dropWhile_not (fun c => decide (c ≠ '.')) name
      rw [hrest] at hhead
      exact .inr (congrArg some (not_not.mp (of_decide_eq_false hhead)))
  · rintro ⟨tail, rfl, htail⟩
    have hkept : base.takeWhile (· ≠ '.') = base := by
      refine takeWhile_eq_self_iff.mpr fun c hc => ?_
      exact decide_eq_true fun heq => hbase (heq ▸ hc)
    rw [takeWhile_append_of_pos (fun c hc => ?_)]
    · rcases htail with rfl | hhead
      · rw [takeWhile_nil, append_nil]
      · cases tail with
        | nil => cases hhead
        | cons c cs =>
          obtain rfl : c = '.' := Option.some.inj hhead
          rw [takeWhile_cons_of_neg (by decide), append_nil]
    · exact decide_eq_true fun heq => hbase (heq ▸ hc)

/-- A line shows a module exactly when the scanner reads an import of it off the line. -/
theorem shows_iff (hbase : '.' ∉ base) (hne : base ≠ []) :
    Shows base line ↔ ∃ name ∈ lineImports line, name.takeWhile (· ≠ '.') = base := by
  have hnonempty : ∀ {tail : List Char}, base ++ tail ≠ [] :=
    fun hnil => hne (append_eq_nil_iff.mp hnil).1
  constructor
  · intro h
    cases h with
    | plain rest part tail hline hpart hname htail =>
      refine ⟨base ++ tail, ?_, (takeWhile_eq_iff hbase).mpr ⟨tail, rfl, htail⟩⟩
      unfold lineImports
      rw [stripStart_eq_some_iff.mpr hline]
      refine mem_filterMap.mpr ⟨part, hpart, ?_⟩
      dsimp only
      rw [hname, if_neg fun hempty => hnonempty (isEmpty_iff.mp hempty)]
    | member rest module names tail hline hsplit hname htail =>
      refine ⟨base ++ tail, ?_, (takeWhile_eq_iff hbase).mpr ⟨tail, rfl, htail⟩⟩
      have hother : stripStart "import ".toList (bareLine line) = none := by
        rw [hline]
        rfl
      have habsolute : ¬ ((base ++ tail).isEmpty || (base ++ tail).head? = some '.') = true := by
        cases base with
        | nil => exact absurd rfl hne
        | cons c cs =>
          have hc : c ≠ '.' := fun heq => hbase (heq ▸ mem_cons_self)
          simpa using hc
      unfold lineImports
      rw [hother, stripStart_eq_some_iff.mpr hline]
      dsimp only [Option.bind_some]
      rw [hsplit]
      dsimp only
      rw [hname, if_neg habsolute]
      exact mem_singleton_self _
  · rintro ⟨name, hmem, hname⟩
    obtain ⟨tail, htext, htail⟩ := (takeWhile_eq_iff hbase).mp hname
    unfold lineImports at hmem
    split at hmem
    · next rest hrest =>
      obtain ⟨part, hpart, hread⟩ := mem_filterMap.mp hmem
      dsimp only at hread
      split at hread
      · cases hread
      · exact .plain rest part tail (stripStart_eq_some_iff.mp hrest) hpart
          ((Option.some.inj hread).trans htext) htail
    · split at hmem
      · next module names hsplit =>
        obtain ⟨rest, hrest, hsplit⟩ := Option.bind_eq_some_iff.mp hsplit
        dsimp only at hmem
        split at hmem
        · cases hmem
        · obtain rfl := mem_singleton.mp hmem
          have hline := stripStart_eq_some_iff.mp hrest
          exact .member rest module names tail hline hsplit htext htail
      · cases hmem

theorem mem_extractSourceImports {name : String} : name ∈ extractSourceImports source ↔
    ∃ line ∈ linesFrom [] source.toList, ∃ text ∈ lineImports line, String.ofList text = name := by
  unfold extractSourceImports
  rw [Std.ExtTreeSet.mem_toList, Std.ExtTreeSet.mem_ofList, contains_iff_mem,
    mem_flatMap]
  simp only [mem_map]

/-! ## Sources that fail closed -/

/-- No specification of the source is accepted. -/
def Refused (source : String) : Prop :=
  (trim source).isEmpty = true ∨ defaultMaxPayloadBytes.toNat < source.utf8ByteSize ∨
    ∃ construct ∈ forbiddenConstructs, containsText source construct = true

section Statements

variable [Identifiers]

/-- Whoever declares what: if the source is accepted, every module that it imports is allowed, and
what the client lists only adds to what is checked. -/
def FailsClosed (source : String) : Prop :=
  (∀ spec : RemoteFunctionSpec, spec.sourceCode = source → validate spec = .ok () →
    ∀ base ∈ importedModules source.toList, Allowed spec (String.ofList base)) ∧
  ∀ (spec : RemoteFunctionSpec) (imports : List String), spec.sourceCode = source →
    (∀ name ∈ spec.imports, name ∈ imports) → validate { spec with imports } = .ok () →
    validate spec = .ok ()

/-- Every prohibited module that a statement imports is shown by a line. -/
def AllShown (source : String) : Prop :=
  ∀ base ∈ importedModules source.toList, String.ofList base ∈ prohibitedModules →
    ∃ line ∈ linesFrom [] source.toList, Shows base line

omit [Identifiers] in
theorem not_refused_of_valid (h : OtherwiseValid spec) : ¬ Refused spec.sourceCode := by
  rintro (hblank | hlong | ⟨construct, hmem, hfound⟩)
  · rw [h.nonempty] at hblank
    cases hblank
  · have hsize := h.size
    have hpayload := UInt64.le_iff_toNat_le.mp h.payload.2
    omega
  · rw [h.constructs construct hmem] at hfound
    cases hfound

omit [Identifiers] in
theorem plain_of_prohibited (h : String.ofList base ∈ prohibitedModules) :
    '.' ∉ base ∧ base ≠ [] := by
  have hall : ∀ name ∈ prohibitedModules, '.' ∉ name.toList ∧ name.toList ≠ [] := by decide
  have hbase := hall _ h
  rwa [String.toList_ofList] at hbase

/-- A specification that declares everything but one module. -/
def exposing (source base : String) : RemoteFunctionSpec where
  name := "f"
  sourceCode := source
  sourceHash := ""
  declaredCapabilities := ["fs_all", "net_all"] ++
    (prohibitedModules.filter (· ≠ base)).map ("import_" ++ ·)
  imports := []
  maxPayloadBytes := defaultMaxPayloadBytes
  timeoutMs := 30000

omit [Identifiers] in
theorem exposing_valid {base : String} (h : ¬ Refused source) :
    OtherwiseValid (exposing source base) := by
  unfold Refused at h
  push Not at h
  obtain ⟨hnonempty, hsize, hconstructs⟩ := h
  have hpayload : defaultMaxPayloadBytes ≠ 0 := by decide
  have htimeout : (30000 : UInt64) ≠ 0 ∧ (30000 : UInt64) ≤ maxRemoteTimeoutMs := by decide
  have hhash : (trim "").isEmpty = true := by decide
  refine ⟨.inl hhash, ⟨hpayload, UInt64.le_refl _⟩, htimeout,
    Bool.eq_false_iff.mpr hnonempty, hsize, fun construct hmem =>
      Bool.eq_false_iff.mpr (hconstructs construct hmem), fun _ => ⟨"fs_all", ?_, by decide⟩,
    fun _ => ⟨"net_all", ?_, by decide⟩⟩
  · exact mem_append_left _ mem_cons_self
  · exact mem_append_left _ (mem_cons_of_mem _ mem_cons_self)

omit [Identifiers] in
/-- It allows every other module, and not this one. -/
theorem exposing_allowed {base : String} (hbase : base ∈ prohibitedModules) (other : String) :
    Allowed (exposing source base) other ↔ other ≠ base := by
  constructor
  · rintro hallowed rfl
    have hno : ∀ name ∈ prohibitedModules,
        "import_" ++ name ∉ (exposing "" name).declaredCapabilities ∧
          "system_all" ∉ (exposing "" name).declaredCapabilities := by decide
    rcases hallowed hbase with hdeclared | hsystem
    · exact (hno other hbase).1 hdeclared
    · exact (hno other hbase).2 hsystem
  · intro hne hprohibited
    refine .inl (mem_append_right _ (mem_map_of_mem ?_))
    exact mem_filter.mpr ⟨hprohibited, decide_eq_true hne⟩

/-- A source fails closed exactly when no specification of it is accepted, or its lines show every
prohibited module that its statements import. -/
theorem failsClosed_iff (source : String) :
    FailsClosed source ↔ Refused source ∨ AllShown source := by
  constructor
  · rintro ⟨hsafe, _⟩
    refine or_iff_not_imp_left.mpr fun haccepted base hbase hprohibited => ?_
    by_contra hhidden
    obtain ⟨hpoint, hne⟩ := plain_of_prohibited hprohibited
    have hvalid : validate (exposing source (String.ofList base)) = .ok () := by
      refine validate_ok_iff.mpr ⟨exposing_valid haccepted, fun name hname => ?_⟩
      refine (exposing_allowed hprohibited _).mpr fun heq => hhidden ?_
      rcases mem_append.mp hname with hsource | hlisted
      · obtain ⟨line, hline, text, htext, rfl⟩ := mem_extractSourceImports.mp hsource
        unfold baseModule at heq
        rw [String.toList_ofList] at heq
        exact ⟨line, hline, (shows_iff hpoint hne).mpr ⟨text, htext, String.ofList_injective heq⟩⟩
      · cases hlisted
    exact (exposing_allowed hprohibited _).mp (hsafe _ rfl hvalid base hbase) rfl
  · intro h
    refine ⟨?_, fun spec imports _ hmore hvalid => validate_of_more hmore hvalid⟩
    rintro spec rfl hvalid base hbase hprohibited
    obtain ⟨hother, hallowed⟩ := validate_ok_iff.mp hvalid
    obtain ⟨hpoint, hne⟩ := plain_of_prohibited hprohibited
    have hshown := h.resolve_left (not_refused_of_valid hother)
    obtain ⟨line, hline, hshows⟩ := hshown base hbase hprohibited
    obtain ⟨text, htext, rfl⟩ := (shows_iff hpoint hne).mp hshows
    have hname := hallowed (String.ofList text) (mem_append_left _
      (mem_extractSourceImports.mpr ⟨line, hline, text, htext, rfl⟩))
    unfold baseModule at hname
    rw [String.toList_ofList] at hname
    exact hname hprohibited

end Statements

/-- An import behind a semicolon is accepted. -/
theorem not_failsClosed_semicolon : ¬ ∀ source : String, FailsClosed source := by
  intro h
  have hvalid : validate {
      name := "f"
      sourceCode := "x = 1; import os"
      sourceHash := ""
      declaredCapabilities := []
      imports := []
      maxPayloadBytes := defaultMaxPayloadBytes
      timeoutMs := 30000 } = .ok () := by
    decide +kernel
  have himported : ['o', 's'] ∈ importedModules "x = 1; import os".toList := by
    decide +kernel
  rcases (h "x = 1; import os").1 _ rfl hvalid _ himported (by decide) with hno | hno
  · cases hno
  · cases hno

end Omp2.Remote
