import Mathlib.Data.List.Nodup
import Mathlib.Data.List.Pairwise
import Omp2.Inference.Compat

/-!
# When rules do not depend on their order

Two rules of one precedence that define a capability differently are refused when their criteria
overlap. The check passes over rules under one identifier, and over revision patterns that
`overlaps` takes for disjoint, which it may do wrongly for ranges. Where these have no revision in
common, the resolved capabilities do not depend on the order of the rules.
-/

namespace Omp2.Inference

open List

/-! ## The check of `add_rule` -/

/-- Two rules define some capability differently. -/
def Conflict (r r' : CompatRule) : Prop :=
  ∃ cap v v', r.capabilities.get cap = some v ∧ r'.capabilities.get cap = some v' ∧ v ≠ v'

/-- Two rules have the same specificity and priority. -/
def SameRank (r r' : CompatRule) : Prop :=
  r.specificityLevel = r'.specificityLevel ∧ r.priority = r'.priority

theorem Conflict.symm {r r' : CompatRule} (h : Conflict r r') : Conflict r' r := by
  obtain ⟨cap, v, v', hv, hv', hne⟩ := h
  exact ⟨cap, v', v, hv', hv, hne.symm⟩

theorem SameRank.symm {r r' : CompatRule} (h : SameRank r r') : SameRank r' r :=
  ⟨h.1.symm, h.2.symm⟩

/-- A rule that passes the check does not conflict where the rules are compared. -/
theorem not_conflict_of_check {existing rule : CompatRule}
    (h : checkAgainst rule existing = .ok ()) (hcompared : comparedWith existing rule = true) :
    ¬ Conflict existing rule := by
  rintro ⟨cap, v, v', hv, hv', hne⟩
  have hmem : (cap, v') ∈ rule.capabilities.entries := by
    obtain ⟨front, back, hsplit, -⟩ := lookup_eq_some_iff.mp hv'
    rw [hsplit]
    exact mem_append_right front mem_cons_self
  have hconflict : capabilityConflict existing rule ≠ none := by
    unfold capabilityConflict
    rw [ne_eq, findSome?_eq_none_iff]
    intro hall
    have hnone := hall (cap, v') hmem
    dsimp only at hnone
    rw [hv] at hnone
    dsimp only at hnone
    rw [if_pos hne.symm] at hnone
    cases hnone
  obtain ⟨e, he⟩ := Option.ne_none_iff_exists'.mp hconflict
  unfold checkAgainst at h
  rw [if_pos hcompared, he] at h
  cases h

/-- A check of some values passes when it passes for each of them. -/
theorem forM_eq_ok {α ε : Type} {f : α → Except ε Unit} {xs : List α} (h : xs.forM f = .ok ()) :
    ∀ x ∈ xs, f x = .ok () := by
  induction xs with
  | nil => exact fun _ hx => absurd hx not_mem_nil
  | cons x xs ih =>
      change (f x >>= fun _ => xs.forM f) = _ at h
      cases hx : f x with
      | error e =>
        rw [hx] at h
        cases h
      | ok u =>
        rw [hx] at h
        exact forall_mem_cons.mpr ⟨hx, ih h⟩

/-- A rule that is added has passed the check against every rule before it. -/
theorem addRule_eq_ok {start compiler : CompatCompiler} {rule : CompatRule}
    (h : start.addRule rule = .ok compiler) : compiler.rules = start.rules ++ [rule] ∧
      ∀ existing ∈ start.rules, checkAgainst rule existing = .ok () := by
  unfold CompatCompiler.addRule at h
  cases hrange : checkRange rule with
  | error e =>
      rw [hrange] at h
      cases h
  | ok u =>
      rw [hrange] at h
      cases hchecks : start.rules.forM (checkAgainst rule) with
      | error e =>
        change (start.rules.forM (checkAgainst rule) >>= _) = _ at h
        rw [hchecks] at h
        cases h
      | ok u =>
        change (start.rules.forM (checkAgainst rule) >>= _) = _ at h
        rw [hchecks] at h
        cases h
        exact ⟨rfl, forM_eq_ok hchecks⟩

/-- Rules that are added are all in the compiler, and each has passed the check. -/
theorem addRules_spec (rules : List CompatRule) {start compiler : CompatCompiler}
    (h : rules.foldlM CompatCompiler.addRule start = .ok compiler) :
    compiler.rules = start.rules ++ rules ∧
      (∀ existing ∈ start.rules, ∀ rule ∈ rules, checkAgainst rule existing = .ok ()) ∧
      rules.Pairwise fun existing rule => checkAgainst rule existing = .ok () := by
  induction rules generalizing start with
  | nil =>
      cases h
      exact ⟨(append_nil _).symm, fun _ _ _ hrule => absurd hrule not_mem_nil, .nil⟩
  | cons rule rules ih =>
      rw [foldlM_cons] at h
      cases hadd : start.addRule rule with
      | error e =>
        rw [hadd] at h
        cases h
      | ok next =>
        rw [hadd] at h
        obtain ⟨hrules, hbefore, hpairs⟩ := ih h
        obtain ⟨hnext, hchecked⟩ := addRule_eq_ok hadd
        rw [hnext] at hbefore hrules
        refine ⟨by rw [hrules, append_assoc]; rfl, fun existing hexisting => ?_,
          pairwise_cons.mpr ⟨?_, hpairs⟩⟩
        · exact forall_mem_cons.mpr ⟨hchecked existing hexisting,
            hbefore existing (mem_append_left _ hexisting)⟩
        · exact hbefore rule (mem_append_right _ (mem_singleton_self rule))

/-! ## Criteria that no model meets -/

/-- No revision matches both patterns. -/
def NoneInBoth (p q : Option RevisionPattern) : Prop :=
  ∀ revision : Option String, ¬ (p.all (fun pattern => pattern.matches revision) = true ∧
    q.all (fun pattern => pattern.matches revision) = true)

/-- The criteria of two rules exclude each other. -/
def Apart (r r' : CompatRule) : Prop :=
  together eqIgnoreAsciiCase r.host r'.host = false ∨
    together eqIgnoreAsciiCase r.provider r'.provider = false ∨
    together (fun a b => a = b) r.family r'.family = false ∨
    together (fun a b => a = b) r.class r'.class = false ∨
    NoneInBoth r.revision r'.revision

/-- A range meets a range or a prefix. -/
def Coarse : RevisionPattern → RevisionPattern → Prop
  | .prefixed _, .range _ _ | .range _ _, .prefixed _ | .range _ _, .range _ _ => True
  | _, _ => False

/-- The conflict check passes over two rules. -/
def PassedOver (r r' : CompatRule) : Prop :=
  r.id = r'.id ∨ ∃ p q, r.revision = some p ∧ r'.revision = some q ∧ Coarse p q ∧
    p.overlaps q = false

theorem eqIgnoreAsciiCase_iff {a b : String} :
    eqIgnoreAsciiCase a b = true ↔ a.toList.map Char.toLower = b.toList.map Char.toLower :=
  decide_eq_true_iff

theorem together_of_met {α : Type} {same : α → α → Bool} {meets : α → Bool}
    (hsame : ∀ a b, meets a = true → meets b = true → same a b = true) {a b : Option α}
    (ha : a.all meets = true) (hb : b.all meets = true) : together same a b = true := by
  cases a with
  | none => rfl
  | some a =>
      cases b with
      | none => rfl
      | some b => exact hsame a b ha hb

/-- Some value meets criteria that do not exclude each other. -/
theorem exists_met {α β : Type} {same : α → α → Bool} {meets : β → α → Bool} (value : α → β)
    (fallback : β) (hself : ∀ a, meets (value a) a = true)
    (hsame : ∀ a b, same a b = true → meets (value a) b = true) {a b : Option α}
    (h : together same a b = true) :
    ∃ x, a.all (meets x) = true ∧ b.all (meets x) = true := by
  cases a with
  | none =>
      cases b with
      | none => exact ⟨fallback, rfl, rfl⟩
      | some b => exact ⟨value b, rfl, hself b⟩
  | some a =>
      cases b with
      | none => exact ⟨value a, hself a, rfl⟩
      | some b => exact ⟨value a, hself a, hsame a b h⟩

theorem same_of_eq {α : Type} [DecidableEq α] (x a b : α) (ha : decide (x = a) = true)
    (hb : decide (x = b) = true) : decide (a = b) = true :=
  decide_eq_true ((of_decide_eq_true ha).symm.trans (of_decide_eq_true hb))

theorem revision_of_matches {r : CompatRule} {ident : ModelIdentifier} {p : RevisionPattern}
    (h : r.matches ident = true) (hp : r.revision = some p) :
    p.matches ident.revision = true := by
  unfold CompatRule.matches at h
  rw [hp] at h
  simp only [Bool.and_eq_true, Option.all_some] at h
  exact h.1.2

/-- Rules that both match a model do not exclude each other. -/
theorem not_apart_of_matches {r r' : CompatRule} {ident : ModelIdentifier}
    (h : r.matches ident = true) (h' : r'.matches ident = true) : ¬ Apart r r' := by
  unfold CompatRule.matches at h h'
  simp only [Bool.and_eq_true] at h h'
  obtain ⟨⟨⟨⟨hhost, hprovider⟩, hfamily⟩, hrevision⟩, hclass⟩ := h
  obtain ⟨⟨⟨⟨hhost', hprovider'⟩, hfamily'⟩, hrevision'⟩, hclass'⟩ := h'
  have hcase : ∀ s a b : String, eqIgnoreAsciiCase s a = true → eqIgnoreAsciiCase s b = true →
      eqIgnoreAsciiCase a b = true := by
    intro s a b ha hb
    rw [eqIgnoreAsciiCase_iff] at ha hb ⊢
    exact ha.symm.trans hb
  rintro (hapart | hapart | hapart | hapart | hnone)
  · rw [together_of_met (hcase _) hhost hhost'] at hapart
    cases hapart
  · rw [together_of_met (hcase _) hprovider hprovider'] at hapart
    cases hapart
  · rw [together_of_met (same_of_eq _) hfamily hfamily'] at hapart
    cases hapart
  · rw [together_of_met (same_of_eq _) hclass hclass'] at hapart
    cases hapart
  · exact hnone ident.revision ⟨hrevision, hrevision'⟩

/-- Some model matches rules that do not exclude each other. -/
theorem exists_matches {r r' : CompatRule} (h : ¬ Apart r r') :
    ∃ ident : ModelIdentifier, r.matches ident = true ∧ r'.matches ident = true := by
  unfold Apart NoneInBoth at h
  push Not at h
  obtain ⟨hhost, hprovider, hfamily, hclass, revision, hrevision, hrevision'⟩ := h
  have hcase : ∀ a b, eqIgnoreAsciiCase a b = true → eqIgnoreAsciiCase a b = true :=
    fun _ _ h => h
  have hself : ∀ a, eqIgnoreAsciiCase a a = true := fun _ => eqIgnoreAsciiCase_iff.mpr rfl
  obtain ⟨host, hhost, hhost'⟩ :=
    exists_met id "" hself hcase (Bool.eq_true_of_not_eq_false hhost)
  obtain ⟨provider, hprovider, hprovider'⟩ :=
    exists_met id "" hself hcase (Bool.eq_true_of_not_eq_false hprovider)
  obtain ⟨family, hfamily, hfamily'⟩ := exists_met id ModelFamily.claude
    (fun a => decide_eq_true rfl) (fun _ _ h => h) (Bool.eq_true_of_not_eq_false hfamily)
  obtain ⟨class', hclass, hclass'⟩ := exists_met id ModelClass.flagship
    (fun a => decide_eq_true rfl) (fun _ _ h => h) (Bool.eq_true_of_not_eq_false hclass)
  refine ⟨⟨⟨"", family, revision, "", none, none⟩, class', .custom provider host⟩, ?_, ?_⟩
  · unfold CompatRule.matches
    simp only [Bool.and_eq_true]
    exact ⟨⟨⟨⟨hhost, hprovider⟩, hfamily⟩, hrevision⟩, hclass⟩
  · unfold CompatRule.matches
    simp only [Bool.and_eq_true]
    exact ⟨⟨⟨⟨hhost', hprovider'⟩, hfamily'⟩, hrevision'⟩, hclass'⟩

/-! ## Patterns that are taken for disjoint -/

/-- Of two starts of one revision, one starts with the other. -/
theorem startsWith_total {revision p q : String} (h : startsWith revision p = true)
    (h' : startsWith revision q = true) : (startsWith p q || startsWith q p) = true := by
  unfold startsWith at *
  rw [List.isPrefixOf_iff_prefix] at h h'
  rw [Bool.or_eq_true, isPrefixOf_iff_prefix, isPrefixOf_iff_prefix]
  exact (List.prefix_or_prefix_of_prefix h h').symm

/-- The test misses no common revision unless a range meets a range or a prefix. -/
theorem overlaps_of_matches {p q : RevisionPattern} {revision : Option String}
    (h : p.matches revision = true) (h' : q.matches revision = true) (hfine : ¬ Coarse p q) :
    p.overlaps q = true := by
  cases revision with
  | none =>
      cases p with
      | wildcard => rfl
      | exact _ | prefixed _ | range _ _ => cases h
  | some revision =>
      cases p with
      | wildcard => rfl
      | exact a =>
        obtain rfl : a = revision := of_decide_eq_true h
        cases q with
        | wildcard => rfl
        | exact b => exact decide_eq_true (of_decide_eq_true h').symm
        | prefixed start => exact h'
        | range min max => exact h'
      | prefixed start =>
        cases q with
        | wildcard => rfl
        | exact b =>
          obtain rfl : b = revision := of_decide_eq_true h'
          exact h
        | prefixed start' => exact startsWith_total h h'
        | range min max => exact absurd trivial hfine
      | range min max =>
        cases q with
        | wildcard => rfl
        | exact b =>
          obtain rfl : b = revision := of_decide_eq_true h'
          exact h
        | prefixed start => exact absurd trivial hfine
        | range min' max' => exact absurd trivial hfine

/-! ## The order of the table -/

/-- The rank of a rule in the table. -/
def rank (rule : CompatRule) : ℕ ×ₗ ℤ :=
  toLex (rule.specificityLevel, rule.priority)

theorem rank_eq_iff {r r' : CompatRule} : rank r = rank r' ↔ SameRank r r' := by
  unfold rank SameRank
  rw [EmbeddingLike.apply_eq_iff_eq, Prod.mk.injEq]

/-- The order of the table is that of the identifiers within the order of the ranks. -/
instance transCmp_precedence : Std.TransCmp precedence := by
  have hlevel : Std.TransCmp fun a b : CompatRule =>
      compare b.specificityLevel a.specificityLevel :=
    @Std.TransCmp.opposite _ (compareOn CompatRule.specificityLevel) _
  have hpriority : Std.TransCmp fun a b : CompatRule => compare b.priority a.priority :=
    @Std.TransCmp.opposite _ (compareOn CompatRule.priority) _
  have hid : Std.TransCmp fun a b : CompatRule => compare a.id b.id :=
    inferInstanceAs (Std.TransCmp (compareOn CompatRule.id))
  exact inferInstanceAs (Std.TransCmp (compareLex
    (fun a b : CompatRule => compare b.specificityLevel a.specificityLevel)
    (compareLex (fun a b : CompatRule => compare b.priority a.priority)
      fun a b : CompatRule => compare a.id b.id)))

theorem rank_le_of_precedence {a b : CompatRule} (h : (precedence a b).isLE = true) :
    rank b ≤ rank a := by
  unfold precedence at h
  unfold rank
  rw [Prod.Lex.toLex_le_toLex]
  cases hlevel : compare b.specificityLevel a.specificityLevel with
  | lt => exact .inl (Nat.compare_eq_lt.mp hlevel)
  | gt =>
      rw [hlevel] at h
      cases h
  | eq =>
      rw [hlevel] at h
      refine .inr ⟨Nat.compare_eq_eq.mp hlevel, ?_⟩
      cases hpriority : compare b.priority a.priority with
      | lt => exact Int.le_of_lt (compare_lt_iff_lt.mp hpriority)
      | eq => exact Int.le_of_eq (compare_eq_iff_eq.mp hpriority)
      | gt =>
        rw [hpriority] at h
        cases h

/-- The table lists the rules by their ranks, highest first. -/
theorem compile_ranked (compiler : CompatCompiler) :
    Precedence.Ranked rank compiler.compile.rules := by
  have htotal : ∀ a b : CompatRule, ((precedence a b).isLE || (precedence b a).isLE) = true := by
    intro a b
    have hswap : precedence b a = (precedence a b).swap := Std.OrientedCmp.eq_swap
    rw [hswap]
    cases precedence a b <;> rfl
  exact (pairwise_mergeSort (fun _ _ _ => Std.TransCmp.isLE_trans) htotal _).imp
    rank_le_of_precedence

theorem compile_perm (compiler : CompatCompiler) :
    compiler.compile.rules.Perm compiler.rules :=
  mergeSort_perm _ _

/-! ## Resolution -/

/-- Matching rules of one rank that define a capability define it with the same value. -/
def Consistent (rules : List CompatRule) (ident : ModelIdentifier) : Prop :=
  rules.Pairwise fun r r' => r.matches ident = true → r'.matches ident = true → SameRank r r' →
    ¬ Conflict r r'

/-- What a model may do does not depend on the order in which the rules are added. -/
def OrderFree (rules : List CompatRule) (ident : ModelIdentifier) : Prop :=
  ∀ (rules' : List CompatRule) (compiler compiler' : CompatCompiler), rules.Perm rules' →
    CompatCompiler.addRules rules = .ok compiler → CompatCompiler.addRules rules' = .ok compiler' →
    (compiler.compile.resolve ident).capabilities = (compiler'.compile.resolve ident).capabilities

/-- Two rules of one rank that define a capability differently, and that the conflict check passes
over, exclude each other. -/
def Separated (rules : List CompatRule) : Prop :=
  rules.Pairwise fun r r' => SameRank r r' → Conflict r r' → PassedOver r r' → Apart r r'

/-- Two consistent rules that match and have one rank give one answer. -/
theorem Consistent.eq_of_get {rules : List CompatRule} {ident : ModelIdentifier}
    (h : Consistent rules ident) {a b : CompatRule} (ha : a ∈ rules) (hb : b ∈ rules)
    (hmatches : a.matches ident = true) (hmatches' : b.matches ident = true)
    (hrank : SameRank a b) {cap : ProviderCapability} {v w : TriState}
    (hv : a.capabilities.get cap = some v) (hw : b.capabilities.get cap = some w) : v = w := by
  by_contra hne
  have hsymm : Std.Symm fun r r' : CompatRule => r.matches ident = true →
      r'.matches ident = true → SameRank r r' → ¬ Conflict r r' :=
    ⟨fun _ _ hpair hm hm' hsame hconflict => hpair hm' hm hsame.symm hconflict.symm⟩
  have hdifferent : a ≠ b := by
    rintro rfl
    exact hne (Option.some.inj (hv.symm.trans hw))
  exact List.Pairwise.forall h ha hb hdifferent hmatches hmatches' hrank ⟨cap, v, w, hv, hw, hne⟩

/-- Consistent rules do not depend on their order. -/
theorem Consistent.orderFree {rules : List CompatRule} {ident : ModelIdentifier}
    (h : Consistent rules ident) : OrderFree rules ident := by
  intro rules' compiler compiler' hperm hadd hadd'
  have hrules : compiler.rules = rules := (addRules_spec rules hadd).1
  have hrules' : compiler'.rules = rules' := (addRules_spec rules' hadd').1
  have hlist : compiler.compile.rules.Perm rules := hrules ▸ compile_perm compiler
  have hlist' : compiler'.compile.rules.Perm rules' := hrules' ▸ compile_perm compiler'
  funext cap
  have hagree : Precedence.Agree rank (fun rule : CompatRule => rule.capabilities.get cap)
      (compiler.compile.rules.filter fun rule => rule.matches ident) := by
    intro a ha b hb hrank v w hv hw
    obtain ⟨ha, hmatches⟩ := mem_filter.mp ha
    obtain ⟨hb, hmatches'⟩ := mem_filter.mp hb
    exact h.eq_of_get (hlist.mem_iff.mp ha) (hlist.mem_iff.mp hb) hmatches hmatches'
      (rank_eq_iff.mp hrank) hv hw
  have hfirst := hagree.first_eq ((hlist.trans (hperm.trans hlist'.symm)).filter _)
    ((compile_ranked compiler).filter _) ((compile_ranked compiler').filter _)
  exact congrArg (fun state : Option TriState => state.getD .unknown) hfirst

/-- Rules of one rank that match a model are compared, unless the check passes over them. -/
theorem comparedWith_of_matches {r r' : CompatRule} {ident : ModelIdentifier}
    (h : r.matches ident = true) (h' : r'.matches ident = true) (hrank : SameRank r r')
    (hfine : ¬ PassedOver r r') : comparedWith r r' = true := by
  have hmeet := not_apart_of_matches h h'
  unfold Apart at hmeet
  simp only [not_or, Bool.not_eq_false] at hmeet
  obtain ⟨hhost, hprovider, hfamily, hclass, -⟩ := hmeet
  have hrevision : together RevisionPattern.overlaps r.revision r'.revision = true := by
    cases hp : r.revision with
    | none => rfl
    | some p =>
      cases hq : r'.revision with
      | none => rfl
      | some q =>
        show p.overlaps q = true
        by_contra hdisjoint
        refine hdisjoint (overlaps_of_matches (revision_of_matches h hp)
          (revision_of_matches h' hq) fun hcoarse => hfine ?_)
        exact .inr ⟨p, q, hp, hq, hcoarse, Bool.eq_false_of_not_eq_true hdisjoint⟩
  unfold comparedWith CompatRule.overlapsCriteria
  simp only [Bool.and_eq_true, decide_eq_true_eq]
  exact ⟨⟨⟨fun hid => hfine (.inl hid), hrank.1⟩, hrank.2⟩,
    ⟨⟨⟨⟨hrank.1, hhost⟩, hprovider⟩, hfamily⟩, hclass⟩, hrevision⟩

/-- Accepted rules are consistent when those that the check passes over are separated. -/
theorem Separated.consistent {rules : List CompatRule} {compiler : CompatCompiler}
    (h : Separated rules) (hadd : CompatCompiler.addRules rules = .ok compiler)
    (ident : ModelIdentifier) : Consistent rules ident := by
  have hchecked := (addRules_spec rules hadd).2.2
  refine (h.and hchecked).imp ?_
  rintro r r' ⟨hseparated, hcheck⟩ hmatches hmatches' hrank hconflict
  have hmeet := not_apart_of_matches hmatches hmatches'
  have hfine : ¬ PassedOver r r' := fun hpassed => hmeet (hseparated hrank hconflict hpassed)
  exact not_conflict_of_check hcheck (comparedWith_of_matches hmatches hmatches' hrank hfine)
    hconflict

/-- Accepted rules that define a capability differently have different ranks or match no common
model, and the order in which they are added does not matter, exactly when the rules of one rank
that the conflict check passes over exclude each other. -/
theorem orderFree_iff {rules : List CompatRule} {compiler : CompatCompiler}
    (hadd : CompatCompiler.addRules rules = .ok compiler) :
    (∀ ident, Consistent rules ident ∧ OrderFree rules ident) ↔ Separated rules := by
  constructor
  · intro h
    unfold Separated
    rw [pairwise_iff_forall_sublist]
    intro r r' hpair hrank hconflict _
    by_contra hmeet
    obtain ⟨ident, hmatches, hmatches'⟩ := exists_matches hmeet
    have hconsistent := pairwise_iff_forall_sublist.mp (h ident).1 hpair
    exact hconsistent hmatches hmatches' hrank hconflict
  · exact fun h ident => ⟨h.consistent hadd ident, (h.consistent hadd ident).orderFree⟩

/-! ## A revision in a prefix and a range that are taken for disjoint -/

/-- A rule of one provider for some revisions, which says whether it streams. -/
def streamingRule (id : String) (revision : RevisionPattern) (state : TriState) : CompatRule where
  id
  host := none
  provider := some "p"
  family := none
  revision := some revision
  «class» := none
  capabilities := ⟨[(.streaming, state)], List.nodup_singleton _⟩
  nativeToolCost := none
  priority := 0

/-- Rules for the revisions that start with a one and for those from five to twenty. -/
def tenRules : List CompatRule :=
  [streamingRule "a" (.prefixed "1") .supported,
    streamingRule "b" (.range (some "5") (some "20")) .unsupported]

/-- A model of revision ten. -/
def tenModel : ModelIdentifier where
  taxonomy := ⟨"m", .claude, some "10", "m", none, none⟩
  «class» := .fast
  route := .custom "p" "h"

theorem exists_tenRules : ∃ compiler, CompatCompiler.addRules tenRules = .ok compiler := by
  have hok : (CompatCompiler.addRules tenRules).isOk = true := by decide +kernel
  cases hadd : CompatCompiler.addRules tenRules with
  | error e =>
      rw [hadd] at hok
      cases hok
  | ok compiler => exact ⟨compiler, rfl⟩

/-- A revision starts with a one and lies between five and twenty, so two accepted rules of one rank
define streaming differently for one model. -/
theorem not_consistent_ten : ¬ ∀ (rules : List CompatRule) (compiler : CompatCompiler),
    CompatCompiler.addRules rules = .ok compiler →
    ∀ ident, Consistent rules ident ∧ OrderFree rules ident := by
  intro h
  obtain ⟨compiler, hadd⟩ := exists_tenRules
  have hpair := (pairwise_cons.mp (h tenRules compiler hadd tenModel).1).1 _
    (mem_singleton_self _)
  exact hpair (by decide +kernel) (by decide +kernel) ⟨by decide, by decide⟩
    ⟨.streaming, .supported, .unsupported, rfl, rfl, by decide⟩

/-- These rules are consistent for every model exactly when their criteria exclude each other. -/
theorem orderFree_iff_ten :
    (∀ ident, Consistent tenRules ident ∧ OrderFree tenRules ident) ↔ Separated tenRules := by
  obtain ⟨compiler, hadd⟩ := exists_tenRules
  exact orderFree_iff hadd

end Omp2.Inference
