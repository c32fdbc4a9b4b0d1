import Omp2.Control.Idempotence

/-!
# The order of the folds

A pass appends its nodes behind the roots that are there. The folds stay in the order of the
earliest elements that they stand for as long as every elision goes forward in the body and every
condensation takes in all the roots.
-/

namespace Omp2.Control

open Omp2.Json Omp2.State SessionSnapshot List

/-! ## Positions -/

/-- What comes first in a list still does after other elements have been put between. -/
theorem findIdx_lt_of_sublist {α : Type} {l l' : List α} {p q : α → Bool} (hsublist : l.Sublist l')
    (hnodup : l'.Nodup) (hp : ∀ x ∈ l', p x = true → x ∈ l) (hq : ∀ x ∈ l', q x = true → x ∈ l)
    (hlt : l.findIdx p < l.findIdx q) : l'.findIdx p < l'.findIdx q := by
  induction hsublist with
  | slnil => exact absurd hlt (Nat.lt_irrefl _)
  | @cons l l' a hsublist ih =>
      obtain ⟨ha, hnodup⟩ := nodup_cons.mp hnodup
      have hout : a ∉ l := fun hmem => ha (hsublist.subset hmem)
      have hpa : p a = false := by
        rw [Bool.eq_false_iff]
        exact fun hpa => hout (hp a mem_cons_self hpa)
      have hqa : q a = false := by
        rw [Bool.eq_false_iff]
        exact fun hqa => hout (hq a mem_cons_self hqa)
      rw [findIdx_cons, findIdx_cons, hpa, hqa]
      exact Nat.succ_lt_succ (ih hnodup (fun x hx => hp x (mem_cons_of_mem a hx))
        (fun x hx => hq x (mem_cons_of_mem a hx)) hlt)
  | @cons_cons l l' a hsublist ih =>
      obtain ⟨ha, hnodup⟩ := nodup_cons.mp hnodup
      rw [findIdx_cons, findIdx_cons] at hlt ⊢
      have hinner : ∀ (r : α → Bool), (∀ x ∈ a :: l', r x = true → x ∈ a :: l) →
          ∀ x ∈ l', r x = true → x ∈ l := by
        intro r hr x hx hrx
        refine (mem_cons.mp (hr x (mem_cons_of_mem a hx) hrx)).resolve_left ?_
        rintro rfl
        exact ha hx
      cases hqa : q a with
      | true =>
        rw [hqa] at hlt
        exact absurd hlt (Nat.not_lt_zero _)
      | false =>
        rw [hqa] at hlt
        cases hpa : p a with
        | true => exact Nat.succ_pos _
        | false =>
          rw [hpa] at hlt
          exact Nat.succ_lt_succ
            (ih hnodup (hinner p hp) (hinner q hq) (Nat.lt_of_succ_lt_succ hlt))

/-- The elements of the body. -/
def bodyIds (s : SessionSnapshot) : List ElementId :=
  s.getVisibleBody.map ElementSnapshot.id

/-- The position of the earliest element that a node stands for. -/
def earliest (s : SessionSnapshot) (id : ElementId) : Nat :=
  (bodyIds s).findIdx fun x => decide (x ∈ expandCovered (SummaryDag.load s).nodes id)

/-- The roots are in the order of the earliest elements that they stand for. -/
def Chronological (s : SessionSnapshot) : Prop :=
  (SummaryDag.load s).roots.Pairwise fun a b => earliest s a < earliest s b

theorem earliest_congr {s s' : SessionSnapshot} {id : ElementId} (hbody : bodyIds s' = bodyIds s)
    (hstands : ∀ x, x ∈ expandCovered (SummaryDag.load s').nodes id ↔
      x ∈ expandCovered (SummaryDag.load s).nodes id) : earliest s' id = earliest s id := by
  unfold earliest
  simp only [hbody, hstands]

/-! ## What a node stands for -/

section Stands

variable {es : List ElementSnapshot} {dag dag' : SummaryDag}

/-- A node stands for what is covered by the nodes below it. -/
theorem SummaryDag.Of.mem_expand (h : dag.Of es) {root x : ElementId} :
    x ∈ expandCovered dag.nodes root ↔
      ∃ e ∈ es, Forest.Above (groups es) root e.id ∧ x ∈ (nodeOf e).covered := by
  have hleads : Forest.Leads (childrenOf dag.nodes) = Forest.Above (groups es) :=
    congrArg Relation.ReflTransGen
      (funext fun id => funext fun x => propext h.mem_childrenOf)
  rw [mem_expandCovered, hleads]
  constructor
  · rintro ⟨id, habove, hx⟩
    obtain ⟨e, he, rfl, hcovered⟩ := h.mem_coveredOf.mp hx
    exact ⟨e, he, habove, hcovered⟩
  · rintro ⟨e, he, habove, hcovered⟩
    exact ⟨e.id, habove, h.mem_coveredOf.mpr ⟨e, he, rfl, hcovered⟩⟩

theorem above_perm {made : List ElementSnapshot} (hmade : made.Perm es) :
    Forest.Above (groups made) = Forest.Above (groups es) := by
  have hgroups : (groups made).Perm (groups es) := hmade.map _
  refine congrArg Relation.ReflTransGen (funext fun id => funext fun x => propext ?_)
  simp only [hgroups.mem_iff]

/-- The children of nodes are nodes. -/
theorem Summarised.mem_of_child (h : Summarised es) {e : ElementSnapshot} (he : e ∈ es)
    {x : ElementId} (hx : x ∈ (nodeOf e).children) : x ∈ es.map ElementSnapshot.id := by
  obtain ⟨made, hmade, hgrown⟩ := h.grown
  have hmember : x ∈ (groups made).flatMap Prod.snd :=
    mem_flatMap.mpr ⟨_, mem_map_of_mem (hmade.mem_iff.mpr he), hx⟩
  obtain ⟨group, hgroup, rfl⟩ := mem_map.mp (hgrown.mem_of_member hmember)
  obtain ⟨e', he', rfl⟩ := mem_map.mp hgroup
  exact mem_map.mpr ⟨e', hmade.mem_iff.mp he', rfl⟩

/-- A new node leaves alone what the others stand for, and a leaf stands for what it covers. -/
theorem SummaryDag.Of.expand_new {e : ElementSnapshot} (h : dag.Of es) (h' : dag'.Of (e :: es))
    (hes : Summarised es) (hfresh : e.id ∉ es.map ElementSnapshot.id) :
    (∀ id ∈ es.map ElementSnapshot.id, ∀ x,
      x ∈ expandCovered dag'.nodes id ↔ x ∈ expandCovered dag.nodes id) ∧
      ((nodeOf e).children = [] → ∀ x,
        x ∈ expandCovered dag'.nodes e.id ↔ x ∈ (nodeOf e).covered) := by
  obtain ⟨made, hmade, hgrown⟩ := hes.grown
  have hids : (groups made).map Prod.fst = made.map ElementSnapshot.id := by
    unfold groups
    rw [map_map]
    rfl
  have hmem : ∀ id, id ∈ (groups made).map Prod.fst ↔ id ∈ es.map ElementSnapshot.id := by
    intro id
    rw [hids, (hmade.map _).mem_iff]
  have hnew : e.id ∉ (groups made).map Prod.fst := fun h => hfresh ((hmem _).mp h)
  have hbelow : ∀ id ∈ es.map ElementSnapshot.id, ∀ z,
      Forest.Above (groups (e :: es)) id z ↔ Forest.Above (groups es) id z := by
    intro id hid z
    rw [← above_perm (hmade.cons e), ← above_perm hmade]
    exact hgrown.above_add hnew ((hmem id).mpr hid)
  refine ⟨fun id hid x => ?_, fun hleaf x => ?_⟩
  · rw [h.mem_expand, h'.mem_expand]
    simp only [mem_cons, exists_eq_or_imp, hbelow id hid]
    refine or_iff_right ?_
    rintro ⟨habove, -⟩
    -- the new node is below none of the others, as these lead to each other only
    rw [← above_perm hmade] at habove
    rcases Relation.ReflTransGen.cases_tail habove with heq | ⟨y, -, below, hgroup, hmember⟩
    · exact hfresh (heq ▸ hid)
    · exact hnew (hgrown.mem_of_member (mem_flatMap.mpr ⟨_, hgroup, hmember⟩))
  · rw [h'.mem_expand]
    have hself : ∀ z, Forest.Above (groups (e :: es)) e.id z ↔ z = e.id := by
      intro z
      rw [← above_perm (hmade.cons e)]
      refine (hgrown.above_new hnew fun y hy => ?_).trans ?_
      · rw [hleaf] at hy
        exact absurd hy not_mem_nil
      · rw [hleaf]
        simp
    simp only [mem_cons, exists_eq_or_imp, hself, true_and]
    refine or_iff_left ?_
    rintro ⟨e', he', heq, -⟩
    exact hfresh (heq ▸ mem_map_of_mem he')

end Stands

/-! ## One stage -/

section Stages

variable [SerdeJson] {j j' : Journal} {owner : ActorId} {config : CompactionConfig} {draws : Draws}
  {dag : SummaryDag}

/-- A journal whose nodes form a forest over elements of the body, with the roots in order. -/
structure Dated (j : Journal) : Prop where
  sound : Sound j
  summarised : Summarised (summaries j.snapshot)
  within : ∀ x, Covers (summaries j.snapshot) x → x ∈ bodyIds j.snapshot
  chronological : Chronological j.snapshot

theorem Dated.readable (h : Dated j) : Readable j.snapshot := h.summarised.readable

theorem Dated.congr (h : Dated j) (hsound : Sound j') (hsame : j'.snapshot = j.snapshot) :
    Dated j' :=
  ⟨hsound, hsame ▸ h.summarised, hsame ▸ h.within, hsame ▸ h.chronological⟩

omit [SerdeJson] in
theorem bodyIds_kept {s s' : SessionSnapshot} (hkept : Kept s s') (hwf : WellFormed s) :
    bodyIds s' = bodyIds s := by
  unfold bodyIds
  rw [(hkept.body hwf).1]

/-- A leaf over later elements is a new root behind the others. -/
theorem Dated.leaf {node : SummaryNode} {kind : SummaryKind} {text : String} {draw : Draw}
    {id : ElementId} (h : Dated j) (hfew : (summaries j.snapshot).length < 2 ^ 32)
    (hleaf : node.children = []) (hnodup : node.covered.Nodup)
    (hnew : ∀ x ∈ node.covered, ¬ Covers (summaries j.snapshot) x)
    (hbody : ∀ x ∈ node.covered, x ∈ bodyIds j.snapshot)
    (hlater : ∀ root ∈ (SummaryDag.load j.snapshot).roots,
      earliest j.snapshot root <
        (bodyIds j.snapshot).findIdx fun x => decide (x ∈ node.covered))
    (hcreate : createNode j owner node kind text draw = (j', .ok id)) :
    Dated j' ∧ (SummaryDag.load j'.snapshot).roots = (SummaryDag.load j.snapshot).roots ++ [id] := by
  have hroots : ∀ child ∈ node.children, Forest.IsRoot (groups (summaries j.snapshot)) child := by
    rw [hleaf]
    exact fun _ hmem => absurd hmem not_mem_nil
  rcases createNode_advanced h.sound h.summarised hroots hnodup hnew hcreate with
    ⟨_, hok, hadvanced, hfresh, hperm⟩ | ⟨⟨_, herror⟩, -⟩
  · cases hok
    have hlast := createNode_last h.sound hfew hcreate
    have hreadable' : Readable j'.snapshot := hadvanced.summarised.readable
    have hbodies := bodyIds_kept hadvanced.kept h.sound.wellFormed
    have hnodes : (SummaryDag.load j.snapshot).Of (summaries j.snapshot) :=
      SummaryDag.load_of h.summarised
    have hnodes' : (SummaryDag.load j'.snapshot).Of
        (node.toElement id kind text :: summaries j.snapshot) :=
      (SummaryDag.load_of hadvanced.summarised).perm hperm
    obtain ⟨hold, hself⟩ := hnodes.expand_new hnodes' h.summarised hfresh
    rw [nodeOf_toElement] at hself
    -- the leaf has no children, and no node has it as a child
    have hchildren : ∀ x, (SummaryDag.load j'.snapshot).children.contains x =
        (SummaryDag.load j.snapshot).children.contains x := by
      intro x
      rw [Bool.eq_iff_iff, Std.ExtTreeSet.contains_iff_mem, Std.ExtTreeSet.contains_iff_mem,
        hnodes'.children, hnodes.children]
      simp only [mem_cons, exists_eq_or_imp, nodeOf_toElement, hleaf, not_mem_nil,
        false_or]
    have hfree : (SummaryDag.load j.snapshot).children.contains id = false := by
      rw [Bool.eq_false_iff, ne_eq, Std.ExtTreeSet.contains_iff_mem, hnodes.children]
      rintro ⟨e, he, hmem⟩
      exact hfresh (h.summarised.mem_of_child he hmem)
    have hroots' : (SummaryDag.load j'.snapshot).roots =
        (SummaryDag.load j.snapshot).roots ++ [id] := by
      unfold SummaryDag.roots
      rw [hreadable'.load_order, h.readable.load_order, hlast, map_append,
        filter_congr fun x _ => congrArg Bool.not (hchildren x), filter_append]
      congr 1
      show [id].filter (fun x => !(SummaryDag.load j.snapshot).children.contains x) = [id]
      rw [filter_cons_of_pos (by simpa using hfree), filter_nil]
    refine ⟨⟨hadvanced.sound, hadvanced.summarised, fun x hx => ?_, ?_⟩, hroots'⟩
    · rw [hbodies]
      exact ((hadvanced.covers x).mp hx).elim (h.within x) (hbody x)
    · have hearliest : ∀ root ∈ (SummaryDag.load j.snapshot).roots,
          earliest j'.snapshot root = earliest j.snapshot root := by
        intro root hroot
        exact earliest_congr hbodies (hold root (hnodes.mem_roots_iff.mp hroot).1)
      unfold Chronological
      rw [hroots', pairwise_append]
      refine ⟨?_, pairwise_singleton _ _, fun root hroot leaf hleafMem => ?_⟩
      · refine h.chronological.imp_of_mem fun ha hb hlt => ?_
        rw [hearliest _ ha, hearliest _ hb]
        exact hlt
      · obtain rfl := mem_singleton.mp hleafMem
        have hposition : earliest j'.snapshot leaf =
            (bodyIds j.snapshot).findIdx fun x => decide (x ∈ node.covered) := by
          unfold earliest
          rw [hbodies]
          exact congrArg (findIdx · _)
            (funext fun x => decide_eq_decide.mpr (hself hleaf x))
        rw [hearliest root hroot, hposition]
        exact hlater root hroot
  · cases herror

/-- A condensed node over all roots is the only root. -/
theorem Dated.condensed {offset : UInt64} {text : String} {draw : Draw}
    {made : Except StructuredError ElementId} (h : Dated j) (hdag : dag.Of (summaries j.snapshot))
    (hall : dag.roots.drop condenseFanIn = [])
    (hcreate : createNode j owner (condensedNode dag offset) .condensed text draw = (j', made)) :
    Dated j' ∧ ∀ id, made = .ok id → (SummaryDag.load j'.snapshot).roots.length ≤ 1 := by
  have hroots : ∀ child ∈ (condensedNode dag offset).children,
      Forest.IsRoot (groups (summaries j.snapshot)) child :=
    fun child hchild => hdag.mem_roots.mp (mem_of_mem_take hchild)
  rcases createNode_advanced h.sound h.summarised hroots nodup_nil
    (fun _ hmem => absurd hmem not_mem_nil) hcreate with
    ⟨id, rfl, hadvanced, hfresh, hperm⟩ | ⟨⟨_, rfl⟩, -⟩
  · have hnodup := nodup_cons.mpr ⟨hfresh, h.summarised.nodup⟩
    have hreplaced := (hdag.roots_perm ((SummaryDag.load_of hadvanced.summarised).perm hperm) hnodup
      (by rw [nodeOf_toElement]; rfl)).length_eq
    rw [hall, append_nil] at hreplaced
    have hone : (SummaryDag.load j'.snapshot).roots.length ≤ 1 := by
      rw [hreplaced]
      split
      · exact Nat.zero_le 1
      · exact Nat.le_refl 1
    have hbodies := bodyIds_kept hadvanced.kept h.sound.wellFormed
    refine ⟨⟨hadvanced.sound, hadvanced.summarised, fun x hx => ?_, ?_⟩, fun _ _ => hone⟩
    · rw [hbodies]
      exact h.within x (((hadvanced.covers x).mp hx).resolve_right not_mem_nil)
    · unfold Chronological
      match hlist : (SummaryDag.load j'.snapshot).roots, hone with
      | [], _ => exact List.Pairwise.nil
      | [root], _ => exact pairwise_singleton _ _
  · rcases createNode_cases h.sound hcreate with ⟨_, hok, -⟩ | ⟨-, hsound', hunchanged⟩
    · cases hok
    · exact ⟨h.congr hsound' hunchanged, nofun⟩

/-- The sets of roots that a pass folds, with the document before and the roots left out. -/
def foldSets (owner : ActorId) (maxRoots : Nat) (draws : Nat → Draw) : Nat → Journal →
    SummaryDag → List (SessionSnapshot × List ElementId × List ElementId)
  | 0, _, _ => []
  | fuel + 1, j, dag =>
    let foldSet := dag.roots.take condenseFanIn
    if dag.roots.length ≤ max maxRoots 1 ∨ foldSet.length < 2 then []
    else
      (j.snapshot, foldSet, dag.roots.drop condenseFanIn) ::
        match createNode j owner (condensedNode dag j.snapshot.offset) .condensed
            (renderCondensedInventory foldSet dag) (draws fuel) with
        | (_, .error _) => []
        | (j', .ok _) => foldSets owner maxRoots draws fuel j' (.load j'.snapshot)

/-- A condensation over all roots leaves one root. -/
theorem condense_dated {maxRoots : Nat} {draws : Nat → Draw}
    {result : Except StructuredError SummaryDag} (fuel : Nat) (h : Dated j) (hdag : dag.Of (summaries j.snapshot))
    (hfew : dag.roots.length ≤ max maxRoots condenseFanIn)
    (hcondense : condense owner maxRoots draws fuel j dag = (j', result)) :
    Dated j' ∧ (∀ last, result = .ok last → last.Of (summaries j'.snapshot)) ∧
      ∀ c ∈ foldSets owner maxRoots draws fuel j dag, c.2.2 = [] := by
  have hsame : Dated j ∧ (∀ last : SummaryDag,
      (.ok dag : Except StructuredError SummaryDag) = .ok last → last.Of (summaries j.snapshot)) :=
    ⟨h, fun last hok => Except.ok.inj hok ▸ hdag⟩
  induction fuel generalizing j dag with
  | zero =>
      cases hcondense
      exact ⟨hsame.1, hsame.2, forall_mem_nil _⟩
  | succ fuel ih =>
      unfold condense at hcondense
      unfold foldSets
      dsimp only at hcondense ⊢
      split at hcondense
      · next hwithin =>
        cases hcondense
        rw [if_pos (.inl hwithin)]
        exact ⟨hsame.1, hsame.2, forall_mem_nil _⟩
      · next hmany =>
        split at hcondense
        · next hsingle =>
          cases hcondense
          rw [if_pos (.inr hsingle)]
          exact ⟨hsame.1, hsame.2, forall_mem_nil _⟩
        · next hset =>
          have hall : dag.roots.drop condenseFanIn = [] := by
            refine drop_eq_nil_of_le ?_
            unfold condenseFanIn at hfew ⊢
            omega
          rw [if_neg (not_or.mpr ⟨hmany, hset⟩)]
          split at hcondense
          · next hcreate =>
            cases hcondense
            refine ⟨(h.condensed hdag hall hcreate).1, (by rintro _ ⟨⟩), ?_⟩
            unfold condensedNode
            rw [hcreate]
            exact forall_mem_singleton.mpr hall
          · next j₁ id hcreate =>
            obtain ⟨hdated₁, hone⟩ := h.condensed hdag hall hcreate
            have hfew₁ : (SummaryDag.load j₁.snapshot).roots.length ≤
                max maxRoots condenseFanIn :=
              Nat.le_trans (hone id rfl) (Nat.le_trans (by decide) (Nat.le_max_right _ _))
            have hloaded₁ := SummaryDag.load_of hdated₁.summarised
            obtain ⟨hdated, hlast, hsets⟩ := ih hdated₁ hloaded₁ hfew₁ hcondense
              ⟨hdated₁, fun last hok => Except.ok.inj hok ▸ hloaded₁⟩
            refine ⟨hdated, hlast, ?_⟩
            unfold condensedNode
            rw [hcreate]
            exact forall_mem_cons.mpr ⟨hall, hsets⟩

omit [SerdeJson] in
theorem groups_retext (es : List ElementSnapshot) (key : ElementId) (text : String) :
    groups (es.map (retext key text)) = groups es := by
  unfold groups
  rw [map_map]
  refine map_congr_left fun e _ => ?_
  show ((retext key text e).id, (nodeOf (retext key text e)).children) = _
  rw [nodeOf_retext, id_retext]

/-- Another text for a node leaves the roots in order. -/
theorem Dated.retext {id : ElementId} {text : String} (h : Dated j) (hadvanced : Advanced j j' [])
    (htexts : summaries j'.snapshot = (summaries j.snapshot).map (retext id text)) : Dated j' := by
  have hbodies := bodyIds_kept hadvanced.kept h.sound.wellFormed
  have hnodes : (SummaryDag.load j.snapshot).Of (summaries j.snapshot) :=
    SummaryDag.load_of h.summarised
  have hnodes' : (SummaryDag.load j'.snapshot).Of (summaries j'.snapshot) :=
    SummaryDag.load_of hadvanced.summarised
  have hreadable' : Readable j'.snapshot := hadvanced.summarised.readable
  have hroots : (SummaryDag.load j'.snapshot).roots = (SummaryDag.load j.snapshot).roots := by
    have horder : (SummaryDag.load j'.snapshot).order = (SummaryDag.load j.snapshot).order := by
      rw [hreadable'.load_order, h.readable.load_order, htexts, map_map]
      exact map_congr_left fun e _ => id_retext id text e
    unfold SummaryDag.roots
    rw [horder]
    refine filter_congr fun x _ => congrArg Bool.not ?_
    rw [Bool.eq_iff_iff, Std.ExtTreeSet.contains_iff_mem, Std.ExtTreeSet.contains_iff_mem,
      hnodes'.children, hnodes.children, htexts]
    simp
  have hearliest : ∀ root, earliest j'.snapshot root = earliest j.snapshot root := by
    intro root
    refine earliest_congr hbodies fun x => ?_
    rw [hnodes'.mem_expand, hnodes.mem_expand, htexts, groups_retext]
    simp only [mem_map, exists_exists_and_eq_and, nodeOf_retext, id_retext]
  refine ⟨hadvanced.sound, hadvanced.summarised, fun x hx => ?_, ?_⟩
  · rw [hbodies]
    exact h.within x (((hadvanced.covers x).mp hx).resolve_right not_mem_nil)
  · unfold Chronological
    simp only [hroots, hearliest]
    exact h.chronological

/-- The caps leave the roots in order. -/
theorem capTexts_dated {entries : List BodyEntry} {covered : Std.ExtTreeSet ElementId}
    {reductions : Reductions} {worlds : Nat → Journal.Outside}
    {result : Except StructuredError SummaryDag} (fuel : Nat) (h : Dated j)
    (hdag : dag.Of (summaries j.snapshot))
    (hcap : capTexts owner entries covered reductions config worlds fuel j dag = (j', result)) :
    Dated j' := by
  refine (capTexts_rule (P := fun j' result => Dated j' ∧
    ∀ dag', result = .ok dag' → dag'.Of (summaries j'.snapshot)) ?_
    ⟨h, fun _ hok => Except.ok.inj hok ▸ hdag⟩ hcap).1
  rintro j₁ dag₁ id text world j₂ result ⟨hdated, hof⟩ hroot hreplace
  obtain ⟨horder, hid⟩ := mem_of_root (hof _ rfl) hroot
  rcases replaceNodeText_cases hdated.sound hid hreplace with
    ⟨rfl, -⟩ | ⟨⟨_, rfl⟩, hsound', hunchanged⟩
  · obtain ⟨hadvanced, ⟨_, herror⟩ | ⟨-, htexts⟩⟩ :=
      replaceNodeText_advanced hdated.sound hdated.summarised hid hreplace
    · cases herror
    · exact ⟨hdated.retext hadvanced htexts,
        fun _ hok => Except.ok.inj hok ▸ htexts ▸ (hof _ rfl).retext horder _⟩
  · exact ⟨hdated.congr hsound' hunchanged, nofun⟩

/-! ## One pass -/

/-- A pass goes forward: what it elides comes after the earliest element of every root, a
condensation takes in all the roots, and the index of a new node is its place. -/
structure Forward (s : SessionSnapshot) (config : CompactionConfig) : Prop where
  later : elided s config ≠ [] → ∀ root ∈ (SummaryDag.load s).roots,
    earliest s root < (bodyIds s).findIdx fun x => decide (x ∈ elided s config)
  few : (SummaryDag.load s).roots.length + (if elided s config = [] then 0 else 1) ≤
    max config.maxRootNodes condenseFanIn
  indexed : (summaries s).length < 2 ^ 32

/-- The condensations of a pass. -/
def passFoldSets (j : Journal) (owner : ActorId) (config : CompactionConfig) (draws : Draws) :
    List (SessionSnapshot × List ElementId × List ElementId) :=
  match commitElision j owner (collectEntries j.snapshot) (elided j.snapshot config)
      (SummaryDag.load j.snapshot) draws.elision with
  | (_, .error _) => []
  | (j, .ok dag) => foldSets owner config.maxRootNodes draws.condensation dag.roots.length j dag

/-- The commit of an elision that goes forward. -/
theorem commitElision_dated {draw : Draw} {result : Except StructuredError SummaryDag}
    (h : Dated j) (hforward : Forward j.snapshot config)
    (hcommit : commitElision j owner (collectEntries j.snapshot) (elided j.snapshot config)
      (SummaryDag.load j.snapshot) draw = (j', result)) :
    Dated j' ∧ ∀ dag, result = .ok dag → dag.Of (summaries j'.snapshot) ∧
      dag.roots.length ≤ max config.maxRootNodes condenseFanIn := by
  have hnodes : (SummaryDag.load j.snapshot).Of (summaries j.snapshot) :=
    SummaryDag.load_of h.summarised
  have hbodyNodup := nodup_children h.sound.wellFormed (staticId "body")
  obtain ⟨hnodup, hspec⟩ := select_spec (SummaryDag.load j.snapshot).covered config
    (projectedTokens (collectEntries j.snapshot) (SummaryDag.load j.snapshot).covered
      (SummaryDag.load j.snapshot) ∅ config.fixedOverheadTokens)
    (hbodyNodup.sublist (collectEntries_sublist (s := j.snapshot)))
  have hnew : ∀ x ∈ elided j.snapshot config, ¬ Covers (summaries j.snapshot) x :=
    fun x hx hcovers => elided_uncovered h.sound.wellFormed config x hx
      (hnodes.mem_covered.mpr hcovers)
  have hbody : ∀ x ∈ elided j.snapshot config, x ∈ bodyIds j.snapshot := by
    intro x hx
    obtain ⟨entry, front, user, back, hsplit, -, hfront, rfl, -⟩ := hspec x hx
    refine collectEntries_sublist.subset (mem_map_of_mem ?_)
    rw [hsplit]
    exact mem_append_left _ hfront
  have hcount := hforward.few
  by_cases hempty : elided j.snapshot config = []
  · rw [hempty, commitElision_nil] at hcommit
    cases hcommit
    rw [if_pos hempty] at hcount
    refine ⟨h, fun dag hok => ?_⟩
    cases hok
    exact ⟨hnodes, hcount⟩
  · rw [if_neg hempty] at hcount
    unfold commitElision at hcommit
    rw [if_neg (by simpa using hempty)] at hcommit
    dsimp only at hcommit
    split at hcommit
    · next hcreate =>
      cases hcommit
      rcases createNode_cases h.sound hcreate with ⟨_, hok, -⟩ | ⟨-, hsound', hunchanged⟩
      · cases hok
      · exact ⟨h.congr hsound' hunchanged, nofun⟩
    · next id hcreate =>
      cases hcommit
      obtain ⟨hdated, hroots⟩ := h.leaf hforward.indexed rfl hnodup hnew hbody
        (hforward.later hempty) hcreate
      refine ⟨hdated, fun dag hok => ?_⟩
      cases hok
      obtain ⟨-, -, hfresh, hperm⟩ := createNode_loaded h.sound h.readable hcreate
      have hpushed := (hnodes.push id _ .leaf _ (nodup_cons.mp hfresh).1 rfl).perm hperm.symm
      refine ⟨hpushed, ?_⟩
      have hlength := ((SummaryDag.load_of hdated.summarised).same hpushed).2.2.2.length_eq
      rw [hroots, length_append, length_singleton] at hlength
      exact hlength ▸ hcount

theorem passFoldSets_forward (h : Dated j) (hforward : Forward j.snapshot config) :
    ∀ c ∈ passFoldSets j owner config draws, c.2.2 = [] := by
  unfold passFoldSets
  split
  · exact nofun
  · next j₁ dag hcommit =>
    obtain ⟨hdated, hok⟩ := commitElision_dated h hforward hcommit
    obtain ⟨hdag, hfew⟩ := hok dag rfl
    exact (condense_dated _ hdated hdag hfew (Prod.mk.eta).symm).2.2

/-- A pass that goes forward leaves the roots in order, and its folds are those of the roots. -/
theorem planStages_dated {result : Except StructuredError Planned} (h : Dated j)
    (hforward : Forward j.snapshot config)
    (hplan : planStages j owner config draws = (j', result)) :
    Dated j' ∧ ∀ planned, result = .ok planned →
      planned.outcome.folds = (SummaryDag.load j'.snapshot).folds := by
  have hzero : (SummaryDag.load j.snapshot).unreadable = 0 :=
    (SummaryDag.load_of h.summarised).readable
  have hkept := hplan
  rw [planStages_readable hzero] at hplan
  have hfolded : ∀ {j₁ : Journal} {made : Except StructuredError SummaryDag},
      foldStages j owner config draws = (j₁, made) →
      Dated j₁ ∧ ∀ dag, made = .ok dag → dag.Of (summaries j₁.snapshot) := by
    intro j₁ made hfold
    unfold foldStages at hfold
    split at hfold
    · next hcommit =>
      cases hfold
      exact ⟨(commitElision_dated h hforward hcommit).1, nofun⟩
    · next hcommit =>
      obtain ⟨hdated, hok⟩ := commitElision_dated h hforward hcommit
      obtain ⟨hdag, hfew⟩ := hok _ rfl
      obtain ⟨hdated₁, hlast, -⟩ := condense_dated _ hdated hdag hfew hfold
      exact ⟨hdated₁, hlast⟩
  split at hplan
  · next hfold =>
    cases hplan
    exact ⟨(hfolded hfold).1, nofun⟩
  · next j₁ dag hfold =>
    obtain ⟨hdated₁, hdag⟩ := hfolded hfold
    split at hplan
    · next hcap =>
      cases hplan
      exact ⟨capTexts_dated _ hdated₁ (hdag dag rfl) hcap, nofun⟩
    · next hcap =>
      cases hplan
      have hdated := capTexts_dated _ hdated₁ (hdag dag rfl) hcap
      refine ⟨hdated, fun planned hok => ?_⟩
      cases hok
      obtain ⟨hended, -⟩ := planStages_ordered h.sound hzero hkept hfold hforward.indexed
      have hloaded := InOrder.load hdated.sound hdated.readable
      show SummaryDag.folds _ = _
      unfold SummaryDag.folds
      rw [hended.nodes.fold_eq hloaded.nodes,
        hended.nodes.roots_eq hloaded.nodes (hended.order.trans hloaded.order.symm)]

/-- Folds are in the order of the earliest elements that they stand for. -/
def InFoldOrder (s : SessionSnapshot) (folds : List MessageFold) : Prop :=
  ∃ ids : List ElementId, folds = ids.map (SummaryDag.load s).fold ∧
    ids.Pairwise fun a b => earliest s a < earliest s b

omit [SerdeJson] in
theorem InFoldOrder.roots {s : SessionSnapshot} (h : InFoldOrder s dag.folds)
    (hfold : dag.fold = (SummaryDag.load s).fold) :
    dag.roots.Pairwise fun a b => earliest s a < earliest s b := by
  obtain ⟨ids, hmap, hpairwise⟩ := h
  rw [← hfold] at hmap
  obtain rfl : dag.roots = ids := map_injective_iff.mpr dag.fold_injective hmap
  exact hpairwise

/-- A condensation folds roots that stand for older elements than those that it leaves out. -/
def FoldsOldest (c : SessionSnapshot × List ElementId × List ElementId) : Prop :=
  ∀ a ∈ c.2.1, ∀ b ∈ c.2.2, earliest c.1 a < earliest c.1 b

/-- The folds of the outcome are in order, and each condensation folds the oldest roots. -/
structure PlansInOrder (j : Journal) (owner : ActorId) (config : CompactionConfig)
    (draws : Draws) : Prop where
  folds : ∀ outcome, (plan j owner config draws).2 = .ok outcome →
    InFoldOrder (plan j owner config draws).1.snapshot outcome.folds
  condensations : ∀ c ∈ passFoldSets j owner config draws, FoldsOldest c

/-- A pass that goes forward is in order and leaves the roots in order. -/
theorem plan_dated (h : Dated j) (hforward : Forward j.snapshot config) (owner : ActorId)
    (draws : Draws) :
    Dated (plan j owner config draws).1 ∧ PlansInOrder j owner config draws := by
  obtain ⟨j', result, hplan⟩ : ∃ j' result, planStages j owner config draws = (j', result) :=
    ⟨_, _, rfl⟩
  obtain ⟨hdated, hfolds⟩ := planStages_dated h hforward hplan
  have hjournal : (plan j owner config draws).1 = j' := by
    unfold plan
    rw [hplan]
    cases result <;> rfl
  rw [hjournal]
  refine ⟨hdated, fun outcome houtcome => ?_, fun c hc a _ b hb => ?_⟩
  · rw [hjournal]
    unfold plan at houtcome
    rw [hplan] at houtcome
    cases result with
    | error e => cases houtcome
    | ok planned =>
      cases houtcome
      exact ⟨_, hfolds planned rfl, hdated.chronological⟩
  · rw [passFoldSets_forward h hforward c hc] at hb
    exact absurd hb not_mem_nil

end Stages

/-! ## Runs -/

section Runs

variable [SerdeJson] {j : Journal}

/-- Appending elements puts new ones between those of the body. -/
theorem append_body {patch : Patch} {world : Journal.Outside} (hsound : Sound j)
    (happends : (Event.append patch world).Appends) :
    (bodyIds j.snapshot).Sublist (bodyIds (j.appendPatch patch world).1.snapshot) := by
  have hone : ∀ {s s' : SessionSnapshot} {u : Undo} {parent : ElementId} {index : UInt32}
      {element : ElementSnapshot}, WellFormed s →
      s.applyCreate parent index element = (s', .ok u) → (bodyIds s).Sublist (bodyIds s') := by
    intro s s' u parent index element hwf happly
    have hcreated := applyCreate_created hwf happly
    unfold bodyIds getVisibleBody
    by_cases hparent : parent = staticId "body"
    · subst hparent
      rw [(applyCreate_children hwf happly).2]
      exact (sublist_insertIdx _ _ _).map _
    · obtain ⟨n, hn, -⟩ := hwf.containers (staticId "body") (by decide)
      rw [hcreated.others _ (Ne.symm hparent) fun heq => hcreated.fresh (heq ▸ hwf.used hn)]
  have hops : ∀ (ops : List PatchOp) (done : List Undo) (s s' : SessionSnapshot), WellFormed s →
      (∀ op ∈ ops, ∃ parent index element,
        op = .create parent index element ∧ parent ≠ staticId "summaries") →
      s.applyOps done ops = (s', .ok ()) → (bodyIds s).Sublist (bodyIds s') := by
    intro ops
    induction ops with
    | nil =>
      intro done s s' _ _ hrun
      cases hrun
      exact .refl _
    | cons op ops ih =>
      intro done s s' hwf hcreates hrun
      obtain ⟨⟨parent, index, element, rfl, -⟩, hrest⟩ := forall_mem_cons.mp hcreates
      unfold applyOps at hrun
      split at hrun
      · next s₁ u happly =>
        exact (hone hwf happly).trans (ih _ _ _ (hwf.applyOne happly) hrest hrun)
      · cases hrun
  obtain ⟨-, hcases⟩ :=
    hsound.append_cases (Prod.mk.eta (p := j.appendPatch patch world)).symm
  rcases hcases with ⟨s, offset, branch, -, happly, hsnapshot⟩ | ⟨-, hsame⟩
  · obtain ⟨-, -, s₁, hrun, rfl⟩ := applyPatch_ok happly
    rw [hsnapshot]
    exact hops patch.ops [] _ s₁ hsound.wellFormed happends hrun
  · rw [hsame]

/-- A step goes forward: every pass does. -/
def Goes (j : Journal) : Event → Prop
  | .append .. => True
  | .plan _ config _ => Forward j.snapshot config

/-- Every step that goes forward leaves the roots in order. -/
theorem step_dated {event : Event} (happends : event.Appends) (hgoes : Goes j event)
    (h : Dated j) : Dated (step j event) := by
  cases event with
  | append patch world =>
      obtain ⟨hsound', hsame⟩ := append_summaries h.sound happends
      have hbody := append_body h.sound happends
      have hload : SummaryDag.load (j.appendPatch patch world).1.snapshot =
          SummaryDag.load j.snapshot := by
        unfold SummaryDag.load
        exact congrArg (foldl SummaryDag.add _) hsame
      have hnodes : (SummaryDag.load j.snapshot).Of (summaries j.snapshot) :=
        SummaryDag.load_of h.summarised
      have hwithin : ∀ root x, x ∈ expandCovered (SummaryDag.load j.snapshot).nodes root →
          x ∈ bodyIds j.snapshot := by
        intro root x hx
        obtain ⟨e, he, -, hcovered⟩ := hnodes.mem_expand.mp hx
        exact h.within x ⟨e, he, hcovered⟩
      refine ⟨hsound', hsame ▸ h.summarised, fun x hx => ?_, ?_⟩
      · exact hbody.subset (h.within x (hsame ▸ hx))
      · show Chronological (j.appendPatch patch world).1.snapshot
        unfold Chronological earliest
        rw [hload]
        refine h.chronological.imp fun hlt => ?_
        exact findIdx_lt_of_sublist hbody (nodup_children hsound'.wellFormed _)
          (fun x _ hx => hwithin _ x (of_decide_eq_true hx))
          (fun x _ hx => hwithin _ x (of_decide_eq_true hx)) hlt
  | plan owner config draws => exact (plan_dated h hgoes owner draws).1

/-- In every run of appended elements and passes from a created journal whose passes go forward,
every pass is in order. -/
theorem run_inOrder {sessionId : SessionId} {j₀ : Journal}
    (hcreate : Journal.create sessionId = .ok j₀) {events : List Event} {owner : ActorId}
    {config : CompactionConfig} {draws : Draws} (happends : ∀ event ∈ events, event.Appends)
    (hgoes : Machine.Along step Goes j₀ (events ++ [.plan owner config draws])) :
    PlansInOrder (Machine.run step j₀ events) owner config draws := by
  have hempty := created_summaries hcreate
  have hstart : Dated j₀ := by
    refine ⟨⟨_, _, Journal.create_coherent hcreate⟩, hempty ▸ summarised_nil, fun x hx => ?_, ?_⟩
    · rw [hempty] at hx
      obtain ⟨e, he, -⟩ := hx
      cases he
    · unfold Chronological SummaryDag.load
      rw [show j₀.snapshot.children (staticId "summaries") = [] from hempty]
      exact List.Pairwise.nil
  obtain ⟨hbefore, hlast, -⟩ := (Machine.along_append events _).mp hgoes
  have hrun := Machine.invariant_along (fun j event h hok => step_dated hok.1 hok.2 h) hstart
    (hbefore.and_forall happends)
  exact (plan_dated hrun hlast owner draws).2

end Runs

end Omp2.Control

/-! ## A pass that goes back, and one that goes forward -/

namespace Omp2.Control

open Omp2.Json.Compact Omp2.State Journal

/-- A short message, a wide one and a last one. -/
def mixedTurns : List PatchOp :=
  [.create (staticId "body") 0 (userMessage ⟨"short", Eq.refl true⟩ "a"),
    .create (staticId "body") 1
      (userMessage ⟨"wide", Eq.refl true⟩ (String.ofList (List.replicate 33 'é'))),
    .create (staticId "body") 2 (userMessage ⟨"last", Eq.refl true⟩ "a")]

/-- The document with the mixed turns. -/
def mixedDocument : SessionSnapshot :=
  documentAfter (.empty exampleSession) "mixed turns" mixedTurns

/-- The document after a pass that elides the wide message. -/
def wideDocument : SessionSnapshot :=
  leafDocument mixedDocument ⟨"sum-m", Eq.refl true⟩ [⟨"wide", Eq.refl true⟩] wideInventory

/-- The document after a pass that goes back to the short message. -/
def backDocument : SessionSnapshot :=
  leafDocument wideDocument ⟨"sum-n", Eq.refl true⟩ [⟨"short", Eq.refl true⟩] shortInventory

/-- The turns are appended and a pass is planned. -/
def mixedEvents : List Event :=
  [.append (documentPatch (.empty exampleSession) "mixed turns" mixedTurns) fineOutside,
    .plan owner fixedPriceConfig (fineDraws ⟨"m", Eq.refl true⟩)]

theorem mixedEvents_appends : ∀ event ∈ mixedEvents, event.Appends := by
  refine List.forall_mem_cons.mpr ⟨fun op hop => ?_, List.forall_mem_singleton.mpr trivial⟩
  rcases List.mem_cons.mp hop with rfl | hop
  · exact ⟨_, _, _, rfl, by decide⟩
  · rcases List.mem_pair.mp hop with rfl | rfl
    · exact ⟨_, _, _, rfl, by decide⟩
    · exact ⟨_, _, _, rfl, by decide⟩

/-- A new journal with the mixed turns. -/
theorem exists_mixed : ∃ j₀, Journal.create exampleSession = .ok j₀ ∧
    ∃ log, Open (Machine.run step j₀ (mixedEvents.take 1)) log mixedDocument := by
  obtain ⟨j₀, hcreate, hopen₀⟩ := exists_open
  obtain ⟨j₁, r₁, happend, hopen₁⟩ := hopen₀.append "mixed turns" mixedTurns (by decide +kernel)
    (fits_of_draft (by decide +kernel))
  refine ⟨j₀, hcreate, [] ++ [r₁], ?_⟩
  have hrun : Machine.run step j₀ (mixedEvents.take 1) = j₁ := by
    show (j₀.appendPatch _ _).1 = j₁
    rw [happend]
  rw [hrun]
  exact hopen₁

/-- The second pass over the mixed turns folds the short message behind the wide one. -/
theorem not_inOrder : ¬ ∀ (sessionId : SessionId) (j₀ : Journal) (events : List Event)
    (owner : ActorId) (config : CompactionConfig) (draws : Draws),
    Journal.create sessionId = .ok j₀ → (∀ event ∈ events, event.Appends) →
      PlansInOrder (Machine.run step j₀ events) owner config draws := by
  intro h
  obtain ⟨j₀, hcreate, log, hopen₁⟩ := exists_mixed
  have hwide : LeafPass mixedDocument fixedPriceConfig ⟨"sum-m", Eq.refl true⟩ [⟨"wide", Eq.refl true⟩]
      wideInventory := by
    decide +kernel
  have hback : LeafPass wideDocument fixedPriceConfig ⟨"sum-n", Eq.refl true⟩
      [⟨"short", Eq.refl true⟩] shortInventory ∧
      (leafDag wideDocument ⟨"sum-n", Eq.refl true⟩ [⟨"short", Eq.refl true⟩] shortInventory).roots =
        [⟨"sum-m", Eq.refl true⟩, ⟨"sum-n", Eq.refl true⟩] ∧
      ¬ earliest backDocument ⟨"sum-m", Eq.refl true⟩ <
        earliest backDocument ⟨"sum-n", Eq.refl true⟩ := by
    decide +kernel
  have hidWide : Id.new ("sum-" ++ "m") = .ok (⟨"sum-m", Eq.refl true⟩ : ElementId) := rfl
  have hidBack : Id.new ("sum-" ++ "n") = .ok (⟨"sum-n", Eq.refl true⟩ : ElementId) := rfl
  obtain ⟨hback, hroots, hbehind⟩ := hback
  obtain ⟨j₂, r₂, planned₂, hplan₂, -, hopen₂⟩ := hopen₁.elides
    (show Id.new ("sum-" ++ (⟨"m", Eq.refl true⟩ : ElementId).value) = _ from hidWide) hwide
  have hrun : Machine.run step j₀ mixedEvents = j₂ := by
    show (plan (Machine.run step j₀ (mixedEvents.take 1)) _ _ _).1 = j₂
    rw [plan_of_stages hplan₂]
  have hopen : Open j₂ _ wideDocument := hopen₂
  obtain ⟨j₃, r₃, planned, hplan, ⟨hdag, -, -⟩, hopen₃⟩ := hopen.elides
    (show Id.new ("sum-" ++ (⟨"n", Eq.refl true⟩ : ElementId).value) = _ from hidBack) hback
  have hfolds := (h exampleSession j₀ mixedEvents owner fixedPriceConfig
    (fineDraws ⟨"n", Eq.refl true⟩) hcreate mixedEvents_appends).folds
  rw [hrun, plan_of_stages hplan] at hfolds
  have hsound : Sound j₂ := ⟨_, _, hopen.coherent⟩
  have hreadable : (SummaryDag.load j₂.snapshot).unreadable = 0 := by
    rw [hopen.snapshot]
    exact hback.1
  obtain ⟨hloaded, -, -⟩ := planStages_loaded hsound hreadable hplan
  have hnodes := (Loaded.load hloaded.sound hloaded.readable).nodes
  have hpairwise := InFoldOrder.roots (hfolds _ rfl) (hloaded.nodes.fold_eq hnodes)
  have hend : j₃.snapshot = backDocument := hopen₃.snapshot
  rw [hend, hdag, hroots] at hpairwise
  have hforward := List.pairwise_pair.mp hpairwise
  exact hbehind hforward

/-- The first pass over the mixed turns is in order. -/
theorem run_inOrder_mixedTurns : ∃ j₀, Journal.create exampleSession = .ok j₀ ∧
    PlansInOrder (Machine.run step j₀ (mixedEvents.take 1)) owner fixedPriceConfig
      (fineDraws ⟨"m", Eq.refl true⟩) := by
  obtain ⟨j₀, hcreate, log, hopen⟩ := exists_mixed
  have hstart : (SummaryDag.load mixedDocument).roots = [] ∧
      (summaries mixedDocument).length < 2 ^ 32 := by
    decide +kernel
  refine ⟨j₀, hcreate, run_inOrder hcreate (fun event hevent => ?_) ⟨trivial, ?_, trivial⟩⟩
  · exact mixedEvents_appends event (List.mem_of_mem_take hevent)
  · show Forward (Machine.run step j₀ (mixedEvents.take 1)).snapshot fixedPriceConfig
    rw [hopen.snapshot]
    refine ⟨fun _ root hroot => ?_, ?_, hstart.2⟩
    · rw [hstart.1] at hroot
      exact absurd hroot List.not_mem_nil
    · rw [hstart.1]
      split <;> decide

end Omp2.Control
