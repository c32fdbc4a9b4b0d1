import Omp2.Library.Regions
import Omp2.State.Subtrees

/-!
# Operations below some nodes

An operation that targets what is below some nodes, goes nowhere else and takes none of these nodes
from its place edits the document below them. Everything else keeps its contents, its parent and the
order of its children, and nothing comes to it or leaves it.
-/

namespace Omp2.State.SessionSnapshot

open OrderedTree Relation

variable {s s' s₁ : SessionSnapshot} {u : Undo} {op : PatchOp} {tops : ElementId → Prop}

/-- The nodes that are below none of `tops` are the same before and after. -/
def SameAbove (tops : ElementId → Prop) (s s' : SessionSnapshot) : Prop :=
  ∀ key n, (s.nodes[key]? = some n ∧ ¬ Below s.links tops key) ↔
    (s'.nodes[key]? = some n ∧ ¬ Below s'.links tops key)

theorem SameAbove.refl (tops : ElementId → Prop) (s : SessionSnapshot) : SameAbove tops s s :=
  fun _ _ => .rfl

theorem SameAbove.trans (h : SameAbove tops s s₁) (h' : SameAbove tops s₁ s') :
    SameAbove tops s s' :=
  fun key n => (h key n).trans (h' key n)

/-- An edit below `tops` that keeps the contents of the other nodes. -/
theorem sameAbove_of_edited (hwf : WellFormed s) (hwf' : WellFormed s') (htop : ¬ tops rootId)
    (hkept : ∀ key n, s.nodes[key]? = some n → ¬ Below s.links tops key → s'.nodes[key]? = some n)
    (hwithin : ∀ {key up}, Up s'.links key up → ¬ tops key →
      (s.links key = none ∨ Below s.links tops key) → Below s.links tops up) :
    SameAbove tops s s' := by
  have hedited : EditedBelow s.links s'.links tops := by
    refine ⟨fun {key link} hlink hout => ?_, hwithin⟩
    obtain ⟨n, hn, rfl⟩ := linksOf_eq_some.mp hlink
    exact linksOf_of_get (hkept key n hn hout)
  intro key n
  constructor
  · rintro ⟨hn, hout⟩
    have hn' := hkept key n hn hout
    refine ⟨hn', fun hbelow => ?_⟩
    have hiff := hedited.below_iff hwf.tree hwf'.tree htop (linksOf_of_get hn')
    rcases hiff.mp hbelow with hnone | hin
    · have hlink : s.links key = some n.link := linksOf_of_get hn
      rw [hlink] at hnone
      cases hnone
    · exact hout hin
  · rintro ⟨hn', hout⟩
    have hiff := hedited.below_iff hwf.tree hwf'.tree htop (linksOf_of_get hn')
    have hin := mt hiff.mpr hout
    cases hn : s.nodes[key]? with
    | none =>
      refine absurd (.inl ?_) hin
      show (s.nodes[key]?).map Node.link = none
      rw [hn]
      rfl
    | some n₀ =>
      have hsame := hkept key n₀ hn fun hbelow => hin (.inr hbelow)
      rw [hn'] at hsame
      cases hsame
      exact ⟨rfl, fun hbelow => hin (.inr hbelow)⟩

/-- What a deletion removes is below whatever the deleted element is below. -/
theorem below_of_removed {parent element : ElementId} {index : Nat}
    {removed : List (ElementId × Node)} {rest : NodeMap} (hwf : WellFormed s)
    (hroots : element ∉ roots) (h : Removed (s.unlink parent index) rest [element] removed)
    (hbelow : Below s.links tops element) {key : ElementId} {n : Node}
    (hn : s.nodes[key]? = some n) (hkey : key ∈ removed.map Prod.fst) :
    Below s.links tops key := by
  have hreach := hwf.tree.reaches (linksOf_of_get hn)
  clear hn
  induction hreach using ReflTransGen.head_induction_on with
  | refl =>
      obtain ⟨up, _, hup⟩ :=
        parent_of_removed hwf h rootId hkey fun heq => hroots (heq ▸ by decide +kernel)
      exact absurd hup (hwf.tree.not_up_top up)
  | @head key up hup _ ih =>
      by_cases heq : key = element
      · exact heq ▸ hbelow
      · obtain ⟨up', hmem, hup'⟩ := parent_of_removed hwf h key hkey heq
        obtain rfl := hup.unique hup'
        exact (ih hmem).climb hup

/-- An operation below `tops` leaves the other nodes alone. -/
theorem applyOne_sameAbove (hwf : WellFormed s) (h : s.applyOne op = (s', .ok u))
    (htop : ¬ tops rootId) (hinto : ∀ up, op.into = some up → Below s.links tops up)
    (htarget : ∀ key, op.target = some key → Below s.links tops key)
    (hplace : ∀ key, op.Displaces key → ¬ tops key) : SameAbove tops s s' := by
  have hwf' := hwf.applyOne h
  -- a node that has kept its parent is within what it was within
  have hstayed : ∀ {key up : ElementId} {n n' : Node}, s.nodes[key]? = some n →
      s'.nodes[key]? = some n' → n'.parent = n.parent → Up s'.links key up → ¬ tops key →
      (s.links key = none ∨ Below s.links tops key) → Below s.links tops up := by
    intro key up n n' hn hn' hparent hup hkey hin
    obtain ⟨link, hlink, hup⟩ := hup
    have hlink' : s'.links key = some n'.link := linksOf_of_get hn'
    rw [hlink'] at hlink
    cases hlink
    have hup₀ : Up s.links key up := ⟨_, linksOf_of_get hn, hparent.symm.trans hup⟩
    rcases hin with hnone | hbelow
    · have hsome : s.links key = some n.link := linksOf_of_get hn
      rw [hsome] at hnone
      cases hnone
    · exact hbelow.parent hkey hup₀
  have hpresent : ∀ {key up : ElementId}, Up s'.links key up → ∃ n', s'.nodes[key]? = some n' := by
    rintro key up ⟨link, hlink, _⟩
    obtain ⟨n', hn', _⟩ := linksOf_eq_some.mp hlink
    exact ⟨n', hn'⟩
  have hne : ∀ {key other : ElementId}, ¬ Below s.links tops key → Below s.links tops other →
      ¬ other = key := fun hout hin heq => hout (heq ▸ hin)
  cases applied_of_ok h with
  | @create parent index element h =>
      obtain ⟨hfresh, _, rfl, _⟩ := applyCreate_ok h
      have hparent := hinto parent rfl
      refine sameAbove_of_edited hwf hwf' htop (fun key n hn hout => ?_)
        fun {key up} hup hkey hin => ?_
      · have hnew : ¬ element.id = key := fun heq => hfresh (heq ▸ hwf.used hn)
        dsimp only
        rw [getElem?_insert, if_neg hnew, getElem?_modify,
          if_neg (hne hout hparent)]
        exact hn
      · obtain ⟨n', hn'⟩ := hpresent hup
        have hn₀ := hn'
        dsimp only at hn₀
        rw [getElem?_insert] at hn₀
        split at hn₀
        · obtain ⟨link, hlink, hlinkUp⟩ := hup
          have hlink' := linksOf_of_get hn'
          rw [show linksOf _ key = some link from hlink] at hlink'
          cases hlink'
          cases hn₀
          cases hlinkUp
          exact hparent
        · obtain ⟨n, hn, rfl⟩ := getElem?_modify_eq_some.mp hn₀
          refine hstayed hn hn' ?_ hup hkey hin
          split <;> rfl
  | @delete element h =>
      have helement := htarget element rfl
      rcases applyDelete_cases hwf h with ⟨_, hr, _⟩ |
        ⟨parent, index, node, _, removed, rest, hroots, hnode, hparent, _, _, hgone, rfl, _⟩
      · cases hr
      · have hup : Below s.links tops parent :=
          helement.parent (hplace element rfl) ⟨_, linksOf_of_get hnode, hparent⟩
        refine sameAbove_of_edited hwf hwf' htop (fun key n hn hout => ?_)
          fun {key up} hkeyUp hkey hin => ?_
        · dsimp only
          rw [hgone.get, if_neg (fun hmem =>
            hout (below_of_removed hwf hroots hgone helement hn hmem))]
          unfold unlink
          rw [getElem?_modify, if_neg (hne hout hup)]
          exact hn
        · obtain ⟨n', hn'⟩ := hpresent hkeyUp
          obtain ⟨_, n, hn, _, hsame⟩ := get_of_removed hgone hn'
          exact hstayed hn hn' hsame hkeyUp hkey hin
  | @move element parent index h =>
      have helement := htarget element rfl
      have hparent := hinto parent rfl
      obtain ⟨oldParent, oldIndex, node, _, _, _, hnode, hold, _, _, _, _, _, rfl, _⟩ :=
        applyMove_ok h
      have holdParent : Below s.links tops oldParent :=
        helement.parent (hplace element rfl) ⟨_, linksOf_of_get hnode, hold⟩
      refine sameAbove_of_edited hwf hwf' htop (fun key n hn hout => ?_)
        fun {key up} hup hkey hin => ?_
      · dsimp only [modifyNode]
        rw [getElem?_modify, if_neg (hne hout helement), getElem?_modify,
          if_neg (hne hout hparent), getElem?_modify,
          if_neg (hne hout holdParent)]
        exact hn
      · obtain ⟨n', hn'⟩ := hpresent hup
        obtain ⟨n₂, hn₂, heq⟩ := getElem?_modify_eq_some.mp hn'
        split at heq
        · obtain ⟨link, hlink, hlinkUp⟩ := hup
          have hlink' := linksOf_of_get hn'
          rw [show linksOf _ key = some link from hlink] at hlink'
          cases hlink'
          rw [heq] at hlinkUp
          cases hlinkUp
          exact hparent
        · obtain ⟨n₁, hn₁, rfl⟩ := getElem?_modify_eq_some.mp hn₂
          obtain ⟨n, hn, rfl⟩ := getElem?_modify_eq_some.mp hn₁
          refine hstayed hn hn' ?_ hup hkey hin
          rw [heq]
          split <;> split <;> rfl
  | @content _ target change hkey hs' _ =>
      subst hs'
      have hbelow := htarget target hkey
      refine sameAbove_of_edited hwf hwf' htop (fun key n hn hout => ?_)
        fun {key up} hup hkey hin => ?_
      · dsimp only [modifyNode]
        rw [getElem?_modify, if_neg (hne hout hbelow)]
        exact hn
      · obtain ⟨n', hn'⟩ := hpresent hup
        obtain ⟨n, hn, heq⟩ := getElem?_modify_eq_some.mp hn'
        refine hstayed hn hn' ?_ hup hkey hin
        rw [heq]
        split <;> rfl

end Omp2.State.SessionSnapshot
