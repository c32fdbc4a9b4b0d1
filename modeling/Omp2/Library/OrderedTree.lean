import Mathlib.Data.List.InsertIdx
import Mathlib.Data.List.Nodup
import Mathlib.Logic.Relation
import Mathlib.Logic.Function.Basic

/-!
# Rooted ordered trees as parent and child links

A tree over arbitrary keys is a partial map from a key to its parent and its list of
children. `Rooted` says that the two kinds of links describe one tree. The three edits of
such a tree are the insertion of a leaf, the removal of a subtree, and the move of a subtree
to a place outside of it; each keeps the tree rooted. `Path` lists the keys that a climb to
the root meets, which bounds the number of steps of the climb.
-/

namespace Omp2.OrderedTree

open Relation List

variable {K : Type*}

/-- The parent of a key and its children in order. -/
@[ext] structure Link (K : Type*) where
  parent : Option K
  children : List K

/-- A partial map from keys to links; an absent key has none. -/
abbrev Links (K : Type*) := K → Option (Link K)

/-- `Up t a b` says that `b` is the parent of `a`. -/
def Up (t : Links K) (a b : K) : Prop :=
  ∃ link, t a = some link ∧ link.parent = some b

/-- The links form one tree below `top`. -/
structure Rooted (t : Links K) (top : K) : Prop where
  topLink : ∃ link, t top = some link ∧ link.parent = none
  /-- Every other key is a child of its parent. -/
  listed : ∀ {key link}, t key = some link → key ≠ top →
    ∃ up upLink, link.parent = some up ∧ t up = some upLink ∧ key ∈ upLink.children
  /-- A listed child is present and names its parent. -/
  child : ∀ {key link c}, t key = some link → c ∈ link.children →
    ∃ childLink, t c = some childLink ∧ childLink.parent = some key
  nodup : ∀ {key link}, t key = some link → link.children.Nodup
  /-- Climbing from any key ends at the top. -/
  reaches : ∀ {key link}, t key = some link → ReflTransGen (Up t) key top

theorem Up.unique {t : Links K} {a b c : K} (hb : Up t a b) (hc : Up t a c) : b = c := by
  obtain ⟨link, hlink, hparent⟩ := hb
  obtain ⟨other, hother, hparent'⟩ := hc
  rw [hlink] at hother
  cases hother
  exact Option.some.inj (hparent.symm.trans hparent')

namespace Rooted

variable {t : Links K} {top : K}

theorem not_up_top (h : Rooted t top) (b : K) : ¬ Up t top b := by
  rintro ⟨link, hlink, hparent⟩
  obtain ⟨other, hother, hnone⟩ := h.topLink
  rw [hlink] at hother
  cases hother
  rw [hparent] at hnone
  cases hnone

theorem parent_of_mem (h : Rooted t top) {a b : K} {linkA linkB : Link K}
    (ha : t a = some linkA) (hb : t b = some linkB) (hmem : b ∈ linkA.children) :
    linkB.parent = some a := by
  obtain ⟨link, hlink, hparent⟩ := h.child ha hmem
  rw [hb] at hlink
  cases hlink
  exact hparent

theorem not_mem_of_absent (h : Rooted t top) {key a : K} {link : Link K}
    (habsent : t key = none) (ha : t a = some link) : key ∉ link.children := by
  intro hmem
  obtain ⟨other, hother, _⟩ := h.child ha hmem
  rw [habsent] at hother
  cases hother

end Rooted

/-! ## Climbing to the root -/

/-- `Path t key keys` says that the climb from `key` meets exactly `keys`. -/
inductive Path (t : Links K) : K → List K → Prop where
  | root (key link) : t key = some link → link.parent = none → Path t key [key]
  | climb (key up link keys) : t key = some link → link.parent = some up → Path t up keys →
      Path t key (key :: keys)

namespace Path

variable {t : Links K}

/-- A key has one path. -/
theorem unique {key : K} {keys others : List K} (h : Path t key keys)
    (hother : Path t key others) : keys = others := by
  induction h generalizing others with
  | root key link hlink hnone =>
      cases hother with
      | root => rfl
      | climb _ up link' rest hlink' hparent _ =>
        rw [hlink] at hlink'
        cases hlink'
        rw [hparent] at hnone
        cases hnone
  | climb key up link keys hlink hparent _ ih =>
      cases hother with
      | root _ link' hlink' hnone =>
        rw [hlink] at hlink'
        cases hlink'
        rw [hparent] at hnone
        cases hnone
      | climb _ up' link' rest hlink' hparent' hrest =>
        rw [hlink] at hlink'
        cases hlink'
        rw [hparent] at hparent'
        cases hparent'
        rw [ih hrest]

theorem present {key x : K} {keys : List K} (h : Path t key keys) (hx : x ∈ keys) :
    ∃ link, t x = some link := by
  induction h with
  | root key link hlink _ =>
      obtain rfl := mem_singleton.mp hx
      exact ⟨link, hlink⟩
  | climb key up link keys hlink _ _ ih =>
      rcases mem_cons.mp hx with rfl | hx
      · exact ⟨link, hlink⟩
      · exact ih hx

/-- The path of a key on the way is the rest of the way. -/
theorem suffix {key x : K} {keys : List K} (h : Path t key keys) (hx : x ∈ keys) :
    ∃ rest, rest.length ≤ keys.length ∧ Path t x rest := by
  induction h with
  | root key link hlink hnone =>
      obtain rfl := mem_singleton.mp hx
      exact ⟨[x], Nat.le_refl _, .root x link hlink hnone⟩
  | climb key up link keys hlink hparent hrest ih =>
      rcases mem_cons.mp hx with rfl | hx
      · exact ⟨x :: keys, Nat.le_refl _, .climb x up link keys hlink hparent hrest⟩
      · obtain ⟨rest, hlength, hpath⟩ := ih hx
        exact ⟨rest, by simp only [length_cons]; omega, hpath⟩

/-- A climb never meets a key twice. -/
theorem nodup {key : K} {keys : List K} (h : Path t key keys) : keys.Nodup := by
  induction h with
  | root key => exact nodup_singleton key
  | climb key up link keys hlink hparent hrest ih =>
      refine nodup_cons.mpr ⟨fun hmem => ?_, ih⟩
      -- a second visit would make the path a proper part of itself
      obtain ⟨rest, hlength, hpath⟩ := hrest.suffix hmem
      have heq := hpath.unique (.climb key up link keys hlink hparent hrest)
      rw [heq, length_cons] at hlength
      omega

/-- The keys on a path are the ancestors of its start. -/
theorem mem_iff {key x : K} {keys : List K} (h : Path t key keys) :
    x ∈ keys ↔ ReflTransGen (Up t) key x := by
  induction h with
  | root key link hlink hnone =>
      rw [mem_singleton]
      refine ⟨fun hx => hx ▸ .refl, fun hreach => ?_⟩
      rcases hreach.cases_head with rfl | ⟨up, ⟨link', hlink', hparent⟩, _⟩
      · rfl
      · rw [hlink] at hlink'
        cases hlink'
        rw [hparent] at hnone
        cases hnone
  | climb key up link keys hlink hparent hrest ih =>
      have hup : Up t key up := ⟨link, hlink, hparent⟩
      rw [mem_cons, ih]
      constructor
      · rintro (rfl | hreach)
        · exact .refl
        · exact .head hup hreach
      · intro hreach
        rcases hreach.cases_head with rfl | ⟨next, hnext, hreach⟩
        · exact .inl rfl
        · rw [hup.unique hnext]
          exact .inr hreach

end Path

/-- Every key of a rooted tree has a path. -/
theorem Rooted.exists_path {t : Links K} {top key : K} {link : Link K} (h : Rooted t top)
    (hkey : t key = some link) : ∃ keys, Path t key keys := by
  have hreach := h.reaches hkey
  induction hreach using ReflTransGen.head_induction_on generalizing link with
  | refl =>
      obtain ⟨topLink, htop, hnone⟩ := h.topLink
      exact ⟨[top], .root top topLink htop hnone⟩
  | @head a up hup _ ih =>
      obtain ⟨upLink, hupLink⟩ : ∃ upLink, t up = some upLink := by
        by_cases htop : a = top
        · exact absurd (htop ▸ hup) (h.not_up_top up)
        · obtain ⟨up', upLink, hparent, hupLink, _⟩ := h.listed hkey htop
          obtain rfl := hup.unique ⟨link, hkey, hparent⟩
          exact ⟨upLink, hupLink⟩
      obtain ⟨keys, hkeys⟩ := ih hupLink
      obtain ⟨link', hlink', hparent⟩ := hup
      exact ⟨a :: keys, .climb a up link' keys hlink' hparent hkeys⟩

/-- A key is not an ancestor of its parent. -/
theorem Rooted.not_reaches_of_up {t : Links K} {top key up : K} (h : Rooted t top)
    (hup : Up t key up) : ¬ ReflTransGen (Up t) up key := by
  intro hreach
  obtain ⟨link, hkey, hparent⟩ := hup
  obtain ⟨keys, hkeys⟩ := h.exists_path hkey
  cases hkeys with
  | root _ link' hlink' hnone =>
      rw [hkey] at hlink'
      cases hlink'
      rw [hparent] at hnone
      cases hnone
  | climb _ up' link' rest hlink' hparent' hrest =>
      have heq : up' = up := Up.unique ⟨link', hlink', hparent'⟩ ⟨link, hkey, hparent⟩
      subst heq
      have hnodup := (Path.climb key up' link' rest hlink' hparent' hrest).nodup
      exact (nodup_cons.mp hnodup).1 (hrest.mem_iff.mpr hreach)

/-! ## Edits -/

/-- Without repetitions, erasing an index removes every mention of what stood there. -/
theorem mem_eraseIdx_of_nodup {l : List K} {index : Nat} {key x : K} (hnodup : l.Nodup)
    (hindex : l[index]? = some key) : x ∈ l.eraseIdx index ↔ x ∈ l ∧ x ≠ key := by
  rw [mem_eraseIdx_iff_getElem?]
  constructor
  · rintro ⟨i, hne, hi⟩
    refine ⟨mem_of_getElem? hi, ?_⟩
    rintro rfl
    obtain ⟨hlt, _⟩ := List.getElem?_eq_some_iff.mp hi
    exact hne ((List.getElem?_inj hlt hnodup).mp (hi.trans hindex.symm))
  · rintro ⟨hmem, hne⟩
    obtain ⟨i, hi⟩ := mem_iff_getElem?.mp hmem
    refine ⟨i, ?_, hi⟩
    rintro rfl
    exact hne (Option.some.inj (hi.symm.trans hindex))

variable [DecidableEq K]

/-- Rewrite the children of one key, if it is present. -/
def onChildren (t : Links K) (key : K) (f : List K → List K) : Links K :=
  fun a => (t a).map fun link => if a = key then { link with children := f link.children } else link

/-- Add a new leaf below `up`. -/
def insertLeaf (t : Links K) (up : K) (index : Nat) (key : K) : Links K :=
  Function.update (onChildren t up fun l => l.insertIdx index key) key (some ⟨some up, []⟩)

/-- Unlink the child at an index below `up` and drop a set of keys. -/
def prune (t : Links K) (up : K) (index : Nat) (removed : List K) : Links K :=
  fun key => if key ∈ removed then none else onChildren t up (fun l => l.eraseIdx index) key

/-- Give a key a new parent. -/
def onParent (t : Links K) (key up : K) : Links K :=
  fun a => (t a).map fun link => if a = key then { link with parent := some up } else link

/-- Move a key and its subtree below `up`. -/
def relocate (t : Links K) (key oldUp : K) (oldIndex : Nat) (up : K) (index : Nat) : Links K :=
  let t := onChildren t oldUp fun l => l.eraseIdx oldIndex
  let t := onChildren t up fun l => l.insertIdx index key
  onParent t key up

namespace Rooted

variable {t : Links K} {top key up : K} {link upLink : Link K} {index : Nat}

/-- Inserting a leaf under a new key keeps the tree rooted. -/
theorem insertLeaf (h : Rooted t top) (hfresh : t key = none) (hup : t up = some upLink)
    (hindex : index ≤ upLink.children.length) :
    Rooted (OrderedTree.insertLeaf t up index key) top := by
  have hne : up ≠ key := by
    rintro rfl
    rw [hfresh] at hup
    cases hup
  have hself : OrderedTree.insertLeaf t up index key key = some ⟨some up, []⟩ := by
    simp [OrderedTree.insertLeaf]
  have hat : ∀ a, a ≠ key → OrderedTree.insertLeaf t up index key a =
      onChildren t up (fun l => l.insertIdx index key) a := by
    intro a ha
    simp [OrderedTree.insertLeaf, ha]
  have hold : ∀ {a l}, t a = some l → ∃ l', OrderedTree.insertLeaf t up index key a = some l' ∧
      l'.parent = l.parent ∧ ∀ x ∈ l.children, x ∈ l'.children := by
    intro a l ha
    have hak : a ≠ key := by
      rintro rfl
      rw [hfresh] at ha
      cases ha
    rw [hat a hak]
    by_cases hau : a = up
    · subst hau
      rw [hup] at ha
      cases ha
      refine ⟨{ upLink with children := upLink.children.insertIdx index key }, ?_, rfl, ?_⟩
      · simp [onChildren, hup]
      · intro x hx
        exact (mem_insertIdx hindex).mpr (.inr hx)
    · exact ⟨l, by simp [onChildren, ha, hau], rfl, fun x hx => hx⟩
  have hmono : ∀ a b, Up t a b → Up (OrderedTree.insertLeaf t up index key) a b := by
    rintro a b ⟨l, ha, hparent⟩
    obtain ⟨l', ha', hparent', _⟩ := hold ha
    exact ⟨l', ha', hparent'.trans hparent⟩
  -- a present key is either the new leaf or an old key, with at most the leaf added below it
  have hcases : ∀ {a l}, OrderedTree.insertLeaf t up index key a = some l →
      (a = key ∧ l = ⟨some up, []⟩) ∨ ∃ l₀, t a = some l₀ ∧ l.parent = l₀.parent ∧
        ((a = up ∧ l.children = l₀.children.insertIdx index key) ∨ l.children = l₀.children) := by
    intro a l ha
    by_cases hak : a = key
    · subst hak
      rw [hself] at ha
      exact .inl ⟨rfl, (Option.some.inj ha).symm⟩
    · rw [hat a hak] at ha
      obtain ⟨l₀, hl₀, rfl⟩ := Option.map_eq_some_iff.mp ha
      refine .inr ⟨l₀, hl₀, ?_⟩
      by_cases hau : a = up
      · simp [hau]
      · simp [hau]
  refine ⟨?_, ?_, ?_, ?_, ?_⟩
  · obtain ⟨l, htop, hnone⟩ := h.topLink
    obtain ⟨l', htop', hparent, _⟩ := hold htop
    exact ⟨l', htop', hparent.trans hnone⟩
  · intro a l ha hatop
    rcases hcases ha with ⟨rfl, rfl⟩ | ⟨l₀, ha₀, hparent, _⟩
    · refine ⟨up, { upLink with children := upLink.children.insertIdx index a }, rfl, ?_, ?_⟩
      · rw [hat up hne]
        simp [onChildren, hup]
      · exact (mem_insertIdx hindex).mpr (.inl rfl)
    · obtain ⟨b, bl, hb, hbl, hmem⟩ := h.listed ha₀ hatop
      obtain ⟨bl', hbl', _, hsub⟩ := hold hbl
      exact ⟨b, bl', hparent.trans hb, hbl', hsub a hmem⟩
  · intro a l c ha hc
    rcases hcases ha with ⟨rfl, rfl⟩ | ⟨l₀, ha₀, _, hchildren⟩
    · cases hc
    · have hc₀ : c ∈ l₀.children ∨ (c = key ∧ a = up) := by
        rcases hchildren with ⟨rfl, hchildren⟩ | hchildren
        · rw [hup] at ha₀
          cases ha₀
          rw [hchildren, mem_insertIdx hindex] at hc
          exact hc.symm.imp id fun hc => ⟨hc, rfl⟩
        · exact .inl (hchildren ▸ hc)
      rcases hc₀ with hc₀ | ⟨rfl, rfl⟩
      · obtain ⟨cl, hcl, hparent⟩ := h.child ha₀ hc₀
        obtain ⟨cl', hcl', hparent', _⟩ := hold hcl
        exact ⟨cl', hcl', hparent'.trans hparent⟩
      · exact ⟨⟨some a, []⟩, hself, rfl⟩
  · intro a l ha
    rcases hcases ha with ⟨rfl, rfl⟩ | ⟨l₀, ha₀, _, hchildren⟩
    · exact nodup_nil
    · rcases hchildren with ⟨rfl, hchildren⟩ | hchildren
      · rw [hup] at ha₀
        cases ha₀
        rw [hchildren, (perm_insertIdx key _ hindex).nodup_iff, nodup_cons]
        exact ⟨h.not_mem_of_absent hfresh hup, h.nodup hup⟩
      · rw [hchildren]
        exact h.nodup ha₀
  · intro a l ha
    rcases hcases ha with ⟨rfl, rfl⟩ | ⟨l₀, ha₀, _, _⟩
    · exact .head ⟨_, hself, rfl⟩ (ReflTransGen.mono hmono _ _ (h.reaches hup))
    · exact ReflTransGen.mono hmono _ _ (h.reaches ha₀)

/-- Removing a whole subtree keeps the tree rooted. -/
theorem prune (h : Rooted t top) {removed : List K} (hkey : Up t key up)
    (hup : t up = some upLink) (hindex : upLink.children[index]? = some key)
    (hself : key ∈ removed)
    (hparent : ∀ x ∈ removed, x ≠ key → ∃ y ∈ removed, Up t x y)
    (hchildren : ∀ x ∈ removed, ∀ l,
      onChildren t up (fun l => l.eraseIdx index) x = some l → ∀ c ∈ l.children, c ∈ removed) :
    Rooted (OrderedTree.prune t up index removed) top := by
  have hup_kept : up ∉ removed := by
    -- climbing from a removed key stays in the set until it meets the removed subtree's root
    have hclimb : ∀ x, ReflTransGen (Up t) x top → x ∈ removed → ReflTransGen (Up t) x key := by
      intro x hreach
      induction hreach using ReflTransGen.head_induction_on with
      | refl =>
        intro hmem
        by_cases heq : top = key
        · exact heq ▸ .refl
        · obtain ⟨y, _, hy⟩ := hparent top hmem heq
          exact absurd hy (h.not_up_top y)
      | @head a b hab _ ih =>
        intro hmem
        by_cases heq : a = key
        · exact heq ▸ .refl
        · obtain ⟨y, hy, hay⟩ := hparent a hmem heq
          obtain rfl := hab.unique hay
          exact .head hab (ih hy)
    exact fun hmem => h.not_reaches_of_up hkey (hclimb up (h.reaches hup) hmem)
  have hnodup_up := h.nodup hup
  have hmem_cut : ∀ {a l x}, t a = some l → x ≠ key → (x ∈ l.children ↔
      x ∈ (if a = up then l.children.eraseIdx index else l.children)) := by
    intro a l x ha hx
    by_cases hau : a = up
    · subst hau
      rw [hup] at ha
      cases ha
      simp [mem_eraseIdx_of_nodup hnodup_up hindex, hx]
    · simp [hau]
  have hcases : ∀ {a l}, OrderedTree.prune t up index removed a = some l →
      a ∉ removed ∧ ∃ l₀, t a = some l₀ ∧ l.parent = l₀.parent ∧
        l.children = (if a = up then l₀.children.eraseIdx index else l₀.children) := by
    intro a l ha
    by_cases hmem : a ∈ removed
    · simp [OrderedTree.prune, hmem] at ha
    · simp only [OrderedTree.prune, hmem, if_false, onChildren] at ha
      obtain ⟨l₀, hl₀, rfl⟩ := Option.map_eq_some_iff.mp ha
      refine ⟨hmem, l₀, hl₀, ?_⟩
      by_cases hau : a = up
      · simp [hau]
      · simp [hau]
  have hkept : ∀ {a l}, t a = some l → a ∉ removed →
      ∃ l', OrderedTree.prune t up index removed a = some l' ∧ l'.parent = l.parent ∧
        l'.children = (if a = up then l.children.eraseIdx index else l.children) := by
    intro a l ha hmem
    by_cases hau : a = up
    · subst hau
      simp [OrderedTree.prune, hmem, onChildren, ha]
    · simp [OrderedTree.prune, hmem, onChildren, ha, hau]
  have hup_outside : ∀ {a b}, a ∉ removed → Up t a b → b ∉ removed := by
    rintro a b ha ⟨l, hl, hb⟩ hmem
    have hatop : a ≠ top := by
      rintro rfl
      exact h.not_up_top b ⟨l, hl, hb⟩
    obtain ⟨b', bl, hb', hbl, hlisted⟩ := h.listed hl hatop
    obtain rfl := Option.some.inj (hb.symm.trans hb')
    have hbup : b ≠ up := fun heq => hup_kept (heq ▸ hmem)
    refine ha (hchildren b hmem bl ?_ a hlisted)
    simp [onChildren, hbl, hbup]
  have hmono : ∀ {a}, a ∉ removed → ReflTransGen (Up t) a top →
      ReflTransGen (Up (OrderedTree.prune t up index removed)) a top := by
    intro a ha hreach
    induction hreach using ReflTransGen.head_induction_on with
    | refl => exact .refl
    | @head a b hab _ ih =>
      have hb := hup_outside ha hab
      obtain ⟨l, hl, hparent'⟩ := hab
      obtain ⟨l', hl', hp', _⟩ := hkept hl ha
      exact .head ⟨l', hl', hp'.trans hparent'⟩ (ih hb)
  refine ⟨?_, ?_, ?_, ?_, ?_⟩
  · obtain ⟨l, htop, hnone⟩ := h.topLink
    have hmem : top ∉ removed := by
      intro hmem
      obtain ⟨y, _, hy⟩ := hparent top hmem (fun heq => h.not_up_top up (heq ▸ hkey))
      exact h.not_up_top y hy
    obtain ⟨l', htop', hp', _⟩ := hkept htop hmem
    exact ⟨l', htop', hp'.trans hnone⟩
  · intro a l ha hatop
    obtain ⟨hmem, l₀, ha₀, hp, _⟩ := hcases ha
    obtain ⟨b, bl, hb, hbl, hlisted⟩ := h.listed ha₀ hatop
    obtain ⟨bl', hbl', _, hbc⟩ := hkept hbl (hup_outside hmem ⟨l₀, ha₀, hb⟩)
    have hak : a ≠ key := fun heq => hmem (heq ▸ hself)
    exact ⟨b, bl', hp.trans hb, hbl', by rw [hbc]; exact (hmem_cut hbl hak).mp hlisted⟩
  · intro a l c ha hc
    obtain ⟨hmem, l₀, ha₀, _, hlc⟩ := hcases ha
    rw [hlc] at hc
    have hc₀ : c ∈ l₀.children := by
      split at hc
      · exact mem_of_mem_eraseIdx hc
      · exact hc
    obtain ⟨cl, hcl, hcp⟩ := h.child ha₀ hc₀
    have hck : c ≠ key := by
      rintro rfl
      have hau : a = up := Up.unique ⟨cl, hcl, hcp⟩ hkey
      subst hau
      rw [hup] at ha₀
      cases ha₀
      rw [if_pos rfl, mem_eraseIdx_of_nodup hnodup_up hindex] at hc
      exact hc.2 rfl
    have hcmem : c ∉ removed := by
      intro hcmem
      obtain ⟨y, hy, hcy⟩ := hparent c hcmem hck
      exact hmem (Up.unique ⟨cl, hcl, hcp⟩ hcy ▸ hy)
    obtain ⟨cl', hcl', hcp', _⟩ := hkept hcl hcmem
    exact ⟨cl', hcl', hcp'.trans hcp⟩
  · intro a l ha
    obtain ⟨_, l₀, ha₀, _, hlc⟩ := hcases ha
    rw [hlc]
    split
    · exact (h.nodup ha₀).sublist (eraseIdx_sublist ..)
    · exact h.nodup ha₀
  · intro a l ha
    obtain ⟨hmem, l₀, ha₀, _, _⟩ := hcases ha
    exact hmono hmem (h.reaches ha₀)

/-- Moving a subtree to a parent outside of it keeps the tree rooted. -/
theorem relocate (h : Rooted t top) {oldUp : K} {oldLink : Link K} {oldIndex : Nat}
    (hkey : t key = some link) (hparent : link.parent = some oldUp)
    (hold : t oldUp = some oldLink) (holdIndex : oldLink.children[oldIndex]? = some key)
    (hup : t up = some upLink)
    (hindex : index ≤ upLink.children.length - (if oldUp = up then 1 else 0))
    (houtside : ¬ ReflTransGen (Up t) up key) :
    Rooted (OrderedTree.relocate t key oldUp oldIndex up index) top := by
  have hupkey : up ≠ key := fun heq => houtside (heq ▸ .refl)
  have hold_up : Up t key oldUp := ⟨link, hkey, hparent⟩
  have holdkey : oldUp ≠ key := fun heq => h.not_reaches_of_up hold_up (heq ▸ .refl)
  -- the children of a key once the moved key is unlinked from its old parent
  let cut : K → List K → List K := fun a l => if a = oldUp then l.eraseIdx oldIndex else l
  have hcut : ∀ {a l x}, t a = some l → (x ∈ cut a l.children ↔ x ∈ l.children ∧ x ≠ key) := by
    intro a l x ha
    by_cases hao : a = oldUp
    · subst hao
      rw [hold] at ha
      cases ha
      simp [cut, mem_eraseIdx_of_nodup (h.nodup hold) holdIndex]
    · simp only [cut, if_neg hao, iff_self_and]
      rintro hx rfl
      have hpa := h.parent_of_mem ha hkey hx
      exact hao (Option.some.inj (hpa.symm.trans hparent))
  have hcut_nodup : ∀ {a l}, t a = some l → (cut a l.children).Nodup := by
    intro a l ha
    by_cases hao : a = oldUp
    · simpa [cut, hao] using (h.nodup ha).sublist (eraseIdx_sublist _ oldIndex)
    · simpa [cut, hao] using h.nodup ha
  have hcut_length : index ≤ (cut up upLink.children).length := by
    by_cases hou : oldUp = up
    · subst hou
      rw [hold] at hup
      cases hup
      obtain ⟨hlt, _⟩ := List.getElem?_eq_some_iff.mp holdIndex
      simp only [if_true] at hindex
      simp only [cut, if_true, List.length_eraseIdx, hlt]
      exact hindex
    · simp only [hou, if_false, Nat.sub_zero] at hindex
      simpa [cut, Ne.symm hou] using hindex
  have hget : ∀ a, OrderedTree.relocate t key oldUp oldIndex up index a = (t a).map fun l =>
      ⟨if a = key then some up else l.parent,
        if a = up then (cut a l.children).insertIdx index key else cut a l.children⟩ := by
    intro a
    cases ha : t a with
    | none => simp [OrderedTree.relocate, onParent, onChildren, ha]
    | some l =>
      by_cases hak : a = key <;> by_cases hau : a = up <;> by_cases hao : a = oldUp <;>
        simp [OrderedTree.relocate, onParent, onChildren, ha, hak, hau, hao, cut] <;>
        simp_all
  have hmem : ∀ {a l x}, t a = some l →
      (x ∈ (if a = up then (cut a l.children).insertIdx index key else cut a l.children) ↔
        (x ∈ l.children ∧ x ≠ key) ∨ (x = key ∧ a = up)) := by
    intro a l x ha
    by_cases hau : a = up
    · subst hau
      rw [hup] at ha
      cases ha
      rw [if_pos rfl, mem_insertIdx hcut_length, hcut hup]
      simp [or_comm]
    · simp [hau, hcut ha]
  have hup' : ∀ {a b}, a ≠ key → Up t a b →
      Up (OrderedTree.relocate t key oldUp oldIndex up index) a b := by
    rintro a b hak ⟨l, ha, hb⟩
    exact ⟨_, by rw [hget, ha]; rfl, by simpa [hak] using hb⟩
  have hkey_up : Up (OrderedTree.relocate t key oldUp oldIndex up index) key up :=
    ⟨_, by rw [hget, hkey]; rfl, by simp⟩
  have hclimb : ∀ {a}, ReflTransGen (Up t) a top → ¬ ReflTransGen (Up t) a key →
      ReflTransGen (Up (OrderedTree.relocate t key oldUp oldIndex up index)) a top := by
    intro a hreach
    induction hreach using ReflTransGen.head_induction_on with
    | refl => exact fun _ => .refl
    | @head a b hab _ ih =>
      intro hnot
      have hak : a ≠ key := fun heq => hnot (heq ▸ .refl)
      exact .head (hup' hak hab) (ih fun hb => hnot (.head hab hb))
  have hreaches : ∀ {a}, ReflTransGen (Up t) a top →
      ReflTransGen (Up (OrderedTree.relocate t key oldUp oldIndex up index)) a top := by
    intro a hreach
    induction hreach using ReflTransGen.head_induction_on with
    | refl => exact .refl
    | @head a b hab _ ih =>
      by_cases hak : a = key
      · subst hak
        exact .head hkey_up (hclimb (h.reaches hup) houtside)
      · exact .head (hup' hak hab) ih
  refine ⟨?_, ?_, ?_, ?_, ?_⟩
  · obtain ⟨l, htop, hnone⟩ := h.topLink
    have htk : top ≠ key := fun heq => h.not_up_top oldUp (heq ▸ hold_up)
    exact ⟨_, by rw [hget, htop]; rfl, by simpa [htk] using hnone⟩
  · intro a l ha hatop
    rw [hget] at ha
    obtain ⟨l₀, ha₀, rfl⟩ := Option.map_eq_some_iff.mp ha
    by_cases hak : a = key
    · subst hak
      exact ⟨up, _, by simp, by rw [hget, hup]; rfl, (hmem hup).mpr (.inr ⟨rfl, rfl⟩)⟩
    · obtain ⟨b, bl, hb, hbl, hlisted⟩ := h.listed ha₀ hatop
      exact ⟨b, _, by simpa [hak] using hb, by rw [hget, hbl]; rfl,
        (hmem hbl).mpr (.inl ⟨hlisted, hak⟩)⟩
  · intro a l c ha hc
    rw [hget] at ha
    obtain ⟨l₀, ha₀, rfl⟩ := Option.map_eq_some_iff.mp ha
    rcases (hmem ha₀).mp hc with ⟨hc₀, hck⟩ | ⟨rfl, rfl⟩
    · obtain ⟨cl, hcl, hcp⟩ := h.child ha₀ hc₀
      exact ⟨_, by rw [hget, hcl]; rfl, by simpa [hck] using hcp⟩
    · exact ⟨_, by rw [hget, hkey]; rfl, by simp⟩
  · intro a l ha
    rw [hget] at ha
    obtain ⟨l₀, ha₀, rfl⟩ := Option.map_eq_some_iff.mp ha
    by_cases hau : a = up
    · subst hau
      rw [hup] at ha₀
      cases ha₀
      simp only [if_true]
      rw [(perm_insertIdx key _ hcut_length).nodup_iff, nodup_cons]
      exact ⟨fun hx => ((hcut hup).mp hx).2 rfl, hcut_nodup hup⟩
    · simpa [hau] using hcut_nodup ha₀
  · intro a l ha
    rw [hget] at ha
    obtain ⟨l₀, ha₀, _⟩ := Option.map_eq_some_iff.mp ha
    exact hreaches (h.reaches ha₀)

end Rooted

end Omp2.OrderedTree
