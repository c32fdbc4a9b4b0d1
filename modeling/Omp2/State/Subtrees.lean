import Omp2.State.Growth
import Omp2.State.Untouched

/-!
# The children of a node under an operation

An operation that neither targets an element nor goes into a node keeps the element among the
children of that node or outside of them. So a patch that spares part of the visible body keeps its
elements and what they hold.
-/

namespace Omp2

/-- The node whose children an operation adds to. -/
def PatchOp.into : PatchOp → Option ElementId
  | .create parent _ _ | .move _ parent _ => some parent
  | _ => none

/-- What an operation makes of the contents of an element. -/
def PatchOp.rewrite (e : ElementSnapshot) : PatchOp → ElementSnapshot
  | .setAttribute key name value =>
    if key = e.id then { e with attributes := e.attributes.insert name value } else e
  | .removeAttribute key name =>
    if key = e.id then { e with attributes := e.attributes.erase name } else e
  | .replaceText key text => if key = e.id then { e with text } else e
  | .appendText key text => if key = e.id then { e with text := e.text ++ text } else e
  | .replacePayload key payload => if key = e.id then { e with payload := some payload } else e
  | .create .. | .delete .. | .move .. => e

@[simp] theorem PatchOp.rewrite_id (op : PatchOp) (e : ElementSnapshot) :
    (op.rewrite e).id = e.id := by
  cases op <;> unfold PatchOp.rewrite <;> dsimp only <;> split <;> rfl

@[simp] theorem PatchOp.foldl_rewrite_id (ops : List PatchOp) (e : ElementSnapshot) :
    (ops.foldl PatchOp.rewrite e).id = e.id := by
  induction ops generalizing e with
  | nil => rfl
  | cons op ops ih => rw [List.foldl_cons, ih, PatchOp.rewrite_id]

@[simp] theorem PatchOp.rewrite_kind (op : PatchOp) (e : ElementSnapshot) :
    (op.rewrite e).kind = e.kind := by
  cases op <;> unfold PatchOp.rewrite <;> dsimp only <;> split <;> rfl

@[simp] theorem PatchOp.foldl_rewrite_kind (ops : List PatchOp) (e : ElementSnapshot) :
    (ops.foldl PatchOp.rewrite e).kind = e.kind := by
  induction ops generalizing e with
  | nil => rfl
  | cons op ops ih => rw [List.foldl_cons, ih, PatchOp.rewrite_kind]

/-- Operations that write no attribute leave them as they are. -/
theorem PatchOp.foldl_rewrite_attributes {ops : List PatchOp} {e : ElementSnapshot}
    (h : ∀ op ∈ ops, ∀ name, ¬ op.Writes e.id name) :
    (ops.foldl PatchOp.rewrite e).attributes = e.attributes := by
  induction ops generalizing e with
  | nil => rfl
  | cons op ops ih =>
      obtain ⟨hop, hops⟩ := List.forall_mem_cons.mp h
      rw [List.foldl_cons, ih (by rw [PatchOp.rewrite_id]; exact hops)]
      cases op with
      | setAttribute key name value =>
        unfold PatchOp.rewrite
        dsimp only
        rw [if_neg (fun heq => hop name ⟨heq, rfl⟩)]
      | removeAttribute key name =>
        unfold PatchOp.rewrite
        dsimp only
        rw [if_neg (fun heq => hop name ⟨heq, rfl⟩)]
      | create => rfl
      | delete => rfl
      | move => rfl
      | replaceText => unfold PatchOp.rewrite; dsimp only; split <;> rfl
      | appendText => unfold PatchOp.rewrite; dsimp only; split <;> rfl
      | replacePayload => unfold PatchOp.rewrite; dsimp only; split <;> rfl

/-- The operation replaces or extends a text. -/
def PatchOp.Retexts : PatchOp → Prop
  | .replaceText .. | .appendText .. => True
  | _ => False

/-- Operations on no text leave it as it is. -/
theorem PatchOp.foldl_rewrite_text {ops : List PatchOp} {e : ElementSnapshot}
    (h : ∀ op ∈ ops, ¬ op.Retexts) : (ops.foldl PatchOp.rewrite e).text = e.text := by
  induction ops generalizing e with
  | nil => rfl
  | cons op ops ih =>
      obtain ⟨hop, hops⟩ := List.forall_mem_cons.mp h
      rw [List.foldl_cons, ih hops]
      cases op with
      | replaceText => exact absurd trivial hop
      | appendText => exact absurd trivial hop
      | create => rfl
      | delete => rfl
      | move => rfl
      | setAttribute => unfold PatchOp.rewrite; dsimp only; split <;> rfl
      | removeAttribute => unfold PatchOp.rewrite; dsimp only; split <;> rfl
      | replacePayload => unfold PatchOp.rewrite; dsimp only; split <;> rfl

/-- Operations that replace the payload of an element by one only leave it with this one. -/
theorem PatchOp.foldl_rewrite_payload {ops : List PatchOp} {e : ElementSnapshot}
    {payload : Json.Value} (h : ∀ value, .replacePayload e.id value ∈ ops → value = payload)
    (hreplaced : e.payload = some payload ∨ .replacePayload e.id payload ∈ ops) :
    (ops.foldl PatchOp.rewrite e).payload = some payload := by
  induction ops generalizing e with
  | nil => exact hreplaced.resolve_right List.not_mem_nil
  | cons op ops ih =>
      have hid := PatchOp.rewrite_id op e
      have hkeeps : (op.rewrite e).payload = e.payload ∨
          ∃ value, op = .replacePayload e.id value ∧ (op.rewrite e).payload = some value := by
        cases op with
        | replacePayload key value =>
          by_cases hkey : key = e.id
          · subst hkey
            exact .inr ⟨value, rfl, by unfold PatchOp.rewrite; dsimp only; rw [if_pos rfl]⟩
          · exact .inl (by unfold PatchOp.rewrite; dsimp only; rw [if_neg hkey])
        | create => exact .inl rfl
        | delete => exact .inl rfl
        | move => exact .inl rfl
        | setAttribute => exact .inl (by unfold PatchOp.rewrite; dsimp only; split <;> rfl)
        | removeAttribute => exact .inl (by unfold PatchOp.rewrite; dsimp only; split <;> rfl)
        | replaceText => exact .inl (by unfold PatchOp.rewrite; dsimp only; split <;> rfl)
        | appendText => exact .inl (by unfold PatchOp.rewrite; dsimp only; split <;> rfl)
      refine ih (fun value hvalue => h value (hid ▸ List.mem_cons_of_mem op hvalue)) ?_
      rw [hid]
      rcases hkeeps with hsame | ⟨value, rfl, hvalue⟩
      · rcases hreplaced with hpayload | hmem
        · exact .inl (hsame.trans hpayload)
        · rcases List.mem_cons.mp hmem with rfl | hmem
          · exact .inl (by unfold PatchOp.rewrite; dsimp only; rw [if_pos rfl])
          · exact .inr hmem
      · exact .inl (h value List.mem_cons_self ▸ hvalue)

/-- The operation takes an element from its place. -/
def PatchOp.Displaces (key : ElementId) : PatchOp → Prop
  | .delete element | .move element _ _ => element = key
  | _ => False

end Omp2

namespace Omp2.State.SessionSnapshot

open OrderedTree

variable {s s' s₁ : SessionSnapshot} {u : Undo} {op : PatchOp} {e : ElementSnapshot}
  {up : ElementId}

/-! ## One operation -/

/-- An operation that does not go into a node changes only the child that it targets. -/
theorem applyOne_mem_children (hwf : WellFormed s) (h : s.applyOne op = (s', .ok u))
    (hinto : op.into ≠ some up) (he : e ∈ s'.children up) :
    ∃ e₀ ∈ s.children up, e₀.id = e.id ∧ (op.target ≠ some e.id → e₀ = e) := by
  obtain ⟨n', hn', helement, hup⟩ := (mem_children_iff (hwf.applyOne h)).mp he
  have hlisted : ∀ n : Node, s.nodes[e.id]? = some n → n.parent = some up →
      (op.target ≠ some e.id → n.element = e) →
      ∃ e₀ ∈ s.children up, e₀.id = e.id ∧ (op.target ≠ some e.id → e₀ = e) := by
    intro n hn hparent hsame
    have hname := hwf.named hn
    exact ⟨n.element, (mem_children_iff hwf).mpr ⟨n, by rw [hname]; exact hn, rfl, hparent⟩, hname,
      hsame⟩
  cases applied_of_ok h with
  | create h =>
      obtain ⟨_, _, rfl, _⟩ := applyCreate_ok h
      dsimp only at hn'
      rw [getElem?_insert] at hn'
      split at hn'
      · cases hn'
        exact absurd hup hinto
      · obtain ⟨n, hn, rfl⟩ := getElem?_modify_eq_some.mp hn'
        have hkept : ∀ (p : Prop) [Decidable p] (children : List ElementId),
            (if p then { n with children } else n).element = n.element ∧
              (if p then { n with children } else n).parent = n.parent := by
          intro p _ children
          split <;> exact ⟨rfl, rfl⟩
        rw [(hkept _ _).1] at helement
        rw [(hkept _ _).2] at hup
        exact hlisted n hn hup fun _ => helement
  | delete h =>
      rcases applyDelete_cases hwf h with ⟨_, hr, _⟩ |
        ⟨_, _, _, _, _, _, _, _, _, _, _, hgone, rfl, _⟩
      · cases hr
      · obtain ⟨_, n, hn, hsame, hparent⟩ := get_of_removed hgone hn'
        exact hlisted n hn (hparent.symm.trans hup) fun _ => hsame.symm.trans helement
  | move h =>
      obtain ⟨_, _, _, _, _, _, _, _, _, _, _, _, _, rfl, _⟩ := applyMove_ok h
      obtain ⟨n₂, hn₂, rfl⟩ := getElem?_modify_eq_some.mp hn'
      obtain ⟨n₁, hn₁, rfl⟩ := getElem?_modify_eq_some.mp hn₂
      obtain ⟨n, hn, rfl⟩ := getElem?_modify_eq_some.mp hn₁
      split at hup
      · exact absurd hup hinto
      · next hne =>
        rw [if_neg hne] at helement
        refine hlisted n hn (hup.symm.trans ?_).symm fun _ => (helement.symm.trans ?_).symm <;>
          split <;> split <;> rfl
  | content hkey hs' _ =>
      rw [hs'] at hn'
      obtain ⟨n, hn, rfl⟩ := getElem?_modify_eq_some.mp hn'
      refine hlisted n hn (hup.symm.trans ?_).symm fun htarget => (helement.symm.trans ?_).symm
      · split <;> rfl
      · rw [if_neg (fun heq => htarget (by rw [hkey, heq]))]

/-- An operation keeps a child that it does not target under a node that stays. -/
theorem applyOne_children_kept (hwf : WellFormed s) (h : s.applyOne op = (s', .ok u))
    (hstays : Stays s op up) (htarget : op.target ≠ some e.id) (he : e ∈ s.children up) :
    e ∈ s'.children up := by
  obtain ⟨n, hn, rfl, hup⟩ := (mem_children_iff hwf).mp he
  obtain ⟨n', hn', helement, hup'⟩ := applyOne_child hwf h hstays htarget hn hup
  exact (mem_children_iff (hwf.applyOne h)).mpr ⟨n', hn', helement, hup'⟩

/-- A change of contents changes the element among the children of its parent. -/
theorem modifyNode_child {change : ElementSnapshot → ElementSnapshot}
    (hwf : WellFormed s) (hwf' : WellFormed (s.modifyNode e.id (setElement change)))
    (hid : (change e).id = e.id) (he : e ∈ s.children up) :
    change e ∈ (s.modifyNode e.id (setElement change)).children up := by
  obtain ⟨n, hn, rfl, hup⟩ := (mem_children_iff hwf).mp he
  rw [mem_children_iff hwf', hid]
  exact ⟨_, getElem?_modify_eq_some.mpr ⟨n, hn, rfl⟩, by rw [if_pos rfl]; rfl,
    by rw [if_pos rfl]; exact hup⟩

theorem WellFormed.applyOps {done : List Undo} {ops : List PatchOp} (hwf : WellFormed s)
    (h : s.applyOps done ops = (s', .ok ())) : WellFormed s' := by
  induction ops generalizing s done with
  | nil =>
      cases h
      exact hwf
  | cons op ops ih =>
      unfold SessionSnapshot.applyOps at h
      split at h
      · next happly => exact ih (hwf.applyOne happly) h
      · cases h

/-! ## Parts of the body -/

/-- An operation adds nothing to the body or to some of its elements, and targets none of them. -/
def Spares (s : SessionSnapshot) (P : ElementId → Prop) (op : PatchOp) : Prop :=
  op.into ≠ some (staticId "body") ∧ ∀ e ∈ s.getVisibleBody, P e.id →
    op.into ≠ some e.id ∧ op.target ≠ some e.id ∧ ∀ child ∈ s.children e.id,
      op.target ≠ some child.id

/-- The elements of the body with certain identifiers are the same, with what they hold. -/
structure Spared (s s' : SessionSnapshot) (P : ElementId → Prop) : Prop where
  body : ∀ e, P e.id → (e ∈ s'.getVisibleBody ↔ e ∈ s.getVisibleBody)
  children : ∀ e ∈ s.getVisibleBody, P e.id → ∀ child,
    child ∈ s'.children e.id ↔ child ∈ s.children e.id

variable {P : ElementId → Prop}

theorem Spared.refl (s : SessionSnapshot) (P : ElementId → Prop) : Spared s s P :=
  ⟨fun _ _ => .rfl, fun _ _ _ _ => .rfl⟩

theorem Spared.trans (h : Spared s s₁ P) (h' : Spared s₁ s' P) : Spared s s' P :=
  ⟨fun e he => (h'.body e he).trans (h.body e he), fun e he hP child =>
    (h'.children e ((h.body e hP).mpr he) hP child).trans (h.children e he hP child)⟩

theorem Spares.after (h : Spares s P op) (hspared : Spared s s' P) : Spares s' P op := by
  refine ⟨h.1, fun e he hP => ?_⟩
  have he₀ := (hspared.body e hP).mp he
  obtain ⟨hinto, htarget, hchildren⟩ := h.2 e he₀ hP
  exact ⟨hinto, htarget, fun child hchild =>
    hchildren child ((hspared.children e he₀ hP child).mp hchild)⟩

theorem applyOne_spared (hwf : WellFormed s) (h : s.applyOne op = (s', .ok u))
    (hspares : Spares s P op) : Spared s s' P := by
  have hbody : staticId "body" ∈ roots := by decide
  constructor
  · intro e hP
    constructor
    · intro he
      obtain ⟨e₀, he₀, hid, hsame⟩ := applyOne_mem_children hwf h hspares.1 he
      exact hsame (hid ▸ (hspares.2 e₀ he₀ (hid ▸ hP)).2.1) ▸ he₀
    · intro he
      exact applyOne_children_kept hwf h (.inl hbody) (hspares.2 e he hP).2.1 he
  · intro e he hP child
    obtain ⟨hinto, htarget, hchildren⟩ := hspares.2 e he hP
    constructor
    · intro hchild
      obtain ⟨c₀, hc₀, hid, hsame⟩ := applyOne_mem_children hwf h hinto hchild
      exact hsame (hid ▸ hchildren c₀ hc₀) ▸ hc₀
    · intro hchild
      exact applyOne_children_kept hwf h (.inr ⟨htarget, _, hbody, e, he, rfl⟩)
        (hchildren child hchild) hchild

theorem applyOps_spared {done : List Undo} {ops : List PatchOp} (hwf : WellFormed s)
    (h : s.applyOps done ops = (s', .ok ())) (hspares : ∀ op ∈ ops, Spares s P op) :
    Spared s s' P := by
  induction ops generalizing s done with
  | nil =>
      cases h
      exact .refl _ P
  | cons op ops ih =>
      obtain ⟨hop, hops⟩ := List.forall_mem_cons.mp hspares
      unfold applyOps at h
      split at h
      · next s₁ u happly =>
        have hspared := applyOne_spared hwf happly hop
        exact hspared.trans
          (ih (hwf.applyOne happly) h fun next hnext => (hops next hnext).after hspared)
      · cases h

/-! ## One element of the body -/

theorem eq_of_mem_children (hwf : WellFormed s) {e' : ElementSnapshot} {up' : ElementId}
    (he : e ∈ s.children up) (he' : e' ∈ s.children up') (hid : e.id = e'.id) :
    e = e' ∧ up = up' := by
  obtain ⟨n, hn, rfl, hup⟩ := (mem_children_iff hwf).mp he
  obtain ⟨n', hn', rfl, hup'⟩ := (mem_children_iff hwf).mp he'
  rw [hid, hn'] at hn
  cases hn
  exact ⟨rfl, Option.some.inj (hup.symm.trans hup')⟩

theorem body_ne (hwf : WellFormed s) (he : e ∈ s.getVisibleBody) : e.id ≠ staticId "body" := by
  intro heq
  obtain ⟨n, hn, rfl, hup⟩ := (mem_children_iff hwf).mp he
  obtain ⟨container, hcontainer, hparent⟩ := hwf.containers (staticId "body") (by decide)
  rw [heq, hcontainer] at hn
  cases hn
  rw [hparent] at hup
  exact absurd hup (by decide)

/-- An operation about an element of the body: it changes the element, or what the element holds. -/
structure About (s : SessionSnapshot) (x : ElementId) (op : PatchOp) : Prop where
  into : op.into = none ∨ op.into = some x
  target : op.target = none ∨ op.target = some x ∨ ∃ child ∈ s.children x, op.target = some child.id
  place : ¬ op.Displaces x

/-- An operation about one element spares the others. -/
theorem About.spares (hwf : WellFormed s) (h : About s e.id op) (he : e ∈ s.getVisibleBody) :
    Spares s (· ≠ e.id) op := by
  have hbody := body_ne hwf he
  refine ⟨?_, fun other hother hne => ⟨?_, ?_, fun child hchild => ?_⟩⟩
  · rcases h.into with hinto | hinto <;> rw [hinto]
    · exact nofun
    · exact fun heq => hbody (Option.some.inj heq)
  · rcases h.into with hinto | hinto <;> rw [hinto]
    · exact nofun
    · exact fun heq => hne (Option.some.inj heq).symm
  · rcases h.target with htarget | htarget | ⟨held, hheld, htarget⟩ <;> rw [htarget]
    · exact nofun
    · exact fun heq => hne (Option.some.inj heq).symm
    · intro heq
      exact hbody (eq_of_mem_children hwf hheld hother (Option.some.inj heq)).2
  · rcases h.target with htarget | htarget | ⟨held, hheld, htarget⟩ <;> rw [htarget]
    · exact nofun
    · intro heq
      exact body_ne hwf hother (eq_of_mem_children hwf he hchild (Option.some.inj heq)).2.symm
    · intro heq
      exact hne (eq_of_mem_children hwf hheld hchild (Option.some.inj heq)).2.symm

/-- An operation that leaves an element in its place rewrites its contents there. -/
theorem applyOne_rewrite (hwf : WellFormed s) (h : s.applyOne op = (s', .ok u))
    (hup : up ∈ roots) (hplace : ¬ op.Displaces e.id) (he : e ∈ s.children up) :
    op.rewrite e ∈ s'.children up := by
  have hwf' := hwf.applyOne h
  have hkept : op.target ≠ some e.id → e ∈ s'.children up :=
    fun htarget => applyOne_children_kept hwf h (.inl hup) htarget he
  have hcontent : ∀ {key : ElementId} {change : ElementSnapshot → ElementSnapshot}
      {old : ElementSnapshot → Undo}, s.applyContent key change old = (s', .ok u) →
      (∀ e, (change e).id = e.id) → op.target = some key →
      (if key = e.id then change e else e) ∈ s'.children up := by
    intro key change old hchange hid htarget
    split
    · next heq =>
      subst heq
      obtain ⟨_, _, _, rfl⟩ := applyContent_ok hchange
      exact modifyNode_child hwf hwf' (hid e) he
    · next hne => exact hkept fun heq => hne (Option.some.inj (htarget.symm.trans heq))
  cases op with
  | create => exact hkept nofun
  | delete => exact hkept fun heq => hplace (Option.some.inj heq)
  | move => exact hkept fun heq => hplace (Option.some.inj heq)
  | setAttribute =>
      dsimp only [applyOne] at h
      exact hcontent h (fun _ => rfl) rfl
  | removeAttribute =>
      dsimp only [applyOne] at h
      exact hcontent h (fun _ => rfl) rfl
  | replaceText =>
      dsimp only [applyOne] at h
      exact hcontent h (fun _ => rfl) rfl
  | appendText =>
      dsimp only [applyOne] at h
      exact hcontent h (fun _ => rfl) rfl
  | replacePayload =>
      dsimp only [applyOne] at h
      exact hcontent h (fun _ => rfl) rfl

/-- The operations one after the other. -/
theorem applyOps_rewrite {done : List Undo} {ops : List PatchOp} (hwf : WellFormed s)
    (h : s.applyOps done ops = (s', .ok ())) (hup : up ∈ roots)
    (hplace : ∀ op ∈ ops, ¬ op.Displaces e.id) (he : e ∈ s.children up) :
    ops.foldl PatchOp.rewrite e ∈ s'.children up := by
  induction ops generalizing s done e with
  | nil =>
      cases h
      exact he
  | cons op ops ih =>
      obtain ⟨hop, hops⟩ := List.forall_mem_cons.mp hplace
      unfold applyOps at h
      split at h
      · next s₁ u happly =>
        refine ih (hwf.applyOne happly) h ?_ (applyOne_rewrite hwf happly hup hop he)
        rw [PatchOp.rewrite_id]
        exact hops
      · cases h

/-- What is created under an element of the body stays there while more is created. -/
theorem applyOps_created {done : List Undo} {ops : List PatchOp} {child : ElementSnapshot}
    (hwf : WellFormed s) (h : s.applyOps done ops = (s', .ok ()))
    (hcreates : ∀ op ∈ ops, op.target = none) (he : e ∈ s.getVisibleBody)
    (hchild : child ∈ s.children e.id) : child ∈ s'.children e.id := by
  induction ops generalizing s done with
  | nil =>
      cases h
      exact hchild
  | cons op ops ih =>
      obtain ⟨hop, hops⟩ := List.forall_mem_cons.mp hcreates
      have hbody : staticId "body" ∈ roots := by decide
      have hother : ∀ key : ElementId, op.target ≠ some key := fun key => by rw [hop]; exact nofun
      unfold applyOps at h
      split at h
      · next s₁ u happly =>
        exact ih (hwf.applyOne happly) h hops
          (applyOne_children_kept hwf happly (.inl hbody) (hother _) he)
          (applyOne_children_kept hwf happly (.inr ⟨hother _, _, hbody, e, he, rfl⟩) (hother _)
            hchild)
      · cases h

/-- The document since an element came into the body. -/
structure Focus (s s' : SessionSnapshot) (e : ElementSnapshot) : Prop where
  wellFormed : WellFormed s'
  fresh : ∀ other ∈ s.getVisibleBody, other.id ≠ e.id
  spared : Spared s s' (· ≠ e.id)
  present : e ∈ s'.getVisibleBody

/-- Creating an element in the body. -/
theorem focus_create {index : UInt32} (hwf : WellFormed s)
    (h : s.applyOne (.create (staticId "body") index e) = (s', .ok u)) : Focus s s' e := by
  have hcreated := applyCreate_created hwf h
  have hfresh : ∀ other ∈ s.getVisibleBody, other.id ≠ e.id := by
    intro other hother heq
    obtain ⟨n, hn, _⟩ := (mem_children_iff hwf).mp hother
    exact hcreated.fresh (heq ▸ hwf.used hn)
  refine ⟨hwf.applyOne h, hfresh, ⟨fun other hne => ?_, fun other hother hne child => ?_⟩, ?_⟩
  · unfold getVisibleBody
    rw [hcreated.children.mem_iff, List.mem_cons]
    exact ⟨fun hor => hor.resolve_left fun heq => hne (congrArg _ heq), .inr⟩
  · rw [hcreated.others _ (body_ne hwf hother) hne]
  · exact hcreated.children.mem_iff.mpr List.mem_cons_self

/-- Operations about the element. -/
theorem Focus.applyOps {done : List Undo} {ops : List PatchOp} (hfocus : Focus s s₁ e)
    (h : s₁.applyOps done ops = (s', .ok ())) (habout : ∀ op ∈ ops, About s₁ e.id op) :
    Focus s s' (ops.foldl PatchOp.rewrite e) := by
  have hwf := hfocus.wellFormed
  have hid := PatchOp.foldl_rewrite_id ops e
  have hspared := applyOps_spared hwf h fun op hop => (habout op hop).spares hwf hfocus.present
  exact ⟨hwf.applyOps h, by rw [hid]; exact hfocus.fresh,
    by rw [hid]; exact hfocus.spared.trans hspared,
    applyOps_rewrite hwf h (by decide) (fun op hop => (habout op hop).place) hfocus.present⟩

/-- Only the children of the nodes matter. -/
theorem Focus.congr (h : Focus s s₁ e) (hwf : WellFormed s')
    (hchildren : ∀ up, s'.children up = s₁.children up) : Focus s s' e := by
  refine ⟨hwf, h.fresh, ⟨fun other hne => ?_, fun other hother hne child => ?_⟩, ?_⟩
  · unfold getVisibleBody
    rw [hchildren]
    exact h.spared.body other hne
  · rw [hchildren]
    exact h.spared.children other hother hne child
  · unfold getVisibleBody
    rw [hchildren]
    exact h.present

theorem Focus.spare (h : Focus s s₁ e) (hwf : WellFormed s')
    (hspared : Spared s₁ s' fun _ => True) : Focus s s' e :=
  ⟨hwf, h.fresh, h.spared.trans ⟨fun other _ => hspared.body other trivial,
    fun other hother _ => hspared.children other hother trivial⟩,
    (hspared.body e trivial).mpr h.present⟩

end Omp2.State.SessionSnapshot
