import Omp2.State.Accepted

/-!
# Operations that only add

Writing attributes of elements that are there and creating elements with fresh identifiers at places
that their parents have is accepted in any order. What it makes of a node is known node by node, and
a node that no operation is about stays as it is.
-/

namespace Omp2

/-- An operation that does not write an attribute leaves it as it is. -/
theorem PatchOp.rewrite_attribute {op : PatchOp} {e : ElementSnapshot} {name : String}
    (h : ¬ op.Writes e.id name) : (op.rewrite e).attributes[name]? = e.attributes[name]? := by
  cases op with
  | setAttribute key written value =>
      unfold PatchOp.rewrite
      dsimp only
      split
      · next hkey =>
        have hname : written ≠ name := fun heq => h ⟨hkey, heq⟩
        rw [Std.ExtTreeMap.getElem?_insert, if_neg (by simpa using hname)]
      · rfl
  | removeAttribute key written =>
      unfold PatchOp.rewrite
      dsimp only
      split
      · next hkey =>
        have hname : written ≠ name := fun heq => h ⟨hkey, heq⟩
        rw [Std.ExtTreeMap.getElem?_erase, if_neg (by simpa using hname)]
      · rfl
  | create => rfl
  | delete => rfl
  | move => rfl
  | replaceText => unfold PatchOp.rewrite; dsimp only; split <;> rfl
  | appendText => unfold PatchOp.rewrite; dsimp only; split <;> rfl
  | replacePayload => unfold PatchOp.rewrite; dsimp only; split <;> rfl

/-- Operations that give an attribute one value at most leave it with this one, or as it was. -/
theorem PatchOp.foldl_rewrite_attribute {ops : List PatchOp} {e : ElementSnapshot} {name : String}
    {value : TypedValue}
    (h : ∀ op ∈ ops, op.Writes e.id name → op = .setAttribute e.id name value) :
    (∀ op ∈ ops, ¬ op.Writes e.id name) ∧
        (ops.foldl PatchOp.rewrite e).attributes[name]? = e.attributes[name]? ∨
      .setAttribute e.id name value ∈ ops ∧
        (ops.foldl PatchOp.rewrite e).attributes[name]? = some value := by
  induction ops generalizing e with
  | nil => exact .inl ⟨fun _ hop => absurd hop List.not_mem_nil, rfl⟩
  | cons op ops ih =>
      obtain ⟨hfirst, hrest⟩ := List.forall_mem_cons.mp h
      have hid := PatchOp.rewrite_id op e
      rw [← hid] at hrest
      have hcases := ih hrest
      rw [hid] at hcases
      rw [List.foldl_cons]
      by_cases hwrites : op.Writes e.id name
      · obtain rfl := hfirst hwrites
        refine .inr ⟨List.mem_cons_self, ?_⟩
        rcases hcases with ⟨_, hkept⟩ | ⟨_, hvalue⟩
        · rw [hkept]
          unfold PatchOp.rewrite
          dsimp only
          rw [if_pos rfl, Std.ExtTreeMap.getElem?_insert_self]
        · exact hvalue
      · rcases hcases with ⟨hnone, hkept⟩ | ⟨hmem, hvalue⟩
        · exact .inl ⟨List.forall_mem_cons.mpr ⟨hwrites, hnone⟩,
            hkept.trans (PatchOp.rewrite_attribute hwrites)⟩
        · exact .inr ⟨List.mem_cons_of_mem _ hmem, hvalue⟩

/-- What an operation that only adds makes of a node. -/
def PatchOp.extend (key : ElementId) (n : State.Node) : PatchOp → State.Node
  | .create up index element =>
    if up = key then { n with children := n.children.insertIdx index.toNat element.id } else n
  | op => { n with element := op.rewrite n.element }

theorem PatchOp.extend_parent (key : ElementId) (n : State.Node) (op : PatchOp) :
    (op.extend key n).parent = n.parent := by
  cases op with
  | create =>
      unfold PatchOp.extend
      dsimp only
      split <;> rfl
  | _ => rfl

theorem PatchOp.extend_element (key : ElementId) (n : State.Node) (op : PatchOp) :
    (op.extend key n).element = op.rewrite n.element := by
  cases op with
  | create =>
      unfold PatchOp.extend PatchOp.rewrite
      dsimp only
      split <;> rfl
  | _ => rfl

theorem PatchOp.extend_length (key : ElementId) (n : State.Node) (op : PatchOp) :
    n.children.length ≤ (op.extend key n).children.length := by
  cases op with
  | create =>
      unfold PatchOp.extend
      dsimp only
      split
      · exact List.length_le_length_insertIdx
      · exact le_rfl
  | _ => exact le_rfl

/-- The node after the operations holds the rewritten element under the same parent. -/
theorem PatchOp.foldl_extend (key : ElementId) (ops : List PatchOp) (n : State.Node) :
    (ops.foldl (PatchOp.extend key) n).element = ops.foldl PatchOp.rewrite n.element ∧
      (ops.foldl (PatchOp.extend key) n).parent = n.parent := by
  induction ops generalizing n with
  | nil => exact ⟨rfl, rfl⟩
  | cons op ops ih =>
      obtain ⟨helement, hparent⟩ := ih (op.extend key n)
      rw [List.foldl_cons, List.foldl_cons, helement, hparent, PatchOp.extend_element,
        PatchOp.extend_parent]
      exact ⟨rfl, rfl⟩

end Omp2

namespace Omp2.State.SessionSnapshot

/-- The operation writes an attribute of an element that is there, or it creates a fresh element at
a place that its parent has. -/
inductive Adds (s : SessionSnapshot) : PatchOp → Prop where
  | write {key : ElementId} {n : Node} (name : String) (value : TypedValue) :
      s.nodes[key]? = some n → Adds s (.setAttribute key name value)
  | create {up : ElementId} {e : ElementSnapshot} {n : Node} {index : UInt32} :
      s.nodes[up]? = some n →
      index.toNat ≤ n.children.length → e.id ∉ s.usedIds → Adds s (.create up index e)

variable {s s' : SessionSnapshot} {op : PatchOp} {e : ElementSnapshot} {key up : ElementId}

theorem Adds.not_about (hwf : WellFormed s) (h : Adds s op) (hkey : key ∉ s.usedIds) :
    op.target ≠ some key ∧ op.into ≠ some key := by
  cases h with
  | write _ _ hn => exact ⟨fun heq => hkey (Option.some.inj heq ▸ hwf.used hn), nofun⟩
  | create hn => exact ⟨nofun, fun heq => hkey (Option.some.inj heq ▸ hwf.used hn)⟩

/-- A node that an operation is not about stays as it is. -/
theorem extend_of_not_about {n : Node} (hadds : Adds s op) (hname : n.element.id = key)
    (htarget : op.target ≠ some key) (hinto : op.into ≠ some key) : op.extend key n = n := by
  cases hadds with
  | write name value _ =>
      have hother : ∀ written, written ≠ n.element.id →
          (PatchOp.setAttribute written name value).rewrite n.element = n.element := by
        intro written hne
        unfold PatchOp.rewrite
        exact if_neg hne
      unfold PatchOp.extend
      dsimp only
      rw [hother _ (fun heq => htarget (congrArg some (heq.trans hname)))]
  | create =>
      unfold PatchOp.extend
      exact if_neg fun heq => hinto (congrArg some heq)

theorem foldl_extend_of_not_about {ops : List PatchOp} {n : Node} (hadds : ∀ op ∈ ops, Adds s op)
    (hname : n.element.id = key) (htarget : ∀ op ∈ ops, op.target ≠ some key)
    (hinto : ∀ op ∈ ops, op.into ≠ some key) : ops.foldl (PatchOp.extend key) n = n := by
  induction ops with
  | nil => rfl
  | cons op ops ih =>
      obtain ⟨hfirst, hrest⟩ := List.forall_mem_cons.mp hadds
      obtain ⟨htarget, htargets⟩ := List.forall_mem_cons.mp htarget
      obtain ⟨hinto, hintos⟩ := List.forall_mem_cons.mp hinto
      rw [List.foldl_cons, extend_of_not_about hfirst hname htarget hinto]
      exact ih hrest htargets hintos

/-- Operations that add change neither a text nor a payload. -/
theorem foldl_rewrite_kept {ops : List PatchOp} (hadds : ∀ op ∈ ops, Adds s op) :
    (ops.foldl PatchOp.rewrite e).text = e.text ∧
      (ops.foldl PatchOp.rewrite e).payload = e.payload := by
  induction ops generalizing e with
  | nil => exact ⟨rfl, rfl⟩
  | cons op ops ih =>
      obtain ⟨hfirst, hrest⟩ := List.forall_mem_cons.mp hadds
      have hkept : (op.rewrite e).text = e.text ∧ (op.rewrite e).payload = e.payload := by
        cases hfirst with
        | write =>
          unfold PatchOp.rewrite
          dsimp only
          split <;> exact ⟨rfl, rfl⟩
        | create => exact ⟨rfl, rfl⟩
      obtain ⟨htext, hpayload⟩ := @ih (op.rewrite e) hrest
      exact ⟨htext.trans hkept.1, hpayload.trans hkept.2⟩

/-! ## One operation -/

/-- The document after an operation that adds. -/
structure Extended (s s' : SessionSnapshot) (op : PatchOp) : Prop where
  kept : ∀ key n, s.nodes[key]? = some n → s'.nodes[key]? = some (op.extend key n)
  created : ∀ up index e, op = .create up index e → s'.nodes[e.id]? = some ⟨e, some up, []⟩
  used : ∀ key ∈ s'.usedIds, key ∈ s.usedIds ∨ op.createdId = some key

/-- An operation that adds is accepted. -/
theorem exists_extended (hwf : WellFormed s) (h : Adds s op) :
    ∃ s' u, s.applyOne op = (s', .ok u) ∧ Extended s s' op := by
  cases h with
  | @write written n name value hn =>
      have happly : s.applyOne (.setAttribute written name value) = (s.modifyNode written
          (setElement fun e => { e with attributes := e.attributes.insert name value }),
          .ok (.attribute written name n.element.attributes[name]?)) := by
        unfold SessionSnapshot.applyOne applyContent require
        dsimp only
        rw [hn]
      refine ⟨_, _, happly, fun x held hheld => ?_, nofun, fun _ hused => .inl hused⟩
      have hname := hwf.named hheld
      unfold modifyNode PatchOp.extend
      dsimp only
      rw [getElem?_modify, hheld]
      unfold PatchOp.rewrite
      dsimp only
      by_cases heq : written = x
      · rw [if_pos heq, if_pos (heq.trans hname.symm)]
        rfl
      · rw [if_neg heq, if_neg (fun hcopy => heq (hcopy.trans hname))]
  | @create up e n index hn hindex hfresh =>
      obtain ⟨s', u, happly⟩ := (applyCreate_accepts up index e).mpr ⟨hfresh, n, hn, hindex⟩
      obtain ⟨_, _, hs', _⟩ := applyCreate_ok happly
      refine ⟨s', u, happly, fun x held hheld => ?_, fun up' index' e' heq => ?_, fun x hx => ?_⟩
      · have hne : e.id ≠ x := fun heq => hfresh (heq ▸ hwf.used hheld)
        subst hs'
        dsimp only
        rw [getElem?_insert, if_neg hne, getElem?_modify, hheld]
        unfold PatchOp.extend
        dsimp only
        by_cases heq : up = x
        · rw [if_pos heq, if_pos heq]
          rfl
        · rw [if_neg heq, if_neg heq]
      · cases heq
        subst hs'
        dsimp only
        rw [getElem?_insert, if_pos rfl]
      · subst hs'
        exact (Std.ExtTreeSet.mem_insert.mp hx).symm.imp_right fun heq =>
          congrArg some (Std.LawfulEqCmp.eq_of_compare heq)

/-- Another operation that adds still adds after it. -/
theorem Adds.after {later : PatchOp} (h : Adds s later) (hextended : Extended s s' op)
    (hapart : ∀ key, op.createdId = some key → later.createdId ≠ some key) : Adds s' later := by
  cases h with
  | write name value hn => exact .write name value (hextended.kept _ _ hn)
  | @create up e n index hn hindex hfresh =>
      have hplace := hindex.trans (PatchOp.extend_length up n op)
      refine .create (hextended.kept _ _ hn) hplace fun hused => ?_
      rcases hextended.used _ hused with hold | hbrought
      · exact hfresh hold
      · exact hapart _ hbrought rfl

/-! ## Operations one after the other -/

/-- The document after operations that add. -/
structure Enlarged (s s' : SessionSnapshot) (ops : List PatchOp) : Prop where
  wellFormed : WellFormed s'
  kept : ∀ key n, s.nodes[key]? = some n →
    s'.nodes[key]? = some (ops.foldl (PatchOp.extend key) n)
  created : ∀ up index e, .create up index e ∈ ops → s'.nodes[e.id]? = some ⟨e, some up, []⟩

/-- Operations that add are accepted, as long as the identifiers that they bring are different. -/
theorem exists_enlarged {done : List Undo} {ops : List PatchOp} (hwf : WellFormed s)
    (hadds : ∀ op ∈ ops, Adds s op) (hapart : (ops.filterMap PatchOp.createdId).Nodup) :
    ∃ s', s.applyOps done ops = (s', .ok ()) ∧ Enlarged s s' ops := by
  induction ops generalizing s done with
  | nil => exact ⟨s, rfl, hwf, fun _ _ hn => hn, fun _ _ _ hmem => absurd hmem List.not_mem_nil⟩
  | cons op ops ih =>
      obtain ⟨hfirst, hrest⟩ := List.forall_mem_cons.mp hadds
      obtain ⟨s₁, u, happly, hextended⟩ := exists_extended hwf hfirst
      have hnew : ∀ key, op.createdId = some key → key ∉ ops.filterMap PatchOp.createdId := by
        intro key hkey
        rw [List.filterMap_cons_some hkey] at hapart
        exact (List.nodup_cons.mp hapart).1
      have hapart₁ : (ops.filterMap PatchOp.createdId).Nodup := by
        cases hkey : op.createdId with
        | none => rwa [List.filterMap_cons_none hkey] at hapart
        | some key =>
          rw [List.filterMap_cons_some hkey] at hapart
          exact (List.nodup_cons.mp hapart).2
      have hadds₁ : ∀ later ∈ ops, Adds s₁ later := by
        intro later hlater
        refine (hrest later hlater).after hextended fun key hkey hsame => ?_
        exact hnew key hkey (List.mem_filterMap.mpr ⟨later, hlater, hsame⟩)
      obtain ⟨s', hs', henlarged⟩ : ∃ s', s₁.applyOps (u :: done) ops = (s', .ok ()) ∧
          Enlarged s₁ s' ops := ih (hwf.applyOne happly) hadds₁ hapart₁
      refine ⟨s', ?_, henlarged.wellFormed, fun key n hn => ?_, fun up index e hmem => ?_⟩
      · rw [SessionSnapshot.applyOps, happly]
        exact hs'
      · rw [List.foldl_cons]
        exact henlarged.kept _ _ (hextended.kept _ _ hn)
      · rcases List.mem_cons.mp hmem with rfl | hlater
        · -- no later operation is about an identifier that was not used before
          have hname : (Node.mk e (some up) []).element.id = e.id := rfl
          have hfresh : e.id ∉ s.usedIds := by
            cases hfirst with
            | create _ _ hfresh => exact hfresh
          rw [henlarged.kept _ _ (hextended.created _ _ _ rfl),
            foldl_extend_of_not_about hrest hname
              (fun later hlater => ((hrest later hlater).not_about hwf hfresh).1)
              (fun later hlater => ((hrest later hlater).not_about hwf hfresh).2)]
        · exact henlarged.created up index e hlater

/-! ## What is found after them -/

variable {ops : List PatchOp}

theorem Enlarged.element (h : Enlarged s s' ops) (he : s.element key = some e) :
    s'.element key = some (ops.foldl PatchOp.rewrite e) := by
  obtain ⟨n, hn, rfl⟩ := Option.map_eq_some_iff.mp he
  unfold SessionSnapshot.element
  rw [h.kept key n hn, Option.map_some, (PatchOp.foldl_extend key ops n).1]

/-- A child that was there is still there, as the operations made it. -/
theorem Enlarged.child (h : Enlarged s s' ops) (hwf : WellFormed s) (he : e ∈ s.children up) :
    ops.foldl PatchOp.rewrite e ∈ s'.children up := by
  obtain ⟨n, hn, rfl, hup⟩ := (mem_children_iff hwf).mp he
  obtain ⟨helement, hparent⟩ := PatchOp.foldl_extend n.element.id ops n
  refine (mem_children_iff h.wellFormed).mpr ⟨_, ?_, helement, hparent.trans hup⟩
  rw [PatchOp.foldl_rewrite_id]
  exact h.kept _ n hn

theorem Enlarged.created_child {index : UInt32} (h : Enlarged s s' ops)
    (hmem : .create up index e ∈ ops) : e ∈ s'.children up :=
  (mem_children_iff h.wellFormed).mpr ⟨_, h.created up index e hmem, rfl, rfl⟩

/-- A node that nothing was created in lists its children as before. -/
theorem foldl_extend_children {n : Node} (hinto : ∀ op ∈ ops, op.into ≠ some up) :
    (ops.foldl (PatchOp.extend up) n).children = n.children := by
  induction ops generalizing n with
  | nil => rfl
  | cons op ops ih =>
      obtain ⟨hfirst, hrest⟩ := List.forall_mem_cons.mp hinto
      rw [List.foldl_cons, ih hrest]
      cases op with
      | create =>
        unfold PatchOp.extend
        dsimp only
        rw [if_neg fun heq => hfirst (congrArg some heq)]
      | _ => rfl

/-- A node that nothing was created in holds its children in their order. -/
theorem Enlarged.children (h : Enlarged s s' ops) (hwf : WellFormed s) {n : Node}
    (hn : s.nodes[up]? = some n) (hinto : ∀ op ∈ ops, op.into ≠ some up) :
    s'.children up = (s.children up).map (ops.foldl PatchOp.rewrite) := by
  unfold SessionSnapshot.children
  rw [h.kept up n hn, hn]
  dsimp only
  rw [foldl_extend_children hinto, List.map_filterMap]
  refine List.filterMap_congr fun key hkey => ?_
  obtain ⟨child, hchild⟩ := element_of_child hwf hn hkey
  rw [h.element hchild, hchild]
  rfl

theorem Enlarged.untouched (h : Enlarged s s' ops) (hwf : WellFormed s) {n : Node}
    (hadds : ∀ op ∈ ops, Adds s op) (hn : s.nodes[key]? = some n)
    (htarget : ∀ op ∈ ops, op.target ≠ some key) (hinto : ∀ op ∈ ops, op.into ≠ some key) :
    s'.nodes[key]? = some n := by
  rw [h.kept key n hn, foldl_extend_of_not_about hadds (hwf.named hn) htarget hinto]

end Omp2.State.SessionSnapshot
