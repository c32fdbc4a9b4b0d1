import Omp2.Control.Partition
import Omp2.State.Recovery
import Omp2.State.Untouched

/-!
# Lossless elision

Whatever a pass selects is completed, unpinned and before the last user message. The nodes that it
journals cover that and nothing else, condensing covers nothing new, and no node outside of
`summaries` changes. So the nodes partition what is covered after any number of passes.
-/

namespace Omp2.Control

open Omp2.Json Omp2.State SessionSnapshot List

/-! ## What is selected -/

section Selection

variable {covered : Std.ExtTreeSet ElementId} {entries : List BodyEntry}

/-- An entry that a pass may elide. -/
def MayElide (covered : Std.ExtTreeSet ElementId) (entry : BodyEntry) : Prop :=
  entry.eligible = true ∧ entry.id ∉ covered

/-- The first stage selects some of the entries that may go, in their order. -/
theorem selectSoft_sublist (covered : Std.ExtTreeSet ElementId) (target : Nat)
    (entries : List BodyEntry) (simulated : Nat) :
    (selectSoft covered target entries simulated).1.Sublist
      ((entries.filter fun entry => entry.eligible && !covered.contains entry.id).map
        BodyEntry.id) := by
  induction entries generalizing simulated with
  | nil => exact .refl _
  | cons entry rest ih =>
      unfold selectSoft
      split
      · exact nil_sublist _
      · split
        · refine (ih simulated).trans ?_
          exact ((sublist_cons_self entry rest).filter _).map _
        · next hselected =>
          have hmay : (entry.eligible && !covered.contains entry.id) = true := by
            simp only [not_or, not_not] at hselected
            simp [hselected.1, hselected.2.1]
          rw [filter_cons_of_pos (by exact hmay), map_cons]
          exact (ih _).cons_cons entry.id

/-- The second stage adds entries that may go and are not selected yet. -/
theorem selectHard_spec (covered : Std.ExtTreeSet ElementId) (entries : List BodyEntry)
    (pending : List ElementId) (hnodup : pending.Nodup) :
    (selectHard covered entries pending).Nodup ∧
      ∀ x ∈ selectHard covered entries pending,
        x ∈ pending ∨ ∃ entry ∈ entries, entry.id = x ∧ MayElide covered entry := by
  induction entries generalizing pending with
  | nil => exact ⟨hnodup, fun x hx => .inl hx⟩
  | cons entry rest ih =>
      unfold selectHard at ih ⊢
      rw [foldl_cons]
      split
      · next hselected =>
        simp only [Bool.and_eq_true, Bool.not_eq_true', Bool.eq_false_iff, ne_eq,
          Std.ExtTreeSet.contains_iff_mem, contains_iff_mem] at hselected
        obtain ⟨⟨heligible, hcovered⟩, hnew⟩ := hselected
        obtain ⟨hrest, hmem⟩ := ih (pending ++ [entry.id])
          (hnodup.append (nodup_singleton _) (by simpa using hnew))
        refine ⟨hrest, fun x hx => ?_⟩
        rcases hmem x hx with hx | ⟨other, hother, hid, hmay⟩
        · rcases mem_append.mp hx with hx | hx
          · exact .inl hx
          · exact .inr ⟨entry, mem_cons_self, (mem_singleton.mp hx).symm, heligible,
              hcovered⟩
        · exact .inr ⟨other, mem_cons_of_mem _ hother, hid, hmay⟩
      · obtain ⟨hrest, hmem⟩ := ih pending hnodup
        refine ⟨hrest, fun x hx => ?_⟩
        rcases hmem x hx with hx | ⟨other, hother, hid, hmay⟩
        · exact .inl hx
        · exact .inr ⟨other, mem_cons_of_mem _ hother, hid, hmay⟩

/-- The positions of the user messages. -/
def userPositions (entries : List BodyEntry) : List Nat :=
  (entries.zipIdx.filter fun entry => entry.1.role = .user).map Prod.snd

/-- What is before the position of a user message is before that message. -/
theorem before_user {i : Nat} (hi : i ∈ userPositions entries) {entry : BodyEntry}
    (hentry : entry ∈ entries.take i) :
    ∃ front user back, entries = front ++ user :: back ∧ user.role = .user ∧ entry ∈ front := by
  obtain ⟨⟨user, position⟩, hmem, rfl⟩ := mem_map.mp hi
  obtain ⟨hmem, hrole⟩ := mem_filter.mp hmem
  have hget := List.mem_zipIdx_iff_getElem?.mp hmem
  obtain ⟨hlt, huser⟩ := List.getElem?_eq_some_iff.mp hget
  dsimp only at hlt huser
  refine ⟨entries.take position, user, entries.drop (position + 1), ?_, by simpa using hrole,
    hentry⟩
  rw [← huser, ← drop_eq_getElem_cons hlt, take_append_drop]

/-- Both boundaries are positions of user messages, or nothing is before them. -/
theorem before_recent {keep : Nat} {entry : BodyEntry}
    (hentry : entry ∈ entries.take (recentTurnBoundary entries keep)) :
    ∃ front user back, entries = front ++ user :: back ∧ user.role = .user ∧ entry ∈ front := by
  unfold recentTurnBoundary at hentry
  dsimp only at hentry
  split at hentry
  · cases hentry
  · next hlt =>
    have hindex :
        (userPositions entries).length - max keep 1 < (userPositions entries).length := by
      unfold userPositions
      omega
    refine before_user (getElem_mem hindex) ?_
    rw [show (entries.zipIdx.filter fun entry => entry.1.role = .user).map Prod.snd =
      userPositions entries from rfl, getElem?_eq_getElem hindex] at hentry
    exact hentry

theorem before_final {entry : BodyEntry}
    (hentry : entry ∈ entries.take (finalTurnBoundary entries)) :
    ∃ front user back, entries = front ++ user :: back ∧ user.role = .user ∧ entry ∈ front := by
  unfold finalTurnBoundary at hentry
  rw [show (entries.zipIdx.filter fun entry => entry.1.role = .user).map Prod.snd =
    userPositions entries from rfl] at hentry
  cases hlast : (userPositions entries).getLast? with
  | none =>
      rw [hlast] at hentry
      cases hentry
  | some i =>
      rw [hlast] at hentry
      exact before_user (mem_of_getLast? hlast) hentry

/-- A pass selects different entries that may go, each before a user message. -/
theorem select_spec (covered : Std.ExtTreeSet ElementId) (config : CompactionConfig)
    (projected : Nat)
    (hnodup : (entries.map BodyEntry.id).Nodup) :
    (select entries covered config projected).Nodup ∧
      ∀ x ∈ select entries covered config projected, ∃ entry front user back,
        entries = front ++ user :: back ∧ user.role = .user ∧ entry ∈ front ∧ entry.id = x ∧
          MayElide covered entry := by
  -- the entries that the first stage selects
  have hsoft : ∀ pending simulated,
      (if config.budget.shouldTrigger projected then
        selectSoft covered config.budget.targetTokens
          (entries.take (recentTurnBoundary entries config.keepRecentTurns)) projected
      else ([], projected)) = (pending, simulated) → pending.Nodup ∧ ∀ x ∈ pending,
        ∃ entry front user back, entries = front ++ user :: back ∧ user.role = .user ∧
          entry ∈ front ∧ entry.id = x ∧ MayElide covered entry := by
    intro pending simulated heq
    split at heq
    · have hsublist := selectSoft_sublist covered config.budget.targetTokens
        (entries.take (recentTurnBoundary entries config.keepRecentTurns)) projected
      rw [heq] at hsublist
      refine ⟨(hnodup.sublist ((filter_sublist.trans (take_sublist _ _)).map _)).sublist
        hsublist, fun x hx => ?_⟩
      obtain ⟨entry, hentry, rfl⟩ := mem_map.mp (hsublist.subset hx)
      obtain ⟨htake, hmay⟩ := mem_filter.mp hentry
      simp only [Bool.and_eq_true, Bool.not_eq_true', Bool.eq_false_iff, ne_eq,
        Std.ExtTreeSet.contains_iff_mem] at hmay
      obtain ⟨front, user, back, hsplit, hrole, hfront⟩ := before_recent htake
      exact ⟨entry, front, user, back, hsplit, hrole, hfront, rfl, hmay⟩
    · cases heq
      exact ⟨nodup_nil, nofun⟩
  unfold select
  split
  next pending simulated heq =>
    obtain ⟨hpending, hspec⟩ := hsoft pending simulated heq
    split
    · obtain ⟨hall, hmem⟩ := selectHard_spec covered
        (entries.take (finalTurnBoundary entries)) pending hpending
      refine ⟨hall, fun x hx => ?_⟩
      rcases hmem x hx with hx | ⟨entry, hentry, hid, hmay⟩
      · exact hspec x hx
      · obtain ⟨front, user, back, hsplit, hrole, hfront⟩ := before_final hentry
        exact ⟨entry, front, user, back, hsplit, hrole, hfront, hid, hmay⟩
    · exact ⟨hpending, hspec⟩

end Selection

/-! ## Entries and elements -/

section Entries

variable [SerdeJson] {s : SessionSnapshot}

/-- An element that a pass may elide. -/
structure Elidable (s : SessionSnapshot) (e : ElementSnapshot) : Prop where
  unpinned : isPinned e = false
  system : e.kind ≠ "system"
  steering : e.kind ≠ "steering"
  settled : e.kind = "tool_call" → (childOfKind s e "result").isSome = true
  before : ∃ front user back, s.getVisibleBody = front ++ user :: back ∧ user.kind = "user" ∧
    e ∈ front

/-- What an entry says of its element. -/
theorem collectEntry_some {e : ElementSnapshot} {entry : BodyEntry}
    (h : collectEntry s e = some entry) :
    entry.id = e.id ∧ entry.pinned = isPinned e ∧ (entry.role = .user → e.kind = "user") ∧
      (entry.inFlight = false → e.kind ≠ "system" ∧ e.kind ≠ "steering" ∧
        (e.kind = "tool_call" → (childOfKind s e "result").isSome = true)) := by
  unfold collectEntry at h
  dsimp only at h
  split at h
  · next hkind =>
    cases h
    simp [hkind]
  · next hkind =>
    split at h
    · cases h
    · cases h
      simp [hkind]
  · next hkind =>
    split at h
    · cases h
    · cases h
      simp [hkind]
  · cases h
    simp
  · cases h
    simp
  · cases h

theorem collectEntries_sublist : ((collectEntries s).map BodyEntry.id).Sublist
    (s.getVisibleBody.map ElementSnapshot.id) := by
  unfold collectEntries
  induction s.getVisibleBody with
  | nil => exact .refl _
  | cons e body ih =>
      rw [filterMap_cons, map_cons]
      split
      · exact ih.cons _
      · next entry hentry =>
        rw [map_cons, (collectEntry_some hentry).1]
        exact ih.cons_cons _

/-- An entry that may go before the entry of a user message may be elided. -/
theorem elidable_of_entry {front back : List BodyEntry} {user entry : BodyEntry}
    (hsplit : collectEntries s = front ++ user :: back) (hrole : user.role = .user)
    (hentry : entry ∈ front) (heligible : entry.eligible = true) :
    ∃ e, Elidable s e ∧ e.id = entry.id := by
  unfold collectEntries at hsplit
  obtain ⟨first, rest, hbody, hfirst, hrest⟩ := filterMap_eq_append_iff.mp hsplit
  obtain ⟨skipped, e', last, hrest', _, huser, _⟩ := filterMap_eq_cons_iff.mp hrest
  rw [← hfirst] at hentry
  obtain ⟨e, he, hcollect⟩ := mem_filterMap.mp hentry
  obtain ⟨hid, hpinned, _, hflight⟩ := collectEntry_some hcollect
  unfold BodyEntry.eligible at heligible
  simp only [Bool.and_eq_true, Bool.not_eq_true'] at heligible
  obtain ⟨hsystem, hsteering, hsettled⟩ := hflight heligible.2
  refine ⟨e, ⟨hpinned ▸ heligible.1, hsystem, hsteering, hsettled, ?_⟩, hid.symm⟩
  refine ⟨first ++ skipped, e', last, ?_, (collectEntry_some huser).2.2.1 hrole,
    mem_append_left _ he⟩
  rw [hbody, hrest', append_assoc]

end Entries

/-! ## Journaled nodes -/

/-- The elements under `summaries`. -/
def summaries (s : SessionSnapshot) : List ElementSnapshot :=
  s.children (staticId "summaries")

/-- Every node is as it was, apart from the `summaries` and what is right under them. -/
def Kept (s s' : SessionSnapshot) : Prop :=
  ∀ (key : ElementId) (n : Node), s.nodes[key]? = some n → key ≠ staticId "summaries" →
    n.parent ≠ some (staticId "summaries") → s'.nodes[key]? = some n

theorem Kept.trans {s s₁ s' : SessionSnapshot} (h : Kept s s₁) (h' : Kept s₁ s') : Kept s s' :=
  fun key n hn hkey hup => h' key n (h key n hn hkey hup) hkey hup

/-- A node that is kept and does not hold the `summaries` lists the same elements. -/
theorem Kept.children {s s' : SessionSnapshot} (h : Kept s s') (hwf : WellFormed s) {up : ElementId}
    {n : Node} (hn : s.nodes[up]? = some n) (hup : up ≠ staticId "summaries")
    (hparent : n.parent ≠ some (staticId "summaries")) (hmeta : up ≠ staticId "meta") :
    s'.children up = s.children up := by
  unfold SessionSnapshot.children
  rw [h up n hn hup hparent, hn]
  refine filterMap_congr fun key hkey => ?_
  obtain ⟨link, hlink, hkeyUp⟩ := hwf.tree.child (linksOf_of_get hn) hkey
  obtain ⟨node, hnode, rfl⟩ := linksOf_eq_some.mp hlink
  have hkeySummaries : key ≠ staticId "summaries" := by
    rintro rfl
    obtain ⟨container, hcontainer, hcontainerUp⟩ :=
      hwf.containers (staticId "summaries") (by decide)
    rw [hnode] at hcontainer
    cases hcontainer
    exact hmeta (Option.some.inj (hkeyUp.symm.trans hcontainerUp))
  have hnodeUp : node.parent ≠ some (staticId "summaries") := by
    intro heq
    exact hup (Option.some.inj (hkeyUp.symm.trans heq))
  unfold SessionSnapshot.element
  rw [hnode, h key node hnode hkeySummaries hnodeUp]

/-- The body is under neither, so it is kept with its elements and what they hold. -/
theorem Kept.body {s s' : SessionSnapshot} (h : Kept s s') (hwf : WellFormed s) :
    s'.getVisibleBody = s.getVisibleBody ∧ ∀ e ∈ s.getVisibleBody,
      s'.element e.id = some e ∧ s'.children e.id = s.children e.id := by
  refine ⟨?_, fun e he => ?_⟩
  · obtain ⟨n, hn, hparent⟩ := hwf.containers (staticId "body") (by decide)
    exact h.children hwf hn (by decide) (by rw [hparent]; decide) (by decide)
  · obtain ⟨n, hn, rfl, hparent⟩ := (mem_children_iff hwf).mp he
    -- the element is under the body, so it is no container
    have hne : ∀ container ∈ roots, containerParent container ≠ some (staticId "body") →
        n.element.id ≠ container := by
      rintro _ hcontainer hup rfl
      obtain ⟨node, hnode, hnodeUp⟩ := hwf.containers _ hcontainer
      rw [hn] at hnode
      cases hnode
      exact hup (hnodeUp.symm.trans hparent)
    have hsummaries := hne (staticId "summaries") (by decide) (by decide)
    have hup : n.parent ≠ some (staticId "summaries") := by
      rw [hparent]
      decide
    refine ⟨?_, h.children hwf hn hsummaries hup (hne (staticId "meta") (by decide) (by decide))⟩
    unfold SessionSnapshot.element
    rw [h _ n hn hsummaries hup]
    rfl

section Journaling

variable [SerdeJson] {j j' : Journal}

/-- The journal is coherent for some session and log. -/
def Sound (j : Journal) : Prop :=
  ∃ sessionId log, Journal.Coherent sessionId j log

theorem Sound.wellFormed (h : Sound j) : WellFormed j.snapshot := by
  obtain ⟨_, _, hlog⟩ := h
  exact (hlog.at_version hlog.live).wellFormed

/-- An append applies the patch to the document, or it leaves the document alone. -/
theorem Sound.append_cases {patch : Patch} {world : Journal.Outside}
    {result : Except StateError UInt64} (h : Sound j)
    (happend : j.appendPatch patch world = (j', result)) :
    Sound j' ∧ ((∃ s offset branch, result = .ok offset ∧
      j.snapshot.applyPatch patch = (s, .ok ()) ∧
      j'.snapshot = { s with selectedBranch := branch }) ∨
      (∃ e, result = .error e) ∧ j'.snapshot = j.snapshot) := by
  obtain ⟨sessionId, log, hlog⟩ := h
  rcases hlog.appendOn_cases happend with ⟨r, hok, hr⟩ | ⟨herror, hrefused⟩
  · obtain ⟨s, happly, hsnapshot⟩ := hr.applied
    exact ⟨⟨_, _, hr.coherent⟩, .inl ⟨s, _, _, hok, happly, hsnapshot⟩⟩
  · exact ⟨⟨_, _, hlog.congr hrefused.records hrefused.snapshot⟩, .inr ⟨herror, hrefused.snapshot⟩⟩

/-- What a patch with one operation does. -/
theorem applyPatch_single {s s' : SessionSnapshot} {patch : Patch} {op : PatchOp}
    (hops : patch.ops = [op]) (h : s.applyPatch patch = (s', .ok ())) :
    ∃ s₁ u, s.applyOne op = (s₁, .ok u) ∧ s'.nodes = s₁.nodes := by
  obtain ⟨_, _, s₁, hrun, rfl⟩ := applyPatch_ok h
  rw [hops] at hrun
  unfold applyOps at hrun
  split at hrun
  · next s₂ u happly =>
    cases hrun
    exact ⟨_, u, happly, rfl⟩
  · cases hrun

/-- A journal that has gone on under `summaries` alone. -/
structure Onward (j j' : Journal) : Prop where
  sound : Sound j'
  kept : Kept j.snapshot j'.snapshot
  listed : ∀ id ∈ (summaries j.snapshot).map ElementSnapshot.id,
    id ∈ (summaries j'.snapshot).map ElementSnapshot.id

theorem Onward.trans {j₁ : Journal} (h : Onward j j₁) (h' : Onward j₁ j') : Onward j j' :=
  ⟨h'.sound, h.kept.trans h'.kept, fun id hid => h'.listed id (h.listed id hid)⟩

theorem Onward.same (hsound : Sound j') (hsame : j'.snapshot = j.snapshot) : Onward j j' := by
  refine ⟨hsound, ?_, ?_⟩
  · rw [hsame]
    exact fun _ _ hn _ _ => hn
  · rw [hsame]
    exact fun _ hid => hid

/-- Creating a node adds it to the `summaries`, or it leaves the document alone. -/
theorem createNode_cases {owner : ActorId} {node : SummaryNode} {kind : SummaryKind}
    {text : String} {draw : Draw} {result : Except StructuredError ElementId} (hsound : Sound j)
    (hcreate : createNode j owner node kind text draw = (j', result)) :
    (∃ id, result = .ok id ∧ Onward j j' ∧ id ∉ (summaries j.snapshot).map ElementSnapshot.id ∧
      (summaries j'.snapshot).Perm (node.toElement id kind text :: summaries j.snapshot)) ∨
      (∃ e, result = .error e) ∧ Sound j' ∧ j'.snapshot = j.snapshot := by
  unfold createNode at hcreate
  dsimp only at hcreate
  split at hcreate
  · cases hcreate
    exact .inr ⟨⟨_, rfl⟩, hsound, rfl⟩
  · next id _ =>
    split at hcreate
    · next j₁ e happend =>
      cases hcreate
      obtain ⟨hsound', hcases⟩ := hsound.append_cases happend
      rcases hcases with ⟨_, _, _, hok, _⟩ | ⟨_, hsame⟩
      · cases hok
      · exact .inr ⟨⟨_, rfl⟩, hsound', hsame⟩
    · next j₁ offset happend =>
      cases hcreate
      obtain ⟨hsound', hcases⟩ := hsound.append_cases happend
      rcases hcases with ⟨s, _, branch, _, happly, hsnapshot⟩ | ⟨⟨_, herror⟩, _⟩
      · obtain ⟨s₁, u, hone, hnodes⟩ := applyPatch_single rfl happly
        have hcreated := applyCreate_created hsound.wellFormed hone
        have hchildren : ∀ up, j'.snapshot.children up = s₁.children up := by
          intro up
          unfold SessionSnapshot.children SessionSnapshot.element
          rw [hsnapshot, show ({ s with selectedBranch := branch } : SessionSnapshot).nodes =
            s₁.nodes from hnodes]
        have hperm : (summaries j'.snapshot).Perm
            (node.toElement id kind text :: summaries j.snapshot) := by
          unfold summaries
          rw [hchildren]
          exact hcreated.children
        have hfresh : id ∉ (summaries j.snapshot).map ElementSnapshot.id := by
          intro hmem
          obtain ⟨e, he, rfl⟩ := mem_map.mp hmem
          obtain ⟨n, hn, _⟩ := (mem_children_iff hsound.wellFormed).mp he
          exact hcreated.fresh (hsound.wellFormed.used hn)
        refine .inl ⟨id, rfl, ⟨hsound', ?_, fun other hother => ?_⟩, hfresh, hperm⟩
        · intro key n hn hkey _
          rw [hsnapshot]
          show s.nodes[key]? = some n
          rw [hnodes]
          exact hcreated.nodes key n hkey hn
        · exact (hperm.map ElementSnapshot.id).mem_iff.mpr (mem_cons_of_mem _ hother)
      · cases herror

/-- Replacing the text of a node replaces that text, or it leaves the document alone. -/
theorem replaceNodeText_cases {owner : ActorId} {id : ElementId} {text : String}
    {world : Journal.Outside} {result : Except StructuredError Unit} (hsound : Sound j)
    (hid : id ∈ (summaries j.snapshot).map ElementSnapshot.id)
    (hreplace : replaceNodeText j owner id text world = (j', result)) :
    (result = .ok () ∧ Onward j j' ∧
      summaries j'.snapshot = (summaries j.snapshot).map (retext id text)) ∨
      (∃ e, result = .error e) ∧ Sound j' ∧ j'.snapshot = j.snapshot := by
  unfold replaceNodeText at hreplace
  dsimp only at hreplace
  split at hreplace
  · next j₁ e happend =>
    cases hreplace
    obtain ⟨hsound', hcases⟩ := hsound.append_cases happend
    rcases hcases with ⟨_, _, _, hok, _⟩ | ⟨_, hsame⟩
    · cases hok
    · exact .inr ⟨⟨_, rfl⟩, hsound', hsame⟩
  · next j₁ offset happend =>
    cases hreplace
    obtain ⟨hsound', hcases⟩ := hsound.append_cases happend
    rcases hcases with ⟨s, _, branch, _, happly, hsnapshot⟩ | ⟨⟨_, herror⟩, _⟩
    · obtain ⟨s₁, u, hone, hnodes⟩ := applyPatch_single rfl happly
      have hretexted := replaceText_retexted hsound.wellFormed hone
      have hsummaries : summaries j'.snapshot = (summaries j.snapshot).map (retext id text) := by
        unfold summaries
        rw [← hretexted.children]
        unfold SessionSnapshot.children SessionSnapshot.element
        rw [hsnapshot, show ({ s with selectedBranch := branch } : SessionSnapshot).nodes =
          s₁.nodes from hnodes]
      refine .inl ⟨rfl, ⟨hsound', ?_, fun other hother => ?_⟩, hsummaries⟩
      · intro key n hn _ hup
        have hne : key ≠ id := by
          rintro rfl
          obtain ⟨e, he, rfl⟩ := mem_map.mp hid
          obtain ⟨node, hnode, _, hparent⟩ := (mem_children_iff hsound.wellFormed).mp he
          rw [hn] at hnode
          cases hnode
          exact hup hparent
        rw [hsnapshot]
        show s.nodes[key]? = some n
        rw [hnodes, hretexted.nodes key hne]
        exact hn
      · rw [hsummaries, map_map]
        obtain ⟨e, he, rfl⟩ := mem_map.mp hother
        exact mem_map.mpr ⟨e, he, id_retext id text e⟩
    · cases herror

/-- A journal that has gone on by nodes that cover new elements. -/
structure Advanced (j j' : Journal) (new : List ElementId) : Prop where
  sound : Sound j'
  kept : Kept j.snapshot j'.snapshot
  summarised : Summarised (summaries j'.snapshot)
  covers : ∀ x, Covers (summaries j'.snapshot) x ↔ Covers (summaries j.snapshot) x ∨ x ∈ new

theorem Advanced.trans {j₁ : Journal} {first second : List ElementId} (h : Advanced j j₁ first)
    (h' : Advanced j₁ j' second) : Advanced j j' (first ++ second) := by
  refine ⟨h'.sound, h.kept.trans h'.kept, h'.summarised, fun x => ?_⟩
  rw [h'.covers, h.covers, mem_append, or_assoc]

theorem Advanced.same (hsound : Sound j') (hsummarised : Summarised (summaries j.snapshot))
    (hsame : j'.snapshot = j.snapshot) : Advanced j j' [] := by
  refine ⟨hsound, (Onward.same hsound hsame).kept, hsame ▸ hsummarised, fun x => ?_⟩
  rw [hsame]
  simp

/-- A new node over roots, which covers elements that are not covered yet. -/
theorem createNode_advanced {owner : ActorId} {node : SummaryNode} {kind : SummaryKind}
    {text : String} {draw : Draw} {result : Except StructuredError ElementId} (hsound : Sound j)
    (hsummarised : Summarised (summaries j.snapshot))
    (hroots : ∀ child ∈ node.children, Forest.IsRoot (groups (summaries j.snapshot)) child)
    (hnodup : node.covered.Nodup) (hnew : ∀ x ∈ node.covered, ¬ Covers (summaries j.snapshot) x)
    (hcreate : createNode j owner node kind text draw = (j', result)) :
    (∃ id, result = .ok id ∧ Advanced j j' node.covered ∧
      id ∉ (summaries j.snapshot).map ElementSnapshot.id ∧
      (summaries j'.snapshot).Perm (node.toElement id kind text :: summaries j.snapshot)) ∨
      (∃ e, result = .error e) ∧ Advanced j j' [] := by
  rcases createNode_cases hsound hcreate with
    ⟨id, hok, honward, hfresh, hperm⟩ | ⟨herror, hsound', hsame⟩
  · have hadded := hsummarised.add (e := node.toElement id kind text)
      (by rw [nodeOf_toElement]; exact SummaryNode.fromElement_toElement ..) hfresh
      (by rw [nodeOf_toElement]; exact hroots) (by rw [nodeOf_toElement]; exact hnodup)
      (by
        rw [nodeOf_toElement]
        exact fun x hx e he hcovered => hnew x hx ⟨e, he, hcovered⟩)
    refine .inl ⟨id, hok, ⟨honward.sound, honward.kept, hadded.perm hperm.symm, fun x => ?_⟩,
      hfresh, hperm⟩
    unfold Covers
    simp only [hperm.mem_iff, mem_cons, exists_eq_or_imp, nodeOf_toElement]
    exact or_comm
  · exact .inr ⟨herror, .same hsound' hsummarised hsame⟩

/-- Another text for a node. -/
theorem replaceNodeText_advanced {owner : ActorId} {id : ElementId} {text : String}
    {world : Journal.Outside} {result : Except StructuredError Unit} (hsound : Sound j)
    (hsummarised : Summarised (summaries j.snapshot))
    (hid : id ∈ (summaries j.snapshot).map ElementSnapshot.id)
    (hreplace : replaceNodeText j owner id text world = (j', result)) :
    Advanced j j' [] ∧ ((∃ e, result = .error e) ∨ result = .ok () ∧
      summaries j'.snapshot = (summaries j.snapshot).map (retext id text)) := by
  rcases replaceNodeText_cases hsound hid hreplace with
    ⟨hok, honward, hsummaries⟩ | ⟨herror, hsound', hsame⟩
  · refine ⟨⟨honward.sound, honward.kept, hsummaries ▸ hsummarised.retext id text, fun x => ?_⟩,
      .inr ⟨hok, hsummaries⟩⟩
    rw [hsummaries]
    unfold Covers
    simp
  · exact ⟨.same hsound' hsummarised hsame, .inl herror⟩

/-! ## The stages -/

omit [SerdeJson] in
theorem mem_of_root {dag : SummaryDag} {es : List ElementSnapshot} (h : dag.Of es) {id : ElementId}
    (hid : id ∈ dag.roots) : id ∈ dag.order ∧ id ∈ es.map ElementSnapshot.id := by
  have horder := (mem_filter.mp hid).1
  exact ⟨horder, h.order.mem_iff.mp horder⟩

/-- The commit of an elision. -/
theorem commitElision_advanced {owner : ActorId} {entries : List BodyEntry} {ids : List ElementId}
    {dag : SummaryDag} {draw : Draw} {result : Except StructuredError SummaryDag}
    (hsound : Sound j) (hsummarised : Summarised (summaries j.snapshot))
    (hdag : dag.Of (summaries j.snapshot)) (hnodup : ids.Nodup)
    (hnew : ∀ x ∈ ids, ¬ Covers (summaries j.snapshot) x)
    (hcommit : commitElision j owner entries ids dag draw = (j', result)) :
    (∃ dag', result = .ok dag' ∧ Advanced j j' ids ∧ dag'.Of (summaries j'.snapshot)) ∨
      (∃ e, result = .error e) ∧ Advanced j j' [] := by
  unfold commitElision at hcommit
  split at hcommit
  · next hempty =>
    cases hcommit
    obtain rfl := isEmpty_iff.mp hempty
    exact .inl ⟨dag, rfl, .same hsound hsummarised rfl, hdag⟩
  · dsimp only at hcommit
    generalize hnode : (⟨ids, [], _, _⟩ : SummaryNode) = node at hcommit
    generalize renderInventory ids entries = text at hcommit
    have hids : node.covered = ids := by rw [← hnode]
    have hleaf : node.children = [] := by rw [← hnode]
    have hroots : ∀ child ∈ node.children, Forest.IsRoot (groups (summaries j.snapshot)) child := by
      rw [hleaf]
      exact fun _ hmem => absurd hmem not_mem_nil
    rw [← hids] at hnodup hnew
    split at hcommit
    · next e hcreate =>
      cases hcommit
      rcases createNode_advanced hsound hsummarised hroots hnodup hnew hcreate with
        ⟨_, hok, _⟩ | ⟨_, hadvanced⟩
      · cases hok
      · exact .inr ⟨⟨_, rfl⟩, hadvanced⟩
    · next id hcreate =>
      cases hcommit
      rcases createNode_advanced hsound hsummarised hroots hnodup hnew hcreate with
        ⟨_, hok, hadvanced, hfresh, hperm⟩ | ⟨⟨_, herror⟩, _⟩
      · cases hok
        refine .inl ⟨_, rfl, hids ▸ hadvanced, ?_⟩
        have hadded := hdag.add (e := node.toElement id .leaf text)
          (by rw [nodeOf_toElement]; exact SummaryNode.fromElement_toElement ..) hfresh
        unfold SummaryDag.add at hadded
        rw [SummaryNode.fromElement_toElement] at hadded
        dsimp only at hadded
        rw [hleaf] at hadded
        exact hadded.perm hperm.symm
      · cases herror

/-- What every new node keeps is kept by the loop that condenses. -/
theorem condense_rule {P : Journal → Except StructuredError SummaryDag → Prop} {owner : ActorId}
    {maxRoots fuel : Nat} {draws : Nat → Draw} {dag : SummaryDag}
    {result : Except StructuredError SummaryDag}
    (hstep : ∀ j (dag : SummaryDag) node text draw j' result, P j (.ok dag) →
      node.children = dag.roots.take condenseFanIn → node.covered = [] →
      createNode j owner node .condensed text draw = (j', result) →
      P j' (result.map fun _ => .load j'.snapshot))
    (h : P j (.ok dag)) (hcondense : condense owner maxRoots draws fuel j dag = (j', result)) :
    P j' result := by
  induction fuel generalizing j dag with
  | zero =>
      cases hcondense
      exact h
  | succ fuel ih =>
      unfold condense at hcondense
      split at hcondense
      · cases hcondense
        exact h
      · dsimp only at hcondense
        split at hcondense
        · cases hcondense
          exact h
        · split at hcondense
          · next hcreate =>
            cases hcondense
            exact hstep _ _ _ _ _ _ _ h rfl rfl hcreate
          · next hcreate => exact ih (hstep _ _ _ _ _ _ _ h rfl rfl hcreate) hcondense

/-- What every new text keeps is kept by the loop that caps texts. -/
theorem capTexts_rule {P : Journal → Except StructuredError SummaryDag → Prop} {owner : ActorId}
    {entries : List BodyEntry} {covered : Std.ExtTreeSet ElementId} {reductions : Reductions}
    {config : CompactionConfig} {worlds : Nat → Journal.Outside} {fuel : Nat} {dag : SummaryDag}
    {result : Except StructuredError SummaryDag}
    (hstep : ∀ j (dag : SummaryDag) id text world j' result, P j (.ok dag) → id ∈ dag.roots →
      replaceNodeText j owner id text world = (j', result) →
      P j' (result.map fun _ => { dag with texts := dag.texts.insert id text }))
    (h : P j (.ok dag))
    (hcap : capTexts owner entries covered reductions config worlds fuel j dag = (j', result)) :
    P j' result := by
  induction fuel generalizing j dag with
  | zero =>
      cases hcap
      exact h
  | succ fuel ih =>
      unfold capTexts at hcap
      split at hcap
      · split at hcap
        · cases hcap
          exact h
        · next id hfind =>
          have hid := mem_of_find?_eq_some hfind
          dsimp only at hcap
          split at hcap
          · next hreplace =>
            cases hcap
            exact hstep _ _ _ _ _ _ _ h hid hreplace
          · next hreplace => exact ih (hstep _ _ _ _ _ _ _ h hid hreplace) hcap
      · cases hcap
        exact h

/-- Condensing covers nothing new. -/
theorem condense_advanced {owner : ActorId} {maxRoots fuel : Nat} {draws : Nat → Draw}
    {dag : SummaryDag} {result : Except StructuredError SummaryDag} (hsound : Sound j)
    (hsummarised : Summarised (summaries j.snapshot)) (hdag : dag.Of (summaries j.snapshot))
    (hcondense : condense owner maxRoots draws fuel j dag = (j', result)) :
    Advanced j j' [] ∧ ∀ dag', result = .ok dag' → dag'.Of (summaries j'.snapshot) := by
  refine condense_rule (P := fun j' result => Advanced j j' [] ∧
    ∀ dag', result = .ok dag' → dag'.Of (summaries j'.snapshot)) ?_
    ⟨.same hsound hsummarised rfl, fun _ hok => Except.ok.inj hok ▸ hdag⟩ hcondense
  rintro j₁ dag₁ node text draw j₂ result ⟨hadvanced, hof⟩ hchildren hcovered hcreate
  have hroots : ∀ child ∈ node.children, Forest.IsRoot (groups (summaries j₁.snapshot)) child :=
    fun child hchild => (hof _ rfl).mem_roots.mp (mem_of_mem_take (hchildren ▸ hchild))
  rcases createNode_advanced hadvanced.sound hadvanced.summarised hroots
    (hcovered ▸ nodup_nil) (fun x hx => absurd (hcovered ▸ hx) not_mem_nil) hcreate with
    ⟨_, rfl, hadvanced', _⟩ | ⟨⟨_, rfl⟩, hadvanced'⟩
  · rw [hcovered] at hadvanced'
    refine ⟨hadvanced.trans hadvanced', fun dag' hok => ?_⟩
    cases hok
    exact SummaryDag.load_of hadvanced'.summarised
  · exact ⟨hadvanced.trans hadvanced', nofun⟩

/-- Capping the texts of nodes covers nothing new. -/
theorem capTexts_advanced {owner : ActorId} {entries : List BodyEntry}
    {covered : Std.ExtTreeSet ElementId} {reductions : Reductions} {config : CompactionConfig}
    {worlds : Nat → Journal.Outside} {fuel : Nat} {dag : SummaryDag}
    {result : Except StructuredError SummaryDag} (hsound : Sound j)
    (hsummarised : Summarised (summaries j.snapshot)) (hdag : dag.Of (summaries j.snapshot))
    (hcap : capTexts owner entries covered reductions config worlds fuel j dag = (j', result)) :
    Advanced j j' [] ∧ ∀ dag', result = .ok dag' → dag'.Of (summaries j'.snapshot) := by
  refine capTexts_rule (P := fun j' result => Advanced j j' [] ∧
    ∀ dag', result = .ok dag' → dag'.Of (summaries j'.snapshot)) ?_
    ⟨.same hsound hsummarised rfl, fun _ hok => Except.ok.inj hok ▸ hdag⟩ hcap
  rintro j₁ dag₁ id text world j₂ result ⟨hadvanced, hof⟩ hroot hreplace
  obtain ⟨horder, hid⟩ := mem_of_root (hof _ rfl) hroot
  obtain ⟨hadvanced', ⟨_, rfl⟩ | ⟨rfl, htexts⟩⟩ :=
    replaceNodeText_advanced hadvanced.sound hadvanced.summarised hid hreplace
  · exact ⟨hadvanced.trans hadvanced', nofun⟩
  · refine ⟨hadvanced.trans hadvanced', fun dag' hok => ?_⟩
    cases hok
    rw [htexts]
    exact (hof _ rfl).retext horder text

omit [SerdeJson] in
/-- The children of a node are different elements. -/
theorem nodup_children {s : SessionSnapshot} (hwf : WellFormed s) (up : ElementId) :
    ((s.children up).map ElementSnapshot.id).Nodup := by
  unfold SessionSnapshot.children
  cases hn : s.nodes[up]? with
  | none => exact nodup_nil
  | some n =>
      have hsublist : ∀ keys : List ElementId,
          ((keys.filterMap s.element).map ElementSnapshot.id).Sublist keys := by
        intro keys
        induction keys with
        | nil => exact .refl _
        | cons key keys ih =>
          rw [filterMap_cons]
          split
          · exact ih.cons _
          · next e he =>
            obtain ⟨node, hnode, rfl⟩ := Option.map_eq_some_iff.mp he
            rw [map_cons, hwf.named hnode]
            exact ih.cons_cons _
      exact (hwf.tree.nodup (linksOf_of_get hn)).sublist (hsublist n.children)

/-- A pass covers what may be elided, and renders the nodes of the journal that it leaves. -/
theorem planStages_advanced (owner : ActorId) (config : CompactionConfig) (draws : Draws)
    {result : Except StructuredError Planned} (hsound : Sound j)
    (hsummarised : Summarised (summaries j.snapshot))
    (hplan : planStages j owner config draws = (j', result)) :
    ∃ new, Advanced j j' new ∧ (∀ x ∈ new, ∃ e, Elidable j.snapshot e ∧ e.id = x) ∧
      ∀ planned, result = .ok planned → planned.dag.Of (summaries j'.snapshot) ∧
        ∀ x, x ∈ planned.covered ↔ Covers (summaries j'.snapshot) x := by
  have hloaded : (SummaryDag.load j.snapshot).Of (summaries j.snapshot) :=
    SummaryDag.load_of hsummarised
  have hnodup : ((collectEntries j.snapshot).map BodyEntry.id).Nodup :=
    (nodup_children hsound.wellFormed (staticId "body")).sublist collectEntries_sublist
  unfold planStages at hplan
  dsimp only at hplan
  rw [if_neg (by rw [hloaded.readable]; exact Nat.lt_irrefl 0)] at hplan
  obtain ⟨hselected, hspec⟩ := select_spec (SummaryDag.load j.snapshot).covered config
    (projectedTokens (collectEntries j.snapshot) (SummaryDag.load j.snapshot).covered
      (SummaryDag.load j.snapshot) ∅ config.fixedOverheadTokens) hnodup
  generalize select (collectEntries j.snapshot) (SummaryDag.load j.snapshot).covered config _ =
    pending at hplan hselected hspec
  have hnew : ∀ x ∈ pending, ¬ Covers (summaries j.snapshot) x := by
    intro x hx hcovers
    obtain ⟨entry, _, _, _, _, _, _, rfl, _, hnot⟩ := hspec x hx
    exact hnot (hloaded.mem_covered.mpr hcovers)
  have helidable : ∀ x ∈ pending, ∃ e, Elidable j.snapshot e ∧ e.id = x := by
    intro x hx
    obtain ⟨entry, front, user, back, hsplit, hrole, hfront, rfl, heligible, _⟩ := hspec x hx
    exact elidable_of_entry hsplit hrole hfront heligible
  split at hplan
  · next hcommit =>
    cases hplan
    rcases commitElision_advanced hsound hsummarised hloaded hselected hnew hcommit with
      ⟨_, hok, _⟩ | ⟨_, hadvanced⟩
    · cases hok
    · exact ⟨[], hadvanced, nofun, nofun⟩
  · next j₁ dag₁ hcommit =>
    rcases commitElision_advanced hsound hsummarised hloaded hselected hnew hcommit with
      ⟨_, hok, hadvanced₁, hdag₁⟩ | ⟨⟨_, herror⟩, _⟩
    · cases hok
      split at hplan
      · next hcondense =>
        cases hplan
        obtain ⟨hadvanced₂, _⟩ :=
          condense_advanced hadvanced₁.sound hadvanced₁.summarised hdag₁ hcondense
        refine ⟨pending, ?_, helidable, nofun⟩
        exact append_nil pending ▸ hadvanced₁.trans hadvanced₂
      · next j₂ dag₂ hcondense =>
        obtain ⟨hadvanced₂, hdag₂⟩ :=
          condense_advanced hadvanced₁.sound hadvanced₁.summarised hdag₁ hcondense
        split at hplan
        · next hcap =>
          cases hplan
          obtain ⟨hadvanced₃, _⟩ := capTexts_advanced hadvanced₂.sound hadvanced₂.summarised
            (hdag₂ _ rfl) hcap
          refine ⟨pending, ?_, helidable, nofun⟩
          have hall := (hadvanced₁.trans hadvanced₂).trans hadvanced₃
          rw [append_nil, append_nil] at hall
          exact hall
        · next j₃ dag₃ hcap =>
          cases hplan
          obtain ⟨hadvanced₃, hdag₃⟩ := capTexts_advanced hadvanced₂.sound
            hadvanced₂.summarised (hdag₂ _ rfl) hcap
          have hall := (hadvanced₁.trans hadvanced₂).trans hadvanced₃
          rw [append_nil, append_nil] at hall
          refine ⟨pending, hall, helidable, fun planned hok => ?_⟩
          cases hok
          refine ⟨hdag₃ _ rfl, fun x => ?_⟩
          rw [SummaryDag.mem_extend, hloaded.mem_covered, hall.covers]
    · cases herror

end Journaling

/-! ## Runs -/

section Runs

variable [SerdeJson] {j : Journal}

/-- What happens to a journal: elements are appended, or a pass is planned. -/
inductive Event where
  | append (patch : Patch) (world : Journal.Outside)
  | plan (owner : ActorId) (config : CompactionConfig) (draws : Draws)

/-- The journal after an event. -/
def step (j : Journal) : Event → Journal
  | .append patch world => (j.appendPatch patch world).1
  | .plan owner config draws => (plan j owner config draws).1

omit [SerdeJson] in
/-- What is appended are new elements, none of them right under `summaries`. -/
def Event.Appends : Event → Prop
  | .append patch _ => ∀ op ∈ patch.ops, ∃ parent index element,
      op = .create parent index element ∧ parent ≠ staticId "summaries"
  | .plan .. => True

/-- A pass is lossless: the body is as it was, it covers nothing but elements that may be elided,
and before and after it the nodes partition what they cover. Its outcome are the folds of these
nodes and what they cover. -/
structure Lossless (j : Journal) (planned : Journal × Except StructuredError CompactionOutcome) :
    Prop where
  body : planned.1.snapshot.getVisibleBody = j.snapshot.getVisibleBody
  addressable : ∀ e ∈ j.snapshot.getVisibleBody, planned.1.snapshot.element e.id = some e ∧
    planned.1.snapshot.children e.id = j.snapshot.children e.id
  safe : ∀ x, x ∈ (SummaryDag.load planned.1.snapshot).covered →
    x ∉ (SummaryDag.load j.snapshot).covered → ∃ e, Elidable j.snapshot e ∧ e.id = x
  before : Partition (SummaryDag.load j.snapshot)
  after : Partition (SummaryDag.load planned.1.snapshot)
  outcome : ∀ outcome, planned.2 = .ok outcome →
    outcome.folds.Perm (SummaryDag.load planned.1.snapshot).folds ∧
      ∀ x, x ∈ outcome.covered ↔ x ∈ (SummaryDag.load planned.1.snapshot).covered

/-- A pass over a forest of nodes is lossless. -/
theorem plan_lossless (hsound : Sound j) (hsummarised : Summarised (summaries j.snapshot))
    (owner : ActorId) (config : CompactionConfig) (draws : Draws) :
    Lossless j (plan j owner config draws) := by
  have hwf := hsound.wellFormed
  obtain ⟨j', result, hplan⟩ : ∃ j' result, planStages j owner config draws = (j', result) :=
    ⟨_, _, rfl⟩
  obtain ⟨new, hadvanced, helidable, hok⟩ :=
    planStages_advanced owner config draws hsound hsummarised hplan
  have hjournal : (plan j owner config draws).1 = j' := by
    unfold plan
    rw [hplan]
    cases result <;> rfl
  have hbefore : (SummaryDag.load j.snapshot).Of (summaries j.snapshot) :=
    SummaryDag.load_of hsummarised
  have hafter : (SummaryDag.load j'.snapshot).Of (summaries j'.snapshot) :=
    SummaryDag.load_of hadvanced.summarised
  obtain ⟨hbody, helements⟩ := hadvanced.kept.body hwf
  refine ⟨?_, fun e he => ?_, fun x hx hnot => ?_, hbefore.partition hsummarised, ?_,
    fun outcome houtcome => ?_⟩
  · rw [hjournal]
    exact hbody
  · rw [hjournal]
    exact helements e he
  · rw [hjournal, hafter.mem_covered, hadvanced.covers] at hx
    rw [hbefore.mem_covered] at hnot
    exact helidable x (hx.resolve_left hnot)
  · rw [hjournal]
    exact hafter.partition hadvanced.summarised
  · rw [hjournal]
    unfold plan at houtcome
    rw [hplan] at houtcome
    cases result with
    | error e => cases houtcome
    | ok planned =>
      cases houtcome
      obtain ⟨hdag, hcovered⟩ := hok planned rfl
      refine ⟨hdag.folds_perm hafter, fun x => ?_⟩
      rw [hafter.mem_covered]
      exact hcovered x

/-- Appending elements leaves the nodes as they are. -/
theorem append_summaries {patch : Patch} {world : Journal.Outside} (hsound : Sound j)
    (happends : (Event.append patch world).Appends) :
    Sound (j.appendPatch patch world).1 ∧
      summaries (j.appendPatch patch world).1.snapshot = summaries j.snapshot := by
  have hops : ∀ (ops : List PatchOp) (done : List Undo) (s s' : SessionSnapshot), WellFormed s →
      (∀ op ∈ ops, ∃ parent index element,
        op = .create parent index element ∧ parent ≠ staticId "summaries") →
      s.applyOps done ops = (s', .ok ()) → summaries s' = summaries s := by
    intro ops
    induction ops with
    | nil =>
      intro done s s' _ _ hrun
      cases hrun
      rfl
    | cons op ops ih =>
      intro done s s' hwf hcreates hrun
      obtain ⟨⟨parent, index, element, rfl, hparent⟩, hrest⟩ := forall_mem_cons.mp hcreates
      unfold applyOps at hrun
      split at hrun
      · next s₁ u happly =>
        have hcreated := applyCreate_created hwf happly
        obtain ⟨n, hn, _⟩ := hwf.containers (staticId "summaries") (by decide)
        rw [ih _ _ _ (hwf.applyOne happly) hrest hrun]
        exact hcreated.others _ (Ne.symm hparent)
          fun heq => hcreated.fresh (heq ▸ hwf.used hn)
      · cases hrun
  obtain ⟨hsound', hcases⟩ :=
    hsound.append_cases (Prod.mk.eta (p := j.appendPatch patch world)).symm
  refine ⟨hsound', ?_⟩
  rcases hcases with ⟨s, offset, branch, _, happly, hsnapshot⟩ | ⟨_, hsame⟩
  · obtain ⟨_, _, s₁, hrun, rfl⟩ := applyPatch_ok happly
    have hkept := hops patch.ops [] _ s₁ hsound.wellFormed happends hrun
    rw [hsnapshot]
    exact hkept
  · rw [hsame]

/-- Every event keeps the forest of nodes. -/
theorem step_summarised {event : Event} (happends : event.Appends)
    (h : Sound j ∧ Summarised (summaries j.snapshot)) :
    Sound (step j event) ∧ Summarised (summaries (step j event).snapshot) := by
  obtain ⟨hsound, hsummarised⟩ := h
  cases event with
  | append patch world =>
      obtain ⟨hsound', hsame⟩ := append_summaries hsound happends
      exact ⟨hsound', hsame.symm ▸ hsummarised⟩
  | plan owner config draws =>
      obtain ⟨_, hadvanced, _⟩ := planStages_advanced owner config draws hsound hsummarised
        (Prod.mk.eta).symm
      have hjournal : (plan j owner config draws).1 = (planStages j owner config draws).1 := by
        unfold plan
        split <;> next heq => rw [heq]
      show Sound (plan j owner config draws).1 ∧
        Summarised (summaries (plan j owner config draws).1.snapshot)
      rw [hjournal]
      exact ⟨hadvanced.sound, hadvanced.summarised⟩

theorem created_summaries {sessionId : SessionId} {j₀ : Journal}
    (hcreate : Journal.create sessionId = .ok j₀) : summaries j₀.snapshot = [] := by
  have hget := (seeded_empty sessionId).get (staticId "summaries")
  rw [if_pos (by decide)] at hget
  rw [(Journal.create_eq_ok hcreate).1]
  show (empty sessionId).children (staticId "summaries") = []
  unfold SessionSnapshot.children
  rw [hget]
  rfl

/-- In every journal that appended elements and planned passes lead to from a created one, every
pass is lossless. -/
theorem run_lossless {sessionId : SessionId} {j₀ : Journal}
    (hcreate : Journal.create sessionId = .ok j₀) {events : List Event}
    (happends : ∀ event ∈ events, event.Appends) (owner : ActorId) (config : CompactionConfig)
    (draws : Draws) :
    Lossless (Machine.run step j₀ events)
      (plan (Machine.run step j₀ events) owner config draws) := by
  have hstart : Sound j₀ ∧ Summarised (summaries j₀.snapshot) := by
    refine ⟨⟨_, _, Journal.create_coherent hcreate⟩, ?_⟩
    rw [created_summaries hcreate]
    exact summarised_nil
  have hrun := Machine.invariant_along
    (P := fun j : Journal => Sound j ∧ Summarised (summaries j.snapshot))
    (fun j event h happends => step_summarised happends h) hstart
    (Machine.along_of_forall (P := Event.Appends) (fun _ _ h => h) happends)
  exact plan_lossless hrun.1 hrun.2 owner config draws

end Runs

end Omp2.Control

/-! ## A run -/

namespace Omp2.Control

open Omp2.Json.Compact Omp2.State Journal

/-- The owner of the runs on fixed inputs. -/
def owner : ActorId := ⟨"owner", Eq.refl true⟩

/-- A configuration whose bounds every text exceeds. -/
def tightConfig : CompactionConfig where
  budget := ⟨1, 1⟩
  keepRecentTurns := 1
  maxRootNodes := 1
  fixedOverheadTokens := 0

/-- Draws that the file obeys. -/
def obedientDraws (minted : ElementId) : Draws where
  elision := ⟨minted, ⟨.ok 8, .done⟩⟩
  condensation := fun _ => ⟨minted, ⟨.ok 9, .done⟩⟩
  cap := fun _ => ⟨.ok 9, .done⟩

/-- A patch that appends a message of each side. -/
def messagesPatch : Patch where
  baseOffset := 0
  resultOffset := 1
  author := .actor owner
  reason := "messages"
  ops := [.create (staticId "body") 0 (ElementSnapshot.new ⟨"question", Eq.refl true⟩ "user"),
    .create (staticId "body") 1 (ElementSnapshot.new ⟨"answer", Eq.refl true⟩ "assistant")]

/-- Messages are appended and a pass is planned. -/
def messagesAndPass : List Event :=
  [.append messagesPatch ⟨.ok 7, .done⟩,
    .plan owner tightConfig (obedientDraws ⟨"first", Eq.refl true⟩)]

/-- The next pass is lossless. -/
theorem messagesAndPass_lossless : ∃ j₀, Journal.create exampleSession = .ok j₀ ∧
    Lossless (Machine.run step j₀ messagesAndPass) (plan (Machine.run step j₀ messagesAndPass) owner
      tightConfig (obedientDraws ⟨"second", Eq.refl true⟩)) := by
  obtain ⟨j₀, hcreate⟩ := exists_create_exampleSession
  refine ⟨j₀, hcreate, run_lossless hcreate ?_ owner tightConfig _⟩
  intro event hevent
  rcases List.mem_pair.mp hevent with rfl | rfl
  · intro op hop
    rcases List.mem_pair.mp hop with rfl | rfl
    · exact ⟨_, _, _, rfl, by decide⟩
    · exact ⟨_, _, _, rfl, by decide⟩
  · exact trivial

end Omp2.Control
