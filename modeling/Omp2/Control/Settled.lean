import Omp2.Control.Settlement

/-!
# Calls whose elements are settled

Every spill of a stream within the limits puts the text that has been streamed into the element of
its turn, and the patch at the end settles it. So after a call whose patches keep the limits, each
tool call and each turn that the call has begun is settled, and a turn has the text that the
provider has returned or, where it has failed, the text that it had streamed.
-/

namespace Omp2.Control

open Omp2.Json Omp2.State SessionSnapshot Journal List

/-! ## The buffers of a stream -/

/-- `InferenceDelta`. -/
inductive InferenceDelta where
  | text (text : String)
  | thinking (text : String)

/-- `STREAM_FLUSH_BYTES`. -/
def streamFlushBytes : Nat := 64 * 1024

/-- A delta that reaches the host, and whether the time of a flush has come. -/
structure Delivery where
  delta : InferenceDelta
  due : Bool

/-- What the buffers hold at each flush, and at the end. -/
def spills (text thinking : String) :
    List Delivery → List (String × String) × (String × String)
  | [] => ([], text, thinking)
  | delivery :: rest =>
    let (text, thinking) :=
      match delivery.delta with
      | .text delta => (text ++ delta, thinking)
      | .thinking delta => (text, thinking ++ delta)
    if streamFlushBytes ≤ text.utf8ByteSize + thinking.utf8ByteSize ∨ delivery.due then
      let (flushed, left) := spills "" "" rest
      ((text, thinking) :: flushed, left)
    else spills text thinking rest

/-- The text of the deltas. -/
def deliveredText : List Delivery → String
  | [] => ""
  | ⟨.text delta, _⟩ :: rest => delta ++ deliveredText rest
  | ⟨.thinking _, _⟩ :: rest => deliveredText rest

/-- The deltas of an inference are those whose buffers it spills. -/
def Inference.Streams (w : Inference) (deliveries : List Delivery) : Prop :=
  spills "" "" deliveries = (w.flushes.map fun flush => (flush.text, flush.thinking),
    w.last.text, w.last.thinking)

/-- The text of the spills of a stream. -/
def spilledText (texts : List String) : String :=
  texts.foldr (· ++ ·) ""

@[simp] theorem spilledText_cons (text : String) (texts : List String) :
    spilledText (text :: texts) = text ++ spilledText texts :=
  rfl

theorem spilledText_concat (texts : List String) (last : String) :
    spilledText (texts ++ [last]) = spilledText texts ++ last := by
  induction texts with
  | nil => exact String.append_empty.trans String.empty_append.symm
  | cons text texts ih => rw [cons_append, spilledText_cons, spilledText_cons, ih,
      String.append_assoc]

/-- The buffers lose no text. -/
theorem spills_text (text thinking : String) (deliveries : List Delivery) :
    spilledText ((spills text thinking deliveries).1.map Prod.fst) ++
        (spills text thinking deliveries).2.1 = text ++ deliveredText deliveries := by
  induction deliveries generalizing text thinking with
  | nil => exact String.empty_append.trans String.append_empty.symm
  | cons delivery rest ih =>
      obtain ⟨delta, due⟩ := delivery
      cases delta with
      | text delta =>
        unfold spills deliveredText
        dsimp only
        split
        · rw [map_cons, spilledText_cons, String.append_assoc, ih, String.empty_append,
            String.append_assoc]
        · rw [ih, String.append_assoc]
      | thinking delta =>
        unfold spills deliveredText
        dsimp only
        split
        · rw [map_cons, spilledText_cons, String.append_assoc, ih, String.empty_append]
        · rw [ih]

theorem Inference.Streams.text {w : Inference} {deliveries : List Delivery}
    (h : w.Streams deliveries) :
    spilledText ((w.flushes ++ [w.last]).map Flush.text) = deliveredText deliveries := by
  have htext := spills_text "" "" deliveries
  rw [h, String.empty_append, map_map] at htext
  rw [map_append, map_singleton, spilledText_concat]
  exact htext

section Inferences

variable [SerdeJson] {j j' : Journal} {owner : ActorId} {e : ElementSnapshot}
  {s s' : SessionSnapshot}

/-! ## Spills -/

/-- The part of a spill with its text. -/
def spillText (element : ElementId) (flush : Flush) : List PatchOp :=
  if flush.text.isEmpty then [] else [.appendText element flush.text]

omit [SerdeJson] in
/-- The rest of a spill appends to a child, or it creates one. -/
theorem flushOps_cases (s : SessionSnapshot) (element : ElementId) (flush : Flush) :
    ∃ more, flushOps s element flush = spillText element flush ++ more ∧
      (more = [] ∨ (∃ child ∈ s.children element, more = [.appendText child.id flush.thinking]) ∨
        ∃ think : ElementSnapshot, think.id = flush.think ∧ more = [.create element 0 think]) := by
  refine ⟨_, rfl, ?_⟩
  split
  · exact .inl rfl
  · split
    · next child hchild =>
      exact .inr (.inl ⟨child, mem_of_find?_eq_some hchild, rfl⟩)
    · exact .inr (.inr ⟨_, rfl, rfl⟩)

omit [SerdeJson] in
/-- A spill applies to an element of the body. -/
theorem exists_flush (hwf : WellFormed s) (he : e ∈ s.getVisibleBody) (flush : Flush)
    (hthink : flush.think ∉ s.usedIds) :
    ∃ s', s.applyOps [] (flushOps s e.id flush) = (s', .ok ()) := by
  have hwrites : ∀ op ∈ spillText e.id flush, op.WritesTo e.id := by
    intro op hop
    unfold spillText at hop
    split at hop
    · cases hop
    · obtain rfl := mem_singleton.mp hop
      exact ⟨rfl, id⟩
  obtain ⟨more, hflush, hmore⟩ := flushOps_cases s e.id flush
  obtain ⟨s₁, done, hops, hwf₁, hplaces⟩ := exists_writes [] hwf he hwrites more
  rw [hflush, hops]
  rcases hmore with rfl | ⟨child, hchild, rfl⟩ | ⟨think, hid, rfl⟩
  · exact ⟨s₁, rfl⟩
  · obtain ⟨child₁, hchild₁, hid⟩ := hplaces.child hchild
    have hwrite : PatchOp.WritesTo child₁.id (.appendText child.id flush.thinking) :=
      ⟨congrArg some hid.symm, id⟩
    obtain ⟨s₂, u, happly, _⟩ := exists_writeTo hwf₁ hchild₁ hwrite
    refine ⟨s₂, ?_⟩
    rw [SessionSnapshot.applyOps, happly]
    rfl
  · obtain ⟨e₁, he₁, hid₁⟩ := hplaces.child he
    obtain ⟨n, hn, _⟩ := (mem_children_iff hwf₁).mp he₁
    have hfresh : think.id ∉ s₁.usedIds := by
      rw [hid, hplaces.used]
      exact hthink
    obtain ⟨s₂, u, happly, _⟩ : ∃ s₂ u, s₁.applyOne (.create e.id 0 think) = (s₂, .ok u) ∧ _ :=
      exists_createAt hwf₁ ⟨n, hid₁ ▸ hn⟩ hfresh (Nat.zero_le _)
    refine ⟨s₂, ?_⟩
    rw [SessionSnapshot.applyOps, happly]
    rfl

omit [SerdeJson] in
/-- A spill appends its text. -/
theorem flushOps_text (hwf : WellFormed s) (he : e ∈ s.getVisibleBody) (flush : Flush) :
    ((flushOps s e.id flush).foldl PatchOp.rewrite e).text = e.text ++ flush.text := by
  have hfirst : ((spillText e.id flush).foldl PatchOp.rewrite e).text = e.text ++ flush.text := by
    unfold spillText
    split
    · next hempty =>
      rw [String.isEmpty_iff.mp hempty, String.append_empty]
      rfl
    · simp [PatchOp.rewrite]
  obtain ⟨more, hflush, hmore⟩ := flushOps_cases s e.id flush
  rw [hflush, foldl_append]
  rcases hmore with rfl | ⟨child, hchild, rfl⟩ | ⟨think, _, rfl⟩
  · exact hfirst
  · have hne : child.id ≠ e.id := fun heq =>
      body_ne hwf he (eq_of_mem_children hwf hchild he heq).2
    have hother : ∀ x : ElementSnapshot, x.id = e.id →
        PatchOp.rewrite x (.appendText child.id flush.thinking) = x :=
      fun x hx => if_neg (hx ▸ hne)
    rw [foldl_cons, foldl_nil, hother _ (PatchOp.foldl_rewrite_id _ e)]
    exact hfirst
  · exact hfirst

/-- The journal after a spill. -/
def spillStep (owner : ActorId) (element : ElementId) (j : Journal) (flush : Flush) : Journal :=
  (flushStreamBuffers j owner element flush).1

/-- The spill journals something. -/
def Flush.Spills (flush : Flush) : Prop :=
  ¬ (flush.text.isEmpty && flush.thinking.isEmpty) = true

/-- What the outside does for a spill: the file obeys, and the minted identifier is new. -/
def Flush.Sane (j : Journal) (flush : Flush) : Prop :=
  flush.Spills → Obeys flush.world ∧ flush.think ∉ j.snapshot.usedIds

/-- The spill is within the limits of a patch and of a frame. -/
def Flush.Limited (owner : ActorId) (element : ElementId) (j : Journal) (flush : Flush) : Prop :=
  flush.Spills → WithinLimits j
    (hostPatch j owner "assistant stream delta" (flushOps j.snapshot element flush)) flush.world

/-- A spill within the limits is journaled. -/
theorem flush_taken {element : ElementId} {flush : Flush} (hsound : Sound j) (hopen : Usable j)
    (hfocus : Focus s j.snapshot e) (hid : e.id = element) (hsane : flush.Sane j)
    (hlimited : flush.Limited owner element j) :
    flushStreamBuffers j owner element flush = (spillStep owner element j flush, .ok ()) ∧
      Sound (spillStep owner element j flush) ∧ Usable (spillStep owner element j flush) ∧
      ∃ e', Focus s (spillStep owner element j flush).snapshot e' ∧ e'.id = element ∧
        e'.kind = e.kind ∧ e'.text = e.text ++ flush.text := by
  subst hid
  unfold spillStep
  by_cases hspills : flush.Spills
  · obtain ⟨hworld, hthink⟩ := hsane hspills
    obtain ⟨s₁, hops⟩ := exists_flush hsound.wellFormed hfocus.present flush hthink
    have htaken := (commit_taken_iff hsound hopen hworld hops).mpr (hlimited hspills)
    have hflush : flushStreamBuffers j owner e.id flush =
        commit j owner j.snapshot.offset "assistant stream delta"
          (flushOps j.snapshot e.id flush) flush.world := by
      unfold flushStreamBuffers
      rw [if_neg hspills]
    rw [hflush]
    cases hcommit : commit j owner j.snapshot.offset "assistant stream delta"
        (flushOps j.snapshot e.id flush) flush.world with
    | mk j₁ result =>
      rw [hcommit] at htaken
      obtain rfl : result = .ok () := htaken
      have habout : ∀ op ∈ flushOps j.snapshot e.id flush, About j.snapshot e.id op ∧
          ∀ name, ¬ op.Writes e.id name := flushOps_about flush
      obtain ⟨hsound₁, hcases⟩ :=
        commit_focus hsound hfocus (fun op hop => (habout op hop).1) hcommit
      rcases hcases with ⟨_, hfocus₁, _⟩ | ⟨⟨_, hstop⟩, _⟩
      · refine ⟨rfl, hsound₁, open_of_taken hcommit, _, hfocus₁, PatchOp.foldl_rewrite_id _ e,
          PatchOp.foldl_rewrite_kind _ e, ?_⟩
        exact flushOps_text hsound.wellFormed hfocus.present flush
      · cases hstop
  · have hempty := not_not.mp hspills
    have hflush : flushStreamBuffers j owner e.id flush = (j, .ok ()) := by
      unfold flushStreamBuffers
      rw [if_pos hempty]
    rw [hflush]
    refine ⟨rfl, hsound, hopen, e, hfocus, rfl, rfl, ?_⟩
    rw [String.isEmpty_iff.mp (Bool.and_eq_true_iff.mp hempty).1, String.append_empty]

/-- Spills within the limits are all journaled, and put their text into the element. -/
theorem stream_taken {element : ElementId} {flushes : List Flush} (hsound : Sound j)
    (hopen : Usable j) (hfocus : Focus s j.snapshot e) (hid : e.id = element)
    (hsane : Machine.Along (spillStep owner element) (fun j flush => flush.Sane j) j flushes)
    (hlimited : Machine.Along (spillStep owner element)
      (fun j flush => flush.Limited owner element j) j flushes) :
    streamAll owner element j flushes = (Machine.run (spillStep owner element) j flushes, .ok ()) ∧
      Sound (Machine.run (spillStep owner element) j flushes) ∧
      Usable (Machine.run (spillStep owner element) j flushes) ∧
      ∃ e', Focus s (Machine.run (spillStep owner element) j flushes).snapshot e' ∧
        e'.id = element ∧ e'.kind = e.kind ∧
        e'.text = e.text ++ spilledText (flushes.map Flush.text) := by
  induction flushes generalizing j e with
  | nil => exact ⟨rfl, hsound, hopen, e, hfocus, hid, rfl, String.append_empty.symm⟩
  | cons flush flushes ih =>
      obtain ⟨hflush, hsound₁, hopen₁, e₁, hfocus₁, hid₁, hkind₁, htext₁⟩ :=
        flush_taken hsound hopen hfocus hid hsane.1 hlimited.1
      obtain ⟨hstream, hsound₂, hopen₂, e₂, hfocus₂, hid₂, hkind₂, htext₂⟩ :=
        ih hsound₁ hopen₁ hfocus₁ hid₁ hsane.2 hlimited.2
      refine ⟨?_, hsound₂, hopen₂, e₂, hfocus₂, hid₂, hkind₂.trans hkind₁, ?_⟩
      · unfold streamAll
        rw [hflush]
        exact hstream
      · rw [htext₂, htext₁, map_cons, spilledText_cons, String.append_assoc]

/-! ## Turns -/

omit [SerdeJson] in
/-- What settles a turn applies to its element. -/
theorem exists_settleTurn (hwf : WellFormed s) (he : e ∈ s.getVisibleBody) {diag : ElementId}
    (hdiag : diag ∉ s.usedIds) (result : Except StructuredError CanonicalTurn) :
    ∃ s', s.applyOps [] (settleTurnOps s e.id diag result) = (s', .ok ()) := by
  cases result with
  | ok turn =>
      have hshape : ∃ writes, (∀ op ∈ writes, op.WritesTo e.id) ∧
          settleTurnOps s e.id diag (.ok turn) = writes ++
            (((s.children e.id).filter fun child => child.kind = "think").map
              ElementSnapshot.id).map .delete := by
        unfold settleTurnOps
        rw [map_map]
        refine ⟨_, fun op hop => ?_, rfl⟩
        simp only [mem_append, mem_cons, not_mem_nil, or_false, mem_map] at hop
        rcases hop with ((rfl | hop) | rfl | rfl | rfl) | ⟨thinking, _, rfl⟩
        · exact ⟨rfl, id⟩
        · split at hop
          · obtain rfl := mem_singleton.mp hop
            exact ⟨rfl, id⟩
          · cases hop
        · exact ⟨rfl, id⟩
        · exact ⟨rfl, id⟩
        · exact ⟨rfl, id⟩
        · exact ⟨rfl, id⟩
      obtain ⟨writes, hwrites, hops⟩ := hshape
      obtain ⟨s₁, done, happly, hwf₁, hplaces⟩ := exists_writes [] hwf he hwrites
        ((((s.children e.id).filter fun child => child.kind = "think").map
          ElementSnapshot.id).map .delete)
      rw [hops, happly]
      obtain ⟨e₁, he₁, hid⟩ := hplaces.child he
      obtain ⟨n, hn, _⟩ := (mem_children_iff hwf).mp he
      refine exists_deletes hwf₁ he₁ (fun key hkey => ?_) ?_
      · obtain ⟨child, hchild, rfl⟩ := mem_map.mp hkey
        rw [hid]
        exact hplaces.child (mem_filter.mp hchild).1
      · have hnodup : ((s.children e.id).map ElementSnapshot.id).Nodup := by
          rw [children_ids hwf hn]
          exact hwf.tree.nodup (linksOf_of_get hn)
        exact hnodup.sublist (filter_sublist.map _)
  | error error =>
      unfold settleTurnOps
      have hwrites : ∀ op ∈ [PatchOp.setAttribute e.id "streaming" (.bool false),
          .setAttribute e.id "status"
            (.string (if error.code = "cancelled" then "cancelled" else "failed"))],
          op.WritesTo e.id := by
        intro op hop
        simp only [mem_cons, not_mem_nil, or_false] at hop
        rcases hop with rfl | rfl
        · exact ⟨rfl, id⟩
        · exact ⟨rfl, id⟩
      obtain ⟨s₁, done, happly, hwf₁, hplaces⟩ := exists_writes [] hwf he hwrites
        [.create e.id (UInt32.ofNat (s.children e.id).length) (errorElement diag error)]
      rw [cons_append, cons_append, nil_append] at happly
      rw [happly]
      obtain ⟨e₁, he₁, hid⟩ := hplaces.child he
      obtain ⟨n, hn, _⟩ := (mem_children_iff hwf₁).mp he₁
      have hindex : (UInt32.ofNat (s.children e.id).length).toNat ≤
          (s₁.children e.id).length := by
        rw [UInt32.toNat_ofNat', hplaces.length]
        exact Nat.mod_le _ _
      have hfresh : (errorElement diag error).id ∉ s₁.usedIds := by
        rw [hplaces.used]
        exact hdiag
      obtain ⟨s₂, u, hcreate, _⟩ := exists_createAt hwf₁ ⟨n, hid ▸ hn⟩ hfresh hindex
      refine ⟨s₂, ?_⟩
      rw [SessionSnapshot.applyOps, hcreate]
      rfl

omit [SerdeJson] in
theorem foldl_rewrite_deletes (held : List ElementSnapshot) (e : ElementSnapshot) :
    (held.map fun child => PatchOp.delete child.id).foldl PatchOp.rewrite e = e := by
  induction held with
  | nil => rfl
  | cons child held ih => exact ih

omit [SerdeJson] in
theorem attribute_rewrite {e : ElementSnapshot} {key : ElementId} {name other : String}
    (value : TypedValue) (hne : other ≠ name) :
    (PatchOp.rewrite e (.setAttribute key other value)).attributes[name]? = e.attributes[name]? := by
  unfold PatchOp.rewrite
  dsimp only
  split
  · dsimp only
    rw [Std.ExtTreeMap.getElem?_insert, if_neg fun heq => hne (Std.LawfulEqCmp.eq_of_compare heq)]
  · rfl

omit [SerdeJson] in
theorem attribute_written (e : ElementSnapshot) (name : String) (value : TypedValue) :
    (PatchOp.rewrite e (.setAttribute e.id name value)).attributes[name]? = some value := by
  unfold PatchOp.rewrite
  dsimp only
  rw [if_pos rfl, Std.ExtTreeMap.getElem?_insert_self]

/-- The turn has been settled: nothing is streamed into it any more, and its status is final. -/
structure TurnSettled (e : ElementSnapshot) : Prop where
  streaming : e.attributes["streaming"]? = some (.bool false)
  status : isTerminal e = true

omit [SerdeJson] in
/-- What settles a turn ends the stream and writes a final status. -/
theorem settleTurnOps_settled (s : SessionSnapshot) (e : ElementSnapshot) (diag : ElementId)
    (result : Except StructuredError CanonicalTurn) :
    TurnSettled ((settleTurnOps s e.id diag result).foldl PatchOp.rewrite e) := by
  have hterminal : ∀ (e' : ElementSnapshot) (status : String),
      e'.attributes["status"]? = some (.string status) →
      (Status.fromDomStr status).any Status.isTerminalSession = true → isTerminal e' = true := by
    intro e' status hstatus hterminal
    unfold isTerminal
    rw [hstatus]
    exact hterminal
  have hfirst := attribute_written e "streaming" (.bool false)
  have hid := PatchOp.rewrite_id (.setAttribute e.id "streaming" (.bool false)) e
  generalize he₁ : PatchOp.rewrite e (.setAttribute e.id "streaming" (.bool false)) = e₁ at *
  cases result with
  | ok turn =>
      unfold settleTurnOps
      dsimp only
      have hsingle : [PatchOp.setAttribute e.id "streaming" (.bool false)].foldl PatchOp.rewrite e =
          e₁ := he₁
      rw [foldl_append, foldl_rewrite_deletes, foldl_append, foldl_append,
        foldl_append, hsingle]
      obtain ⟨e₂, he₂, hid₂, hattributes⟩ : ∃ e₂, foldl PatchOp.rewrite e₁
          (if (s.element e.id).any fun element => element.text ≠ turn.text then
            [.replaceText e.id turn.text] else []) = e₂ ∧ e₂.id = e.id ∧
            e₂.attributes = e₁.attributes := by
        refine ⟨_, rfl, (PatchOp.foldl_rewrite_id _ e₁).trans hid, ?_⟩
        refine PatchOp.foldl_rewrite_attributes fun op hop name => ?_
        split at hop
        · obtain rfl := mem_singleton.mp hop
          exact fun h => h
        · cases hop
      rw [he₂, foldl_cons, foldl_cons, foldl_cons, foldl_nil]
      have hstatus := attribute_written e₂ "status" (.string "succeeded")
      rw [hid₂] at hstatus
      refine ⟨?_, hterminal _ "succeeded" ?_ (by decide)⟩
      · cases turn.thinking with
        | none =>
          rw [Option.toList_none, map_nil, foldl_nil, attribute_rewrite _ (by decide),
            attribute_rewrite _ (by decide), attribute_rewrite _ (by decide), hattributes, hfirst]
        | some thinking =>
          rw [Option.toList_some, map_singleton, foldl_cons, foldl_nil,
            attribute_rewrite _ (by decide),
            attribute_rewrite _ (by decide), attribute_rewrite _ (by decide),
            attribute_rewrite _ (by decide), hattributes, hfirst]
      · cases turn.thinking with
        | none =>
          rw [Option.toList_none, map_nil, foldl_nil, attribute_rewrite _ (by decide),
            attribute_rewrite _ (by decide), hstatus]
        | some thinking =>
          rw [Option.toList_some, map_singleton, foldl_cons, foldl_nil,
            attribute_rewrite _ (by decide),
            attribute_rewrite _ (by decide), attribute_rewrite _ (by decide), hstatus]
  | error error =>
      unfold settleTurnOps
      have hcreate : ∀ (e' : ElementSnapshot) (index : UInt32) (child : ElementSnapshot),
          PatchOp.rewrite e' (.create e.id index child) = e' := fun _ _ _ => rfl
      rw [foldl_cons, he₁, foldl_cons, foldl_cons, foldl_nil, hcreate]
      have hstatus := attribute_written e₁ "status"
        (.string (if error.code = "cancelled" then "cancelled" else "failed"))
      rw [hid] at hstatus
      refine ⟨by rw [attribute_rewrite _ (by decide), hfirst], hterminal _ _ hstatus ?_⟩
      split <;> decide

omit [SerdeJson] in
/-- A settled turn has the text of its answer, and a failed turn the text that was streamed. -/
theorem settleTurnOps_rewritten (he : s.element e.id = some e) (diag : ElementId)
    (result : Except StructuredError CanonicalTurn) :
    ((settleTurnOps s e.id diag result).foldl PatchOp.rewrite e).text =
      match result with
      | .ok turn => turn.text
      | .error _ => e.text := by
  cases result with
  | ok turn => exact settleTurnOps_text he diag turn
  | error error =>
      refine PatchOp.foldl_rewrite_text fun op hop => ?_
      unfold settleTurnOps at hop
      simp only [mem_cons, not_mem_nil, or_false] at hop
      rcases hop with rfl | rfl | rfl <;> exact id

/-- The journal when a turn has begun. -/
def startTurn (owner : ActorId) (j : Journal) (w : Inference) : Journal × Except Stop Unit :=
  appendElement j owner j.snapshot.offset "start assistant stream" (assistantElement w.element) []
    w.started

/-- The journal when a turn is about to be settled. -/
def streamed (owner : ActorId) (j : Journal) (w : Inference) : Journal :=
  Machine.run (spillStep owner w.element) (startTurn owner j w).1 (w.flushes ++ [w.last])

/-- What the outside does for an inference: the file obeys, and the minted identifiers are new. -/
structure TurnSane (owner : ActorId) (j : Journal) (w : Inference) : Prop where
  spilled : Machine.Along (spillStep owner w.element) (fun j flush => flush.Sane j)
    (startTurn owner j w).1 (w.flushes ++ [w.last])
  settled : Obeys w.settled
  fresh : w.diag ∉ (streamed owner j w).snapshot.usedIds

/-- The spills of an inference and its end are within the limits of a patch and of a frame. -/
structure TurnLimited (owner : ActorId) (j : Journal) (w : Inference) : Prop where
  spilled : Machine.Along (spillStep owner w.element)
    (fun j flush => flush.Limited owner w.element j) (startTurn owner j w).1
    (w.flushes ++ [w.last])
  settled : WithinLimits (streamed owner j w)
    (hostPatch (streamed owner j w) owner "settle assistant stream"
      (settleTurnOps (streamed owner j w).snapshot w.element w.diag w.result)) w.settled

/-- The text that the turn is to have. -/
def Inference.text (w : Inference) : String :=
  match w.result with
  | .ok turn => turn.text
  | .error _ => spilledText ((w.flushes ++ [w.last]).map Flush.text)

/-- An inference within the limits is settled. -/
theorem infer_settled {w : Inference} (hsound : Sound j)
    (hsane : (startTurn owner j w).2 = .ok () → TurnSane owner j w)
    (hlimited : (startTurn owner j w).2 = .ok () → TurnLimited owner j w) :
    Sound (inferAssistantTurn j owner w).1 ∧
      ((inferAssistantTurn j owner w).1.snapshot = j.snapshot ∨
        ∃ e, Focus j.snapshot (inferAssistantTurn j owner w).1.snapshot e ∧ e.id = w.element ∧
          e.kind = "assistant" ∧ TurnSettled e ∧ e.text = w.text) := by
  cases hstart : startTurn owner j w with
  | mk j₁ started =>
      obtain ⟨hsound₁, hcases⟩ :=
        appendElement_cases hsound (fun _ hop => absurd hop not_mem_nil) hstart
      unfold inferAssistantTurn
      rw [show appendElement j owner j.snapshot.offset "start assistant stream"
        (assistantElement w.element) [] w.started = (j₁, started) from hstart]
      rcases hcases with ⟨rfl, hfocus₁⟩ | ⟨⟨stop, rfl⟩, hsame⟩
      · rw [foldl_nil] at hfocus₁
        have hself : (assistantElement w.element).id = w.element := rfl
        have hsane' := hsane (congrArg Prod.snd hstart)
        have hlimited' := hlimited (congrArg Prod.snd hstart)
        have hspilled := hsane'.spilled
        have hfits := hlimited'.spilled
        have hfresh := hsane'.fresh
        have hlimits := hlimited'.settled
        unfold streamed at hfresh hlimits
        rw [hstart, Machine.run_concat] at hfresh hlimits
        rw [hstart, Machine.along_append] at hspilled hfits
        dsimp only at hfresh hlimits hspilled hfits ⊢
        obtain ⟨hstream, hsound₂, hopen₂, e₂, hfocus₂, hid₂, hkind₂, htext₂⟩ :=
          stream_taken hsound₁ (open_of_taken hstart) hfocus₁ hself hspilled.1 hfits.1
        obtain ⟨hflush, hsound₃, hopen₃, e₃, hfocus₃, hid₃, hkind₃, htext₃⟩ :=
          flush_taken hsound₂ hopen₂ hfocus₂ hid₂ hspilled.2.1 hfits.2.1
        rw [hstream]
        dsimp only
        unfold settleTurn
        rw [hflush]
        dsimp only
        generalize spillStep owner w.element
          (Machine.run (spillStep owner w.element) j₁ w.flushes) w.last = j₃ at *
        rw [← hid₃] at hlimits ⊢
        obtain ⟨s₄, hops⟩ := exists_settleTurn hsound₃.wellFormed hfocus₃.present hfresh w.result
        have htaken := (commit_taken_iff hsound₃ hopen₃ hsane'.settled hops).mpr hlimits
        cases hcommit : commit j₃ owner j₃.snapshot.offset "settle assistant stream"
            (settleTurnOps j₃.snapshot e₃.id w.diag w.result) w.settled with
        | mk j₄ settled =>
          rw [hcommit] at htaken
          obtain rfl : settled = .ok () := htaken
          obtain ⟨hsound₄, hcases⟩ := commit_focus hsound₃ hfocus₃
            (settleTurnOps_about hfocus₃ w.diag w.result) hcommit
          rcases hcases with ⟨_, hfocus₄, _⟩ | ⟨⟨_, hstop⟩, _⟩
          · have helement : j₃.snapshot.element e₃.id = some e₃ := by
              obtain ⟨n, hn, rfl, _⟩ :=
                (mem_children_iff hfocus₃.wellFormed).mp hfocus₃.present
              unfold SessionSnapshot.element
              rw [hn]
              rfl
            refine ⟨hsound₄, .inr ⟨_, hfocus₄, PatchOp.foldl_rewrite_id _ e₃, ?_,
              settleTurnOps_settled _ e₃ w.diag w.result, ?_⟩⟩
            · exact (PatchOp.foldl_rewrite_kind _ e₃).trans (hkind₃.trans hkind₂)
            · rw [settleTurnOps_rewritten helement, htext₃, htext₂]
              unfold Inference.text
              rw [map_append, map_singleton, spilledText_concat]
              cases w.result with
              | ok turn => rfl
              | error error => exact congrArg (· ++ w.last.text) String.empty_append
          · cases hstop
      · exact ⟨hsound₁, .inl hsame⟩

end Inferences

/-! ## Calls -/

section Calls

variable [SerdeJson] {j j' : Journal} {owner : ActorId} {s s' : SessionSnapshot}

/-- What the outside does for a part of a call: the file obeys, the minted identifiers are new, and
other parts of the host touch no element of the body. -/
def Sane (owner : ActorId) (j : Journal) : Activity → Prop
  | .infer w => (startTurn owner j w).2 = .ok () → TurnSane owner j w
  | .tool name input callId w =>
    (invokeTool j owner name input (callId.getD w.mintedCall) w).2 = .ok () →
      ToolSane owner j name input callId w
  | .work work => work.Offside j
  | .userMessage .. | .steering .. | .plan .. | .refuse .. => True

/-- What a part of a call spills and settles is within the limits of a patch and of a frame. -/
def Limited (owner : ActorId) (j : Journal) : Activity → Prop
  | .infer w => (startTurn owner j w).2 = .ok () → TurnLimited owner j w
  | .tool name input callId w =>
    (invokeTool j owner name input (callId.getD w.mintedCall) w).2 = .ok () →
      ToolLimited owner j name input callId w
  | .userMessage .. | .steering .. | .plan .. | .work .. | .refuse .. => True

/-- An element of the body is settled, if it is a tool call or a turn of one of the activities. -/
structure ElementSettled (activities : List Activity) (s : SessionSnapshot)
    (e : ElementSnapshot) : Prop where
  call : e.kind = "tool_call" → CallSettled s e
  turn : e.kind = "assistant" → TurnSettled e ∧ ∃ w, .infer w ∈ activities ∧ w.element = e.id ∧
    ∀ deliveries, w.Streams deliveries → e.text =
      match w.result with
      | .ok turn => turn.text
      | .error _ => deliveredText deliveries

/-- The elements of the body that have come since are settled. -/
def AllSettled (activities : List Activity) (s s' : SessionSnapshot) : Prop :=
  ∀ e ∈ s'.getVisibleBody, (∀ e₀ ∈ s.getVisibleBody, e₀.id ≠ e.id) →
    ElementSettled activities s' e

/-- A part of a call leaves the body alone, or it brings one element that is settled. -/
def Brings (activities : List Activity) (s s' : SessionSnapshot) : Prop :=
  (Spared s s' fun _ => True) ∨ ∃ e, Focus s s' e ∧ ElementSettled activities s' e

omit [SerdeJson] in
/-- An element that is spared stays settled. -/
theorem ElementSettled.spare {activities : List Activity} {e : ElementSnapshot}
    (h : ElementSettled activities s e)
    (hchildren : ∀ child, child ∈ s'.children e.id ↔ child ∈ s.children e.id) :
    ElementSettled activities s' e := by
  refine ⟨fun hkind => ⟨(h.call hkind).status, ?_⟩, h.turn⟩
  obtain ⟨c, ⟨hc, hresult⟩, hunique⟩ := (h.call hkind).result
  exact ⟨c, ⟨(hchildren c).mpr hc, hresult⟩, fun c' hc' =>
    hunique c' ⟨(hchildren c').mp hc'.1, hc'.2⟩⟩

omit [SerdeJson] in
/-- What a part of a call does keeps all elements settled. -/
theorem AllSettled.step {activities : List Activity} {s₀ : SessionSnapshot}
    (h : AllSettled activities s₀ s) (hbrings : Brings activities s s') :
    AllSettled activities s₀ s' := by
  intro e he hnew
  rcases hbrings with hspared | ⟨e₁, hfocus, hsettled⟩
  · have hold := (hspared.body e trivial).mp he
    exact (h e hold hnew).spare (hspared.children e hold trivial)
  · by_cases hid : e.id = e₁.id
    · obtain rfl := (eq_of_mem_children hfocus.wellFormed he hfocus.present hid).1
      exact hsettled
    · have hold := (hfocus.spared.body e hid).mp he
      exact (h e hold hnew).spare (hfocus.spared.children e hold hid)

omit [SerdeJson] in
theorem Brings.same {activities : List Activity} (hsame : s' = s) : Brings activities s s' := by
  subst hsame
  exact .inl (.refl _ _)

/-- Appending a prompt brings an element of another kind. -/
theorem append_brings {activities : List Activity} {baseOffset : UInt64} {reason : String}
    {e : ElementSnapshot} {world : Option Journal.Outside} (hsound : Sound j)
    (hcall : e.kind ≠ "tool_call") (hassistant : e.kind ≠ "assistant") :
    Sound (appendElement j owner baseOffset reason e [] world).1 ∧
      Brings activities j.snapshot (appendElement j owner baseOffset reason e [] world).1.snapshot := by
  cases happend : appendElement j owner baseOffset reason e [] world with
  | mk j' result =>
      obtain ⟨hsound', hcases⟩ :=
        appendElement_cases hsound (fun _ hop => absurd hop not_mem_nil) happend
      refine ⟨hsound', ?_⟩
      rcases hcases with ⟨_, hfocus⟩ | ⟨_, hsame⟩
      · exact .inr ⟨e, hfocus, fun hkind => absurd hkind hcall, fun hkind => absurd hkind hassistant⟩
      · exact .same hsame

/-- A part of a call within the limits. -/
theorem perform_brings {activities : List Activity} {activity : Activity} (hsound : Sound j)
    (hmem : activity ∈ activities) (hsane : Sane owner j activity)
    (hlimited : Limited owner j activity) :
    Sound (perform owner j activity).1 ∧
      Brings activities j.snapshot (perform owner j activity).1.snapshot := by
  cases activity with
  | userMessage id message world =>
      exact append_brings hsound (show "user" ≠ "tool_call" by decide)
        (show "user" ≠ "assistant" by decide)
  | steering id prompt world =>
      exact append_brings hsound (show "steering" ≠ "tool_call" by decide)
        (show "steering" ≠ "assistant" by decide)
  | plan config draws =>
      cases config with
      | none => exact ⟨hsound, .same rfl⟩
      | some config =>
        cases hplan : planStages j owner config draws with
        | mk j' result =>
          have honward := planStages_onward hsound hplan
          have hjournal : (perform owner j (.plan (some config) draws)).1 = j' := by
            unfold perform Control.plan
            dsimp only
            rw [hplan]
            cases result <;> rfl
          obtain ⟨hbody, helements⟩ := honward.kept.body hsound.wellFormed
          rw [hjournal]
          refine ⟨honward.sound, .inl ⟨fun e _ => ?_, fun e he _ child => ?_⟩⟩
          · rw [hbody]
          · rw [(helements e he).2]
  | infer w =>
      have hinfer := infer_settled hsound hsane hlimited
      have hjournal : (perform owner j (.infer w)).1 = (inferAssistantTurn j owner w).1 := by
        unfold perform
        dsimp only
        cases hresult : inferAssistantTurn j owner w with
        | mk j' result => cases result <;> rfl
      rw [hjournal]
      refine ⟨hinfer.1, ?_⟩
      rcases hinfer.2 with hsame | ⟨e, hfocus, hid, hkind, hsettled, htext⟩
      · exact .same hsame
      · have hcall : e.kind ≠ "tool_call" := by
          rw [hkind]
          decide
        refine .inr ⟨e, hfocus, fun heq => absurd heq hcall, fun _ => ⟨hsettled, w, hmem, hid.symm,
          fun deliveries hstreams => ?_⟩⟩
        rw [htext, Inference.text, hstreams.text]
  | tool name input callId w =>
      have htool := tool_settled hsound hsane hlimited
        (Prod.mk.eta (p := executeToolInner j owner name input callId w)).symm
      have hjournal : (perform owner j (.tool name input callId w)).1 =
          (executeToolInner j owner name input callId w).1 := by
        unfold perform
        dsimp only
        cases hresult : executeToolInner j owner name input callId w with
        | mk j' result => cases result <;> rfl
      rw [hjournal]
      refine ⟨htool.1, ?_⟩
      rcases htool.2 with hsame | ⟨e, hfocus, hkind, hsettled⟩
      · exact .same hsame
      · have hassistant : e.kind ≠ "assistant" := by
          rw [hkind]
          decide
        exact .inr ⟨e, hfocus, fun _ => hsettled, fun heq => absurd heq hassistant⟩
  | work work =>
      obtain ⟨hsound', hspared⟩ := commitPatch_spared hsound hsane
      exact ⟨hsound', .inl hspared⟩
  | refuse e => exact ⟨hsound, .same rfl⟩

/-- The parts of a call within the limits, one after the other. -/
theorem execute_settled {activities rest : List Activity} {s₀ : SessionSnapshot}
    (hsound : Sound j) (hrest : ∀ activity ∈ rest, activity ∈ activities)
    (hsane : Throughout owner (Sane owner) j rest)
    (hlimited : Throughout owner (Limited owner) j rest)
    (h : AllSettled activities s₀ j.snapshot) :
    AllSettled activities s₀ (execute owner j rest).1.snapshot := by
  induction rest generalizing j with
  | nil => exact h
  | cons activity rest ih =>
      obtain ⟨hmem, hmore⟩ := forall_mem_cons.mp hrest
      obtain ⟨hsound', hbrings⟩ := perform_brings hsound hmem hsane.1 hlimited.1
      have hstep := h.step hbrings
      have hsaneRest := hsane.2
      have hlimitedRest := hlimited.2
      unfold execute
      cases hresult : perform owner j activity with
      | mk j' result =>
        rw [hresult] at hsound' hstep hsaneRest hlimitedRest
        cases result with
        | error stop => exact hstep
        | ok done => exact ih hsound' hmore (hsaneRest rfl) (hlimitedRest rfl) hstep

/-- Each tool call and each turn that a call of the host has begun is settled at its end. -/
def Settles (owner : ActorId) (j : Journal) (call : HostCall) : Prop :=
  AllSettled call.activities j.snapshot (callStep owner j call).snapshot

/-- A call whose spills and outcomes are within the limits settles what it has begun. -/
theorem call_settles (owner : ActorId) (j : Journal) (hsound : Sound j) (call : HostCall)
    (hsane : Throughout owner (Sane owner) j call.activities)
    (hlimited : Throughout owner (Limited owner) j call.activities) : Settles owner j call :=
  execute_settled hsound (fun _ hmem => hmem) hsane hlimited
    fun e he hnew => absurd rfl (hnew e he)

end Calls

/-! ## A tool whose text is longer than a patch may have -/

open Omp2.Json.Compact

/-- Each operation of a patch that is within the limits is within the limits. -/
theorem validateOps_ok {ops : List PatchOp} (h : Patch.validateOps ops = .ok ()) :
    ∀ op ∈ ops, Patch.validateOp op = .ok () := by
  induction ops with
  | nil => exact fun op hop => absurd hop not_mem_nil
  | cons op ops ih =>
      unfold Patch.validateOps at h
      cases hop : Patch.validateOp op with
      | error e =>
        rw [hop] at h
        cases h
      | ok done =>
        rw [hop] at h
        exact forall_mem_cons.mpr ⟨hop, ih h⟩

/-- What is decided about a call whose tool returns a text. -/
def wordyInvocation (text : String) : Invocation :=
  { firstInvocation (some ⟨.ok 8, .done⟩) with
    execution := .ok ⟨⟨text, none, false, .text⟩, [], none, []⟩ }

/-- A call whose tool returns a text. -/
def wordyCall (text : String) : HostCall :=
  .executeTool "bash" firstInput (wordyInvocation text)

/-- The call is journaled, and nothing but the size of the text can keep it from being settled. -/
theorem exists_wordyCall : ∃ j₀ j₁, Ready j₁ (firstSnapshot invokePatch) ∧ Sound j₀ ∧
    (∀ e ∈ j₀.snapshot.getVisibleBody, False) ∧
    ∀ text, invokeTool j₀ owner "bash" firstInput (wordyInvocation text).mintedCall
        (wordyInvocation text) = (j₁, .ok ()) ∧
      Throughout owner (Sane owner) j₀ (wordyCall text).activities := by
  obtain ⟨j₀, j₁, r, hcreate, hempty, hinvoke, hcoherent, hsnapshot, hfailed, hrecovery⟩ :=
    exists_invoked
  refine ⟨j₀, j₁, ⟨⟨_, _, hcoherent⟩, hfailed, hrecovery, hsnapshot⟩,
    ⟨_, _, create_coherent hcreate⟩, ?_, fun text => ?_⟩
  · rw [hempty, getVisibleBody_empty]
    exact fun _ he => absurd he not_mem_nil
  · have hinvoked : invokeTool j₀ owner "bash" firstInput (wordyInvocation text).mintedCall
        (wordyInvocation text) = (j₁, .ok ()) := hinvoke none
    have hran : ranTool j₀ owner "bash" firstInput none (wordyInvocation text) = j₁ :=
      congrArg Prod.fst hinvoked
    refine ⟨hinvoked, fun _ => ⟨trivial, trivial, ⟨8, rfl⟩, ?_⟩, fun _ => trivial⟩
    rw [hran, hsnapshot]
    refine ⟨fun c hc => ?_, nodup_singleton _⟩
    obtain rfl := mem_singleton.mp hc
    show (⟨"first-result", Eq.refl true⟩ : ElementId) ∉ (firstSnapshot invokePatch).usedIds
    decide +kernel

/-- A text within the limits: the call is settled. -/
theorem call_settles_src : ∃ j₀, Settles owner j₀ (wordyCall "src") := by
  obtain ⟨j₀, j₁, hready, hsound, _, hcall⟩ := exists_wordyCall
  obtain ⟨hinvoked, hsane⟩ := hcall "src"
  refine ⟨j₀, call_settles owner j₀ hsound _ hsane ⟨fun _ => ?_, fun _ => trivial⟩⟩
  have hran : ranTool j₀ owner "bash" firstInput none (wordyInvocation "src") = j₁ :=
    congrArg Prod.fst hinvoked
  have hfits : ((Draft.commit (firstSnapshot invokePatch) owner "settle tool bash"
      (settleToolOps (wordyInvocation "src").element
        (settledResult (wordyInvocation "src").execution) (wordyInvocation "src").minted)
      (some ⟨.ok 8, .done⟩)).map fun r => r.2.isOk) = some true := by
    decide +kernel
  obtain ⟨⟨s, result⟩, houtcome, hok⟩ := Option.map_eq_some_iff.mp hfits
  have htaken := (hready.commit owner _ _ _ s result houtcome).2
  cases result with
  | error stop => cases hok
  | ok done =>
      have hreason : "settle tool " ++ "bash" = "settle tool bash" := by decide +kernel
      unfold ToolLimited
      rw [hran]
      dsimp only
      rw [hreason]
      exact withinLimits_of_taken hready.sound ⟨hready.failed, hready.recovery⟩ ⟨8, rfl⟩ htaken

/-- A text of that many bytes is more than a patch may have. -/
theorem tooLong_replicate : Patch.tooLong (String.ofList (List.replicate 1048577 'a')) = true := by
  have hsize : ∀ n, Text.byteLength (replicate n 'a') = n := by
    intro n
    induction n with
    | zero => rfl
    | succ n ih =>
      have hchar : ('a' : Char).utf8Size = 1 := by decide
      unfold Text.byteLength at ih ⊢
      rw [replicate_succ, map_cons, sum_cons, ih, hchar, Nat.add_comm]
  unfold Patch.tooLong
  rw [Text.utf8ByteSize_ofList, hsize]
  decide

/-- The text of a tool that is too long for a patch leaves its call running. -/
theorem not_settles_wordy : ¬ ∀ (owner : ActorId) (j : Journal), Sound j → ∀ call : HostCall,
    Throughout owner (Sane owner) j call.activities → Settles owner j call := by
  intro h
  obtain ⟨j₀, j₁, hready, hsound, hbody, hcall⟩ := exists_wordyCall
  obtain ⟨text, hlong⟩ : ∃ text, Patch.tooLong text = true := ⟨_, tooLong_replicate⟩
  obtain ⟨hinvoked, hsane⟩ := hcall text
  have hsettles := h owner j₀ hsound (wordyCall text) hsane
  obtain ⟨_, hcases⟩ := invoke_focus hsound hinvoked
  rcases hcases with ⟨_, hfocus⟩ | ⟨⟨_, hstop⟩, _⟩
  · have hid : (toolCallElement (wordyInvocation text).element (wordyInvocation text).mintedCall
        "bash" firstInput).id = (wordyInvocation text).element := rfl
    have hran : ranTool j₀ owner "bash" firstInput none (wordyInvocation text) = j₁ :=
      congrArg Prod.fst hinvoked
    have hfresh := (hsane.1 (congrArg Prod.snd hinvoked)).fresh
    rw [hran] at hfresh
    have hheld : j₁.snapshot.children (wordyInvocation text).element ≠ [] :=
      ne_nil_of_mem ((invoked_children hsound hinvoked _).mpr rfl)
    obtain ⟨s, hops, _⟩ := exists_settleTool hready.sound.wellFormed hfocus.present hheld
      (settledResult (wordyInvocation text).execution) (wordyInvocation text).minted
      hfresh.unused hfresh.apart
    cases hsettle : settleTool j₁ owner "bash" (wordyInvocation text) with
    | mk j₂ settled =>
      obtain ⟨_, hcases⟩ := commit_focus hready.sound hfocus
        (settleToolOps_about _ _ _ _) hsettle
      rcases hcases with ⟨rfl, _⟩ | ⟨⟨stop, rfl⟩, hsame⟩
      · -- the patch that settles the call has the text in an element that it creates
        have hlimits := withinLimits_of_taken hready.sound ⟨hready.failed, hready.recovery⟩
          ⟨8, rfl⟩ (congrArg Prod.snd hsettle)
        have hvalid := hlimits.1
        unfold Patch.validate at hvalid
        split at hvalid
        · cases hvalid
        · obtain ⟨status, creates, hshape, _⟩ := settleToolOps_eq (wordyInvocation text).element
            (settledResult (wordyInvocation text).execution) (wordyInvocation text).minted
          have hop := validateOps_ok hvalid _ (show PatchOp.create _ 1 _ ∈
            (hostPatch j₁ owner _ _).ops by
              unfold hostPatch
              rw [hshape]
              exact mem_cons_of_mem _ mem_cons_self)
          unfold Patch.validateOp at hop
          dsimp only at hop
          split at hop
          · cases hop
          · have hlong' : Patch.tooLong (resultElement ((wordyInvocation text).minted 0)
                (settledResult (wordyInvocation text).execution).output).text = true := hlong
            rw [if_pos hlong'] at hop
            cases hop
      · have hstep : callStep owner j₀ (wordyCall text) = j₂ := by
          unfold callStep wordyCall HostCall.activities execute perform executeToolInner
          dsimp only
          rw [show (none : Option ToolCallId).getD (wordyInvocation text).mintedCall =
            (wordyInvocation text).mintedCall from rfl, hinvoked]
          dsimp only
          rw [show workAll j₁ (wordyInvocation text).work = j₁ from rfl, hsettle]
        unfold Settles at hsettles
        rw [hstep, hsame] at hsettles
        have hstatus := ((hsettles _ hfocus.present fun e₀ he₀ => (hbody e₀ he₀).elim).call
          rfl).status
        have hwritten : toolCallElement (wordyInvocation text).element
            (wordyInvocation text).mintedCall "bash" firstInput =
          toolCallElement (wordyInvocation "").element (wordyInvocation "").mintedCall "bash"
            firstInput := rfl
        rw [hwritten] at hstatus
        have hrunning : (toolCallElement (wordyInvocation "").element
            (wordyInvocation "").mintedCall "bash" firstInput).attributes["status"]? =
          some (TypedValue.string "running") := rfl
        rw [hrunning] at hstatus
        rcases hstatus with hstatus | hstatus
        · exact absurd (TypedValue.string.inj (Option.some.inj hstatus)) (by decide)
        · exact absurd (TypedValue.string.inj (Option.some.inj hstatus)) (by decide)
  · cases hstop

end Omp2.Control
