import Omp2.Control.Turn
import Omp2.State.Subtrees

/-!
# Conversations on the wire

A request is well formed when every tool call is answered right behind it and nowhere else, no call
id is used twice and no assistant message is empty. The projection has this form for every outcome
of a pass as long as the body has it: its calls are settled, their ids differ and its completed
turns have text. The host keeps that in all runs in which it settles every call that it journals,
is given new call ids and gets text from the provider.
-/

namespace Omp2.Control

open Omp2.Json Omp2.State SessionSnapshot List

/-! ## Paired messages -/

/-- The call ids of the calls of a message. -/
def SemanticMessage.callIds (message : SemanticMessage) : List ToolCallId :=
  message.toolCalls.map ToolCallSpec.id

/-- The call id that a tool result answers. -/
def SemanticMessage.answers (message : SemanticMessage) : Option ToolCallId :=
  if message.role = .tool then message.toolCallId else none

/-- A list of messages that is well formed for the wire. -/
structure WirePaired (messages : List SemanticMessage) : Prop where
  /-- Every call of an assistant is followed by its result. -/
  answered : ∀ (i : Nat) (message : SemanticMessage), messages[i]? = some message →
    ∀ call ∈ message.toolCalls, message.role = .assistant ∧
      ∃ result, messages[i + 1]? = some result ∧ result.answers = some call.id
  /-- Every result follows its call. -/
  called : ∀ (i : Nat) (result : SemanticMessage), messages[i]? = some result →
    result.role = .tool → ∃ k message call, i = k + 1 ∧ messages[k]? = some message ∧
      call ∈ message.toolCalls ∧ result.answers = some call.id
  /-- No call has two results. -/
  once : (messages.filterMap SemanticMessage.answers).Nodup
  /-- No call id is used twice. -/
  distinct : (messages.flatMap SemanticMessage.callIds).Nodup
  /-- No assistant message has neither text nor a call. -/
  spoken : ∀ message ∈ messages, message.role = .assistant →
    message.content ≠ "" ∨ message.toolCalls ≠ []

/-- Messages without calls, and calls with their results. -/
inductive Paired : List SemanticMessage → Prop where
  | nil : Paired []
  | plain {message rest} : message.role ≠ .tool → message.toolCalls = [] →
      (message.role = .assistant → message.content ≠ "") → Paired rest → Paired (message :: rest)
  | call {message call result rest} : message.role = .assistant → message.toolCalls = [call] →
      result.role = .tool → result.toolCalls = [] → result.toolCallId = some call.id →
      Paired rest → Paired (message :: result :: rest)

namespace Paired

variable {messages more : List SemanticMessage}

theorem prompt {message : SemanticMessage} (role : MessageRole) (hrole : message.role = role)
    (hother : role ≠ .tool ∧ role ≠ .assistant) (hcalls : message.toolCalls = []) :
    Paired [message] := by
  subst hrole
  exact .plain hother.1 hcalls (fun hassistant => absurd hassistant hother.2) .nil

theorem turn {message : SemanticMessage} (hrole : message.role = .assistant)
    (hcalls : message.toolCalls = []) (hspoken : message.content ≠ "") : Paired [message] :=
  .plain (by rw [hrole]; decide) hcalls (fun _ => hspoken) .nil

theorem append (h : Paired messages) (h' : Paired more) : Paired (messages ++ more) := by
  induction h with
  | nil => exact h'
  | plain hrole hcalls hspoken _ ih => exact .plain hrole hcalls hspoken ih
  | call hrole hcalls hresult hnone hid _ ih => exact .call hrole hcalls hresult hnone hid ih

theorem flatMap {α : Type} {f : α → List SemanticMessage} {items : List α}
    (h : ∀ item ∈ items, Paired (f item)) : Paired (items.flatMap f) := by
  induction items with
  | nil => exact .nil
  | cons item items ih =>
      obtain ⟨hitem, hitems⟩ := forall_mem_cons.mp h
      rw [flatMap_cons]
      exact hitem.append (ih hitems)

/-- The results answer the calls one by one. -/
theorem answers_eq (h : Paired messages) :
    messages.filterMap SemanticMessage.answers = messages.flatMap SemanticMessage.callIds := by
  induction h with
  | nil => rfl
  | plain hrole hcalls _ _ ih =>
      rw [filterMap_cons_none (by unfold SemanticMessage.answers; rw [if_neg hrole]),
        flatMap_cons, ih]
      unfold SemanticMessage.callIds
      rw [hcalls]
      rfl
  | call hrole hcalls hresult hnone hid _ ih =>
      rw [filterMap_cons_none
          (by unfold SemanticMessage.answers; rw [if_neg (by rw [hrole]; decide)]),
        filterMap_cons_some
          (by unfold SemanticMessage.answers; rw [if_pos hresult, hid]),
        flatMap_cons, flatMap_cons, ih]
      unfold SemanticMessage.callIds
      rw [hcalls, hnone]
      rfl

theorem answered (h : Paired messages) : ∀ (i : Nat) (message : SemanticMessage),
    messages[i]? = some message → ∀ call ∈ message.toolCalls, message.role = .assistant ∧
      ∃ result, messages[i + 1]? = some result ∧ result.answers = some call.id := by
  induction h with
  | nil => exact fun i message hmessage => by cases hmessage
  | plain hrole hcalls _ _ ih =>
      intro i message hmessage call hcall
      cases i with
      | zero =>
        cases hmessage
        rw [hcalls] at hcall
        cases hcall
      | succ i => exact ih i message hmessage call hcall
  | call hrole hcalls hresult hnone hid _ ih =>
      intro i message hmessage call hcall
      match i with
      | 0 =>
        cases hmessage
        rw [hcalls] at hcall
        obtain rfl := mem_singleton.mp hcall
        refine ⟨hrole, _, rfl, ?_⟩
        unfold SemanticMessage.answers
        rw [if_pos hresult, hid]
      | 1 =>
        cases hmessage
        rw [hnone] at hcall
        cases hcall
      | i + 2 => exact ih i message hmessage call hcall

theorem called (h : Paired messages) : ∀ (i : Nat) (result : SemanticMessage),
    messages[i]? = some result → result.role = .tool → ∃ k message call, i = k + 1 ∧
      messages[k]? = some message ∧ call ∈ message.toolCalls ∧ result.answers = some call.id := by
  induction h with
  | nil => exact fun i result hmessage => by cases hmessage
  | plain hrole _ _ _ ih =>
      intro i result hmessage htool
      cases i with
      | zero =>
        cases hmessage
        exact absurd htool hrole
      | succ i =>
        obtain ⟨k, message, call, rfl, hcall⟩ := ih i result hmessage htool
        exact ⟨k + 1, message, call, rfl, hcall⟩
  | call hrole hcalls hresult _ hid _ ih =>
      intro i result hmessage htool
      match i with
      | 0 =>
        cases hmessage
        rw [hrole] at htool
        cases htool
      | 1 =>
        cases hmessage
        refine ⟨0, _, _, rfl, rfl, by rw [hcalls]; exact mem_singleton_self _, ?_⟩
        unfold SemanticMessage.answers
        rw [if_pos hresult, hid]
      | i + 2 =>
        obtain ⟨k, message, call, rfl, hcall⟩ := ih i result hmessage htool
        exact ⟨k + 2, message, call, rfl, hcall⟩

theorem spoken (h : Paired messages) : ∀ message ∈ messages, message.role = .assistant →
    message.content ≠ "" ∨ message.toolCalls ≠ [] := by
  induction h with
  | nil => exact fun _ hmem => absurd hmem not_mem_nil
  | plain _ _ hspoken _ ih =>
      intro message hmem hrole
      rcases mem_cons.mp hmem with rfl | hmem
      · exact .inl (hspoken hrole)
      · exact ih message hmem hrole
  | call _ hcalls hresult _ _ _ ih =>
      intro message hmem hrole
      rcases mem_cons.mp hmem with rfl | hmem
      · rw [hcalls]
        exact .inr (cons_ne_nil _ _)
      · rcases mem_cons.mp hmem with rfl | hmem
        · rw [hresult] at hrole
          cases hrole
        · exact ih message hmem hrole

theorem wirePaired (h : Paired messages)
    (hdistinct : (messages.flatMap SemanticMessage.callIds).Nodup) : WirePaired messages :=
  ⟨h.answered, h.called, h.answers_eq ▸ hdistinct, hdistinct, h.spoken⟩

end Paired

/-! ## The body of a conversation -/

/-- A body with settled calls, different call ids, and text in the completed turns. -/
structure Conversation (s : SessionSnapshot) : Prop where
  settled : ∀ e ∈ s.getVisibleBody, e.kind = "tool_call" →
    ∃ child ∈ s.children e.id, child.kind = "result"
  distinct : ∀ e ∈ s.getVisibleBody, ∀ e' ∈ s.getVisibleBody, e.kind = "tool_call" →
    e'.kind = "tool_call" → ∀ callId, usableCallId e = some callId →
    usableCallId e' = some callId → e.id = e'.id
  spoken : ∀ e ∈ s.getVisibleBody, e.kind = "assistant" → isInterrupted e = true ∨ e.text ≠ ""

/-- A text that is cut to its ends is not lost. -/
theorem projectText_ne_empty (compaction : CompactionOutcome) (id : ElementId) {text : String}
    (htext : text ≠ "") : compaction.projectText id text ≠ "" := by
  unfold CompactionOutcome.projectText
  split
  · split
    · unfold truncateForProjection
      split
      · exact htext
      · intro hempty
        have hlength := congrArg String.length hempty
        simp only [String.length_append] at hlength
        have hmarker : 0 < (toString "\n[…").length := by decide
        change _ = 0 at hlength
        omega
    · exact htext
  · exact htext

section Projection

variable {s : SessionSnapshot} {e : ElementSnapshot}

/-- The messages of an element are paired. -/
theorem Conversation.paired (h : Conversation s) (compaction : CompactionOutcome)
    (he : e ∈ s.getVisibleBody) : Paired (elementMessages s compaction e) := by
  unfold elementMessages
  split
  · exact .nil
  · split
    · exact .prompt .user rfl (by decide) rfl
    · next hkind =>
      split
      · exact .nil
      · next hcompleted =>
        exact .turn rfl rfl (projectText_ne_empty compaction e.id
          ((h.spoken e he hkind).resolve_left hcompleted))
    · next hkind =>
      split
      · exact .nil
      · next callId _ =>
        obtain ⟨child, hchild, hresult⟩ := h.settled e he hkind
        cases hfind : childOfKind s e "result" with
        | none =>
          have hnone := find?_eq_none.mp hfind child hchild
          exact absurd (decide_eq_true hresult) hnone
        | some result => exact .call rfl rfl rfl rfl rfl .nil
    · exact .prompt .system rfl (by decide) rfl
    · exact .prompt .system rfl (by decide) rfl
    · exact .nil

/-- The only call id in the messages of an element is its own. -/
theorem callIds_elementMessages (compaction : CompactionOutcome) :
    (elementMessages s compaction e).flatMap SemanticMessage.callIds = [] ∨
      ∃ callId, e.kind = "tool_call" ∧ usableCallId e = some callId ∧
        (elementMessages s compaction e).flatMap SemanticMessage.callIds = [callId] := by
  unfold elementMessages
  split
  · exact .inl rfl
  · split
    · exact .inl rfl
    · split <;> exact .inl rfl
    · next hkind =>
      split
      · exact .inl rfl
      · next callId hcall =>
        refine .inr ⟨callId, hkind, hcall, ?_⟩
        cases childOfKind s e "result" <;> rfl
    · exact .inl rfl
    · exact .inl rfl
    · exact .inl rfl

/-- The projection of a conversation is well formed for the wire, whatever a pass has decided. -/
theorem Conversation.wirePaired (h : Conversation s) (hwf : WellFormed s)
    (compaction : CompactionOutcome) : WirePaired (deriveMessages s compaction) := by
  have hnodup := nodup_children hwf (staticId "body")
  refine (Paired.flatMap fun e he => h.paired compaction he).wirePaired ?_
  rw [flatMap_assoc, nodup_flatMap]
  refine ⟨fun e _ => ?_, ?_⟩
  · rcases callIds_elementMessages (s := s) (e := e) compaction with hnone | ⟨_, _, _, hone⟩
    · rw [hnone]
      exact nodup_nil
    · rw [hone]
      exact nodup_singleton _
  · refine (pairwise_map.mp hnodup).imp_of_mem fun {e e'} he he' hne => ?_
    intro callId hmem hmem'
    dsimp only at hmem hmem'
    rcases callIds_elementMessages (s := s) (e := e) compaction with hnone | ⟨_, hkind, hcall, hone⟩
    · rw [hnone] at hmem
      cases hmem
    · rcases callIds_elementMessages (s := s) (e := e') compaction with
        hnone' | ⟨_, hkind', hcall', hone'⟩
      · rw [hnone'] at hmem'
        cases hmem'
      · rw [hone] at hmem
        rw [hone'] at hmem'
        obtain rfl := mem_singleton.mp hmem
        obtain rfl := mem_singleton.mp hmem'
        exact hne (h.distinct e he e' he' hkind hkind' _ hcall hcall')

end Projection

/-! ## What keeps a conversation -/

section Growth

variable {s s' : SessionSnapshot} {e : ElementSnapshot}

/-- Nothing in the body has changed. -/
theorem Conversation.spare (h : Conversation s) (hspared : Spared s s' fun _ => True) :
    Conversation s' := by
  have hbody : ∀ e ∈ s'.getVisibleBody, e ∈ s.getVisibleBody :=
    fun e he => (hspared.body e trivial).mp he
  refine ⟨fun e he hkind => ?_, fun e he e' he' => h.distinct e (hbody e he) e' (hbody e' he'),
    fun e he => h.spoken e (hbody e he)⟩
  obtain ⟨child, hchild, hresult⟩ := h.settled e (hbody e he) hkind
  exact ⟨child, (hspared.children e (hbody e he) trivial child).mpr hchild, hresult⟩

/-- A new element of the body that fits the others. -/
structure Fits (s s' : SessionSnapshot) (e : ElementSnapshot) : Prop where
  settled : e.kind = "tool_call" → ∃ child ∈ s'.children e.id, child.kind = "result"
  fresh : e.kind = "tool_call" → ∀ callId, usableCallId e = some callId →
    ∀ other ∈ s.getVisibleBody, other.kind = "tool_call" → usableCallId other ≠ some callId
  spoken : e.kind = "assistant" → isInterrupted e = true ∨ e.text ≠ ""

/-- The body with the new element is a conversation. -/
theorem Conversation.grow (h : Conversation s) (hfocus : Focus s s' e) (hfits : Fits s s' e) :
    Conversation s' := by
  have hcases : ∀ other ∈ s'.getVisibleBody, other = e ∨
      other.id ≠ e.id ∧ other ∈ s.getVisibleBody := by
    intro other hother
    by_cases hid : other.id = e.id
    · exact .inl (eq_of_mem_children hfocus.wellFormed hother hfocus.present hid).1
    · exact .inr ⟨hid, (hfocus.spared.body other hid).mp hother⟩
  constructor
  · intro other hother hkind
    rcases hcases other hother with rfl | ⟨hid, hold⟩
    · exact hfits.settled hkind
    · obtain ⟨child, hchild, hresult⟩ := h.settled other hold hkind
      exact ⟨child, (hfocus.spared.children other hold hid child).mpr hchild, hresult⟩
  · intro first hfirst second hsecond hkind hkind' callId hcall hcall'
    rcases hcases first hfirst with rfl | ⟨_, hold⟩
    · rcases hcases second hsecond with rfl | ⟨_, hold'⟩
      · rfl
      · exact absurd hcall' (hfits.fresh hkind callId hcall second hold' hkind')
    · rcases hcases second hsecond with rfl | ⟨_, hold'⟩
      · exact absurd hcall (hfits.fresh hkind' callId hcall' first hold hkind)
      · exact h.distinct first hold second hold' hkind hkind' callId hcall hcall'
  · intro other hother hkind
    rcases hcases other hother with rfl | ⟨_, hold⟩
    · exact hfits.spoken hkind
    · exact h.spoken other hold hkind

end Growth

/-! ## What the parts of a call append -/

section Parts

variable [SerdeJson] {j j' : Journal} {owner : ActorId} {e : ElementSnapshot}

/-- An append of the host applies its operations, or it leaves the document alone. -/
theorem commitPatch_cases {patch : Patch} {world : Option Journal.Outside}
    {result : Except Stop Unit} (hsound : Sound j)
    (hcommit : commitPatch j patch world = (j', result)) :
    Sound j' ∧ ((result = .ok () ∧ ∃ s, j.snapshot.applyOps [] patch.ops = (s, .ok ()) ∧
      ∀ up, j'.snapshot.children up = s.children up) ∨
      (∃ stop, result = .error stop) ∧ j'.snapshot = j.snapshot) := by
  unfold commitPatch at hcommit
  split at hcommit
  · cases hcommit
    exact ⟨hsound, .inr ⟨⟨_, rfl⟩, rfl⟩⟩
  · split at hcommit
    · next happend =>
      cases hcommit
      obtain ⟨hsound', hcases⟩ := hsound.append_cases happend
      rcases hcases with ⟨_, _, _, hok, _⟩ | ⟨_, hsame⟩
      · cases hok
      · exact ⟨hsound', .inr ⟨⟨_, rfl⟩, hsame⟩⟩
    · next happend =>
      cases hcommit
      obtain ⟨hsound', hcases⟩ := hsound.append_cases happend
      rcases hcases with ⟨s, _, branch, _, happly, hsnapshot⟩ | ⟨⟨_, herror⟩, _⟩
      · obtain ⟨_, _, s₁, hops, rfl⟩ := applyPatch_ok happly
        refine ⟨hsound', .inl ⟨rfl, s₁, hops, fun up => ?_⟩⟩
        rw [hsnapshot]
        rfl
      · cases herror

/-- A patch that spares the body leaves it alone. -/
theorem commitPatch_spared {patch : Patch} {world : Option Journal.Outside} (hsound : Sound j)
    (hspares : ∀ op ∈ patch.ops, SessionSnapshot.Spares j.snapshot (fun _ => True) op) :
    Sound (commitPatch j patch world).1 ∧
      Spared j.snapshot (commitPatch j patch world).1.snapshot fun _ => True := by
  obtain ⟨hsound', hcases⟩ := commitPatch_cases hsound (Prod.mk.eta (p := commitPatch j patch world)).symm
  refine ⟨hsound', ?_⟩
  rcases hcases with ⟨_, s, hops, hchildren⟩ | ⟨_, hsame⟩
  · have hspared := applyOps_spared hsound.wellFormed hops hspares
    refine ⟨fun e he => ?_, fun e he htrue child => ?_⟩
    · unfold getVisibleBody
      rw [hchildren]
      exact hspared.body e he
    · rw [hchildren]
      exact hspared.children e he htrue child
  · rw [hsame]
    exact .refl _ _

/-- Appending an element puts it into the body, or it leaves the document alone. -/
theorem appendElement_cases {baseOffset : UInt64} {reason : String} {more : List PatchOp}
    {world : Option Journal.Outside} {result : Except Stop Unit} (hsound : Sound j)
    (hmore : ∀ op ∈ more, op.into = some e.id ∧ op.target = none)
    (happend : appendElement j owner baseOffset reason e more world = (j', result)) :
    Sound j' ∧ ((result = .ok () ∧ Focus j.snapshot j'.snapshot (more.foldl PatchOp.rewrite e)) ∨
      (∃ stop, result = .error stop) ∧ j'.snapshot = j.snapshot) := by
  obtain ⟨hsound', hcases⟩ := commitPatch_cases hsound happend
  refine ⟨hsound', hcases.imp_left ?_⟩
  rintro ⟨hok, s, hops, hchildren⟩
  refine ⟨hok, Focus.congr ?_ hsound'.wellFormed hchildren⟩
  unfold applyOps at hops
  split at hops
  · next happly =>
    refine (focus_create hsound.wellFormed happly).applyOps hops fun op hop => ?_
    obtain ⟨hinto, htarget⟩ := hmore op hop
    refine ⟨.inr hinto, .inl htarget, ?_⟩
    cases op <;> first | exact id | cases htarget
  · cases hops

/-- Operations about the element that has come into the body. -/
theorem commit_focus {s : SessionSnapshot} {baseOffset : UInt64} {reason : String}
    {ops : List PatchOp} {world : Option Journal.Outside} {result : Except Stop Unit}
    (hsound : Sound j) (hfocus : Focus s j.snapshot e)
    (habout : ∀ op ∈ ops, About j.snapshot e.id op)
    (hcommit : commit j owner baseOffset reason ops world = (j', result)) :
    Sound j' ∧ ((result = .ok () ∧ Focus s j'.snapshot (ops.foldl PatchOp.rewrite e) ∧
      ∃ s₁, j.snapshot.applyOps [] ops = (s₁, .ok ()) ∧
        ∀ up, j'.snapshot.children up = s₁.children up) ∨
      (∃ stop, result = .error stop) ∧ j'.snapshot = j.snapshot) := by
  obtain ⟨hsound', hcases⟩ := commitPatch_cases hsound hcommit
  refine ⟨hsound', hcases.imp_left ?_⟩
  rintro ⟨hok, s₁, hops, hchildren⟩
  exact ⟨hok, (hfocus.applyOps hops habout).congr hsound'.wellFormed hchildren, s₁, hops, hchildren⟩

/-! ## Inference -/

omit [SerdeJson] in
/-- What a spill does is about the element and writes no attribute. -/
theorem flushOps_about {s : SessionSnapshot} (flush : Flush) :
    ∀ op ∈ flushOps s e.id flush, About s e.id op ∧ ∀ name, ¬ op.Writes e.id name := by
  intro op hop
  unfold flushOps at hop
  rcases mem_append.mp hop with hop | hop
  · split at hop
    · cases hop
    · obtain rfl := mem_singleton.mp hop
      exact ⟨⟨.inl rfl, .inr (.inl rfl), id⟩, fun _ => id⟩
  · split at hop
    · cases hop
    · split at hop
      · next child hchild =>
        obtain rfl := mem_singleton.mp hop
        exact ⟨⟨.inl rfl, .inr (.inr ⟨child, mem_of_find?_eq_some hchild, rfl⟩), id⟩,
          fun _ => id⟩
      · obtain rfl := mem_singleton.mp hop
        exact ⟨⟨.inr rfl, .inl rfl, id⟩, fun _ => id⟩

/-- A spill keeps the element in the body, with its kind and its attributes. -/
theorem flush_focus {s : SessionSnapshot} {flush : Flush} {result : Except Stop Unit}
    (hsound : Sound j) (hfocus : Focus s j.snapshot e)
    (hflush : flushStreamBuffers j owner e.id flush = (j', result)) :
    Sound j' ∧ ∃ e', Focus s j'.snapshot e' ∧ e'.id = e.id ∧ e'.kind = e.kind ∧
      e'.attributes = e.attributes := by
  unfold flushStreamBuffers at hflush
  split at hflush
  · cases hflush
    exact ⟨hsound, e, hfocus, rfl, rfl, rfl⟩
  · have habout := flushOps_about (s := j.snapshot) (e := e) flush
    obtain ⟨hsound', hcases⟩ :=
      commit_focus hsound hfocus (fun op hop => (habout op hop).1) hflush
    refine ⟨hsound', ?_⟩
    rcases hcases with ⟨_, hfocus', _⟩ | ⟨_, hsame⟩
    · exact ⟨_, hfocus', PatchOp.foldl_rewrite_id _ e, PatchOp.foldl_rewrite_kind _ e,
        PatchOp.foldl_rewrite_attributes fun op hop => (habout op hop).2⟩
    · exact ⟨e, hsame ▸ hfocus, rfl, rfl, rfl⟩

/-- All spills while the provider streams. -/
theorem streamAll_focus {s : SessionSnapshot} {flushes : List Flush} {result : Except Stop Unit}
    (hsound : Sound j) (hfocus : Focus s j.snapshot e)
    (hstream : streamAll owner e.id j flushes = (j', result)) :
    Sound j' ∧ ∃ e', Focus s j'.snapshot e' ∧ e'.id = e.id ∧ e'.kind = e.kind ∧
      e'.attributes = e.attributes := by
  induction flushes generalizing j e with
  | nil =>
      cases hstream
      exact ⟨hsound, e, hfocus, rfl, rfl, rfl⟩
  | cons flush flushes ih =>
      unfold streamAll at hstream
      split at hstream
      · next hflush =>
        cases hstream
        exact flush_focus hsound hfocus hflush
      · next hflush =>
        obtain ⟨hsound₁, e₁, hfocus₁, hid, hkind, hattributes⟩ :=
          flush_focus hsound hfocus hflush
        rw [← hid] at hstream
        obtain ⟨hsound', e', hfocus', hid', hkind', hattributes'⟩ :=
          ih hsound₁ hfocus₁ hstream
        exact ⟨hsound', e', hfocus', hid'.trans hid, hkind'.trans hkind,
          hattributes'.trans hattributes⟩

omit [SerdeJson] in
/-- What settles a turn is about its element. -/
theorem settleTurnOps_about {s s₀ : SessionSnapshot} (hfocus : Focus s₀ s e) (diag : ElementId)
    (result : Except StructuredError CanonicalTurn) :
    ∀ op ∈ settleTurnOps s e.id diag result, About s e.id op := by
  have hself : ∀ {op : PatchOp}, op.into = none → op.target = some e.id → ¬ op.Displaces e.id →
      About s e.id op := fun hinto htarget hplace => ⟨.inl hinto, .inr (.inl htarget), hplace⟩
  intro op hop
  unfold settleTurnOps at hop
  cases result with
  | ok turn =>
      simp only [mem_append, mem_cons, not_mem_nil, or_false, mem_map] at hop
      rcases hop with (((rfl | hop) | rfl | rfl | rfl) | ⟨thinking, _, rfl⟩) | ⟨child, hchild, rfl⟩
      · exact hself rfl rfl id
      · split at hop
        · obtain rfl := mem_singleton.mp hop
          exact hself rfl rfl id
        · cases hop
      · exact hself rfl rfl id
      · exact hself rfl rfl id
      · exact hself rfl rfl id
      · exact hself rfl rfl id
      · have hmem := (mem_filter.mp hchild).1
        refine ⟨.inl rfl, .inr (.inr ⟨child, hmem, rfl⟩), fun heq => ?_⟩
        exact body_ne hfocus.wellFormed hfocus.present
          (eq_of_mem_children hfocus.wellFormed hmem hfocus.present heq).2
  | error error =>
      simp only [mem_cons, not_mem_nil, or_false] at hop
      rcases hop with rfl | rfl | rfl
      · exact hself rfl rfl id
      · exact hself rfl rfl id
      · exact ⟨.inr rfl, .inl rfl, id⟩

omit [SerdeJson] in
/-- A settled turn has the text that the provider has returned. -/
theorem settleTurnOps_text {s : SessionSnapshot} (helement : s.element e.id = some e)
    (diag : ElementId) (turn : CanonicalTurn) :
    ((settleTurnOps s e.id diag (.ok turn)).foldl PatchOp.rewrite e).text = turn.text := by
  unfold settleTurnOps
  dsimp only
  rw [helement, foldl_append, foldl_append, foldl_append, foldl_append]
  rw [PatchOp.foldl_rewrite_text, PatchOp.foldl_rewrite_text, PatchOp.foldl_rewrite_text]
  · by_cases htext : e.text = turn.text
    · rw [if_neg (by simp [htext])]
      simp [PatchOp.rewrite, htext]
    · rw [if_pos (by simp [htext])]
      simp [PatchOp.rewrite]
  · intro op hop
    simp only [mem_cons, not_mem_nil, or_false] at hop
    rcases hop with rfl | rfl | rfl <;> exact id
  · intro op hop
    obtain ⟨_, _, rfl⟩ := mem_map.mp hop
    exact id
  · intro op hop
    obtain ⟨_, _, rfl⟩ := mem_map.mp hop
    exact id

omit [SerdeJson] in
theorem settleTurnOps_interrupted {s : SessionSnapshot} (diag : ElementId) (error : StructuredError) :
    isInterrupted ((settleTurnOps s e.id diag (.error error)).foldl PatchOp.rewrite e) = true := by
  unfold isInterrupted settleTurnOps
  simp only [foldl_cons, foldl_nil, PatchOp.rewrite, if_true,
    Std.ExtTreeMap.getElem?_insert_self, Bool.or_eq_true]
  refine .inl (decide_eq_true ?_)
  split <;> decide

omit [SerdeJson] in
theorem isInterrupted_congr {e' : ElementSnapshot} (h : e'.attributes = e.attributes) :
    isInterrupted e' = isInterrupted e := by
  unfold isInterrupted
  rw [h]

omit [SerdeJson] in
theorem assistantElement_interrupted (id : ElementId) :
    isInterrupted (assistantElement id) = true := by
  unfold isInterrupted assistantElement
  simp

/-- The end of an inference: the element stays interrupted, or it gets the text that is settled. -/
theorem settleTurn_focus {s : SessionSnapshot} {w : Inference}
    {settled : Except StructuredError CanonicalTurn} {result : Except Stop CanonicalTurn}
    (hsound : Sound j) (hfocus : Focus s j.snapshot e) (hid : e.id = w.element)
    (hrunning : isInterrupted e = true) (hsettle : settleTurn j owner w settled = (j', result)) :
    Sound j' ∧ ∃ e', Focus s j'.snapshot e' ∧ e'.kind = e.kind ∧
      (isInterrupted e' = true ∨ ∃ turn, settled = .ok turn ∧ e'.text = turn.text) := by
  unfold settleTurn at hsettle
  rw [← hid] at hsettle
  split at hsettle
  · next hflush =>
    cases hsettle
    obtain ⟨hsound', e', hfocus', _, hkind, hattributes⟩ := flush_focus hsound hfocus hflush
    exact ⟨hsound', e', hfocus', hkind, .inl ((isInterrupted_congr hattributes).trans hrunning)⟩
  · next j₁ hflush =>
    obtain ⟨hsound₁, e₁, hfocus₁, hid₁, hkind₁, hattributes⟩ :=
      flush_focus hsound hfocus hflush
    have hrunning₁ := (isInterrupted_congr hattributes).trans hrunning
    rw [← hid₁] at hsettle
    cases hcommit : commit j₁ owner j₁.snapshot.offset "settle assistant stream"
        (settleTurnOps j₁.snapshot e₁.id w.diag settled) w.settled with
    | mk j₂ committed =>
      rw [hcommit] at hsettle
      obtain ⟨hsound₂, hcases⟩ := commit_focus hsound₁ hfocus₁
        (settleTurnOps_about hfocus₁ w.diag settled) hcommit
      rcases hcases with ⟨rfl, hfocus₂, _⟩ | ⟨⟨stop, rfl⟩, hsame⟩
      · cases hsettle
        refine ⟨hsound₂, _, hfocus₂, (PatchOp.foldl_rewrite_kind _ e₁).trans hkind₁, ?_⟩
        cases settled with
        | error error => exact .inl (settleTurnOps_interrupted w.diag error)
        | ok turn =>
          have helement : j₁.snapshot.element e₁.id = some e₁ := by
            obtain ⟨n, hn, rfl, _⟩ :=
              (mem_children_iff hfocus₁.wellFormed).mp hfocus₁.present
            unfold SessionSnapshot.element
            rw [hn]
            rfl
          exact .inr ⟨turn, rfl, settleTurnOps_text helement w.diag turn⟩
      · cases hsettle
        exact ⟨hsound₂, e₁, hsame ▸ hfocus₁, hkind₁, .inl hrunning₁⟩

/-- An inference brings one element into the body, or leaves the document alone. -/
theorem infer_focus {w : Inference} {result : Except Stop CanonicalTurn} (hsound : Sound j)
    (hinfer : inferAssistantTurn j owner w = (j', result)) :
    Sound j' ∧ (j'.snapshot = j.snapshot ∨ ∃ e, Focus j.snapshot j'.snapshot e ∧
      e.kind = "assistant" ∧
      (isInterrupted e = true ∨ ∃ turn, w.result = .ok turn ∧ e.text = turn.text)) := by
  unfold inferAssistantTurn at hinfer
  cases hstart : appendElement j owner j.snapshot.offset "start assistant stream"
      (assistantElement w.element) [] w.started with
  | mk j₁ started =>
      rw [hstart] at hinfer
      obtain ⟨hsound₁, hcases⟩ :=
        appendElement_cases hsound (fun _ hop => absurd hop not_mem_nil) hstart
      rcases hcases with ⟨rfl, hfocus₁⟩ | ⟨⟨stop, rfl⟩, hsame⟩
      · dsimp only at hinfer
        cases hstream : streamAll owner w.element j₁ w.flushes with
        | mk j₂ streamed =>
          rw [hstream] at hinfer
          obtain ⟨hsound₂, e₂, hfocus₂, hid₂, hkind₂, hattributes₂⟩ :=
            streamAll_focus (e := assistantElement w.element) hsound₁ hfocus₁ hstream
          have hrunning : isInterrupted e₂ = true :=
            (isInterrupted_congr hattributes₂).trans (assistantElement_interrupted w.element)
          cases streamed with
          | ok done =>
            obtain ⟨hsound', e, hfocus, hkind, hturn⟩ :=
              settleTurn_focus hsound₂ hfocus₂ hid₂ hrunning hinfer
            exact ⟨hsound', .inr ⟨e, hfocus, hkind.trans hkind₂, hturn⟩⟩
          | error stop =>
            cases stop with
            | cut =>
              cases hinfer
              exact ⟨hsound₂, .inr ⟨e₂, hfocus₂, hkind₂, .inl hrunning⟩⟩
            | failed error =>
              obtain ⟨hsound', e, hfocus, hkind, hturn⟩ :=
                settleTurn_focus hsound₂ hfocus₂ hid₂ hrunning hinfer
              refine ⟨hsound', .inr ⟨e, hfocus, hkind.trans hkind₂, .inl ?_⟩⟩
              rcases hturn with hinterrupted | ⟨turn, hok, _⟩
              · exact hinterrupted
              · cases hok
      · cases hinfer
        exact ⟨hsound₁, .inl hsame⟩

/-! ## Tools -/

/-- The patch touches neither the body nor what its elements hold. -/
def Work.Offside (j : Journal) (work : Work) : Prop :=
  ∀ op ∈ work.patch.ops, SessionSnapshot.Spares j.snapshot (fun _ => True) op

/-- What another part of the host does with a patch. -/
def workStep (j : Journal) (work : Work) : Journal :=
  (commitPatch j work.patch work.world).1

theorem workAll_eq (works : List Work) : workAll j works = Machine.run workStep j works := by
  induction works generalizing j with
  | nil => rfl
  | cons work works ih =>
      unfold workAll
      exact ih

/-- Patches that touch no body leave it alone. -/
theorem workAll_spared {works : List Work} (hsound : Sound j)
    (hoffside : Machine.Along workStep (fun j work => work.Offside j) j works) :
    Sound (workAll j works) ∧ Spared j.snapshot (workAll j works).snapshot fun _ => True := by
  rw [workAll_eq]
  refine Machine.invariant_along
    (P := fun j' : Journal => Sound j' ∧ Spared j.snapshot j'.snapshot fun _ => True)
    (fun j' work h hwork => ?_) ⟨hsound, .refl _ _⟩ hoffside
  obtain ⟨hsound', hspared⟩ := commitPatch_spared h.1 hwork
  exact ⟨hsound', h.2.trans hspared⟩

omit [SerdeJson] in
/-- A tool call is found under its call id. -/
theorem usableCallId_toolCallElement (id : ElementId) (callId : ToolCallId) (name : String)
    (input : Value) : usableCallId (toolCallElement id callId name input) = some callId := by
  have hget : (toolCallElement id callId name input).attributes["call_id"]? =
      some (.string callId.value) := by
    unfold toolCallElement
    dsimp only
    rw [Std.ExtTreeMap.getElem?_insert, if_neg (by decide), Std.ExtTreeMap.getElem?_insert,
      if_neg (by decide), Std.ExtTreeMap.getElem?_insert, if_neg (by decide),
      Std.ExtTreeMap.getElem?_insert, if_neg (by decide), Std.ExtTreeMap.getElem?_insert_self]
  unfold usableCallId
  rw [hget]
  exact congrArg Except.toOption (Id.new_value callId)

omit [SerdeJson] in
/-- What settles a tool call: its status, and new elements under it. -/
theorem settleToolOps_eq (element : ElementId) (result : ToolExecutionResult)
    (minted : Nat → ElementId) : ∃ status creates, settleToolOps element result minted =
      .setAttribute element "status" status ::
        .create element 1 (resultElement (minted 0) result.output) :: creates ∧
      ∀ op ∈ creates, op.into = some element ∧ op.target = none := by
  unfold settleToolOps settledChildren
  dsimp only
  rw [append_assoc, append_assoc, singleton_append, zipIdx_cons,
    map_cons, zipIdx_cons, map_cons]
  refine ⟨_, _, rfl, fun op hop => ?_⟩
  obtain ⟨child, _, rfl⟩ := mem_map.mp hop
  exact ⟨rfl, rfl⟩

omit [SerdeJson] in
/-- Writing a status and creating elements keeps the call id. -/
theorem usableCallId_settled {status : TypedValue} {creates : List PatchOp}
    (hcreates : ∀ op ∈ creates, op.target = none) :
    usableCallId ((.setAttribute e.id "status" status :: creates).foldl PatchOp.rewrite e) =
      usableCallId e := by
  have hkept : ∀ op ∈ creates, ∀ name, ¬ op.Writes e.id name := by
    intro op hop name
    have htarget := hcreates op hop
    cases op <;> first | exact id | cases htarget
  unfold usableCallId
  rw [foldl_cons, PatchOp.foldl_rewrite_attributes (by
    rw [PatchOp.rewrite_id]
    exact hkept)]
  unfold PatchOp.rewrite
  dsimp only
  rw [if_pos rfl]
  dsimp only
  rw [Std.ExtTreeMap.getElem?_insert, if_neg (by decide)]

omit [SerdeJson] in
/-- An element whose status is written and that gets new elements has the first of them. -/
theorem applyOps_settled {s s' : SessionSnapshot} {status : TypedValue} {index : UInt32}
    {child : ElementSnapshot} {creates : List PatchOp} (hwf : WellFormed s)
    (h : s.applyOps [] (.setAttribute e.id "status" status :: .create e.id index child ::
      creates) = (s', .ok ())) (hcreates : ∀ op ∈ creates, op.target = none)
    (he : e ∈ s.getVisibleBody) : child ∈ s'.children e.id := by
  unfold applyOps at h
  split at h
  · next s₁ u₁ hstatus =>
    unfold applyOps at h
    split at h
    · next s₂ u₂ hchild =>
      have hwf₁ := hwf.applyOne hstatus
      have hpresent₁ := applyOne_rewrite hwf hstatus (by decide) id he
      have hpresent₂ := applyOne_rewrite hwf₁ hchild (by decide) id hpresent₁
      have hrest := @applyOps_created _ _ _ _ _ child (hwf₁.applyOne hchild) h hcreates hpresent₂
      rw [PatchOp.rewrite_id, PatchOp.rewrite_id] at hrest
      exact hrest ((applyCreate_created hwf₁ hchild).children.mem_iff.mpr mem_cons_self)
    · cases h
  · cases h

/-- Journaling a call brings it into the body, or it leaves the document alone. -/
theorem invoke_focus {name : String} {input : Value} {callId : ToolCallId} {w : Invocation}
    {result : Except Stop Unit} (hsound : Sound j)
    (hinvoke : invokeTool j owner name input callId w = (j', result)) :
    Sound j' ∧ ((result = .ok () ∧
        Focus j.snapshot j'.snapshot (toolCallElement w.element callId name input)) ∨
      (∃ stop, result = .error stop) ∧ j'.snapshot = j.snapshot) := by
  refine appendElement_cases hsound (fun op hop => ?_) hinvoke
  obtain rfl := mem_singleton.mp hop
  exact ⟨rfl, rfl⟩

/-- Settling a call gives it a result and keeps its call id. -/
theorem settle_focus {s : SessionSnapshot} {name : String} {w : Invocation} (hsound : Sound j)
    (hfocus : Focus s j.snapshot e) (hid : e.id = w.element)
    (hsettle : settleTool j owner name w = (j', .ok ())) :
    Sound j' ∧ ∃ e', Focus s j'.snapshot e' ∧ e'.kind = e.kind ∧
      usableCallId e' = usableCallId e ∧
      ∃ child ∈ j'.snapshot.children e'.id, child.kind = "result" := by
  unfold settleTool at hsettle
  rw [← hid] at hsettle
  obtain ⟨status, creates, hops, hcreates⟩ :=
    settleToolOps_eq e.id (settledResult w.execution) w.minted
  rw [hops] at hsettle
  have habout : ∀ op ∈ PatchOp.setAttribute e.id "status" status ::
      .create e.id 1 (resultElement (w.minted 0) (settledResult w.execution).output) :: creates,
      About j.snapshot e.id op := by
    intro op hop
    rcases mem_cons.mp hop with rfl | hop
    · exact ⟨.inl rfl, .inr (.inl rfl), id⟩
    · rcases mem_cons.mp hop with rfl | hop
      · exact ⟨.inr rfl, .inl rfl, id⟩
      · obtain ⟨hinto, htarget⟩ := hcreates op hop
        refine ⟨.inr hinto, .inl htarget, ?_⟩
        cases op <;> first | exact id | cases htarget
  obtain ⟨hsound', hcases⟩ := commit_focus hsound hfocus habout hsettle
  rcases hcases with ⟨_, hfocus', s₁, happly, hchildren⟩ | ⟨⟨stop, hstop⟩, _⟩
  · refine ⟨hsound', _, hfocus', PatchOp.foldl_rewrite_kind _ e, ?_,
      resultElement (w.minted 0) (settledResult w.execution).output, ?_, rfl⟩
    · refine usableCallId_settled fun op hop => ?_
      rcases mem_cons.mp hop with rfl | hop
      · rfl
      · exact (hcreates op hop).2
    · rw [PatchOp.foldl_rewrite_id, hchildren]
      exact applyOps_settled hsound.wellFormed happly (fun op hop => (hcreates op hop).2)
        hfocus.present
  · cases hstop

end Parts

/-! ## Orderly runs -/

section Runs

variable [SerdeJson] {j : Journal} {owner : ActorId}

/-- A part of a call goes well: the provider completes an answer only with text, and a call that is
journaled has a new call id and is settled. Other parts of the host do not touch the body. -/
def Orderly (owner : ActorId) (j : Journal) : Activity → Prop
  | .infer w => ∀ turn, w.result = .ok turn → turn.text ≠ ""
  | .tool name input callId w =>
    let callId := callId.getD w.mintedCall
    let invoked := invokeTool j owner name input callId w
    invoked.2 = .ok () →
      (∀ other ∈ j.snapshot.getVisibleBody, other.kind = "tool_call" →
        usableCallId other ≠ some callId) ∧
      Machine.Along workStep (fun j work => work.Offside j) invoked.1 w.work ∧
      (settleTool (workAll invoked.1 w.work) owner name w).2 = .ok ()
  | .work work => work.Offside j
  | .userMessage .. | .steering .. | .plan .. | .refuse .. => True

/-- Every part of a call that is reached meets a condition. -/
def Throughout (owner : ActorId) (P : Journal → Activity → Prop) : Journal → List Activity → Prop
  | _, [] => True
  | j, activity :: rest => P j activity ∧
    ((perform owner j activity).2 = .ok () →
      Throughout owner P (perform owner j activity).1 rest)

/-- A call whose parts go well. -/
def HostCall.Orderly (owner : ActorId) (j : Journal) (call : HostCall) : Prop :=
  Throughout owner (Control.Orderly owner) j call.activities

/-- An appended prompt. -/
theorem append_conversation {baseOffset : UInt64} {reason : String} {e : ElementSnapshot}
    {world : Option Journal.Outside} (hsound : Sound j) (h : Conversation j.snapshot)
    (hcall : e.kind ≠ "tool_call") (hassistant : e.kind ≠ "assistant") :
    Sound (appendElement j owner baseOffset reason e [] world).1 ∧
      Conversation (appendElement j owner baseOffset reason e [] world).1.snapshot := by
  cases happend : appendElement j owner baseOffset reason e [] world with
  | mk j' result =>
      obtain ⟨hsound', hcases⟩ :=
        appendElement_cases hsound (fun _ hop => absurd hop not_mem_nil) happend
      refine ⟨hsound', ?_⟩
      rcases hcases with ⟨_, hfocus⟩ | ⟨_, hsame⟩
      · exact h.grow hfocus ⟨fun hkind => absurd hkind hcall, fun hkind => absurd hkind hcall,
          fun hkind => absurd hkind hassistant⟩
      · rw [hsame]
        exact h

theorem Onward.conversation {j' : Journal} (h : Onward j j') (hwf : WellFormed j.snapshot)
    (hconversation : Conversation j.snapshot) : Conversation j'.snapshot := by
  obtain ⟨hbody, helements⟩ := h.kept.body hwf
  refine hconversation.spare ⟨fun e _ => ?_, fun e he _ child => ?_⟩
  · rw [hbody]
  · rw [(helements e he).2]

/-- An inference whose answer has text. -/
theorem infer_conversation {w : Inference} (hsound : Sound j) (h : Conversation j.snapshot)
    (hspoken : ∀ turn, w.result = .ok turn → turn.text ≠ "") :
    Sound (inferAssistantTurn j owner w).1 ∧
      Conversation (inferAssistantTurn j owner w).1.snapshot := by
  cases hinfer : inferAssistantTurn j owner w with
  | mk j' result =>
      obtain ⟨hsound', hcases⟩ := infer_focus hsound hinfer
      refine ⟨hsound', ?_⟩
      rcases hcases with hsame | ⟨e, hfocus, hkind, hturn⟩
      · rw [hsame]
        exact h
      · have hcall : e.kind ≠ "tool_call" := by
          rw [hkind]
          decide
        refine h.grow hfocus ⟨fun heq => absurd heq hcall, fun heq => absurd heq hcall, fun _ => ?_⟩
        rcases hturn with hinterrupted | ⟨turn, hresult, htext⟩
        · exact .inl hinterrupted
        · exact .inr (htext ▸ hspoken turn hresult)

/-- A tool call with a new call id that is settled. -/
theorem tool_conversation {name : String} {input : Value} {callId : Option ToolCallId}
    {w : Invocation} (hsound : Sound j) (h : Conversation j.snapshot)
    (horderly : Orderly owner j (.tool name input callId w)) :
    Sound (executeToolInner j owner name input callId w).1 ∧
      Conversation (executeToolInner j owner name input callId w).1.snapshot := by
  unfold executeToolInner
  dsimp only [Orderly] at horderly ⊢
  cases hinvoke : invokeTool j owner name input (callId.getD w.mintedCall) w with
  | mk j₁ invoked =>
      rw [hinvoke] at horderly
      obtain ⟨hsound₁, hcases⟩ := invoke_focus hsound hinvoke
      rcases hcases with ⟨rfl, hfocus₁⟩ | ⟨⟨stop, rfl⟩, hsame⟩
      · obtain ⟨hfresh, hoffside, hsettled⟩ := horderly rfl
        obtain ⟨hsound₂, hspared⟩ := workAll_spared hsound₁ hoffside
        have hfocus₂ := hfocus₁.spare hsound₂.wellFormed hspared
        dsimp only
        cases hsettle : settleTool (workAll j₁ w.work) owner name w with
        | mk j₃ settled =>
          rw [hsettle] at hsettled
          dsimp only at hsettled hspared
          subst hsettled
          obtain ⟨hsound₃, e, hfocus₃, hkind, hcallId, hresult⟩ :=
            settle_focus hsound₂ hfocus₂ rfl hsettle
          have hassistant : e.kind ≠ "assistant" := by
            rw [hkind]
            exact show "tool_call" ≠ "assistant" by decide
          refine ⟨hsound₃, h.grow hfocus₃ ⟨fun _ => hresult, fun _ callId' hcallId' => ?_,
            fun heq => absurd heq hassistant⟩⟩
          rw [hcallId, usableCallId_toolCallElement] at hcallId'
          cases hcallId'
          exact hfresh
      · refine ⟨hsound₁, ?_⟩
        rw [hsame]
        exact h

/-- A part of a call that goes well keeps the conversation. -/
theorem perform_conversation {activity : Activity} (h : Sound j ∧ Conversation j.snapshot)
    (horderly : Orderly owner j activity) :
    Sound (perform owner j activity).1 ∧ Conversation (perform owner j activity).1.snapshot := by
  obtain ⟨hsound, hconversation⟩ := h
  cases activity with
  | userMessage id message world =>
      exact append_conversation hsound hconversation (show "user" ≠ "tool_call" by decide)
        (show "user" ≠ "assistant" by decide)
  | steering id prompt world =>
      exact append_conversation hsound hconversation (show "steering" ≠ "tool_call" by decide)
        (show "steering" ≠ "assistant" by decide)
  | plan config draws =>
      cases config with
      | none => exact ⟨hsound, hconversation⟩
      | some config =>
        cases hplan : planStages j owner config draws with
        | mk j' result =>
          have honward := planStages_onward hsound hplan
          have hjournal : (perform owner j (.plan (some config) draws)).1 = j' := by
            unfold perform Control.plan
            dsimp only
            rw [hplan]
            cases result <;> rfl
          rw [hjournal]
          exact ⟨honward.sound, honward.conversation hsound.wellFormed hconversation⟩
  | infer w =>
      have hinfer : Sound (inferAssistantTurn j owner w).1 ∧
          Conversation (inferAssistantTurn j owner w).1.snapshot :=
        infer_conversation hsound hconversation horderly
      unfold perform
      dsimp only
      cases hresult : inferAssistantTurn j owner w with
      | mk j' result =>
        rw [hresult] at hinfer
        cases result <;> exact hinfer
  | tool name input callId w =>
      have htool := tool_conversation hsound hconversation horderly
      unfold perform
      dsimp only
      cases hresult : executeToolInner j owner name input callId w with
      | mk j' result =>
        rw [hresult] at htool
        cases result <;> exact htool
  | work work =>
      obtain ⟨hsound', hspared⟩ := commitPatch_spared hsound horderly
      exact ⟨hsound', hconversation.spare hspared⟩
  | refuse e => exact ⟨hsound, hconversation⟩

/-- A call whose parts go well keeps the conversation. -/
theorem execute_conversation {activities : List Activity} (h : Sound j ∧ Conversation j.snapshot)
    (horderly : Throughout owner (Orderly owner) j activities) :
    Sound (execute owner j activities).1 ∧
      Conversation (execute owner j activities).1.snapshot := by
  induction activities generalizing j with
  | nil => exact h
  | cons activity rest ih =>
      obtain ⟨hactivity, hrest⟩ := horderly
      have hperform := perform_conversation h hactivity
      unfold execute
      cases hresult : perform owner j activity with
      | mk j' result =>
        rw [hresult] at hperform hrest
        cases result with
        | error stop => exact hperform
        | ok done => exact ih hperform (hrest rfl)

omit [SerdeJson] in
theorem getVisibleBody_empty (sessionId : SessionId) : (empty sessionId).getVisibleBody = [] := by
  have hget := (seeded_empty sessionId).get (staticId "body")
  rw [if_pos (by decide)] at hget
  unfold getVisibleBody SessionSnapshot.children
  rw [hget]
  rfl

omit [SerdeJson] in
theorem Conversation.of_empty {s : SessionSnapshot} (h : s.getVisibleBody = []) :
    Conversation s := by
  refine ⟨fun e he => ?_, fun e he => ?_, fun e he => ?_⟩ <;> rw [h] at he <;> cases he

/-- After every run of calls that go well, the messages under every outcome of a pass are well
formed for the wire. -/
theorem run_wirePaired {sessionId : SessionId} {j₀ j' : Journal}
    (hcreate : Journal.create sessionId = .ok j₀) {calls : List HostCall}
    (horderly : Machine.Along (callStep owner) (HostCall.Orderly owner) j₀ calls)
    {config : CompactionConfig} {draws : Draws} {outcome : CompactionOutcome}
    (hplan : plan (Machine.run (callStep owner) j₀ calls) owner config draws =
      (j', .ok outcome)) :
    WirePaired (deriveMessages j'.snapshot outcome) := by
  have hstart : Sound j₀ ∧ Conversation j₀.snapshot := by
    refine ⟨⟨_, _, Journal.create_coherent hcreate⟩, .of_empty ?_⟩
    rw [(Journal.create_eq_ok hcreate).1]
    exact getVisibleBody_empty sessionId
  obtain ⟨hsound, hconversation⟩ := Machine.invariant_along
    (P := fun j : Journal => Sound j ∧ Conversation j.snapshot)
    (fun j call h hcall => execute_conversation h hcall) hstart horderly
  unfold plan at hplan
  split at hplan
  · cases hplan
  · next hstages =>
      cases hplan
      have honward := planStages_onward hsound hstages
      exact (honward.conversation hsound.wellFormed hconversation).wirePaired
        honward.sound.wellFormed _

end Runs

section Within

variable [SerdeJson] {j : Journal}

/-- A pass over a document that is within its bounds leaves the journal alone. -/
theorem plan_within (config : CompactionConfig)
    (hreadable : (SummaryDag.load j.snapshot).unreadable = 0)
    (helides : select (collectEntries j.snapshot) (SummaryDag.load j.snapshot).covered config
      (projectedTokens (collectEntries j.snapshot) (SummaryDag.load j.snapshot).covered
        (SummaryDag.load j.snapshot) ∅ config.fixedOverheadTokens) = [])
    (hcondenses : (SummaryDag.load j.snapshot).roots.length ≤ max config.maxRootNodes 1)
    (hwithin : projectedTokens (collectEntries j.snapshot) (SummaryDag.load j.snapshot).covered
      (SummaryDag.load j.snapshot) ∅ config.fixedOverheadTokens ≤ config.budget.hardTokens)
    (owner : ActorId) (draws : Draws) :
    plan j owner config draws = (j, .ok (Planned.outcome ⟨SummaryDag.load j.snapshot,
      (SummaryDag.load j.snapshot).covered, ∅,
      some (projectedTokens (collectEntries j.snapshot) (SummaryDag.load j.snapshot).covered
        (SummaryDag.load j.snapshot) ∅ config.fixedOverheadTokens)⟩)) := by
  unfold plan
  rw [planStages_unminted hreadable helides hcondenses]
  dsimp only
  rw [reduce_within hwithin, capTexts_within hwithin]

end Within

end Omp2.Control

/-! ## A call that is cut off, and one that is settled -/

namespace Omp2.Control

open Omp2.Json Omp2.Json.Compact Omp2.State Journal

/-- What is decided about the first call of a tool, up to whether it is settled. -/
def firstInvocation (settled : Option Outside) : Invocation where
  mintedCall := ⟨"5f0c9a2e-4b1d-4c7a-9e35-0d6f8b2a1c47", Eq.refl true⟩
  element := ⟨"first-call", Eq.refl true⟩
  input := ⟨"first-input", Eq.refl true⟩
  invoked := some ⟨.ok 7, .done⟩
  work := []
  execution := .ok ⟨⟨"src", none, false, .text⟩, [], none, []⟩
  minted := fun _ => ⟨"first-result", Eq.refl true⟩
  settled

/-- The input of the first call. -/
def firstInput : Value := .object [("command", .string "ls")]

/-- The patch that journals the first call. -/
def invokePatch : Patch where
  baseOffset := 0
  resultOffset := 1
  author := .actor owner
  reason := "invoke tool bash"
  ops := [
    .create (staticId "body") 0 (toolCallElement (firstInvocation none).element
      (firstInvocation none).mintedCall "bash" firstInput),
    .create (firstInvocation none).element 0
      (inputElement (firstInvocation none).input firstInput)]

/-- The patch that settles the first call. -/
def settlePatch : Patch where
  baseOffset := 1
  resultOffset := 2
  author := .actor owner
  reason := "settle tool bash"
  ops := settleToolOps (firstInvocation none).element
    (settledResult (firstInvocation none).execution) (firstInvocation none).minted

/-- The document with the settled call. -/
def settledSnapshot : SessionSnapshot :=
  { ((firstSnapshot invokePatch).applyPatch settlePatch).1 with
    selectedBranch := (firstSnapshot invokePatch).selectedBranch }

/-- The first call on a new journal is journaled. -/
theorem exists_invoked : ∃ j₀ j₁ r, Journal.create exampleSession = .ok j₀ ∧
    j₀.snapshot = .empty exampleSession ∧
    (∀ settled, invokeTool j₀ owner "bash" firstInput (firstInvocation none).mintedCall
      (firstInvocation settled) = (j₁, .ok ())) ∧
    Coherent exampleSession j₁ [r] ∧ j₁.snapshot = firstSnapshot invokePatch ∧
    j₁.failed = false ∧ j₁.recovery = none := by
  obtain ⟨j₀, hcreate⟩ := exists_create_exampleSession
  have hcoherent := create_coherent hcreate
  obtain ⟨rfl, _⟩ := create_eq_ok hcreate
  obtain ⟨j₁, r, happend, hr⟩ := exists_appended_next hcoherent invokePatch 7 0
    rfl rfl rfl rfl (by decide +kernel) (fits_of_draft (by decide +kernel))
  obtain ⟨s, happly, hsnapshot⟩ := hr.applied
  refine ⟨_, j₁, r, hcreate, rfl, fun settled => ?_, hr.coherent, ?_, hr.failed, hr.recovery⟩
  · unfold invokeTool appendElement commit
    have hindex : UInt32.ofNat (SessionSnapshot.empty exampleSession).getVisibleBody.length = 0 := by
      decide +kernel
    have hnext : (blank exampleSession (headerFile exampleSession)).nextOffset = 1 := by
      refine UInt64.toNat_inj.mp ?_
      unfold nextOffset
      rw [UInt64.toNat_add, hcoherent.latestOffset]
      rfl
    have hpatch : ({
        baseOffset := (blank exampleSession (headerFile exampleSession)).snapshot.offset
        resultOffset := (blank exampleSession (headerFile exampleSession)).nextOffset
        author := .actor owner
        reason := "invoke tool " ++ "bash"
        ops := .create (staticId "body") (UInt32.ofNat (blank exampleSession
            (headerFile exampleSession)).snapshot.getVisibleBody.length)
          (toolCallElement (firstInvocation settled).element (firstInvocation none).mintedCall
            "bash" firstInput) :: [.create (firstInvocation settled).element 0
              (inputElement (firstInvocation settled).input firstInput)] } : Patch) =
        invokePatch := by
      unfold invokePatch
      rw [show (blank exampleSession (headerFile exampleSession)).snapshot =
        .empty exampleSession from rfl, hindex,
        hnext,
        show "invoke tool " ++ "bash" = "invoke tool bash" by decide +kernel]
      rfl
    dsimp only
    rw [hpatch]
    unfold commitPatch
    dsimp only [firstInvocation]
    rw [happend]
  · unfold firstSnapshot
    rw [hsnapshot, show SessionSnapshot.applyPatch (.empty exampleSession) invokePatch =
      (s, .ok ()) from happly]
    rfl

/-- The first call of a tool. -/
def firstCall (settled : Option Outside) : HostCall :=
  .executeTool "bash" firstInput (firstInvocation settled)

/-- The outcome of a pass over a document with room. -/
def roomyOutcome (s : SessionSnapshot) : CompactionOutcome :=
  Planned.outcome ⟨SummaryDag.load s, (SummaryDag.load s).covered, ∅,
    some (projectedTokens (collectEntries s) (SummaryDag.load s).covered (SummaryDag.load s) ∅
      roomyConfig.fixedOverheadTokens)⟩

/-- The process ends before the call is settled. The next request has the call and no result. -/
theorem not_wirePaired_cut : ¬ ∀ (sessionId : SessionId) (j₀ j' : Journal) (owner : ActorId)
    (calls : List HostCall) (config : CompactionConfig) (draws : Draws)
    (outcome : CompactionOutcome), Journal.create sessionId = .ok j₀ →
    plan (Machine.run (callStep owner) j₀ calls) owner config draws = (j', .ok outcome) →
    WirePaired (deriveMessages j'.snapshot outcome) := by
  intro h
  obtain ⟨j₀, j₁, _, hcreate, _, hinvoke, _, hsnapshot, _, _⟩ := exists_invoked
  have hrun : Machine.run (callStep owner) j₀ [firstCall none] = j₁ := by
    have hcut : callStep owner j₀ (firstCall none) = j₁ := by
      unfold callStep firstCall HostCall.activities execute perform executeToolInner
      dsimp only
      rw [show (none : Option ToolCallId).getD (firstInvocation none).mintedCall =
        (firstInvocation none).mintedCall from rfl, hinvoke none]
      rfl
    exact hcut
  have hplan := plan_within (j := j₁) roomyConfig
    (by rw [hsnapshot]; decide +kernel) (by rw [hsnapshot]; decide +kernel)
    (by rw [hsnapshot]; decide +kernel) (by rw [hsnapshot]; decide +kernel) owner
    (obedientDraws ⟨"minted", Eq.refl true⟩)
  have hpaired : WirePaired (deriveMessages j₁.snapshot (roomyOutcome j₁.snapshot)) :=
    h _ j₀ j₁ owner [firstCall none] _ _ _ hcreate (by rw [hrun]; exact hplan)
  rw [hsnapshot] at hpaired
  have hcalls : ((deriveMessages (firstSnapshot invokePatch)
      (roomyOutcome (firstSnapshot invokePatch)))[0]?).map
        (fun message => message.toolCalls.length) = some 1 := by decide +kernel
  have hlast : ((deriveMessages (firstSnapshot invokePatch)
      (roomyOutcome (firstSnapshot invokePatch)))[1]?).isNone = true := by decide +kernel
  obtain ⟨message, hmessage, hlength⟩ := Option.map_eq_some_iff.mp hcalls
  obtain ⟨call, hcall⟩ := List.exists_mem_of_length_eq_add_one (n := 0) hlength
  obtain ⟨_, result, hresult, _⟩ := hpaired.answered 0 message hmessage call hcall
  rw [hresult] at hlast
  cases hlast

/-- A call that is settled makes a request that is well formed. -/
theorem firstCall_wirePaired : ∃ j₀ j' outcome, Journal.create exampleSession = .ok j₀ ∧
    plan (Machine.run (callStep owner) j₀ [firstCall (some ⟨.ok 8, .done⟩)]) owner roomyConfig
      (obedientDraws ⟨"minted", Eq.refl true⟩) = (j', .ok outcome) ∧
    WirePaired (deriveMessages j'.snapshot outcome) := by
  obtain ⟨j₀, j₁, r, hcreate, hempty, hinvoke, hcoherent, hsnapshot, hfailed, hrecovery⟩ :=
    exists_invoked
  obtain ⟨j₂, r₂, happend, hr⟩ := exists_appended_next hcoherent settlePatch 8 1
    hfailed hrecovery rfl rfl (by rw [hsnapshot]; decide +kernel)
    (fits_of_draft (by rw [hsnapshot]; decide +kernel))
  obtain ⟨s, happly, hsettled⟩ := hr.applied
  have hlast : j₂.snapshot = settledSnapshot := by
    rw [hsettled]
    rw [hsnapshot] at happly ⊢
    unfold settledSnapshot
    rw [happly]
  have hsettle : settleTool j₁ owner "bash" (firstInvocation (some ⟨.ok 8, .done⟩)) =
      (j₂, .ok ()) := by
    have hnext : j₁.nextOffset = 2 := by
      refine UInt64.toNat_inj.mp ?_
      unfold nextOffset
      rw [UInt64.toNat_add, hcoherent.latestOffset]
      rfl
    have hoffset : j₁.snapshot.offset = 1 := by
      rw [hsnapshot]
      decide +kernel
    unfold settleTool commit
    rw [hnext, hoffset, show "settle tool " ++ "bash" = "settle tool bash" by decide +kernel]
    unfold commitPatch
    dsimp only [firstInvocation]
    have hpatch : ({
        baseOffset := 1
        resultOffset := 2
        author := .actor owner
        reason := "settle tool bash"
        ops := settleToolOps (firstInvocation none).element
          (settledResult (firstInvocation none).execution) (firstInvocation none).minted } :
        Patch) = settlePatch := rfl
    dsimp only [firstInvocation] at hpatch
    rw [hpatch, happend]
  have hcall : callStep owner j₀ (firstCall (some ⟨.ok 8, .done⟩)) = j₂ := by
    unfold callStep firstCall HostCall.activities execute perform executeToolInner
    dsimp only
    rw [show (none : Option ToolCallId).getD (firstInvocation (some ⟨.ok 8, .done⟩)).mintedCall =
      (firstInvocation none).mintedCall from rfl, hinvoke (some ⟨.ok 8, .done⟩)]
    dsimp only
    rw [show workAll j₁ (firstInvocation (some ⟨.ok 8, .done⟩)).work = j₁ from rfl, hsettle]
    rfl
  have hrun : Machine.run (callStep owner) j₀ [firstCall (some ⟨.ok 8, .done⟩)] = j₂ := hcall
  have hplan := plan_within (j := j₂) roomyConfig
    (by rw [hlast]; decide +kernel) (by rw [hlast]; decide +kernel)
    (by rw [hlast]; decide +kernel) (by rw [hlast]; decide +kernel) owner
    (obedientDraws ⟨"minted", Eq.refl true⟩)
  refine ⟨j₀, j₂, _, hcreate, by rw [hrun]; exact hplan, ?_⟩
  have horderly : Machine.Along (callStep owner) (HostCall.Orderly owner) j₀
      [firstCall (some ⟨.ok 8, .done⟩)] := by
    refine ⟨⟨fun _ => ⟨?_, trivial, ?_⟩, fun _ => trivial⟩, trivial⟩
    · rw [hempty, getVisibleBody_empty]
      exact fun _ hother => absurd hother List.not_mem_nil
    · rw [show (none : Option ToolCallId).getD (firstInvocation (some ⟨.ok 8, .done⟩)).mintedCall =
        (firstInvocation none).mintedCall from rfl, hinvoke (some ⟨.ok 8, .done⟩)]
      dsimp only
      rw [show workAll j₁ (firstInvocation (some ⟨.ok 8, .done⟩)).work = j₁ from rfl, hsettle]
  exact run_wirePaired hcreate horderly (by rw [hrun]; exact hplan)

end Omp2.Control
