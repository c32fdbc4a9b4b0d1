import Omp2.Inference.ToolStream

/-!
# Which tool calls a stream is put together to

Where payloads name their calls by an index, the parser makes a call of every index up to the
largest, replaces ids and names by their last piece, and gives up at an index of 256. Where payloads
append to blocks, it reads no index at all. So it finds one call for each index, with what the
fragments with that index say, exactly when the indices leave none out and ids and names come whole;
and when blocks are streamed one after the other.
-/

namespace Omp2.Inference

open Control Json Text List

/-! ## What a stream says -/

/-- What a payload with content says, as a fragment. -/
def BlockEvent.fragment : BlockEvent → Fragment
  | .start index id name => ⟨index, id, name, none⟩
  | .delta index piece => ⟨index, none, none, some piece⟩

/-- What a payload says about tool calls. -/
def Payload.fragments (format : WireFormat) (payload : Payload) : List Fragment :=
  if format = .anthropicMessages then
    (blockEvent payload.eventType payload.value).toList.map BlockEvent.fragment
  else (choicesOf payload.value).flatMap choiceFragments

/-- What a stream says about tool calls. -/
def fragmentsOf (format : WireFormat) (payloads : List Payload) : List Fragment :=
  payloads.flatMap (·.fragments format)

/-- The reasons that a payload gives for the end of the stream. -/
def Payload.reasons (format : WireFormat) (payload : Payload) : List String :=
  if format = .anthropicMessages then (stopReason payload.eventType payload.value).toList
  else (choicesOf payload.value).filterMap choiceReason

/-- The last reason that a stream gives for its end. -/
def lastReason (format : WireFormat) (payloads : List Payload) : Option String :=
  (payloads.flatMap (·.reasons format)).getLast?

/-- A payload says that the turn is over. -/
def Payload.stops (format : WireFormat) (payload : Payload) : Bool :=
  format = .anthropicMessages && payload.eventType = "message_stop"

/-- A stream ends with its turn, and not at the limit of the output while it has tool calls. -/
structure Ends (format : WireFormat) (payloads : List Payload) (done : Bool) : Prop where
  terminal : done = true ∨ payloads.any (·.stops format) = true ∨
    (lastReason format payloads).isSome = true
  uncut : fragmentsOf format payloads ≠ [] →
    lastReason format payloads ≠ some "length" ∧ lastReason format payloads ≠ some "max_tokens"

section Pieces

variable (fragments : List Fragment) (index : Nat)

/-- The fragments with an index. -/
def ofIndex : List Fragment := fragments.filter fun f => f.index = index

/-- The pieces of the id of a call. -/
def idPieces : List String := (ofIndex fragments index).filterMap Fragment.id

/-- The pieces of the name of a call. -/
def namePieces : List String := (ofIndex fragments index).filterMap Fragment.name

/-- The pieces of the arguments of a call. -/
def argumentPieces : List String := (ofIndex fragments index).filterMap Fragment.arguments

/-- The accumulator of a call. -/
def gathered : StreamingToolCall where
  id := (idPieces fragments index).getLast?
  name := (namePieces fragments index).getLast?
  argumentsBuffer := String.join (argumentPieces fragments index)

end Pieces

/-! ## The accumulators -/

theorem bind_eq_ok_iff {ε α β : Type} {x : Except ε α} {f : α → Except ε β} {b : β} :
    (x >>= f) = .ok b ↔ ∃ a, x = .ok a ∧ f a = .ok b := by
  cases x with
  | error e => exact ⟨nofun, fun ⟨_, h, _⟩ => nomatch h⟩
  | ok a => exact ⟨fun h => ⟨a, rfl, h⟩, fun ⟨_, ha, hf⟩ => Except.ok.inj ha ▸ hf⟩

theorem ofIndex_concat (fragments : List Fragment) (f : Fragment) (i : Nat) :
    ofIndex (fragments ++ [f]) i =
      if f.index = i then ofIndex fragments i ++ [f] else ofIndex fragments i := by
  unfold ofIndex
  rw [filter_append]
  by_cases h : f.index = i <;> simp [h]

theorem getLast?_filterMap_concat {α β : Type} (g : α → Option β) (items : List α) (item : α) :
    ((items ++ [item]).filterMap g).getLast? = (g item).or (items.filterMap g).getLast? := by
  rw [filterMap_append, getLast?_append]
  cases h : g item <;> simp [h]

/-- The accumulator after one more fragment. -/
theorem gathered_concat (fragments : List Fragment) (f : Fragment) (i : Nat) :
    gathered (fragments ++ [f]) i =
      if f.index = i then (gathered fragments i).take f else gathered fragments i := by
  unfold gathered idPieces namePieces argumentPieces
  rw [ofIndex_concat]
  split
  · simp only [getLast?_filterMap_concat, StreamingToolCall.take]
    congr 1
    rw [filterMap_append]
    cases harguments : f.arguments <;> simp [harguments]
  · rfl

theorem total_eq_gathered (fragments : List Fragment) (i : Nat) :
    Indexed.total .fresh StreamingToolCall.take Fragment.index fragments i =
      gathered fragments i := by
  induction fragments using reverseRecOn with
  | nil => rfl
  | append_singleton fragments f ih => rw [Indexed.total_concat, gathered_concat, ih]

/-- The accumulators after all fragments. -/
def accumulators (fragments : List Fragment) : List StreamingToolCall :=
  Indexed.gather .fresh StreamingToolCall.take Fragment.index [] fragments

theorem accumulators_eq (fragments : List Fragment) :
    accumulators fragments =
      (List.range (Indexed.extent Fragment.index fragments)).map (gathered fragments) := by
  refine ext_getElem? fun i => ?_
  have hlength := Indexed.length_gather .fresh StreamingToolCall.take Fragment.index fragments
  have hslot := Indexed.getD_gather .fresh StreamingToolCall.take Fragment.index fragments i
  rw [total_eq_gathered] at hslot
  unfold accumulators
  rw [getElem?_map]
  rcases Nat.lt_or_ge i (Indexed.extent Fragment.index fragments) with hlt | hge
  · have hin := hlength.symm ▸ hlt
    rw [getElem?_range hlt, getElem?_eq_getElem hin]
    rw [getD_eq_getElem _ _ hin] at hslot
    exact congrArg some hslot
  · rw [getElem?_eq_none (hlength.symm ▸ hge),
      getElem?_eq_none (by rw [length_range]; exact hge)]
    rfl

theorem accumulators_eq_nil {fragments : List Fragment} :
    accumulators fragments = [] ↔ fragments = [] := by
  constructor
  · intro h
    refine eq_nil_iff_forall_not_mem.mpr fun f hf => ?_
    have hextent := Indexed.length_gather .fresh StreamingToolCall.take Fragment.index fragments
    have hpos := (Indexed.lt_extent_iff Fragment.index fragments f.index).mpr ⟨f, hf, Nat.le_refl _⟩
    rw [show Indexed.gather .fresh StreamingToolCall.take Fragment.index [] fragments = [] from h,
      length_nil] at hextent
    omega
  · rintro rfl
    rfl

theorem ofIndex_eq_nil {fragments : List Fragment} {i : Nat}
    (h : Indexed.extent Fragment.index fragments ≤ i) : ofIndex fragments i = [] := by
  refine filter_eq_nil_iff.mpr fun f hf hindex => ?_
  have hpos := (Indexed.lt_extent_iff Fragment.index fragments i).mpr
    ⟨f, hf, Nat.le_of_eq (of_decide_eq_true hindex).symm⟩
  omega

theorem exists_of_forall₂ {α β : Type} {R S : α → β → Prop} {items : List α} {others : List β}
    (h : List.Forall₂ R items others) (h' : List.Forall₂ S items others) :
    ∀ item ∈ items, ∃ other, R item other ∧ S item other := by
  induction h with
  | nil => nofun
  | cons hR _ ih =>
      cases h' with
      | cons hS h' => exact forall_mem_cons.mpr ⟨⟨_, hR, hS⟩, ih h'⟩

/-! ## Payloads that name their calls -/

theorem takeFragments_eq_ok (fragments : List Fragment) {calls calls' : List StreamingToolCall} :
    takeFragments calls fragments = .ok calls' ↔
      (∀ f ∈ fragments, f.index < maxStreamingTools) ∧
        calls' = Indexed.gather .fresh StreamingToolCall.take Fragment.index calls fragments := by
  induction fragments generalizing calls with
  | nil =>
      refine ⟨fun h => ⟨nofun, (Except.ok.inj h).symm⟩, fun h => ?_⟩
      rw [h.2]
      rfl
  | cons f rest ih =>
      unfold takeFragments
      by_cases hindex : maxStreamingTools ≤ f.index
      · rw [if_pos hindex]
        refine ⟨nofun, fun h => absurd (h.1 f (mem_cons_self ..)) ?_⟩
        exact Nat.not_lt.mpr hindex
      · rw [if_neg hindex, ih, forall_mem_cons]
        refine ⟨fun h => ⟨⟨Nat.lt_of_not_le hindex, h.1⟩, h.2⟩, fun h => ⟨h.1.2, h.2⟩⟩

theorem gather_append (fragments more : List Fragment) (calls : List StreamingToolCall) :
    Indexed.gather .fresh StreamingToolCall.take Fragment.index calls (fragments ++ more) =
      Indexed.gather .fresh StreamingToolCall.take Fragment.index
        (Indexed.gather .fresh StreamingToolCall.take Fragment.index calls fragments) more :=
  foldl_append

/-- The state after fragments and reasons of a stream. -/
def StreamState.after (st : StreamState) (fragments : List Fragment) (reasons : List String) :
    StreamState where
  toolCalls := Indexed.gather .fresh StreamingToolCall.take Fragment.index st.toolCalls fragments
  finishReason := reasons.getLast?.or st.finishReason
  seenTerminal := st.seenTerminal

theorem StreamState.after_after (st : StreamState) (fragments more : List Fragment)
    (reasons later : List String) :
    (st.after fragments reasons).after more later =
      st.after (fragments ++ more) (reasons ++ later) := by
  unfold StreamState.after
  simp only [gather_append, getLast?_append, Option.or_assoc]

/-- Reading what a list of items says, one after the other. -/
theorem foldlM_after {α : Type} {read : StreamState → α → Except StructuredError StreamState}
    {fragments : α → List Fragment} {reasons : α → List String}
    (hread : ∀ st item st', read st item = .ok st' ↔
      (∀ f ∈ fragments item, f.index < maxStreamingTools) ∧
        st' = st.after (fragments item) (reasons item))
    (items : List α) {st st' : StreamState} :
    items.foldlM read st = .ok st' ↔
      (∀ f ∈ items.flatMap fragments, f.index < maxStreamingTools) ∧
        st' = st.after (items.flatMap fragments) (items.flatMap reasons) := by
  induction items generalizing st with
  | nil =>
      refine ⟨fun h => ⟨nofun, (Except.ok.inj h).symm⟩, fun h => ?_⟩
      rw [h.2]
      rfl
  | cons item rest ih =>
      rw [foldlM_cons, bind_eq_ok_iff, flatMap_cons, flatMap_cons,
        forall_mem_append]
      constructor
      · rintro ⟨next, hnext, hrest⟩
        obtain ⟨hbound, rfl⟩ := (hread ..).mp hnext
        obtain ⟨hmore, rfl⟩ := ih.mp hrest
        exact ⟨⟨hbound, hmore⟩, StreamState.after_after ..⟩
      · rintro ⟨⟨hbound, hmore⟩, rfl⟩
        exact ⟨_, (hread ..).mpr ⟨hbound, rfl⟩, ih.mpr ⟨hmore, (StreamState.after_after ..).symm⟩⟩

theorem processChoice_eq_ok (st : StreamState) (choice : Value) (st' : StreamState) :
    processChoice st choice = .ok st' ↔
      (∀ f ∈ choiceFragments choice, f.index < maxStreamingTools) ∧
        st' = st.after (choiceFragments choice) (choiceReason choice).toList := by
  unfold processChoice
  rw [bind_eq_ok_iff]
  have hreason : (choiceReason choice).toList.getLast? = choiceReason choice := by
    cases choiceReason choice <;> rfl
  constructor
  · rintro ⟨calls, hcalls, hst⟩
    obtain ⟨hbound, rfl⟩ := (takeFragments_eq_ok _).mp hcalls
    refine ⟨hbound, ?_⟩
    cases hst
    rw [StreamState.after, hreason]
  · rintro ⟨hbound, rfl⟩
    refine ⟨_, (takeFragments_eq_ok _).mpr ⟨hbound, rfl⟩, ?_⟩
    rw [StreamState.after, hreason]
    rfl

theorem flatMap_toList_filterMap {α β : Type} (g : α → Option β) (items : List α) :
    items.flatMap (fun item => (g item).toList) = items.filterMap g := by
  induction items with
  | nil => rfl
  | cons item rest ih =>
      rw [flatMap_cons, ih]
      cases h : g item <;> simp [h]

theorem processPayload_eq_ok {format : WireFormat} (hformat : format ≠ .anthropicMessages)
    (st : StreamState) (payload : Payload) (st' : StreamState) :
    processPayload format st payload = .ok st' ↔
      (∀ f ∈ payload.fragments format, f.index < maxStreamingTools) ∧
        st' = st.after (payload.fragments format) (payload.reasons format) := by
  unfold processPayload Payload.fragments Payload.reasons processOpenAiSseChunk
  rw [if_neg hformat, if_neg hformat, if_neg hformat, foldlM_after processChoice_eq_ok,
    flatMap_toList_filterMap]

/-- All payloads of a stream. -/
theorem foldlM_payloads {format : WireFormat} (hformat : format ≠ .anthropicMessages)
    (payloads : List Payload) (st : StreamState) :
    payloads.foldlM (processPayload format) .start = .ok st ↔
      (∀ f ∈ fragmentsOf format payloads, f.index < maxStreamingTools) ∧
        st = ⟨accumulators (fragmentsOf format payloads), lastReason format payloads, false⟩ := by
  rw [foldlM_after (processPayload_eq_ok hformat)]
  unfold StreamState.after lastReason
  rw [show StreamState.start.finishReason = none from rfl, Option.or_none]
  rfl

/-! ## Texts that come whole -/

/-- All pieces but the last are empty. -/
def Whole (pieces : List String) : Prop :=
  String.join pieces.dropLast = ""

theorem whole_iff {pieces : List String} {last : String} (h : pieces.getLast? = some last) :
    last = String.join pieces ↔ Whole pieces := by
  obtain ⟨front, rfl⟩ := getLast?_eq_some_iff.mp h
  unfold Whole
  rw [dropLast_concat, String.join_append, ← String.toList_inj, String.toList_append]
  have hlast : String.join [last] = last := by simp
  rw [hlast, self_eq_append_left]
  exact String.toList_eq_nil_iff

theorem whole_nil : Whole [] := rfl

/-- The indices leave none out and stay below the limit, and ids and names come whole. -/
structure Numbered (fragments : List Fragment) : Prop where
  bounded : ∀ f ∈ fragments, f.index < maxStreamingTools
  dense : Indexed.Dense Fragment.index fragments
  ids : ∀ i, Whole (idPieces fragments i)
  names : ∀ i, Whole (namePieces fragments i)
  valid : ∀ i id, (idPieces fragments i).getLast? = some id → validId id = true

/-! ## The calls of the turn -/

section Turn

variable [SerdeJson]

/-- A call of the turn is put together from the fragments with its index. -/
structure Built (fragments : List Fragment) (index : Nat) (call : ToolCallSpec) : Prop where
  id : idPieces fragments index ≠ [] → call.id.value = String.join (idPieces fragments index)
  name : namePieces fragments index ≠ [] → call.name = String.join (namePieces fragments index)
  arguments : call.arguments = finalArguments (String.join (argumentPieces fragments index))

/-- A turn has one call for each index, in the order of the indices. -/
def Assembled (fragments : List Fragment) (calls : List ToolCallSpec) : Prop :=
  ∃ order : List Nat, order.Pairwise (· < ·) ∧
    (∀ i, i ∈ order ↔ ∃ f ∈ fragments, f.index = i) ∧
    List.Forall₂ (Built fragments) order calls

/-- The parser puts the calls of a stream together. -/
def Assembles (format : WireFormat) (minted : Nat → ToolCallId) (payloads : List Payload)
    (done : Bool) : Prop :=
  ∃ calls, parseSseStream format minted payloads done = .ok calls ∧
    Assembled (fragmentsOf format payloads) calls

theorem finalCall_eq_ok {minted : ToolCallId} {call : StreamingToolCall} {spec : ToolCallSpec} :
    finalCall minted call = .ok spec ↔
      (∀ id, call.id = some id → spec.id.value = id) ∧ (call.id = none → spec.id = minted) ∧
      spec.name = call.name.getD "unknown_tool" ∧
      spec.arguments = finalArguments call.argumentsBuffer := by
  have hspec : ∀ id, spec = ⟨id, call.name.getD "unknown_tool", finalArguments call.argumentsBuffer⟩ ↔
      spec.id = id ∧ spec.name = call.name.getD "unknown_tool" ∧
        spec.arguments = finalArguments call.argumentsBuffer := by
    intro id
    generalize finalArguments call.argumentsBuffer = arguments
    cases spec
    simp
  unfold finalCall
  cases hid : call.id with
  | none =>
      refine ⟨fun h => ?_, fun ⟨_, hminted, hrest⟩ => ?_⟩
      · have hfields := (hspec minted).mp (Except.ok.inj h).symm
        exact ⟨nofun, fun _ => hfields.1, hfields.2⟩
      · exact congrArg Except.ok ((hspec minted).mpr ⟨hminted rfl, hrest⟩).symm
  | some id =>
      simp only
      rw [bind_eq_ok_iff]
      constructor
      · rintro ⟨valid, hvalid, h⟩
        have hfields := (hspec valid).mp (Except.ok.inj h).symm
        refine ⟨fun text htext => ?_, nofun, hfields.2⟩
        cases htext
        unfold Id.new at hvalid
        split at hvalid
        · rw [hfields.1, ← Except.ok.inj hvalid]
        · cases hvalid
      · rintro ⟨hid, -, hrest⟩
        refine ⟨spec.id, hid id rfl ▸ Id.new_value spec.id, ?_⟩
        exact congrArg Except.ok ((hspec spec.id).mpr ⟨rfl, hrest⟩).symm

/-- The calls of a turn are those of the accumulators, one by one. -/
theorem finalCalls_eq_ok {minted : Nat → ToolCallId} (calls : List StreamingToolCall)
    (n : Nat) {specs : List ToolCallSpec} (h : finalCalls minted n calls = .ok specs) :
    List.Forall₂ (fun call spec => ∃ id, finalCall id call = .ok spec) calls specs := by
  induction calls generalizing n specs with
  | nil =>
      cases h
      exact .nil
  | cons call rest ih =>
      obtain ⟨spec, hspec, h⟩ := bind_eq_ok_iff.mp h
      obtain ⟨more, hmore, h⟩ := bind_eq_ok_iff.mp h
      cases h
      exact .cons ⟨_, hspec⟩ (ih (n + 1) hmore)

/-- The ids that the stream gave are identifiers. -/
theorem exists_finalCalls (minted : Nat → ToolCallId) (calls : List StreamingToolCall) (n : Nat) :
    (∃ specs, finalCalls minted n calls = .ok specs) ↔
      ∀ call ∈ calls, ∀ id, call.id = some id → validId id = true := by
  have hcall : ∀ (id : ToolCallId) (call : StreamingToolCall),
      (∃ spec, finalCall id call = .ok spec) ↔ ∀ text, call.id = some text → validId text = true := by
    intro id call
    constructor
    · rintro ⟨spec, hspec⟩ text htext
      exact (finalCall_eq_ok.mp hspec).1 text htext ▸ spec.id.valid
    · intro hvalid
      cases hid : call.id with
      | none =>
        exact ⟨⟨id, _, _⟩, finalCall_eq_ok.mpr ⟨by rw [hid]; nofun, fun _ => rfl, rfl, rfl⟩⟩
      | some text =>
        refine ⟨⟨⟨text, hvalid text hid⟩, _, _⟩, finalCall_eq_ok.mpr ⟨?_, ?_, rfl, rfl⟩⟩
        · rintro other hother
          exact Option.some.inj (hid.symm.trans hother)
        · rw [hid]
          nofun
  induction calls generalizing n with
  | nil => exact ⟨fun _ => nofun, fun _ => ⟨[], rfl⟩⟩
  | cons call rest ih =>
      rw [forall_mem_cons]
      refine Iff.trans ?_ (and_congr (hcall (minted n) call) (ih (n + 1)))
      constructor
      · rintro ⟨specs, h⟩
        obtain ⟨spec, hspec, h⟩ := bind_eq_ok_iff.mp h
        obtain ⟨more, hmore, _⟩ := bind_eq_ok_iff.mp h
        exact ⟨⟨spec, hspec⟩, ⟨more, hmore⟩⟩
      · rintro ⟨⟨spec, hspec⟩, ⟨more, hmore⟩⟩
        exact ⟨spec :: more,
          bind_eq_ok_iff.mpr ⟨spec, hspec, bind_eq_ok_iff.mpr ⟨more, hmore, rfl⟩⟩⟩

/-- A call of the turn is put together when its id and its name come whole. -/
theorem built_iff {fragments : List Fragment} {index : Nat} {minted : ToolCallId}
    {spec : ToolCallSpec} (h : finalCall minted (gathered fragments index) = .ok spec) :
    Built fragments index spec ↔
      Whole (idPieces fragments index) ∧ Whole (namePieces fragments index) := by
  obtain ⟨hid, -, hname, harguments⟩ := finalCall_eq_ok.mp h
  have hids : (idPieces fragments index ≠ [] →
      spec.id.value = String.join (idPieces fragments index)) ↔ Whole (idPieces fragments index) := by
    cases hlast : (idPieces fragments index).getLast? with
    | none =>
      rw [getLast?_eq_none_iff.mp hlast]
      exact ⟨fun _ => whole_nil, fun _ hne => absurd rfl hne⟩
    | some last =>
      have hne : idPieces fragments index ≠ [] := by
        intro hnil
        rw [hnil] at hlast
        cases hlast
      rw [hid last hlast, ← whole_iff hlast]
      exact ⟨fun heq => heq hne, fun heq _ => heq⟩
  have hnames : (namePieces fragments index ≠ [] →
      spec.name = String.join (namePieces fragments index)) ↔
        Whole (namePieces fragments index) := by
    cases hlast : (namePieces fragments index).getLast? with
    | none =>
      rw [getLast?_eq_none_iff.mp hlast]
      exact ⟨fun _ => whole_nil, fun _ hne => absurd rfl hne⟩
    | some last =>
      have hne : namePieces fragments index ≠ [] := by
        intro hnil
        rw [hnil] at hlast
        cases hlast
      have hlast' : spec.name = last := hname.trans (by
        show ((namePieces fragments index).getLast?).getD _ = last
        rw [hlast]
        rfl)
      rw [hlast', ← whole_iff hlast]
      exact ⟨fun heq => heq hne, fun heq _ => heq⟩
  exact ⟨fun hbuilt => ⟨hids.mp hbuilt.id, hnames.mp hbuilt.name⟩,
    fun hwhole => ⟨hids.mpr hwhole.1, hnames.mpr hwhole.2, harguments⟩⟩

/-! ## Streams that name their calls -/

/-- The end of a stream gives the calls of its accumulators, when there is no reason against it. -/
theorem finishStream_eq_ok {minted : Nat → ToolCallId} {st : StreamState}
    {specs : List ToolCallSpec} :
    finishStream minted st = .ok specs ↔
      (st.seenTerminal = true ∨ st.finishReason.isSome = true) ∧
      (st.toolCalls ≠ [] →
        st.finishReason ≠ some "length" ∧ st.finishReason ≠ some "max_tokens") ∧
      finalCalls minted 0 st.toolCalls = .ok specs := by
  unfold finishStream
  by_cases hterminal : st.seenTerminal = true ∨ st.finishReason.isSome = true
  · rw [if_neg (by cases hseen : st.seenTerminal <;> cases hreason : st.finishReason <;> simp_all)]
    by_cases hcut : st.toolCalls ≠ [] ∧
        (st.finishReason = some "length" ∨ st.finishReason = some "max_tokens")
    · rw [if_pos hcut]
      refine ⟨nofun, fun ⟨_, huncut, _⟩ => ?_⟩
      exact absurd hcut.2 (not_or.mpr (huncut hcut.1))
    · rw [if_neg hcut]
      refine ⟨fun h => ⟨hterminal, fun hne => ?_, h⟩, fun h => h.2.2⟩
      exact not_or.mp fun hreason => hcut ⟨hne, hreason⟩
  · rw [if_pos (by cases hseen : st.seenTerminal <;> cases hreason : st.finishReason <;> simp_all)]
    exact ⟨nofun, fun h => absurd h.1 hterminal⟩

/-- The calls are put together exactly when the stream ends and its fragments are numbered. -/
theorem assembles_iff {format : WireFormat} (hformat : format ≠ .anthropicMessages)
    (minted : Nat → ToolCallId) (payloads : List Payload) (done : Bool) :
    Assembles format minted payloads done ↔
      Ends format payloads done ∧ Numbered (fragmentsOf format payloads) := by
  generalize hfragments : fragmentsOf format payloads = fragments
  have hlength : (accumulators fragments).length = Indexed.extent Fragment.index fragments :=
    Indexed.length_gather ..
  constructor
  · rintro ⟨calls, hparse, order, hsorted, hmem, hbuilt⟩
    rw [hfragments] at hmem hbuilt
    obtain ⟨st, hst, hfinish⟩ := bind_eq_ok_iff.mp hparse
    obtain ⟨hbounded, rfl⟩ := (foldlM_payloads hformat payloads st).mp hst
    obtain ⟨hterminal, huncut, hcalls⟩ := finishStream_eq_ok.mp hfinish
    rw [hfragments] at hbounded huncut hcalls
    have hfinal := finalCalls_eq_ok _ 0 hcalls
    have hdense : Indexed.Dense Fragment.index fragments := by
      refine (Indexed.sorted_indices Fragment.index hsorted hmem).1.mp ?_
      rw [hbuilt.length_eq, ← hfinal.length_eq, hlength]
    obtain rfl := (Indexed.sorted_indices Fragment.index hsorted hmem).2 hdense
    rw [accumulators_eq, forall₂_map_left_iff] at hfinal
    have hwhole : ∀ i, Whole (idPieces fragments i) ∧ Whole (namePieces fragments i) := by
      intro i
      rcases Nat.lt_or_ge i (Indexed.extent Fragment.index fragments) with hlt | hge
      · obtain ⟨call, hcall, _, hspec⟩ := exists_of_forall₂ hbuilt hfinal i (mem_range.mpr hlt)
        exact (built_iff hspec).mp hcall
      · unfold idPieces namePieces
        rw [ofIndex_eq_nil hge]
        exact ⟨whole_nil, whole_nil⟩
    refine ⟨⟨?_, fun hne => huncut fun hnil => ?_⟩, hbounded, hdense, fun i => (hwhole i).1,
      fun i => (hwhole i).2, fun i id hid => ?_⟩
    · exact hterminal.imp (by simpa using ·) .inr
    · exact hne (hfragments.trans (accumulators_eq_nil.mp hnil))
    · rcases Nat.lt_or_ge i (Indexed.extent Fragment.index fragments) with hlt | hge
      · refine (exists_finalCalls minted _ 0).mp ⟨calls, hcalls⟩ (gathered fragments i) ?_ id hid
        rw [accumulators_eq]
        exact mem_map_of_mem (mem_range.mpr hlt)
      · unfold idPieces at hid
        rw [ofIndex_eq_nil hge] at hid
        cases hid
  · rintro ⟨hends, hbounded, hdense, hids, hnames, hvalid⟩
    obtain ⟨calls, hcalls⟩ := (exists_finalCalls minted (accumulators fragments) 0).mpr (by
      rw [accumulators_eq]
      intro call hcall id hid
      obtain ⟨i, -, rfl⟩ := mem_map.mp hcall
      exact hvalid i id hid)
    refine ⟨calls, bind_eq_ok_iff.mpr ⟨_, (foldlM_payloads hformat payloads _).mpr
      ⟨hfragments.symm ▸ hbounded, rfl⟩, finishStream_eq_ok.mpr ⟨?_, ?_, ?_⟩⟩, ?_⟩
    · have hstops : ¬payloads.any (·.stops format) = true := by
        simp [Payload.stops, hformat]
      refine hends.terminal.imp (fun hdone => ?_) fun h => h.resolve_left hstops
      rw [hdone]
      rfl
    · rw [hfragments]
      exact fun hne => hends.uncut fun hnil =>
        hne (accumulators_eq_nil.mpr (hfragments.symm.trans hnil))
    · rw [hfragments]
      exact hcalls
    · refine ⟨range (Indexed.extent Fragment.index fragments), pairwise_lt_range, ?_, ?_⟩
      · rw [hfragments]
        exact Indexed.mem_range_extent Fragment.index hdense
      · have hfinal := finalCalls_eq_ok _ 0 hcalls
        rw [accumulators_eq, forall₂_map_left_iff] at hfinal
        rw [hfragments]
        exact hfinal.imp fun i call ⟨_, hspec⟩ => (built_iff hspec).mpr ⟨hids i, hnames i⟩

end Turn

/-! ## Streams that append to their blocks -/

/-- Blocks are started in the order of their indices, and a delta is for the block that was started
last, or is empty. -/
def Sequential (started : List Nat) : List BlockEvent → Prop
  | [] => True
  | .start index _ _ :: rest => (∀ other ∈ started, other < index) ∧ Sequential (index :: started) rest
  | .delta index piece :: rest =>
      (started.head? = some index ∨ index ∈ started ∧ piece = "") ∧ Sequential started rest

/-- What the payloads of a stream say of its blocks. -/
def blockEvents (payloads : List Payload) : List BlockEvent :=
  payloads.filterMap fun payload => blockEvent payload.eventType payload.value

/-- The blocks that are started. -/
def starts (events : List BlockEvent) : List Nat :=
  events.filterMap fun
    | .start index _ _ => some index
    | .delta .. => none

theorem starts_append (events more : List BlockEvent) :
    starts (events ++ more) = starts events ++ starts more :=
  filterMap_append

/-- What was streamed so far: blocks in the order of their indices, and nothing for others. -/
structure InBlocks (events : List BlockEvent) : Prop where
  sorted : (starts events).Pairwise (· < ·)
  started : ∀ event ∈ events, event.fragment.index ∈ starts events

/-- The calls of the blocks that were streamed so far. -/
def blockCalls (events : List BlockEvent) : List StreamingToolCall :=
  (starts events).map (gathered (events.map BlockEvent.fragment))

variable {events : List BlockEvent} {index : Nat}

theorem modify_length_append {α : Type} (front : List α) (item : α) (f : α → α) :
    (front ++ [item]).modify front.length f = front ++ [f item] := by
  induction front with
  | nil => rfl
  | cons first rest ih => exact congrArg (first :: ·) ih

/-- A block that is started behind the others. -/
theorem takeBlock_start (h : InBlocks events) (hlast : ∀ other ∈ starts events, other < index)
    (id name : Option String) (hroom : (starts events).length < maxStreamingTools) :
    takeBlock (blockCalls events) (.start index id name) =
      .ok (blockCalls (events ++ [BlockEvent.start index id name])) := by
  have hstarts : starts (events ++ [BlockEvent.start index id name]) = starts events ++ [index] :=
    starts_append ..
  have hfresh : ofIndex (events.map BlockEvent.fragment) index = [] := by
    refine filter_eq_nil_iff.mpr fun f hf hindex => ?_
    obtain ⟨event, hevent, rfl⟩ := mem_map.mp hf
    have hlt := hlast _ (h.started event hevent)
    rw [of_decide_eq_true hindex] at hlt
    exact Nat.lt_irrefl _ hlt
  have hnew : gathered ((events ++ [BlockEvent.start index id name]).map BlockEvent.fragment) index =
      ⟨id, name, ""⟩ := by
    have hnone : gathered (events.map BlockEvent.fragment) index = .fresh := by
      unfold gathered idPieces namePieces argumentPieces
      rw [hfresh]
      rfl
    rw [map_append, map_singleton, gathered_concat]
    refine (if_pos rfl).trans ?_
    rw [hnone]
    cases id <;> cases name <;> rfl
  have hold : ∀ other ∈ starts events,
      gathered ((events ++ [BlockEvent.start index id name]).map BlockEvent.fragment) other =
        gathered (events.map BlockEvent.fragment) other := by
    intro other hother
    rw [map_append, map_singleton, gathered_concat]
    exact if_neg (Nat.ne_of_gt (hlast other hother))
  have hcount : ¬maxStreamingTools ≤ (blockCalls events).length := by
    unfold blockCalls
    rw [length_map]
    omega
  show (if maxStreamingTools ≤ (blockCalls events).length then _ else _) = _
  rw [if_neg hcount]
  unfold blockCalls
  rw [hstarts, map_append, map_singleton, hnew, map_congr_left hold]

/-- A delta for the block that was started last, or an empty one. -/
theorem takeBlock_delta (h : InBlocks events) {piece : String}
    (hwhere : (starts events).getLast? = some index ∨ piece = "") :
    takeBlock (blockCalls events) (.delta index piece) =
      .ok (blockCalls (events ++ [BlockEvent.delta index piece])) := by
  have hstarts : starts (events ++ [BlockEvent.delta index piece]) = starts events := by
    rw [starts_append]
    exact append_nil _
  have htake : ∀ call : StreamingToolCall, call.take ⟨index, none, none, some piece⟩ =
      { call with argumentsBuffer := call.argumentsBuffer ++ piece } :=
    fun _ => rfl
  have hgathered : ∀ other,
      gathered ((events ++ [BlockEvent.delta index piece]).map BlockEvent.fragment) other =
        if index = other then
          { gathered (events.map BlockEvent.fragment) other with
            argumentsBuffer :=
              (gathered (events.map BlockEvent.fragment) other).argumentsBuffer ++ piece }
        else gathered (events.map BlockEvent.fragment) other := by
    intro other
    rw [map_append, map_singleton]
    exact (gathered_concat ..).trans (if_congr Iff.rfl (htake _) rfl)
  show Except.ok (modify _ _ _) = _
  unfold blockCalls
  rw [hstarts]
  congr 1
  rcases hwhere with hlast | rfl
  · obtain ⟨front, hfront⟩ := getLast?_eq_some_iff.mp hlast
    have hother : ∀ other ∈ front,
        gathered ((events ++ [BlockEvent.delta index piece]).map BlockEvent.fragment) other =
          gathered (events.map BlockEvent.fragment) other := by
      intro other hmem
      have hsorted := h.sorted
      rw [hfront] at hsorted
      have hlt := (pairwise_append.mp hsorted).2.2 other hmem index
        (mem_singleton_self _)
      rw [hgathered, if_neg (Nat.ne_of_gt hlt)]
    rw [hfront, map_append, map_append, length_append, length_map,
      map_singleton, map_singleton, length_singleton, Nat.add_sub_cancel,
      map_congr_left hother, hgathered, if_pos rfl]
    have hlength : (front.map (gathered (events.map BlockEvent.fragment))).length = front.length :=
      length_map ..
    exact hlength ▸ modify_length_append _ _ _
  · have hsame : ∀ call : StreamingToolCall,
        { call with argumentsBuffer := call.argumentsBuffer ++ "" } = call := by
      intro call
      rw [String.append_empty]
    have hall : gathered ((events ++ [BlockEvent.delta index ""]).map BlockEvent.fragment) =
        gathered (events.map BlockEvent.fragment) := by
      funext other
      rw [hgathered, hsame, ite_self]
    rw [hall]
    exact (congrArg (modify _ _) (funext hsame)).trans (modify_id _ _)

/-- The blocks of a sequential stream, after those that were streamed so far. -/
theorem foldlM_takeBlock (rest : List BlockEvent) (h : InBlocks events)
    (hsequential : Sequential (starts events).reverse rest)
    (hroom : (starts (events ++ rest)).length ≤ maxStreamingTools) :
    rest.foldlM takeBlock (blockCalls events) = .ok (blockCalls (events ++ rest)) ∧
      InBlocks (events ++ rest) := by
  induction rest generalizing events with
  | nil =>
      rw [append_nil]
      exact ⟨rfl, h⟩
  | cons event rest ih =>
      have hassoc : events ++ event :: rest = events ++ [event] ++ rest := by simp
      rw [hassoc] at hroom ⊢
      rw [starts_append, length_append] at hroom
      have hnext : takeBlock (blockCalls events) event = .ok (blockCalls (events ++ [event])) ∧
          InBlocks (events ++ [event]) ∧ Sequential (starts (events ++ [event])).reverse rest := by
        cases event with
        | start index id name =>
          have hlast : ∀ other ∈ starts events, other < index :=
            fun other hother => hsequential.1 other (mem_reverse.mpr hother)
          have hstarts : starts (events ++ [.start index id name]) = starts events ++ [index] :=
            starts_append ..
          rw [hstarts, length_append, length_singleton] at hroom
          refine ⟨takeBlock_start h hlast id name (by omega), ⟨?_, ?_⟩, ?_⟩
          · rw [hstarts]
            exact pairwise_append.mpr ⟨h.sorted, pairwise_singleton _ _,
              fun a ha b hb => mem_singleton.mp hb ▸ hlast a ha⟩
          · rw [hstarts]
            intro event hevent
            rcases mem_append.mp hevent with hold | hnew
            · exact mem_append_left _ (h.started event hold)
            · exact mem_append_right _
                (mem_singleton.mp hnew ▸ mem_singleton_self _)
          · rw [hstarts, reverse_append]
            exact hsequential.2
        | delta index piece =>
          have hstarts : starts (events ++ [.delta index piece]) = starts events := by
            rw [starts_append]
            exact append_nil _
          have hin : index ∈ starts events := by
            rcases hsequential.1 with hlast | ⟨hin, -⟩
            · exact mem_reverse.mp (mem_of_mem_head? hlast)
            · exact mem_reverse.mp hin
          refine ⟨takeBlock_delta h (hsequential.1.imp (head?_reverse ▸ ·) (·.2)),
            ⟨?_, ?_⟩, ?_⟩
          · rw [hstarts]
            exact h.sorted
          · rw [hstarts]
            intro event hevent
            rcases mem_append.mp hevent with hold | hnew
            · exact h.started event hold
            · exact mem_singleton.mp hnew ▸ hin
          · rw [hstarts]
            exact hsequential.2
      obtain ⟨htake, hblocks, hrest⟩ := hnext
      have hmore := ih hblocks hrest (by rw [starts_append, length_append]; exact hroom)
      rw [foldlM_cons, htake]
      exact hmore

theorem fragmentsOf_anthropic (payloads : List Payload) :
    fragmentsOf .anthropicMessages payloads =
      (blockEvents payloads).map BlockEvent.fragment := by
  induction payloads with
  | nil => rfl
  | cons payload rest ih =>
      unfold fragmentsOf blockEvents at ih ⊢
      rw [flatMap_cons, ih]
      unfold Payload.fragments
      rw [if_pos rfl]
      cases h : blockEvent payload.eventType payload.value <;> simp [h]

/-- All payloads of a stream that append to its blocks. -/
theorem foldlM_anthropic (payloads : List Payload) {st : StreamState}
    {calls : List StreamingToolCall}
    (h : (blockEvents payloads).foldlM takeBlock st.toolCalls = .ok calls) :
    payloads.foldlM (processPayload .anthropicMessages) st =
      .ok ⟨calls, (lastReason .anthropicMessages payloads).or st.finishReason,
        st.seenTerminal || payloads.any (·.stops .anthropicMessages)⟩ := by
  induction payloads generalizing st with
  | nil =>
      cases h
      simp [lastReason]
      rfl
  | cons payload rest ih =>
      rw [foldlM_cons]
      have hevents : blockEvents (payload :: rest) =
          (blockEvent payload.eventType payload.value).toList ++ blockEvents rest := by
        unfold blockEvents
        cases hevent : blockEvent payload.eventType payload.value <;> simp [hevent]
      rw [hevents, foldlM_append] at h
      obtain ⟨next, hnext, hrest⟩ := bind_eq_ok_iff.mp h
      have hstep : processPayload .anthropicMessages st payload =
          .ok ⟨next, (stopReason payload.eventType payload.value).or st.finishReason,
            st.seenTerminal || payload.stops .anthropicMessages⟩ := by
        unfold processPayload processAnthropicSseEvent
        rw [if_pos rfl]
        cases hevent : blockEvent payload.eventType payload.value with
        | none =>
          rw [hevent] at hnext
          cases hnext
          rfl
        | some event =>
          rw [hevent, Option.toList_some, foldlM_cons] at hnext
          obtain ⟨taken, htaken, hsame⟩ := bind_eq_ok_iff.mp hnext
          cases hsame
          simp only [htaken]
          rfl
      rw [hstep]
      refine (ih hrest).trans ?_
      have hreason : lastReason .anthropicMessages (payload :: rest) =
          (lastReason .anthropicMessages rest).or
            (stopReason payload.eventType payload.value) := by
        unfold lastReason
        rw [flatMap_cons, getLast?_append]
        unfold Payload.reasons
        rw [if_pos rfl]
        cases stopReason payload.eventType payload.value <;> rfl
      rw [hreason, Option.or_assoc, any_cons, Bool.or_assoc]

/-- A block is started once, and only its start has an id or a name. -/
theorem length_pieces_le (events : List BlockEvent) (index : Nat) :
    (idPieces (events.map BlockEvent.fragment) index).length ≤ (starts events).count index ∧
      (namePieces (events.map BlockEvent.fragment) index).length ≤ (starts events).count index := by
  unfold idPieces namePieces
  induction events using reverseRecOn with
  | nil => exact ⟨Nat.le_refl _, Nat.le_refl _⟩
  | append_singleton events event ih =>
      rw [map_append, map_singleton, ofIndex_concat, starts_append, count_append]
      have hpiece : ∀ g : Fragment → Option String, ((g event.fragment).isSome →
          ∃ i id name, event = .start i id name) →
          ((if event.fragment.index = index then
              ofIndex (events.map BlockEvent.fragment) index ++ [event.fragment]
            else ofIndex (events.map BlockEvent.fragment) index).filterMap g).length ≤
          ((ofIndex (events.map BlockEvent.fragment) index).filterMap g).length +
            (starts [event]).count index := by
        intro g hstart
        split
        · next hindex =>
          rw [filterMap_append, length_append]
          refine Nat.add_le_add_left ?_ _
          cases hg : g event.fragment with
          | none => simp [hg]
          | some piece =>
            obtain ⟨i, id, name, rfl⟩ := hstart (hg ▸ rfl)
            cases hindex
            refine (length_filterMap_le g _).trans ?_
            simp [starts, BlockEvent.fragment]
        · exact Nat.le_add_right _ _
      have hids := hpiece Fragment.id (by cases event <;> simp [BlockEvent.fragment])
      have hnames := hpiece Fragment.name (by cases event <;> simp [BlockEvent.fragment])
      omega

theorem whole_of_length_le {pieces : List String} (h : pieces.length ≤ 1) : Whole pieces := by
  cases pieces with
  | nil => rfl
  | cons piece rest =>
      cases rest with
      | nil => rfl
      | cons _ _ => exact absurd h (by simp)

section Sequential

variable [SerdeJson]

/-- At most 256 blocks in sequence are put together. -/
theorem assembles_of_sequential (minted : Nat → ToolCallId) (payloads : List Payload) (done : Bool)
    (hends : Ends .anthropicMessages payloads done)
    (hsequential : Sequential [] (blockEvents payloads))
    (hroom : (starts (blockEvents payloads)).length ≤ maxStreamingTools)
    (hvalid : ∀ i id, (idPieces (fragmentsOf .anthropicMessages payloads) i).getLast? = some id →
      validId id = true) : Assembles .anthropicMessages minted payloads done := by
  rw [fragmentsOf_anthropic] at hvalid
  have hnone : InBlocks [] := ⟨List.Pairwise.nil, nofun⟩
  obtain ⟨hcalls, hblocks⟩ := foldlM_takeBlock (blockEvents payloads) hnone hsequential hroom
  rw [nil_append] at hcalls hblocks
  obtain ⟨calls, hfinal⟩ := (exists_finalCalls minted (blockCalls (blockEvents payloads)) 0).mpr (by
    intro call hcall id hid
    obtain ⟨i, -, rfl⟩ := mem_map.mp hcall
    exact hvalid i id hid)
  have hreason : (lastReason .anthropicMessages payloads).or StreamState.start.finishReason =
      lastReason .anthropicMessages payloads :=
    Option.or_none
  refine ⟨calls, bind_eq_ok_iff.mpr ⟨_, foldlM_anthropic payloads hcalls,
    finishStream_eq_ok.mpr ⟨?_, ?_, hfinal⟩⟩, starts (blockEvents payloads), hblocks.sorted, ?_, ?_⟩
  · simp only [hreason, Bool.or_eq_true]
    rcases hends.terminal with hdone | hstops | hsome
    · exact .inl (.inr hdone)
    · exact .inl (.inl (.inr hstops))
    · exact .inr hsome
  · rw [hreason]
    intro hne
    refine hends.uncut fun hnil => hne ?_
    rw [fragmentsOf_anthropic, map_eq_nil_iff] at hnil
    rw [hnil]
    rfl
  · intro i
    rw [fragmentsOf_anthropic]
    constructor
    · intro hi
      obtain ⟨event, hevent, hstart⟩ := mem_filterMap.mp hi
      refine ⟨event.fragment, mem_map_of_mem hevent, ?_⟩
      cases event with
      | start index id name => exact Option.some.inj hstart
      | delta index piece => cases hstart
    · rintro ⟨f, hf, rfl⟩
      obtain ⟨event, hevent, rfl⟩ := mem_map.mp hf
      exact hblocks.started event hevent
  · have hbuilt := finalCalls_eq_ok _ 0 hfinal
    rw [blockCalls, forall₂_map_left_iff] at hbuilt
    rw [fragmentsOf_anthropic]
    refine hbuilt.imp fun i call ⟨_, hspec⟩ => (built_iff hspec).mpr ?_
    have honce : (starts (blockEvents payloads)).count i ≤ 1 :=
      nodup_iff_count_le_one.mp (hblocks.sorted.imp Nat.ne_of_lt) i
    obtain ⟨hids, hnames⟩ := length_pieces_le (blockEvents payloads) i
    exact ⟨whole_of_length_le (hids.trans honce), whole_of_length_le (hnames.trans honce)⟩

/-- When the parser puts the calls of a stream together. -/
theorem toolCalls_assembled (minted : Nat → ToolCallId) (payloads : List Payload) (done : Bool) :
    (∀ format, format ≠ .anthropicMessages →
      (Assembles format minted payloads done ↔
        Ends format payloads done ∧ Numbered (fragmentsOf format payloads))) ∧
    (Ends .anthropicMessages payloads done → Sequential [] (blockEvents payloads) →
      (starts (blockEvents payloads)).length ≤ maxStreamingTools →
      (∀ i id, (idPieces (fragmentsOf .anthropicMessages payloads) i).getLast? = some id →
        validId id = true) →
      Assembles .anthropicMessages minted payloads done) :=
  ⟨fun _ hformat => assembles_iff hformat minted payloads done,
    assembles_of_sequential minted payloads done⟩

end Sequential

/-- An id that is minted. -/
def mintedCall : Nat → ToolCallId := fun _ => ⟨"call_minted", Eq.refl true⟩

/-- A payload with one entry of a tool call, the last of its turn. -/
def callPayload (index : UInt64) : Payload where
  eventType := ""
  value := .object [("choices", .array [.object [
    ("finish_reason", .string "tool_calls"),
    ("delta", .object [("tool_calls", .array [.object [
      ("index", .number (.posInt index)), ("id", .string "call_a"),
      ("function", .object [("name", .string "Read"), ("arguments", .string "{}")])]])])]])]

theorem fragmentsOf_callPayload (index : UInt64) :
    fragmentsOf .openAiChatCompletions [callPayload index] =
      [⟨index.toNat, some "call_a", some "Read", some "{}"⟩] := rfl

theorem ends_callPayload (index : UInt64) :
    Ends .openAiChatCompletions [callPayload index] false :=
  by
  have hreason : lastReason .openAiChatCompletions [callPayload index] = some "tool_calls" := rfl
  refine ⟨.inr (.inr (hreason ▸ rfl)), fun _ => ?_⟩
  rw [hreason]
  decide

theorem toolCalls_assembled_one :
    @Assembles Compact.serdeJson .openAiChatCompletions mintedCall [callPayload 0] false := by
  let _ := Compact.serdeJson
  refine ((toolCalls_assembled mintedCall [callPayload 0] false).1 .openAiChatCompletions
    (by decide)).mpr ⟨ends_callPayload 0, ?_⟩
  rw [fragmentsOf_callPayload]
  refine ⟨by decide, ?_, fun i => whole_of_length_le ?_, fun i => whole_of_length_le ?_, ?_⟩
  · intro f hf i hi
    rw [mem_singleton.mp hf] at hi
    exact absurd hi (Nat.not_lt_zero i)
  · exact (length_filterMap_le _ _).trans (length_filter_le _ _)
  · exact (length_filterMap_le _ _).trans (length_filter_le _ _)
  · intro i id hid
    have hmem := mem_of_getLast? hid
    obtain ⟨f, hf, hid⟩ := mem_filterMap.mp hmem
    rw [mem_singleton.mp (mem_of_mem_filter hf)] at hid
    cases hid
    decide

theorem not_assembles_gap : ¬ ∀ (_ : SerdeJson) (format : WireFormat) (minted : Nat → ToolCallId)
    (payloads : List Payload) (done : Bool), Ends format payloads done →
    (∀ f ∈ fragmentsOf format payloads, f.index < maxStreamingTools) →
    Assembles format minted payloads done := by
  intro h
  have hassembles := h Compact.serdeJson .openAiChatCompletions mintedCall [callPayload 1] false
    (ends_callPayload 1) (by rw [fragmentsOf_callPayload]; decide)
  have hnumbered := ((@assembles_iff Compact.serdeJson .openAiChatCompletions (by decide) mintedCall
    [callPayload 1] false).mp hassembles).2
  rw [fragmentsOf_callPayload] at hnumbered
  obtain ⟨other, hother, hindex⟩ := hnumbered.dense _ (mem_singleton_self _) 0 (by decide)
  rw [mem_singleton.mp hother] at hindex
  exact absurd hindex (by decide)

end Omp2.Inference
