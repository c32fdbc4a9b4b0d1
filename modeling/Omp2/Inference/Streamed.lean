import Omp2.Inference.Streaming
import Omp2.Library.Slices

/-!
# What a streamed answer is separated into

A fragment in which the tags are ordered leaves the parser as far in the text as the scan from left
to right is. A fragment in which they are not takes it elsewhere, and the two never agree again on
how many brackets were passed on. So the parts do not depend on the fragments exactly when the tags
of the whole text are ordered. The batch function agrees where blocks are moreover closed by tags of
their own kind and the white space between them is what that function puts there.
-/

namespace Omp2.Inference

open Tags List

variable {inside inThink target : Bool} {text front before after rest held buffer : List Char}
  {tag : Mark} {rounds : Nat} {kind : TagKind}

/-! ## What is passed on -/

theorem chunkOf_spec (h : text ≠ []) : chunkOf text <+: text ∧ chunkOf text ≠ [] := by
  unfold chunkOf
  split
  · exact ⟨prefix_rfl, h⟩
  · dsimp only
    split
    · refine ⟨List.take_prefix 1 text, ?_⟩
      cases text with
      | nil => exact absurd rfl h
      | cons c cs => nofun
    · next hne => exact ⟨Slices.truncateChars_start _ _, fun heq => hne (isEmpty_iff.mpr heq)⟩

@[simp] theorem received_append (inside : Bool) (deltas later : List InferenceDelta) :
    received inside (deltas ++ later) = received inside deltas ++ received inside later :=
  flatMap_append

@[simp] theorem received_nil (inside : Bool) : received inside [] = [] := rfl

theorem received_emitFrom (inside inThink : Bool) (rounds : Nat) (raw : List Char)
    (hrounds : raw.length ≤ rounds) :
    received inside (emitFrom (if inThink then .thinking else .text) rounds raw) =
      if inThink = inside then raw else [] := by
  induction rounds generalizing raw with
  | zero =>
      rw [length_eq_zero_iff.mp (Nat.le_zero.mp hrounds)]
      exact (ite_self []).symm
  | succ rounds ih =>
      unfold emitFrom
      split
      · next hempty =>
        rw [isEmpty_iff.mp hempty]
        exact (ite_self []).symm
      · next hne =>
        obtain ⟨⟨tail, htail⟩, hchunk⟩ :=
          chunkOf_spec fun heq => hne (isEmpty_iff.mpr heq)
        have hdrop : raw.drop (chunkOf raw).length = tail := by
          have hleft : (chunkOf raw ++ tail).drop (chunkOf raw).length = tail := drop_left
          rwa [htail] at hleft
        have hlength : (chunkOf raw).length + tail.length = raw.length := by
          rw [← length_append, htail]
        have hpos := length_pos_iff.mpr hchunk
        have hrest := ih tail (by omega)
        dsimp only
        rw [hdrop, ← singleton_append, received_append, hrest]
        cases inThink <;> cases inside <;> simp [received, htail]

/-- The deltas that are passed on hold the whole text. -/
@[simp] theorem received_emit (inside inThink : Bool) (raw : List Char) :
    received inside (emitBoundedDelta inThink raw) = if inThink = inside then raw else [] :=
  received_emitFrom inside inThink raw.length raw (Nat.le_refl _)

/-! ## The parts from left to right -/

/-- The text of the parts inside of the blocks, or of those outside. -/
def out (target inside : Bool) (text : List Char) : List Char :=
  (bodies target (pieces inside text)).flatten

theorem firstTag_length (h : firstTag inside text = some (before, tag, rest)) :
    rest.length < text.length := by
  rw [(firstOf_eq_some h).1]
  simp only [length_append, Alphabet.text, length_cons]
  omega

theorem firstTag_append (h : firstTag inside text = some (before, tag, after)) (rest : List Char) :
    firstTag inside (text ++ rest) = some (before, tag, after ++ rest) :=
  firstOf_append h rest

theorem firstTag_found (hbefore : firstTag inside before = none) (htag : tag ∈ wanted inside)
    (rest : List Char) :
    firstTag inside (before ++ marks.text tag ++ rest) = some (before, tag, rest) :=
  firstOf_found hbefore htag rest

/-- More rounds than characters change nothing. -/
theorem piecesFrom_rounds {rounds' : Nat} (h : text.length < rounds) (h' : text.length < rounds') :
    piecesFrom rounds inside text = piecesFrom rounds' inside text := by
  induction rounds generalizing rounds' inside text with
  | zero => exact absurd h (Nat.not_lt_zero _)
  | succ rounds ih =>
      obtain ⟨rounds', rfl⟩ := Nat.exists_eq_succ_of_ne_zero (Nat.ne_of_gt (Nat.zero_lt_of_lt h'))
      rw [piecesFrom, piecesFrom]
      split
      · rfl
      · next before tag rest hfound =>
        have hshort := firstTag_length hfound
        rw [@ih _ _ rounds' (by omega) (by omega)]

theorem pieces_none (h : firstTag inside text = none) :
    pieces inside text = [⟨inside, text, none⟩] := by
  rw [pieces, piecesFrom, h]

theorem pieces_some (h : firstTag inside text = some (before, tag, rest)) :
    pieces inside text = ⟨inside, before, some tag⟩ :: pieces (!inside) rest := by
  rw [pieces, piecesFrom, h, pieces]
  exact congrArg _ (piecesFrom_rounds (firstTag_length h) (Nat.lt_succ_self _))

/-- The parts with their tags are the text. -/
theorem pieces_text (inside : Bool) (text : List Char) :
    (pieces inside text).flatMap Piece.text = text := by
  induction hlength : text.length using Nat.strong_induction_on generalizing inside text with
  | _ n ih =>
      cases hfirst : firstTag inside text with
      | none => simp [pieces_none hfirst, Piece.text]
      | some found =>
        obtain ⟨before, tag, rest⟩ := found
        have hshort := firstTag_length hfirst
        rw [pieces_some hfirst, flatMap_cons, ih _ (hlength ▸ hshort) _ _ rfl]
        exact (firstOf_eq_some hfirst).1.symm

theorem out_none (h : firstTag inside text = none) :
    out target inside text = if inside = target then text else [] := by
  unfold out
  rw [pieces_none h]
  cases inside <;> cases target <;> simp [bodies]

theorem out_some (h : firstTag inside text = some (before, tag, rest)) :
    out target inside text =
      (if inside = target then before else []) ++ out target (!inside) rest := by
  unfold out
  rw [pieces_some h]
  cases inside <;> cases target <;> simp [bodies]

/-- A part that the scan walks over is passed on. -/
theorem out_walk (h : firstTag inside (front ++ text) =
    (firstTag inside text).map fun found => (front ++ found.1, found.2)) :
    out target inside (front ++ text) =
      (if inside = target then front else []) ++ out target inside text := by
  cases hfirst : firstTag inside text with
  | none =>
      rw [hfirst] at h
      rw [out_none h, out_none hfirst]
      split <;> rfl
  | some found =>
      rw [hfirst] at h
      rw [out_some h, out_some hfirst]
      split
      · rw [append_assoc]
      · rfl

/-- A part that the scan walks over does not count for the order. -/
theorem ordered_walk (h : firstTag inside (front ++ text) =
    (firstTag inside text).map fun found => (front ++ found.1, found.2)) :
    Ordered inside (front ++ text) ↔ Ordered inside text := by
  constructor
  · intro hordered
    cases hordered with
    | plain hnone =>
      rw [h, Option.map_eq_none_iff] at hnone
      exact .plain hnone
    | tag hsome hkind hrest =>
      rw [h, Option.map_eq_some_iff] at hsome
      obtain ⟨⟨front, found⟩, hfound, heq⟩ := hsome
      cases heq
      exact .tag hfound hkind hrest
  · intro hordered
    cases hordered with
    | plain hnone => exact .plain (by rw [h, hnone]; rfl)
    | tag hsome hkind hrest => exact .tag (by rw [h, hsome]; rfl) hkind hrest

/-! ## Which tag is taken -/

theorem mark_ne (inside : Bool) : mark inside .think ≠ mark inside .thought := by
  cases inside <;> decide

theorem mem_wanted : tag ∈ wanted inside ↔ ∃ kind, tag = mark inside kind := by
  constructor
  · intro h
    rcases mem_cons.mp h with rfl | h
    · exact ⟨.think, rfl⟩
    · exact ⟨.thought, mem_singleton.mp h⟩
  · rintro ⟨kind, rfl⟩
    cases kind with
    | think => exact mem_cons_self
    | thought => exact mem_cons_of_mem _ (mem_singleton_self _)

theorem single_subset (inside : Bool) (kind : TagKind) : [mark inside kind] ⊆ wanted inside :=
  cons_subset.mpr ⟨mem_wanted.mpr ⟨kind, rfl⟩, nil_subset _⟩

theorem splitOnce_first (h : firstTag inside text = some (before, mark inside kind, rest)) :
    Text.splitOnce (marks.text (mark inside kind)) text = some (before, rest) := by
  rw [splitOnce_eq_firstOf,
    firstOf_subset (single_subset inside kind) h (mem_singleton_self _)]
  rfl

/-- A tag of the other kind comes after the leftmost tag. -/
theorem splitOnce_later {other : TagKind}
    (h : firstTag inside text = some (before, tag, rest)) (hne : mark inside other ≠ tag) :
    Text.splitOnce (marks.text (mark inside other)) text =
      (Text.splitOnce (marks.text (mark inside other)) rest).map fun parts =>
        (before ++ marks.text tag ++ parts.1, parts.2) := by
  rw [splitOnce_eq_firstOf, splitOnce_eq_firstOf, firstOf_later (single_subset inside other) h
    fun hmem => hne (mem_singleton.mp hmem).symm, Option.map_map, Option.map_map]
  rfl

theorem splitOnce_none (h : firstTag inside text = none) (kind : TagKind) :
    Text.splitOnce (marks.text (mark inside kind)) text = none := by
  rw [splitOnce_eq_firstOf, firstOf_none_of_subset (single_subset inside kind) h]
  rfl

theorem findTag_none (h : firstTag inside text = none) : findTag inside text = none := by
  unfold findTag
  rw [splitOnce_none h, splitOnce_none h]
  rfl

/-- The leftmost tag is taken when none of the first kind comes after one of the second. -/
theorem findTag_first (h : firstTag inside text = some (before, tag, rest))
    (hkind : tag = mark inside .thought →
      Text.splitOnce (marks.text (mark inside .think)) rest = none) :
    findTag inside text = some (before, rest) := by
  obtain ⟨kind, rfl⟩ := mem_wanted.mp (firstOf_eq_some h).2
  unfold findTag
  cases kind with
  | think =>
      rw [splitOnce_first h]
      rfl
  | thought =>
      rw [splitOnce_later h (mark_ne inside), hkind rfl, splitOnce_first h]
      rfl

theorem findTag_later {skipped : List Char}
    (h : firstTag inside text = some (before, mark inside .thought, rest))
    (hthink : Text.splitOnce (marks.text (mark inside .think)) rest = some (skipped, after)) :
    findTag inside text =
      some (before ++ marks.text (mark inside .thought) ++ skipped, after) := by
  unfold findTag
  rw [splitOnce_later h (mark_ne inside), hthink]
  rfl

/-- What is passed on of a buffer without a tag is walked over in the whole text. -/
theorem prefixStart_some (hnone : firstTag inside buffer = none)
    (h : prefixStart inside buffer = some (before, held)) :
    buffer = before ++ held ∧ ∀ rest, firstTag inside (before ++ (held ++ rest)) =
      (firstTag inside (held ++ rest)).map fun found => (before ++ found.1, found.2) := by
  have hsplit := (Option.filter_eq_some_iff.mp h).1
  have hbuffer := (splitLast_eq_some hsplit).1
  refine ⟨hbuffer, fun rest => ?_⟩
  rw [← append_assoc, ← hbuffer]
  exact firstOf_held hnone hsplit rest

theorem prefixStart_none (hnone : firstTag inside buffer = none)
    (h : prefixStart inside buffer = none) (rest : List Char) :
    firstTag inside (buffer ++ rest) =
      (firstTag inside rest).map fun found => (buffer ++ found.1, found.2) := by
  refine firstOf_released hnone (fun before after hsplit tag htag hstart => ?_) rest
  have hno := Option.filter_eq_none_iff.mp h (before, after) hsplit
  obtain ⟨kind, rfl⟩ := mem_wanted.mp htag
  refine hno ?_
  have hprefix := isPrefixOf_iff_prefix.mpr hstart
  cases kind with
  | think => exact Bool.or_eq_true_iff.mpr (.inl hprefix)
  | thought => exact Bool.or_eq_true_iff.mpr (.inr hprefix)

/-! ## One fragment -/

/-- A parser that holds no tag, and from which the rest of the text is scanned. -/
def Reached (deltas : List InferenceDelta) (parser : InlineThinkingParser) (inside : Bool)
    (buffer : List Char) : Prop :=
  firstTag parser.inThink parser.buffer = none ∧
    ∀ rest, (∀ target, out target inside (buffer ++ rest) =
        received target deltas ++ out target parser.inThink (parser.buffer ++ rest)) ∧
      (Ordered inside (buffer ++ rest) → Ordered parser.inThink (parser.buffer ++ rest))

/-- A buffer whose tags are ordered takes the parser as far in the text as the scan is. -/
theorem feedLoop_reached (hordered : Ordered inside buffer) (hrounds : buffer.length < rounds) :
    Reached (feedLoop rounds ⟨inside, buffer⟩).1 (feedLoop rounds ⟨inside, buffer⟩).2 inside
      buffer := by
  induction rounds generalizing inside buffer with
  | zero => exact absurd hrounds (Nat.not_lt_zero _)
  | succ rounds ih =>
      cases hordered with
      | plain hnone =>
        rw [feedLoop, findTag_none hnone]
        dsimp only
        cases hheld : prefixStart inside buffer with
        | some parts =>
          obtain ⟨before, held⟩ := parts
          obtain ⟨rfl, hwalk⟩ := prefixStart_some hnone hheld
          refine ⟨?_, fun rest => ?_⟩
          · have hall := hwalk []
            rw [append_nil, hnone] at hall
            exact Option.map_eq_none_iff.mp hall.symm
          · rw [append_assoc]
            refine ⟨fun target => ?_, (ordered_walk (hwalk rest)).mp⟩
            rw [received_emit]
            exact out_walk (hwalk rest)
        | none =>
          have hwalk := prefixStart_none hnone hheld
          refine ⟨rfl, fun rest => ⟨fun target => ?_, (ordered_walk (hwalk rest)).mp⟩⟩
          rw [received_emit]
          exact out_walk (hwalk rest)
      | tag hfirst hkind hafter =>
        have hshort := firstTag_length hfirst
        rw [feedLoop, findTag_first hfirst hkind]
        dsimp only
        obtain ⟨hnone, hlater⟩ := ih hafter (by omega)
        refine ⟨hnone, fun rest => ?_⟩
        have hmore := firstTag_append hfirst rest
        obtain ⟨hout, hrest⟩ := hlater rest
        refine ⟨fun target => ?_, fun hall => hrest ?_⟩
        · rw [out_some hmore, hout target, received_append, received_emit, append_assoc]
        · cases hall with
          | plain hall => rw [hmore] at hall; cases hall
          | tag hall _ hall' =>
            rw [hmore] at hall
            cases hall
            exact hall'

theorem feed_reached {parser : InlineThinkingParser} {chunk : List Char}
    (hordered : Ordered parser.inThink (parser.buffer ++ chunk)) :
    Reached (parser.feed chunk).1 (parser.feed chunk).2 parser.inThink (parser.buffer ++ chunk) :=
  feedLoop_reached hordered (Nat.lt_succ_self _)

/-- The tags of a start of a text are ordered as those of the text are. -/
theorem Ordered.left (h : Ordered inside (text ++ rest)) : Ordered inside text := by
  induction hlength : text.length using Nat.strong_induction_on generalizing inside text with
  | _ n ih =>
      cases hfirst : firstTag inside text with
      | none => exact .plain hfirst
      | some found =>
        obtain ⟨before, tag, after⟩ := found
        have hmore := firstTag_append hfirst rest
        cases h with
        | plain hnone => rw [hmore] at hnone; cases hnone
        | tag hsome hkind hrest =>
          rw [hmore] at hsome
          cases hsome
          refine .tag hfirst (fun heq => ?_)
            (ih _ (hlength ▸ firstTag_length hfirst) hrest rfl)
          have hlater := hkind heq
          rw [splitOnce_eq_firstOf, Option.map_eq_none_iff] at hlater ⊢
          cases hthink : firstOf marks [mark inside .think] after with
          | none => rfl
          | some found =>
            obtain ⟨skipped, tag, later⟩ := found
            rw [firstOf_append hthink] at hlater
            cases hlater

/-! ## All fragments -/

/-- The fragments of an ordered text give its parts. -/
theorem received_stream (fragments : List (List Char)) {parser : InlineThinkingParser}
    (hnone : firstTag parser.inThink parser.buffer = none)
    (hordered : Ordered parser.inThink (parser.buffer ++ fragments.flatten)) (target : Bool) :
    received target (parser.stream fragments) =
      out target parser.inThink (parser.buffer ++ fragments.flatten) := by
  induction fragments generalizing parser with
  | nil =>
      rw [flatten_nil, append_nil, out_none hnone]
      exact received_emit _ _ _
  | cons chunk fragments ih =>
      rw [flatten_cons, ← append_assoc] at hordered ⊢
      obtain ⟨hnext, hrest⟩ := feed_reached hordered.left
      obtain ⟨hout, hlater⟩ := hrest fragments.flatten
      rw [InlineThinkingParser.stream, received_append, ih hnext (hlater hordered), hout target]

/-- One more character after a part without a tag is ordered. -/
theorem Ordered.concat {c : Char} (h : firstTag inside text = none) :
    Ordered inside (text ++ [c]) := by
  cases hfirst : firstTag inside (text ++ [c]) with
  | none => exact .plain hfirst
  | some found =>
      obtain ⟨before, tag, after⟩ := found
      obtain ⟨htext, htag⟩ := firstOf_eq_some hfirst
      rcases eq_nil_or_concat after with rfl | ⟨after, d, rfl⟩
      · exact .tag hfirst (fun _ => rfl) (.plain rfl)
      · rw [concat_eq_append, ← append_assoc] at htext
        have heq := (append_inj' htext rfl).1
        rw [heq, firstTag_found (firstOf_before hfirst) htag] at h
        cases h

/-- Character by character any text gives its parts. -/
theorem received_characters (cs : List Char) {parser : InlineThinkingParser}
    (hnone : firstTag parser.inThink parser.buffer = none) (target : Bool) :
    received target (parser.stream (cs.map fun c => [c])) =
      out target parser.inThink (parser.buffer ++ cs) := by
  induction cs generalizing parser with
  | nil =>
      rw [append_nil, out_none hnone]
      exact received_emit _ _ _
  | cons c cs ih =>
      obtain ⟨hnext, hrest⟩ := feed_reached (Ordered.concat (c := c) hnone)
      rw [map_cons, InlineThinkingParser.stream, received_append, ih hnext,
        ← (hrest cs).1 target, append_assoc, singleton_append]

/-! ## The text as tags and characters -/

variable {tokens fronts afters : Tokens}

theorem exists_mark (tag : Mark) : ∃ inside kind, tag = mark inside kind := by
  cases tag with
  | opens kind => exact ⟨false, kind, rfl⟩
  | closes kind => exact ⟨true, kind, rfl⟩

theorem firstTag_plain {c : Char} (h : Normal marks (.plain c :: tokens)) (inside : Bool) :
    firstTag inside ([c] ++ render marks tokens) =
      (firstTag inside (render marks tokens)).map fun found => ([c] ++ found.1, found.2) :=
  firstOf_step fun tag _ => h.1 tag

theorem firstTag_taken (inside : Bool) (kind : TagKind) (text : List Char) :
    firstTag inside (marks.text (mark inside kind) ++ text) = some ([], mark inside kind, text) :=
  firstOf_text (mem_wanted.mpr ⟨kind, rfl⟩) text

theorem firstTag_skipped {other : Bool} (hne : other ≠ inside) (kind : TagKind)
    (text : List Char) :
    firstTag inside (marks.text (mark other kind) ++ text) =
      (firstTag inside text).map fun found =>
        (marks.text (mark other kind) ++ found.1, found.2) := by
  refine firstOf_other (fun hmem => ?_) text
  obtain ⟨kind', heq⟩ := mem_wanted.mp hmem
  cases other <;> cases inside <;> cases heq <;> exact hne rfl

theorem out_taken (target inside : Bool) (kind : TagKind) (text : List Char) :
    out target inside (marks.text (mark inside kind) ++ text) = out target (!inside) text := by
  rw [out_some (firstTag_taken inside kind text)]
  split <;> rfl

theorem ordered_taken (h : Ordered inside (marks.text (mark inside kind) ++ text)) :
    Ordered (!inside) text := by
  have hfirst := firstTag_taken inside kind text
  cases h with
  | plain hnone => rw [hnone] at hfirst; cases hfirst
  | tag hsome _ hrest =>
      rw [hsome] at hfirst
      cases hfirst
      exact hrest

theorem count_mark (tag : Mark) : (marks.text tag).count '>' = 1 := by
  rcases tag with kind | kind <;> cases kind <;> decide

/-- After a tag the scan is on the other side, however it came there. -/
theorem out_count_le (h : Normal marks (fronts ++ .tag (mark target kind) :: afters)) :
    (out target inside (render marks (fronts ++ .tag (mark target kind) :: afters))).count '>' ≤
      (render marks fronts).count '>' + (out target (!target) (render marks afters)).count '>' := by
  induction fronts generalizing inside with
  | nil =>
      rw [nil_append, render, render, count_nil, Nat.zero_add]
      by_cases hsame : inside = target
      · subst hsame
        rw [out_taken]
      · rw [out_walk (firstTag_skipped (Ne.symm hsame) kind _), if_neg hsame, nil_append,
          Bool.eq_not_of_ne hsame]
  | cons token fronts ih =>
      have hrest := @ih inside h.tail
      cases token with
      | plain c =>
        have hwalk : out target inside
            (c :: render marks (fronts ++ .tag (mark target kind) :: afters)) =
              (if inside = target then [c] else []) ++
                out target inside (render marks (fronts ++ .tag (mark target kind) :: afters)) :=
          out_walk (firstTag_plain h inside)
        rw [cons_append, render, render, hwalk, count_append]
        split
        · simp only [count_cons, count_nil]
          omega
        · simp only [count_cons, count_nil]
          omega
      | tag tag =>
        obtain ⟨other, kind', rfl⟩ := exists_mark tag
        rw [cons_append, render, render, count_append, count_mark]
        by_cases hsame : other = inside
        · subst hsame
          have hover := @ih (!other) h.tail
          rw [out_taken]
          omega
        · rw [out_walk (firstTag_skipped hsame kind' _), count_append]
          split
          · rw [count_mark]
            omega
          · rw [count_nil]
            omega

/-- What follows such a tag is ordered as the text is. -/
theorem Ordered.right (hnormal : Normal marks (fronts ++ .tag (mark target kind) :: afters))
    (h : Ordered inside (render marks (fronts ++ .tag (mark target kind) :: afters))) :
    Ordered (!target) (render marks afters) := by
  induction fronts generalizing inside with
  | nil =>
      rw [nil_append, render] at h
      by_cases hsame : inside = target
      · subst hsame
        exact ordered_taken h
      · rw [ordered_walk (firstTag_skipped (Ne.symm hsame) kind _)] at h
        rwa [← Bool.eq_not_of_ne hsame]
  | cons token fronts ih =>
      cases token with
      | plain c => exact ih hnormal.tail ((ordered_walk (firstTag_plain hnormal inside)).mp h)
      | tag tag =>
        obtain ⟨other, kind', rfl⟩ := exists_mark tag
        rw [cons_append, render] at h
        by_cases hsame : other = inside
        · subst hsame
          exact ih hnormal.tail (ordered_taken h)
        · exact ih hnormal.tail ((ordered_walk (firstTag_skipped hsame kind' _)).mp h)

/-- A text that is split at a tag, as tokens. -/
theorem splitOnce_tokens (h : Text.splitOnce (marks.text tag) text = some (before, after)) :
    ∃ fronts afters, Normal marks (fronts ++ .tag tag :: afters) ∧
      text = render marks (fronts ++ .tag tag :: afters) ∧
      before = render marks fronts ∧ after = render marks afters := by
  obtain ⟨tokens, hnormal, rfl⟩ := exists_normal marks text
  rw [splitOnce_render hnormal] at h
  obtain ⟨⟨fronts, afters⟩, hsplit, heq⟩ := Option.map_eq_some_iff.mp h
  cases heq
  obtain ⟨rfl, -⟩ := splitTag_eq_some hsplit
  exact ⟨fronts, afters, hnormal, rfl, rfl, rfl⟩

/-! ## Fragments that lead the parser elsewhere -/

theorem feedLoop_empty (rounds : Nat) (inside : Bool) :
    feedLoop rounds ⟨inside, []⟩ = ([], ⟨inside, []⟩) := by
  cases rounds with
  | zero => rfl
  | succ rounds => rfl

/-- A fragment that ends with the tag that is taken leaves nothing behind. -/
theorem stream_tag (h : findTag inside text = some (before, [])) (fragments : List (List Char))
    (target : Bool) :
    received target (InlineThinkingParser.stream ⟨inside, []⟩ (text :: fragments)) =
      (if inside = target then before else []) ++
        received target (InlineThinkingParser.stream ⟨!inside, []⟩ fragments) := by
  have hfeed : InlineThinkingParser.feed ⟨inside, []⟩ text =
      (emitBoundedDelta inside before ++ [], ⟨!inside, []⟩) := by
    unfold InlineThinkingParser.feed
    rw [nil_append, feedLoop, h]
    dsimp only
    rw [feedLoop_empty]
  rw [InlineThinkingParser.stream, hfeed, received_append, append_nil, received_emit]

/-- A text whose tags are not ordered has fragments that give other parts. -/
theorem ordered_of_received
    (h : ∀ fragments : List (List Char), fragments.flatten = text → ∀ target,
      received target (InlineThinkingParser.stream ⟨inside, []⟩ fragments) =
        out target inside text) : Ordered inside text := by
  induction hlength : text.length using Nat.strong_induction_on generalizing inside text with
  | _ n ih =>
      cases hfirst : firstTag inside text with
      | none => exact .plain hfirst
      | some found =>
        obtain ⟨before, tag, rest⟩ := found
        obtain ⟨htext, htag⟩ := firstOf_eq_some hfirst
        have hbefore := firstOf_before hfirst
        refine .tag hfirst (fun heq => ?_) (ih _ (hlength ▸ firstTag_length hfirst) ?_ rfl)
        · -- one fragment up to the tag that would be taken too early, then single characters
          subst heq
          cases hthink : Text.splitOnce (marks.text (mark inside .think)) rest with
          | none => rfl
          | some parts =>
            obtain ⟨skipped, after⟩ := parts
            have hrest := Text.splitOnce_eq_some hthink
            have hend : Text.splitOnce (marks.text (mark inside .think))
                (skipped ++ marks.text (mark inside .think)) = some (skipped, []) := by
              rw [splitOnce_eq_firstOf] at hthink ⊢
              obtain ⟨⟨skipped, tag, after⟩, hfound, heq⟩ := Option.map_eq_some_iff.mp hthink
              cases heq
              have hskipped := firstOf_before hfound
              have hmore := firstOf_found hskipped (mem_singleton_self _) []
              rw [append_nil] at hmore
              rw [hmore]
              rfl
            have hlater := findTag_later (firstTag_found hbefore htag _) hend
            have hcharacters : (after.map fun c => [c]).flatten = after :=
              flatMap_singleton' after
            have hgiven := h ((before ++ marks.text (mark inside .thought) ++
              (skipped ++ marks.text (mark inside .think))) :: after.map fun c => [c])
              (by simp [htext, hrest, hcharacters]) inside
            rw [stream_tag hlater, if_pos rfl, received_characters after rfl,
              out_some hfirst, if_pos rfl] at hgiven
            obtain ⟨fronts, afters, hnormal, rfl, rfl, rfl⟩ := splitOnce_tokens hthink
            have hle := @out_count_le (!inside) _ _ _ _ hnormal
            have hcount := congrArg (count '>') hgiven
            simp only [count_append, count_mark, nil_append] at hcount
            omega
        · intro fragments hflatten target
          have htaken : findTag inside (before ++ marks.text tag ++ []) = some (before, []) :=
            findTag_first (firstTag_found hbefore htag []) fun _ => rfl
          have hgiven := h ((before ++ marks.text tag ++ []) :: fragments)
            (by rw [flatten_cons, hflatten, append_nil, htext]) target
          rw [stream_tag htaken, out_some hfirst] at hgiven
          exact append_cancel_left hgiven

theorem received_iff_ordered :
    (∀ fragments : List (List Char), fragments.flatten = text → ∀ target,
      received target (InlineThinkingParser.stream {} fragments) = out target false text) ↔
      Ordered false text := by
  refine ⟨ordered_of_received, fun hordered fragments hflatten target => ?_⟩
  subst hflatten
  exact received_stream fragments rfl hordered target

/-! ## The batch function -/

theorem startOf_eq (kind : TagKind) (text : List Char) :
    startOf kind text = (Text.splitOnce (marks.text (mark false kind)) text).map fun parts =>
      (parts.1, kind, parts.2) := by
  cases kind <;> rfl

theorem splitOnce_closeTag (kind : TagKind) (text : List Char) :
    Text.splitOnce kind.closeTag text = Text.splitOnce (marks.text (mark true kind)) text := by
  cases kind <;> rfl

theorem thinkStart_none (h : firstTag false text = none) : thinkStart text = none := by
  unfold thinkStart
  rw [startOf_eq, startOf_eq, splitOnce_none h, splitOnce_none h]
  rfl

theorem thinkStart_first (h : firstTag false text = some (before, mark false kind, rest))
    (hkind : mark false kind = mark false .thought →
      Text.splitOnce (marks.text (mark false .think)) rest = none) :
    thinkStart text = some (before, kind, rest) := by
  unfold thinkStart
  cases kind with
  | think =>
      rw [startOf_eq, splitOnce_first h]
      rfl
  | thought =>
      rw [startOf_eq, startOf_eq, splitOnce_later h (mark_ne false), hkind rfl, splitOnce_first h]
      rfl

/-- The tags that end the parts. -/
def tagsOf (inside : Bool) (text : List Char) : List Mark :=
  (pieces inside text).filterMap (·.tag)

theorem tagsOf_none (h : firstTag inside text = none) : tagsOf inside text = [] := by
  rw [tagsOf, pieces_none h]
  rfl

theorem tagsOf_some (h : firstTag inside text = some (before, tag, rest)) :
    tagsOf inside text = tag :: tagsOf (!inside) rest := by
  rw [tagsOf, pieces_some h]
  rfl

theorem bodies_none (h : firstTag inside text = none) :
    bodies target (pieces inside text) = if inside = target then [text] else [] := by
  rw [pieces_none h]
  cases inside <;> cases target <;> rfl

theorem bodies_some (h : firstTag inside text = some (before, tag, rest)) :
    bodies target (pieces inside text) =
      (if inside = target then [before] else []) ++ bodies target (pieces (!inside) rest) := by
  rw [pieces_some h]
  cases inside <;> cases target <;> rfl

theorem isChain_closes {tags : List Mark} {other : TagKind} :
    (mark false kind :: mark true other :: tags).IsChain Closes ↔
      kind = other ∧ tags.IsChain Closes := by
  have hpair : Closes (mark false kind) (mark true other) ↔ kind = other := by
    refine ⟨fun h => h kind other rfl rfl, ?_⟩
    rintro rfl first second hfirst hsecond
    cases hfirst
    cases hsecond
    rfl
  rw [isChain_cons_cons, hpair]
  refine and_congr_right fun _ => ?_
  cases tags with
  | nil => simp
  | cons tag tags =>
      rw [isChain_cons_cons]
      exact and_iff_right fun _ _ hfirst => nomatch hfirst

theorem cutFrom_open {start : List Char → Start}
    (hstart : start text = some (before, kind, rest))
    (hclose : Text.splitOnce (marks.text (mark true kind)) rest = none) :
    cutFrom start (rounds + 1) text = ⟨before, [⟨kind, rest, false⟩]⟩ := by
  rw [cutFrom, hstart]
  dsimp only
  rw [splitOnce_closeTag, hclose]

/-- What a block that is closed is cut to. -/
theorem cutFrom_block {start : List Char → Start} {body : List Char}
    (hstart : start text = some (before, kind, rest))
    (hclose : Text.splitOnce (marks.text (mark true kind)) rest = some (body, after)) :
    cutFrom start (rounds + 1) text =
      ⟨before ++ (cutFrom start rounds after).content,
        ⟨kind, body, true⟩ :: (cutFrom start rounds after).blocks⟩ := by
  rw [cutFrom, hstart]
  dsimp only
  rw [splitOnce_closeTag, hclose]

/-- A text whose tags are ordered and matched is cut into its parts. -/
theorem cutFrom_parts (hordered : Ordered false text)
    (hmatched : (tagsOf false text).IsChain Closes) (hrounds : text.length < rounds) :
    (cutFrom thinkStart rounds text).content = out false false text ∧
      (cutFrom thinkStart rounds text).blocks.map (·.body) =
        bodies true (pieces false text) := by
  induction rounds generalizing text with
  | zero => exact absurd hrounds (Nat.not_lt_zero _)
  | succ rounds ih =>
      cases hordered with
      | plain hnone =>
        rw [cutFrom, thinkStart_none hnone, out_none hnone, bodies_none hnone]
        exact ⟨rfl, rfl⟩
      | tag hfirst hkind hinner =>
        obtain ⟨kind, rfl⟩ := mem_wanted.mp (firstOf_eq_some hfirst).2
        have hstart := thinkStart_first hfirst hkind
        have hshort := firstTag_length hfirst
        rw [out_some hfirst, bodies_some hfirst]
        rw [tagsOf_some hfirst] at hmatched
        rw [Bool.not_false] at hinner hmatched ⊢
        cases hinner with
        | plain hnone =>
          rw [cutFrom_open hstart (splitOnce_none hnone kind), out_none hnone,
            bodies_none hnone]
          exact ⟨(append_nil _).symm, rfl⟩
        | tag hclose _ hafter =>
          obtain ⟨other, rfl⟩ := mem_wanted.mp (firstOf_eq_some hclose).2
          rw [tagsOf_some hclose] at hmatched
          obtain ⟨rfl, hrest⟩ := isChain_closes.mp hmatched
          have hshort' := firstTag_length hclose
          obtain ⟨hcontent, hbodies⟩ := ih hafter hrest (by omega)
          rw [cutFrom_block hstart (splitOnce_first hclose), out_some hclose,
            bodies_some hclose, hcontent, map_cons, hbodies]
          exact ⟨rfl, rfl⟩

theorem count_out_le (target inside : Bool) (text : List Char) :
    (out target inside text).count '>' ≤ text.count '>' := by
  induction hlength : text.length using Nat.strong_induction_on generalizing inside text with
  | _ n ih =>
      cases hfirst : firstTag inside text with
      | none =>
        rw [out_none hfirst]
        split
        · exact Nat.le_refl _
        · exact Nat.zero_le _
      | some found =>
        obtain ⟨before, tag, rest⟩ := found
        have hrest := ih _ (hlength ▸ firstTag_length hfirst) (!inside) rest rfl
        rw [out_some hfirst, (firstOf_eq_some hfirst).1, count_append, count_append,
          count_append]
        split
        · omega
        · rw [count_nil]
          omega

/-- The closing brackets that were cut out with the bodies of the blocks. -/
def brackets (blocks : List Block) : Nat :=
  (blocks.map fun block => block.body.count '>').sum

/-- The batch function cuts out no fewer brackets, and more at a tag of the other kind. -/
theorem brackets_cutFrom (hordered : Ordered false text) (hrounds : text.length < rounds) :
    (out true false text).count '>' ≤ brackets (cutFrom thinkStart rounds text).blocks ∧
      ((out true false text).count '>' = brackets (cutFrom thinkStart rounds text).blocks →
        (tagsOf false text).IsChain Closes) := by
  induction rounds generalizing text with
  | zero => exact absurd hrounds (Nat.not_lt_zero _)
  | succ rounds ih =>
      cases hordered with
      | plain hnone =>
        rw [out_none hnone, tagsOf_none hnone]
        exact ⟨Nat.zero_le _, fun _ => .nil⟩
      | @tag _ _ _ inner _ hfirst hkind hinner =>
        obtain ⟨kind, rfl⟩ := mem_wanted.mp (firstOf_eq_some hfirst).2
        have hstart := thinkStart_first hfirst hkind
        have hshort := firstTag_length hfirst
        have hout : out true false text = out true true inner := by
          rw [out_some hfirst]
          rfl
        rw [hout, tagsOf_some hfirst, Bool.not_false]
        rw [Bool.not_false] at hinner
        cases hinner with
        | plain hnone =>
          rw [cutFrom_open hstart (splitOnce_none hnone kind), tagsOf_none hnone,
            out_none hnone]
          exact ⟨Nat.le_refl _, fun _ => .singleton _⟩
        | @tag _ _ body after _ hclose hlater hafter =>
          obtain ⟨other, rfl⟩ := mem_wanted.mp (firstOf_eq_some hclose).2
          have hshort' := firstTag_length hclose
          have hcount : (out true true inner).count '>' =
              body.count '>' + (out true false after).count '>' := by
            rw [out_some hclose, count_append]
            rfl
          have hinside : inner.count '>' = body.count '>' + 1 + after.count '>' := by
            rw [(firstOf_eq_some hclose).1, count_append, count_append, count_mark]
          by_cases hsame : kind = other
          · subst hsame
            obtain ⟨hle, hrest⟩ := ih hafter (by omega)
            rw [cutFrom_block hstart (splitOnce_first hclose), tagsOf_some hclose,
              isChain_closes, hcount]
            simp only [brackets, map_cons, sum_cons] at hle hrest ⊢
            exact ⟨by omega, fun heq => ⟨trivial, hrest (by omega)⟩⟩
          · suffices hlt : body.count '>' + (out true false after).count '>' <
                brackets (cutFrom thinkStart (rounds + 1) text).blocks by
              rw [hcount]
              exact ⟨Nat.le_of_lt hlt, fun heq => absurd heq (Nat.ne_of_lt hlt)⟩
            have hne : mark true kind ≠ mark true other := fun heq => hsame (by cases heq; rfl)
            have hsplit := splitOnce_later hclose hne
            cases hown : Text.splitOnce (marks.text (mark true kind)) after with
            | none =>
              rw [hown] at hsplit
              rw [cutFrom_open hstart hsplit]
              have hle := count_out_le true false after
              simp only [brackets, map_cons, map_nil, sum_cons, sum_nil]
              omega
            | some parts =>
              obtain ⟨skipped, last⟩ := parts
              rw [hown] at hsplit
              rw [cutFrom_block hstart hsplit]
              obtain ⟨fronts, lasts, hnormal, rfl, rfl, rfl⟩ := splitOnce_tokens hown
              have hlast := (Ordered.right hnormal hafter)
              have hlength : (render marks lasts).length <
                  (render marks (fronts ++ .tag (mark true kind) :: lasts)).length := by
                rw [render_append, render]
                simp only [length_append, Alphabet.text, length_cons]
                omega
              obtain ⟨hle, -⟩ := ih hlast (by omega)
              have hskipped := @out_count_le false _ _ _ _ hnormal
              simp only [brackets, map_cons, sum_cons, count_append,
                count_mark] at hle ⊢
              simp only [Bool.not_true] at hskipped
              omega

/-! ## When the two agree -/

/-- The thinking of a turn is the trimmed bodies of the blocks with a blank line between them. -/
theorem thinking_turn (cut : Cut) :
    (cut.turn.thinking.getD "").toList =
      Text.joined "\n\n".toList (cut.blocks.map (·.body)) := by
  have hparts : (cut.blocks.map fun block => String.ofList (Text.trimChars block.body)).map
      String.toList = (cut.blocks.map (·.body)).map Text.trimChars := by
    rw [map_map, map_map]
    exact map_congr_left fun block _ => String.toList_ofList
  unfold Cut.turn Text.joined
  dsimp only
  rw [← hparts, ← String.toList_intercalate]
  cases cut.blocks with
  | nil => rfl
  | cons block blocks => rfl

theorem normalizeThinkingTokens_eq (text : List Char) :
    normalizeThinkingTokens (String.ofList text) =
      (cutFrom thinkStart (text.length + 1) text).turn := by
  unfold normalizeThinkingTokens
  rw [String.toList_ofList, String.length_ofList]

theorem count_joined (blocks : List Block) :
    (Text.joined "\n\n".toList (blocks.map (·.body))).count '>' = brackets blocks := by
  rw [Text.joined, count_intercalate (by decide), map_map, map_map]
  exact congrArg sum (map_congr_left fun block _ => count_trimChars (by decide) _)

/-- The parts with their tags are the text. The parser passes on the parts from left to right for
all fragments, and the batch function returns the same up to white space around it, exactly when no
tag of the first kind comes after a leftmost one of the second, the blocks are closed by tags of
their own kind, and the white space between two blocks is that of the batch function. -/
theorem streamed_iff (text : List Char) :
    (pieces false text).flatMap Piece.text = text ∧
      (Streamed text ↔ Ordered false text ∧ Matched (pieces false text) ∧
        Text.Spaced "\n\n".toList (bodies true (pieces false text))) := by
  have hcut := normalizeThinkingTokens_eq text
  have hblank : Text.isBlank "\n\n".toList = true := by decide
  refine ⟨pieces_text false text, fun h => ?_, ?_⟩
  · have hordered : Ordered false text :=
      received_iff_ordered.mp fun fragments hflatten target => (h fragments hflatten).1 target
    obtain ⟨hparts, -, hthinking⟩ := h [text] (by simp)
    rw [hparts true, hcut, thinking_turn] at hthinking
    have hmatched : (tagsOf false text).IsChain Closes := by
      refine (brackets_cutFrom hordered (Nat.lt_succ_self _)).2 ?_
      have hcount := congrArg (count '>') hthinking
      rwa [count_trimChars (by decide), count_trimChars (by decide), count_joined] at hcount
    refine ⟨hordered, hmatched, ?_⟩
    rw [(cutFrom_parts hordered hmatched (Nat.lt_succ_self _)).2] at hthinking
    exact (Text.trimChars_joined_iff hblank _).mp hthinking.symm
  · rintro ⟨hordered, hmatched, hspaced⟩ fragments hflatten
    obtain ⟨hcontent, hbodies⟩ := cutFrom_parts hordered hmatched (Nat.lt_succ_self text.length)
    have hparts := received_iff_ordered.mpr hordered fragments hflatten
    refine ⟨hparts, ?_, ?_⟩
    · rw [hparts false, hcut]
      show _ = Text.trimChars (String.ofList (Text.trimChars _)).toList
      rw [String.toList_ofList, Text.trimChars_trimChars, hcontent]
    · rw [hparts true, hcut, thinking_turn, hbodies]
      exact ((Text.trimChars_joined_iff hblank _).mpr hspaced).symm

/-- In one fragment the second block hides the first. -/
theorem not_streamed_thought : ¬Streamed "<thought>a</thought><think>b</think>".toList := by
  intro h
  have hwhole := (h ["<thought>a</thought><think>b</think>".toList] (by decide)).1 true
  exact absurd hwhole (by decide +kernel)

end Omp2.Inference
