import Omp2.Render.Component

/-!
# What reaches the terminal

What a sink for terminals is given are the sequences of the styles and the texts between them.
Sanitized text has no control character but those of lines and tabs. Each text that the renderer
writes itself is sanitized, and the text of a node that is written as it is need not be.
-/

namespace Omp2.Render

open List

/-! ## Sanitized text -/

/-- A character that a terminal may be given in a text. -/
def Allowed (c : Char) : Prop :=
  c = '\n' ∨ c = '\r' ∨ c = '\t' ∨
    ¬ (c.toNat ≤ 0x1f ∨ within 0x7f 0x9f c ∨ within 0x202a 0x202e c ∨ within 0x2066 0x2069 c)

instance : DecidablePred Allowed := fun _ => inferInstanceAs (Decidable (_ ∨ _))

/-- The characters that the scan keeps are those that are allowed. -/
theorem clean_iff_allowed (c : Char) : Clean c ↔ Allowed c := by
  unfold Clean EscapeState.scanText Allowed
  split
  · next hescape =>
    refine ⟨nofun, fun h => ?_⟩
    rcases h with rfl | rfl | rfl | h
    · exact absurd hescape (by decide)
    · exact absurd hescape (by decide)
    · exact absurd hescape (by decide)
    · exact absurd (.inl (hescape ▸ by decide)) h
  · split
    · next hline => exact iff_of_true rfl (by tauto)
    · next hline =>
      split
      · next hcontrol => exact iff_of_false nofun (by tauto)
      · next hcontrol =>
        split
        · next hbidi => exact iff_of_false nofun (by tauto)
        · next hbidi => exact iff_of_true rfl (by tauto)

/-- All characters of a text are allowed. -/
def AllowedText (text : String) : Prop :=
  ∀ c ∈ text.toList, Allowed c

theorem allowed_sanitizeText (text : String) : AllowedText (sanitizeText text) := by
  intro c hc
  rw [sanitizeText, String.toList_ofList] at hc
  exact (clean_iff_allowed c).mp (clean_of_mem_sanitizeChars hc)

theorem sanitizeText_of_allowed {text : String} (h : AllowedText text) :
    sanitizeText text = text := by
  rw [sanitizeText, sanitizeChars_of_clean fun c hc => (clean_iff_allowed c).mpr (h c hc),
    String.ofList_toList]

/-- The result of `sanitize_text` is allowed, and is not changed by sanitizing it again. -/
def Sanitizes : Prop :=
  ∀ text, AllowedText (sanitizeText text) ∧ sanitizeText (sanitizeText text) = sanitizeText text

theorem sanitizes : Sanitizes := fun text =>
  ⟨allowed_sanitizeText text, sanitizeText_of_allowed (allowed_sanitizeText text)⟩

/-! ## The pieces of the output -/

/-- A piece of what a terminal is given. -/
inductive Piece where
  | sequence (text : String)
  | text (text : String)

/-- The characters of a piece. -/
def Piece.chars : Piece → List Char
  | .sequence s | .text s => s.toList

/-- The pieces that an operation of the sink writes. -/
def Call.pieces : Call → List Piece
  | .run r =>
    if AnsiOutSink.styleToAnsi r.style = "" then [.text r.text]
    else [.sequence (AnsiOutSink.styleToAnsi r.style), .text r.text, .sequence AnsiOutSink.reset]
  | .lineBreak => [.text "\n"]

/-- The buffer of an ANSI sink after some operations. -/
def ansiOutput (calls : List Call) : String :=
  (calls.foldl AnsiOutSink.take ⟨""⟩).buffer

/-- Operations add their pieces to the buffer. -/
theorem take_buffer (sink : AnsiOutSink) (calls : List Call) :
    (calls.foldl AnsiOutSink.take sink).buffer.toList =
      sink.buffer.toList ++ (calls.flatMap Call.pieces).flatMap Piece.chars := by
  induction calls generalizing sink with
  | nil => exact (append_nil _).symm
  | cons call calls ih =>
      rw [foldl_cons, ih, flatMap_cons, flatMap_append, ← append_assoc]
      congr 1
      cases call with
      | lineBreak => simp [AnsiOutSink.take, Call.pieces, Piece.chars]
      | run run =>
        simp only [AnsiOutSink.take, Call.pieces]
        split
        · simp [Piece.chars]
        · simp [Piece.chars, append_assoc]

namespace Component

/-- The pieces of the output of a component. -/
def pieces (c : Component) (indent : Nat) : List Piece :=
  (c.calls indent).flatMap Call.pieces

/-- What a component writes to a terminal is safe: it is made of sequences of styles, of the reset,
and of allowed text. -/
structure TerminalSafe (c : Component) (indent : Nat) : Prop where
  output : (ansiOutput (c.calls indent)).toList = (c.pieces indent).flatMap Piece.chars
  sequences : ∀ text, .sequence text ∈ c.pieces indent →
    text = AnsiOutSink.reset ∨ ∃ style, text = AnsiOutSink.styleToAnsi style
  texts : ∀ text, .text text ∈ c.pieces indent → AllowedText text

/-! ## Runs that are written as they are -/

/-- The runs of a text that may be absent. -/
def textRuns : Option RichText → List Run
  | some text => text.runs
  | none => []

mutual
/-- The runs of a component inside of a line. -/
def inlineRuns : Component → List Run
  | .node _ _ children text => textRuns text ++ inlineRunsAll children

/-- The runs of components inside of a line. -/
def inlineRunsAll : List Component → List Run
  | [] => []
  | child :: children => child.inlineRuns ++ inlineRunsAll children
end

mutual
/-- The runs that are written as they are. -/
def rawRuns : Component → List Run
  | .node kind _ children text =>
    match kind with
    | .row => rawRunsRow children
    | .text => if text.isSome then [] else inlineRunsAll children
    | .badge | .link | .icon | .usage => textRuns text
    | .pre | .hr | .image => []
    | _ => rawRunsAll children

/-- The runs of components that are written as they are. -/
def rawRunsAll : List Component → List Run
  | [] => []
  | child :: children => child.rawRuns ++ rawRunsAll children

/-- The runs of the children of a row that are written as they are. -/
def rawRunsRow : List Component → List Run
  | [] => []
  | child :: children =>
    (if child.kind.isInline then child.inlineRuns else child.rawRuns) ++ rawRunsRow children
end

/-- The runs that a call writes as they are. -/
def richRuns : Write → List Run
  | .rich text => text.runs
  | _ => []

theorem richRuns_append (writes more : List Write) :
    (writes ++ more).flatMap richRuns = writes.flatMap richRuns ++ more.flatMap richRuns :=
  flatMap_append

/-- The parts of a run are sanitized. -/
theorem richRuns_writeParts (style : Style) {atStart : List Write}
    (hstart : atStart.flatMap richRuns = []) (parts : List String) :
    (writeParts style atStart parts).flatMap richRuns = [] := by
  induction parts with
  | nil => rfl
  | cons part parts ih =>
      cases parts with
      | nil => rfl
      | cons next parts =>
        rw [writeParts, richRuns_append, ih, append_nil, flatMap_cons,
          flatMap_cons, hstart]
        · rfl
        · exact nofun

theorem richRuns_writeRuns {atStart : List Write} (hstart : atStart.flatMap richRuns = [])
    (runs : List Run) : (writeRuns atStart runs).flatMap richRuns = [] := by
  unfold writeRuns
  rw [flatMap_assoc, flatMap_eq_nil_iff]
  exact fun run _ => richRuns_writeParts run.style hstart (partsOf run)

theorem richRuns_writePad (indent : Nat) : (writePad indent).flatMap richRuns = [] := by
  unfold writePad
  split
  · rfl
  · rfl

theorem richRuns_writeText (text : Option RichText) :
    (writeText text).flatMap richRuns = textRuns text := by
  cases text with
  | none => rfl
  | some text => exact append_nil _

mutual
theorem richRuns_renderInline : ∀ c : Component,
    c.renderInline.flatMap richRuns = c.inlineRuns
  | .node _ _ children text => by
    rw [renderInline, richRuns_append, richRuns_writeText, richRuns_renderInlineAll children,
      inlineRuns]

theorem richRuns_renderInlineAll : ∀ children : List Component,
    (renderInlineAll children).flatMap richRuns = inlineRunsAll children
  | [] => rfl
  | child :: children => by
    rw [renderInlineAll, richRuns_append, richRuns_renderInline child,
      richRuns_renderInlineAll children, inlineRunsAll]
end

mutual
/-- The runs that a component writes as they are. -/
theorem richRuns_renderToSink : ∀ (c : Component) (indent : Nat),
    (c.renderToSink indent).flatMap richRuns = c.rawRuns
  | .node kind props children text, indent => by
    have hall := fun indent => richRuns_renderAll children indent
    unfold renderToSink rawRuns
    cases kind with
    | box =>
      dsimp only
      split
      · rw [flatMap_cons, flatMap_cons, richRuns_append, hall]
        exact append_nil _
      · exact hall indent
    | row =>
      dsimp only
      rw [flatMap_cons, richRuns_append, richRuns_renderRow children indent]
      exact append_nil _
    | text =>
      cases text with
      | some text =>
        dsimp only
        rw [richRuns_append, richRuns_append, richRuns_writePad,
          richRuns_writeRuns (richRuns_writePad indent)]
        rfl
      | none =>
        dsimp only
        rw [richRuns_append, richRuns_append, richRuns_writePad,
          richRuns_renderInlineAll children]
        exact append_nil _
    | pre =>
      cases text with
      | some text =>
        dsimp only
        have hruns : (writeRuns [.plain (padOf indent)] text.runs).flatMap richRuns = [] :=
          richRuns_writeRuns rfl text.runs
        simp only [flatMap_cons, richRuns_append, hruns]
        rfl
      | none => rfl
    | callout =>
      dsimp only
      rw [flatMap_cons, flatMap_cons, hall]
      rfl
    | badge => exact richRuns_writeText text
    | link => exact richRuns_writeText text
    | icon => exact richRuns_writeText text
    | usage =>
      cases text with
      | some text =>
        dsimp only
        rw [richRuns_append, richRuns_writePad]
        exact append_nil _
      | none => rfl
    | hr => rfl
    | image => rfl
    | col => exact hall indent
    | _ => exact hall indent

theorem richRuns_renderAll : ∀ (children : List Component) (indent : Nat),
    (renderAll children indent).flatMap richRuns = rawRunsAll children
  | [], _ => rfl
  | child :: children, indent => by
    rw [renderAll, richRuns_append, richRuns_renderToSink child,
      richRuns_renderAll children, rawRunsAll]

theorem richRuns_renderRow : ∀ (children : List Component) (indent : Nat),
    (renderRow children indent).flatMap richRuns = rawRunsRow children
  | [], _ => rfl
  | child :: children, indent => by
    rw [renderRow, richRuns_append, richRuns_renderRowRest children, rawRunsRow]
    congr 1
    split
    · exact richRuns_renderInline child
    · exact richRuns_renderToSink child indent

/-- The runs that the further children of a row write as they are. -/
theorem richRuns_renderRowRest : ∀ (children : List Component) (indent : Nat),
    (renderRowRest children indent).flatMap richRuns = rawRunsRow children
  | [], _ => rfl
  | child :: children, indent => by
    rw [renderRowRest, flatMap_cons, richRuns_append, richRuns_renderRowRest children,
      rawRunsRow]
    have hchild : (if child.kind.isInline then child.renderInline
        else child.renderToSink indent).flatMap richRuns =
        if child.kind.isInline then child.inlineRuns else child.rawRuns := by
      split
      · exact richRuns_renderInline child
      · exact richRuns_renderToSink child indent
    rw [hchild]
    rfl
end

/-! ## The condition -/

theorem pieces_run (r : Run) : (Call.run r).pieces =
    if AnsiOutSink.styleToAnsi r.style = "" then [.text r.text]
    else [.sequence (AnsiOutSink.styleToAnsi r.style), .text r.text,
      .sequence AnsiOutSink.reset] :=
  rfl

theorem text_mem_run (r : Run) (text : String) :
    .text text ∈ (Call.run r).pieces ↔ text = r.text := by
  rw [pieces_run]
  split
  · simp only [mem_singleton, Piece.text.injEq]
  · simp only [mem_cons, not_mem_nil, or_false, reduceCtorEq, false_or,
      Piece.text.injEq]

/-- The texts that some operations write are allowed. -/
def AllowedCalls (calls : List Call) : Prop :=
  ∀ text, .text text ∈ calls.flatMap Call.pieces → AllowedText text

theorem allowedCalls_run (r : Run) : AllowedCalls [.run r] ↔ AllowedText r.text := by
  unfold AllowedCalls
  rw [flatMap_singleton]
  exact ⟨fun h => h r.text ((text_mem_run r r.text).mpr rfl),
    fun h text htext => (text_mem_run r text).mp htext ▸ h⟩

theorem allowedCalls_lineBreak : AllowedCalls [.lineBreak] := by
  intro text htext
  rw [flatMap_singleton] at htext
  cases mem_singleton.mp htext
  intro c hc
  exact .inl (mem_singleton.mp hc)

/-- The texts that a call writes are allowed exactly when those that it writes as they are are. -/
theorem allowedCalls_write (w : Write) :
    AllowedCalls w.calls ↔ ∀ r ∈ richRuns w, AllowedText r.text := by
  have hsanitized (style : Style) (s : String) : AllowedCalls [.run (.new style s)] :=
    (allowedCalls_run _).mpr (allowed_sanitizeText s)
  have hnone : ∀ r ∈ ([] : List Run), AllowedText r.text :=
    fun r hr => absurd hr not_mem_nil
  cases w with
  | rich rt =>
      constructor
      · exact fun h r hr => h r.text (mem_flatMap.mpr
          ⟨.run r, mem_map_of_mem hr, (text_mem_run r r.text).mpr rfl⟩)
      · intro h text htext
        obtain ⟨call, hcall, hpiece⟩ := mem_flatMap.mp htext
        obtain ⟨r, hr, rfl⟩ := mem_map.mp hcall
        exact (text_mem_run r text).mp hpiece ▸ h r hr
  | own style part => exact iff_of_true (hsanitized style part) hnone
  | str style s => exact iff_of_true (hsanitized style s) hnone
  | plain s => exact iff_of_true (hsanitized .new s) hnone
  | ownBreak => exact iff_of_true allowedCalls_lineBreak hnone
  | lineBreak => exact iff_of_true allowedCalls_lineBreak hnone

/-- The texts of the output are allowed exactly when the runs that are written as they are are. -/
theorem texts_iff (c : Component) (indent : Nat) :
    (∀ text, .text text ∈ c.pieces indent → AllowedText text) ↔
      ∀ r ∈ c.rawRuns, AllowedText r.text := by
  unfold pieces calls
  rw [← richRuns_renderToSink c indent, flatMap_assoc]
  constructor
  · intro h r hr
    obtain ⟨w, hw, hmem⟩ := mem_flatMap.mp hr
    exact (allowedCalls_write w).mp
      (fun text htext => h text (mem_flatMap.mpr ⟨w, hw, htext⟩)) r hmem
  · intro h text htext
    obtain ⟨w, hw, hmem⟩ := mem_flatMap.mp htext
    exact (allowedCalls_write w).mpr
      (fun r hr => h r (mem_flatMap.mpr ⟨w, hw, hr⟩)) text hmem

/-- The sequences of the output are those of styles and the reset. -/
theorem sequences_of_pieces (c : Component) (indent : Nat) (text : String)
    (h : .sequence text ∈ c.pieces indent) :
    text = AnsiOutSink.reset ∨ ∃ style, text = AnsiOutSink.styleToAnsi style := by
  obtain ⟨call, _, hpiece⟩ := mem_flatMap.mp h
  cases call with
  | lineBreak => cases mem_singleton.mp hpiece
  | run r =>
      rw [pieces_run] at hpiece
      split at hpiece
      · cases mem_singleton.mp hpiece
      · simp only [mem_cons, not_mem_nil, or_false, reduceCtorEq, false_or] at hpiece
        rcases hpiece with hpiece | hpiece
        · exact .inr ⟨r.style, Piece.sequence.inj hpiece⟩
        · exact .inl (Piece.sequence.inj hpiece)

/-- What a component writes to a terminal is safe exactly when the runs that it writes as they are
have allowed texts, and sanitized text is always safe. -/
theorem terminalSafe_iff (c : Component) (indent : Nat) :
    (c.TerminalSafe indent ∧ Sanitizes) ↔ ∀ r ∈ c.rawRuns, AllowedText r.text := by
  constructor
  · exact fun h => (texts_iff c indent).mp h.1.texts
  · intro h
    have houtput : (ansiOutput (c.calls indent)).toList =
        (c.pieces indent).flatMap Piece.chars := by
      unfold ansiOutput pieces
      rw [take_buffer]
      rfl
    exact ⟨⟨houtput, sequences_of_pieces c indent, (texts_iff c indent).mpr h⟩, sanitizes⟩

/-- A label, decoded with a text that clears the screen. -/
def clearingBadge : Component :=
  .node .badge ⟨[("label", .string "x")]⟩ [] (some ⟨[⟨.new, "\x1b[2J"⟩]⟩)

/-- A text that has been decoded reaches the terminal as it is. -/
theorem not_terminalSafe_clearing :
    ¬ ∀ (c : Component) (indent : Nat), c.TerminalSafe indent ∧ Sanitizes := by
  intro h
  have htexts := (h clearingBadge 0).1.texts "\x1b[2J" mem_cons_self
  have hescape := htexts '\x1b' (by decide)
  rcases hescape with h | h | h | h
  · exact absurd h (by decide)
  · exact absurd h (by decide)
  · exact absurd h (by decide)
  · exact h (by decide)

end Component

end Omp2.Render
