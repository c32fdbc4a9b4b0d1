import Omp2.Cli.Editing

/-!
# What a key does

A key moves the cursor to a boundary, recalls an entry of the history, restores the draft, inserts
text or takes a part of the text out. Every key is one of these, and what an operation keeps is
shown for these alone.
-/

namespace Omp2.Cli

open Omp2.Text Omp2.Slices Omp2.Graphemes Omp2.Render

/-- A sanitized text within the byte limit. -/
structure Fits (text : List Char) : Prop where
  plain : ∀ c ∈ text, Plain c
  bounded : byteLength text ≤ maxBufferBytes

theorem fits_nil : Fits [] :=
  ⟨fun _ => nofun, Nat.zero_le _⟩

theorem Fits.no_return {text : List Char} (h : Fits text) : '\r' ∉ text :=
  fun hmem => (h.plain _ hmem).2.1 rfl

/-- What every operation keeps. -/
structure Kept (e : Editor) : Prop where
  text : Fits e.text
  draft : Fits e.draft
  entries : ∀ entry ∈ e.history, Fits entry
  limit : e.history.length ≤ maxHistoryEntries
  index : ∀ index, e.historyIndex = some index → index < e.history.length

namespace Editor

variable [Segmentation] {e e' : Editor}

/-! ## The cursor -/

theorem clampCursor_spec (e : Editor) :
    ∃ cursor, e.clampCursor = { e with cursor } ∧ IsBoundary e.text cursor := by
  unfold clampCursor
  split
  · exact ⟨_, rfl, isBoundary_length e.text⟩
  · exact ⟨_, rfl, isBoundary_nearestFrom (isBoundary_zero e.text) (reached_start e.text)⟩

/-- A cursor at a boundary stays there. -/
theorem clampCursor_eq_self (h : IsBoundary e.text e.cursor) : e.clampCursor = e := by
  obtain ⟨rest, front, hsplit, hlength⟩ := h
  have htext : byteLength e.text = e.cursor + byteLength rest.flatten := by
    rw [← hlength, ← byteLength_append, ← List.flatten_append, ← hsplit,
      Segmentation.flatten_graphemes]
  unfold clampCursor
  cases rest with
  | nil =>
      have hend : byteLength e.text = e.cursor := htext
      rw [if_pos hend.le, hend]
  | cons g gs =>
      have hmem : g ∈ graphemes e.text := by
        rw [hsplit]
        exact List.mem_append_right _ List.mem_cons_self
      have hpos := byteLength_pos hmem
      rw [List.flatten_cons, byteLength_append] at htext
      have hnearest : nearestFrom e.cursor 0 0 (graphemes e.text) = e.cursor := by
        have hself : nearestFrom (0 + byteLength front.flatten) 0 0 (front ++ g :: gs) = _ :=
          nearestFrom_eq_self front (g :: gs) nofun
        rwa [Nat.zero_add, hlength, ← hsplit] at hself
      rw [if_neg (by omega), hnearest]

/-- What a motion, a recall or a restored draft leaves. -/
inductive Navigated (e : Editor) : Editor → Prop
  | same : Navigated e e
  | moved (cursor : Nat) (h : IsBoundary e.text cursor) : Navigated e { e with cursor }
  | drafted (index : Nat) (hindex : index < e.history.length) (hnone : e.historyIndex = none) :
    Navigated e ({ e with draft := e.text }.«recall» index)
  | recalled (index : Nat) (hindex : index < e.history.length) (hsome : e.historyIndex ≠ none) :
    Navigated e (e.recall index)
  | restored (hsome : e.historyIndex ≠ none) :
    Navigated e { e with
      historyIndex := none, text := e.draft, draft := [], cursor := byteLength e.draft }

/-- What follows on a clamped cursor. -/
theorem Navigated.clamped (h : Navigated e.clampCursor e') : Navigated e e' := by
  obtain ⟨cursor, hclamp, hboundary⟩ := e.clampCursor_spec
  rw [hclamp] at h
  cases h with
  | same => exact .moved cursor hboundary
  | moved cursor h => exact .moved cursor h
  | drafted index hindex hnone => exact .drafted index hindex hnone
  | recalled index hindex hsome => exact .recalled index hindex hsome
  | restored hsome => exact .restored hsome

theorem moveGraphemeBackward_navigated (e : Editor) : Navigated e e.moveGraphemeBackward.1 := by
  refine Navigated.clamped ?_
  unfold moveGraphemeBackward
  dsimp only
  split
  · exact .same
  · exact .moved _ (isBoundary_previousFrom (isBoundary_zero _) (reached_start _))

theorem moveGraphemeForward_navigated (e : Editor) : Navigated e e.moveGraphemeForward.1 := by
  refine Navigated.clamped ?_
  unfold moveGraphemeForward
  dsimp only
  split
  · exact .same
  · exact .moved _ (isBoundary_nextFrom (reached_start _))

theorem navigated_clampCursor (e : Editor) (target : Nat) :
    Navigated e (clampCursor { e with cursor := target }) := by
  obtain ⟨cursor, hclamp, hboundary⟩ := ({ e with cursor := target } : Editor).clampCursor_spec
  rw [hclamp]
  exact .moved cursor hboundary

theorem moveWordBackward_navigated (e : Editor) : Navigated e e.moveWordBackward.1 := by
  refine Navigated.clamped ?_
  unfold moveWordBackward
  dsimp only
  split
  · exact .same
  · split
    · exact navigated_clampCursor _ _
    · exact .same

theorem moveWordForward_navigated (e : Editor) : Navigated e e.moveWordForward.1 := by
  refine Navigated.clamped ?_
  unfold moveWordForward
  dsimp only
  split
  · exact .same
  · split
    · exact navigated_clampCursor _ _
    · exact .same

theorem IsBoundary.parts {text : List Char} {cursor : Nat} (h : IsBoundary text cursor) :
    text = upTo text cursor ++ after text cursor ∧ byteLength (upTo text cursor) = cursor := by
  obtain ⟨front, rest, rfl, rfl⟩ := h.split
  rw [upTo_append, after_append]
  exact ⟨rfl, rfl⟩

theorem boundary_in_line {text front line rest : List Char} {position : Nat} (h : Fits text)
    (htext : text = front ++ line ++ rest) (hfront : StartsLine front) (hrest : EndsLine rest)
    (hline : IsBoundary line position) : IsBoundary text (byteLength front + position) := by
  have hno := h.no_return
  rw [htext] at hno ⊢
  exact isBoundary_of_line (fun hmem => hno (List.mem_append_left _ hmem)) hfront hrest hline

theorem moveToLineStart_navigated (h : Fits e.text) : Navigated e e.moveToLineStart.1 := by
  refine Navigated.clamped ?_
  obtain ⟨cursor, hclamp, hboundary⟩ := e.clampCursor_spec
  unfold moveToLineStart
  rw [hclamp]
  dsimp only
  split
  · refine .moved _ ?_
    obtain ⟨htext, _⟩ := IsBoundary.parts hboundary
    obtain ⟨front, line, hfront, hstart, _, hlength⟩ := lineStart_spec (upTo e.text cursor)
    rw [hfront, List.append_assoc, ← List.append_nil (line ++ _), ← List.append_assoc] at htext
    rw [← hlength]
    exact boundary_in_line h htext hstart (.inl rfl) (isBoundary_zero _)
  · exact .same

theorem moveToLineEnd_navigated (h : Fits e.text) : Navigated e e.moveToLineEnd.1 := by
  refine Navigated.clamped ?_
  obtain ⟨cursor, hclamp, hboundary⟩ := e.clampCursor_spec
  unfold moveToLineEnd
  rw [hclamp]
  dsimp only
  split
  · refine .moved _ ?_
    obtain ⟨htext, hcursor⟩ := IsBoundary.parts hboundary
    rcases findNewline_cases (after e.text cursor) with ⟨hfind, _⟩ | ⟨line, rest, hrest, _, hfind⟩
    · rw [hfind]
      exact isBoundary_length e.text
    · rw [hfind]
      rw [hrest, ← List.append_assoc, ← List.nil_append (upTo _ _), List.append_assoc []] at htext
      have hend := boundary_in_line h htext (.inl rfl) (.inr ⟨rest, rfl⟩)
        (isBoundary_length (upTo e.text cursor ++ line))
      rw [byteLength_append, hcursor, show byteLength [] = 0 from rfl, Nat.zero_add] at hend
      exact hend
  · exact .same

/-! ## Up and down -/

/-- A column of a line is a boundary of the text. -/
theorem boundary_of_column {text front line rest : List Char} (h : Fits text)
    (htext : text = front ++ line ++ rest) (hfront : StartsLine front) (hrest : EndsLine rest)
    (column : Nat) : ∃ target, columnFrom column (byteLength front) (graphemes line) =
      byteLength front + target ∧ IsBoundary line target ∧
        IsBoundary text (byteLength front + target) := by
  obtain ⟨target, hcolumn, hboundary⟩ := columnFrom_spec column (byteLength front)
    (reached_start line)
  exact ⟨target, hcolumn, hboundary, boundary_in_line h htext hfront hrest hboundary⟩

/-- Up moves to the line above, or recalls an older entry. -/
theorem handleUp_navigated (h : Kept e) : Navigated e e.handleUp.1 := by
  refine Navigated.clamped ?_
  obtain ⟨cursor, hclamp, hboundary⟩ := e.clampCursor_spec
  unfold handleUp
  rw [hclamp]
  dsimp only
  obtain ⟨htext, hcursor⟩ := IsBoundary.parts hboundary
  rcases rfindNewline_cases (upTo e.text cursor) with ⟨hfind, _⟩ |
    ⟨front, line, hfront, _, hfind⟩
  · rw [hfind]
    dsimp only
    split
    · exact .same
    · next hhistory =>
      have hpos : 0 < e.history.length :=
        List.length_pos_of_ne_nil fun hnil => hhistory (by rw [hnil]; rfl)
      split
      · next hindex =>
        have hlast : e.history.length - 1 < e.history.length := by omega
        exact .drafted (e := { e with cursor }) _ hlast hindex
      · next index hindex =>
        have hlt : index - 1 < e.history.length :=
          (Nat.sub_le _ _).trans_lt (h.index index hindex)
        have hsome : e.historyIndex ≠ none := by
          rw [hindex]
          exact Option.some_ne_none _
        split
        · exact .recalled (e := { e with cursor }) _ hlt hsome
        · exact .same
  · rw [hfind]
    dsimp only
    rw [hfront] at htext
    obtain ⟨above, shown, habove, hstart, _, hlength⟩ := lineStart_spec front
    rw [List.append_assoc, habove] at htext
    have hprevious : upTo e.text (byteLength front) = front := by
      rw [htext, ← habove, upTo_append]
    have hshown : after front (byteLength above) = shown := by
      rw [habove, after_append]
    unfold between
    generalize (graphemes (after _ (byteLength front + 1))).length = column
    rw [hprevious, ← hlength, hshown]
    obtain ⟨target, hcolumn, _, htarget⟩ := boundary_of_column h.text htext hstart
      (.inr ⟨_, rfl⟩) column
    refine .moved _ ?_
    rw [hcolumn]
    exact htarget

/-- Down moves to the line below, or recalls a newer entry or the draft. -/
theorem handleDown_cases (h : Fits e.text) :
    (∃ cursor, e.handleDown.1 = { e with cursor } ∧ IsBoundary e.text cursor ∧
      (after e.text cursor).count '\n' + 1 = (after e.text e.clampCursor.cursor).count '\n') ∨
      (∃ index, e.historyIndex = some index ∧ index + 1 < e.history.length ∧
        e.handleDown.1 = e.recall (index + 1)) ∨
      (∃ index, e.historyIndex = some index ∧ e.history.length ≤ index + 1 ∧
        e.handleDown.1 = { e with
          historyIndex := none, text := e.draft, draft := [], cursor := byteLength e.draft }) ∨
      e.historyIndex = none ∧ e.handleDown.1 = e.clampCursor := by
  obtain ⟨cursor, hclamp, hboundary⟩ := e.clampCursor_spec
  obtain ⟨front, tail, htext, rfl⟩ := hboundary.split
  have htail : after e.text (byteLength front) = tail := by
    rw [htext, after_append]
  unfold handleDown
  rw [hclamp]
  dsimp only
  rw [htail]
  rcases findNewline_cases tail with ⟨hfind, _⟩ | ⟨line, rest, hrest, hline, hfind⟩
  · rw [hfind]
    dsimp only
    split
    · next index hindex =>
      split
      · next hlt => exact .inr (.inl ⟨index, hindex, hlt, rfl⟩)
      · next hlast => exact .inr (.inr (.inl ⟨index, hindex, Nat.le_of_not_lt hlast, rfl⟩))
    · next hindex => exact .inr (.inr (.inr ⟨hindex, rfl⟩))
  · rw [hfind]
    refine .inl ?_
    dsimp only
    -- the line below is what comes next up to a newline or the end
    obtain ⟨lines, hlines⟩ : ∃ lines, lines = front ++ line ++ ['\n'] := ⟨_, rfl⟩
    have hnext : byteLength front + byteLength line + 1 = byteLength lines := by
      rw [hlines, byteLength_append, byteLength_append]
      rfl
    have hwhole : e.text = lines ++ rest := by
      rw [htext, hrest, hlines, List.append_assoc, List.append_assoc, List.singleton_append]
    obtain ⟨below, others, hbelow, hends, hlast⟩ : ∃ below others, rest = below ++ others ∧
        EndsLine others ∧ '\n' ∉ below ∧ ((findNewline rest).map (byteLength lines + ·)).getD
          (byteLength e.text) = byteLength (lines ++ below) := by
      rcases findNewline_cases rest with ⟨hnone, hno⟩ | ⟨below, others, hbelow, hno, hsome⟩
      · refine ⟨rest, [], (List.append_nil _).symm, .inl rfl, hno, ?_⟩
        rw [hnone, hwhole]
        rfl
      · refine ⟨below, '\n' :: others, hbelow, .inr ⟨others, rfl⟩, hno, ?_⟩
        rw [hsome, byteLength_append]
        rfl
    obtain ⟨hno, hlast⟩ := hlast
    rw [hbelow, ← List.append_assoc] at hwhole
    have hafter : after e.text (byteLength lines) = rest := by
      rw [hwhole, List.append_assoc, after_append, hbelow]
    have hshown : after (upTo e.text (byteLength (lines ++ below))) (byteLength lines) = below := by
      rw [hwhole, upTo_append, after_append]
    unfold between
    generalize (graphemes (after _ (lineStart _))).length = column
    rw [hnext, hafter, hlast, hshown]
    obtain ⟨target, hcolumn, hinside, htarget⟩ := boundary_of_column h hwhole
      (.inr ⟨front ++ line, hlines⟩) hends column
    rw [hcolumn]
    refine ⟨_, rfl, htarget, ?_⟩
    obtain ⟨first, second, rfl, rfl⟩ := hinside.split
    have hcursor : after e.text (byteLength lines + byteLength first) = second ++ others := by
      rw [← byteLength_append, hwhole, List.append_assoc, List.append_assoc, ← List.append_assoc,
        after_append]
    have hnone : first.count '\n' = 0 :=
      List.count_eq_zero.mpr fun hmem => hno (List.mem_append_left _ hmem)
    rw [hcursor, hrest, hbelow]
    simp only [List.count_append, List.count_cons_self, hnone, List.count_eq_zero.mpr hline]
    omega

theorem handleDown_navigated (h : Fits e.text) : Navigated e e.handleDown.1 := by
  rcases handleDown_cases h with ⟨cursor, hdown, hboundary, _⟩ | ⟨index, hindex, hlt, hdown⟩ |
    ⟨index, hindex, _, hdown⟩ | ⟨_, hdown⟩
  · rw [hdown]
    exact .moved cursor hboundary
  · rw [hdown]
    exact .recalled (index + 1) hlt (by rw [hindex]; nofun)
  · rw [hdown]
    exact .restored (by rw [hindex]; nofun)
  · rw [hdown]
    exact .clamped .same

/-! ## Deletions -/

/-- The keys that take a part of the text out. -/
inductive Deletion where
  | graphemeBackward | graphemeForward | toLineStart | toLineEnd | wordBackward

/-- The operation of a deletion. -/
def Deletion.run : Deletion → Editor → Editor × Bool
  | .graphemeBackward => deleteGraphemeBackward
  | .graphemeForward => deleteGraphemeForward
  | .toLineStart => killToLineStart
  | .toLineEnd => killToLineEnd
  | .wordBackward => deleteWordBackward

/-- The part that a deletion takes out, with the cursor at a boundary. -/
def Deletion.cut (e : Editor) : Deletion → Option (Nat × Nat)
  | .graphemeBackward =>
    if e.cursor = 0 then none else some (previousFrom e.cursor 0 0 (graphemes e.text), e.cursor)
  | .graphemeForward =>
    if byteLength e.text ≤ e.cursor then none
    else
      let size := ((graphemes (after e.text e.cursor)).head?.map byteLength).getD 0
      if 0 < size then some (e.cursor, e.cursor + size) else none
  | .toLineStart =>
    let start := lineStart (upTo e.text e.cursor)
    if start < e.cursor then some (start, e.cursor)
    else if 0 < start ∧ e.cursor = start then some (start - 1, start)
    else none
  | .toLineEnd =>
    if byteLength e.text ≤ e.cursor then none
    else
      let rest := after e.text e.cursor
      let size := (findNewline rest).getD (byteLength rest)
      some (e.cursor, e.cursor + if 0 < size then size else 1)
  | .wordBackward =>
    if e.cursor = 0 then none
    else
      let target := wordStart false (upTo e.text e.cursor).reverse
      if target < e.cursor then some (target, e.cursor) else none

/-- A deletion takes its part out of the text and leaves the cursor there. -/
theorem Deletion.run_eq (d : Deletion) (e : Editor) :
    (d.run e).1 = match d.cut e.clampCursor with
      | none => e.clampCursor
      | some (first, last) => { e.clampCursor with
          text := e.clampCursor.drained first last, cursor := first, historyIndex := none } := by
  cases d with
  | graphemeBackward =>
      unfold run cut deleteGraphemeBackward
      dsimp only
      split <;> rfl
  | graphemeForward =>
      unfold run cut deleteGraphemeForward
      dsimp only
      split
      · rfl
      · split <;> rfl
  | toLineStart =>
      unfold run cut killToLineStart
      dsimp only
      split
      · rfl
      · split <;> rfl
  | toLineEnd =>
      unfold run cut killToLineEnd
      dsimp only
      split
      · rfl
      · split <;> rfl
  | wordBackward =>
      unfold run cut deleteWordBackward
      dsimp only
      split
      · rfl
      · split <;> rfl

/-- A part is not cut backwards. -/
theorem Deletion.cut_le {d : Deletion} {first last : Nat} (h : d.cut e = some (first, last)) :
    first ≤ last := by
  unfold cut at h
  cases d with
  | graphemeBackward =>
      dsimp only at h
      split at h
      · cases h
      · cases h
        exact previousFrom_le _ (Nat.zero_le _)
  | graphemeForward =>
      dsimp only at h
      split at h
      · cases h
      · split at h
        · cases h
          exact Nat.le_add_right _ _
        · cases h
  | toLineStart =>
      dsimp only at h
      split at h
      · next hlt =>
        cases h
        exact hlt.le
      · split at h
        · cases h
          exact Nat.sub_le _ _
        · cases h
  | toLineEnd =>
      dsimp only at h
      split at h
      · cases h
      · cases h
        exact Nat.le_add_right _ _
  | wordBackward =>
      dsimp only at h
      split at h
      · cases h
      · split at h
        · next hlt =>
          cases h
          exact hlt.le
        · cases h

omit [Segmentation] in
/-- What is left of a text that fits does. -/
theorem fits_drained (h : Fits e.text) {first last : Nat} (hle : first ≤ last) :
    Fits (e.drained first last) := by
  have hfront := upTo_start e.text first
  have hrest := after_suffix e.text last
  refine ⟨fun c hc => ?_, ?_⟩
  · rcases List.mem_append.mp hc with hc | hc
    · exact h.plain c (hfront.subset hc)
    · exact h.plain c (hrest.subset hc)
  · have hupTo := byteLength_upTo_le e.text first
    have hafter := byteLength_after_le e.text last
    obtain ⟨others, hothers⟩ := hfront
    have hwhole := congrArg byteLength hothers
    rw [byteLength_append] at hwhole
    have hbounded := h.bounded
    unfold drained
    rw [byteLength_append]
    omega

/-! ## Insertions -/

/-- What an insertion leaves. -/
theorem insert_cases (e : Editor) (input : List Char) :
    (e.insert input).1 = e ∨
      byteLength e.text + byteLength (sanitizeAndNormalize input) ≤ maxBufferBytes ∧
      ∃ front rest cursor, e.text = front ++ rest ∧
        IsBoundary (front ++ sanitizeAndNormalize input ++ rest) cursor ∧
        (e.insert input).1 = { e with
          text := front ++ sanitizeAndNormalize input ++ rest, cursor, historyIndex := none } := by
  unfold insert
  split
  · exact .inl rfl
  · dsimp only
    split
    · exact .inl rfl
    · split
      · exact .inl rfl
      · next hfits =>
        refine .inr ⟨Nat.le_of_not_lt hfits, ?_⟩
        obtain ⟨cursor, hclamp, hboundary⟩ := e.clampCursor_spec
        obtain ⟨htext, _⟩ := IsBoundary.parts hboundary
        rw [hclamp]
        unfold clampCursorForward
        dsimp only
        split
        · exact ⟨_, _, _, htext, isBoundary_length _, rfl⟩
        · exact ⟨_, _, _, htext, isBoundary_forwardFrom (reached_start _), rfl⟩

/-! ## Keys -/

end Editor

/-- The deletion that a key asks for. -/
def KeyEvent.deletion (key : KeyEvent) : Option Editor.Deletion :=
  match key.code with
  | .backspace => some .graphemeBackward
  | .delete => some .graphemeForward
  | .char c =>
    if c = 'k' ∧ key.control then some .toLineEnd
    else if c = 'u' ∧ key.control then some .toLineStart
    else if c = 'w' ∧ key.control then some .wordBackward
    else none
  | _ => none

/-- A key that moves the cursor, recalls or does nothing. -/
def KeyEvent.navigates (key : KeyEvent) : Bool :=
  match key.code with
  | .left | .right | .home | .end | .up | .down | .esc => true
  | .tab | .backTab | .pageUp | .pageDown => true
  | .enter => !key.shift
  | .char c => key.control && (c = 'a' || c = 'e' || !key.alt) &&
      !(c = 'j' || c = 'k' || c = 'u' || c = 'w')
  | .backspace | .delete => false

namespace Editor

variable [Segmentation] {e e' : Editor}

/-- A key navigates, or it deletes or inserts. -/
theorem handleKey_cases (h : Kept e) (key : KeyEvent) :
    (key.navigates = true ∧ Navigated e (e.handleKey key).1) ∨
      key.navigates = false ∧ ((∃ d, key.deletion = some d ∧ e.handleKey key = d.run e) ∨
        ∃ input, e.handleKey key = e.insert input) := by
  unfold handleKey KeyEvent.navigates KeyEvent.deletion
  cases key.code with
  | char c =>
      dsimp only
      by_cases hcontrol : key.control = true
      · by_cases hj : c = 'j'
        · exact .inr ⟨by simp [hj], .inr ⟨['\n'], by rw [if_pos ⟨hj, hcontrol⟩]⟩⟩
        · by_cases ha : c = 'a'
          · subst ha
            refine .inl ⟨by simp [hcontrol], ?_⟩
            simp only [hcontrol]
            exact moveToLineStart_navigated h.text
          · by_cases he : c = 'e'
            · subst he
              refine .inl ⟨by simp [hcontrol], ?_⟩
              simp only [hcontrol]
              exact moveToLineEnd_navigated h.text
            · by_cases hk : c = 'k'
              · exact .inr ⟨by simp [hk],
                  .inl ⟨.toLineEnd, by simp [hk, hcontrol], by simp [hk, hcontrol]; rfl⟩⟩
              · by_cases hu : c = 'u'
                · exact .inr ⟨by simp [hu],
                    .inl ⟨.toLineStart, by simp [hu, hcontrol], by simp [hu, hcontrol]; rfl⟩⟩
                · by_cases hw : c = 'w'
                  · exact .inr ⟨by simp [hw],
                      .inl ⟨.wordBackward, by simp [hw, hcontrol], by simp [hw, hcontrol]; rfl⟩⟩
                  · by_cases halt : key.alt = true
                    · exact .inr ⟨by simp [*], .inr ⟨[c], by simp [*]⟩⟩
                    · exact .inl ⟨by simp [*], by simp [*]; exact .same⟩
      · exact .inr ⟨by simp [hcontrol], .inr ⟨[c], by simp [hcontrol]⟩⟩
  | enter =>
      dsimp only
      split
      · next hshift => exact .inr ⟨by simp [hshift], .inr ⟨['\n'], rfl⟩⟩
      · next hshift => exact .inl ⟨by simp [hshift], .same⟩
  | esc => exact .inl ⟨rfl, .same⟩
  | left =>
      refine .inl ⟨rfl, ?_⟩
      dsimp only
      split
      · exact moveWordBackward_navigated e
      · exact moveGraphemeBackward_navigated e
  | right =>
      refine .inl ⟨rfl, ?_⟩
      dsimp only
      split
      · exact moveWordForward_navigated e
      · exact moveGraphemeForward_navigated e
  | home => exact .inl ⟨rfl, moveToLineStart_navigated h.text⟩
  | «end» => exact .inl ⟨rfl, moveToLineEnd_navigated h.text⟩
  | backspace => exact .inr ⟨rfl, .inl ⟨.graphemeBackward, rfl, rfl⟩⟩
  | delete => exact .inr ⟨rfl, .inl ⟨.graphemeForward, rfl, rfl⟩⟩
  | up => exact .inl ⟨rfl, handleUp_navigated h⟩
  | down => exact .inl ⟨rfl, handleDown_navigated h.text⟩
  | tab | backTab | pageUp | pageDown => exact .inl ⟨rfl, .same⟩

end Editor

end Omp2.Cli
