import Omp2.Render.Layout

/-!
# The layout without wrapping

Without wrapping, a cell is left out when there is no room for it, and the next one that fits is
written after the cells before. What is written of a line are the first cells of it exactly when no
cell fits into the room that the first one left out has left.
-/

namespace Omp2.Render

open List

namespace Cell

/-! ## Lines of cells -/

/-- The width of some cells. -/
def widths (cells : List Cell) : Nat :=
  (cells.map width).sum

/-- What a cell is expanded to at a column. -/
def expand (column : Nat) (cell : Cell) : List Cell :=
  if cell.2 = ['\t'] then List.replicate (4 - column % 4) (cell.1, [' '])
  else if cell.2 = ['\r'] then []
  else [cell]

/-- A further cell, which ends the current line when it is a newline. -/
def add (state : List (List Cell) × List Cell) (cell : Cell) : List (List Cell) × List Cell :=
  if cell.2 = ['\n'] then (state.1 ++ [state.2], [])
  else (state.1, state.2 ++ cell.expand (widths state.2))

/-- The lines of a text as cells, with its tabs expanded and without its carriage returns. -/
def lines (text : RichText) : List (List Cell) :=
  let (lines, current) := (ofRuns text.runs).foldl add ([], [])
  lines ++ [current]

/-- The cells that fit, each into the room that is left by those before. -/
def taken : Nat → List Cell → List Cell
  | _, [] => []
  | room, cell :: cells =>
    if cell.width ≤ room then cell :: taken (room - cell.width) cells else taken room cells

/-- After the first width that does not fit, no other one fits into the room that is left. -/
def CutsOff : Nat → List Nat → Prop
  | _, [] => True
  | room, w :: ws => if w ≤ room then CutsOff (room - w) ws else ∀ v ∈ ws, room < v

/-- What is cut off can be decided. -/
instance decidableCutsOff : ∀ (room : Nat) (ws : List Nat), Decidable (CutsOff room ws)
  | _, [] => isTrue trivial
  | room, w :: ws =>
    if h : w ≤ room then
      have := decidableCutsOff (room - w) ws
      decidable_of_iff (CutsOff (room - w) ws) (by rw [CutsOff, if_pos h])
    else decidable_of_iff (∀ v ∈ ws, room < v) (by rw [CutsOff, if_neg h])

theorem widths_append (cells more : List Cell) :
    widths (cells ++ more) = widths cells + widths more := by
  unfold widths
  rw [map_append, sum_append]

theorem taken_of_le {room : Nat} {cell : Cell} (h : cell.width ≤ room) (cells : List Cell) :
    taken room (cell :: cells) = cell :: taken (room - cell.width) cells :=
  if_pos h

theorem taken_of_lt {room : Nat} {cell : Cell} (h : room < cell.width) (cells : List Cell) :
    taken room (cell :: cells) = taken room cells :=
  if_neg (Nat.not_le_of_gt h)

/-- What is taken fits. -/
theorem widths_taken (room : Nat) (cells : List Cell) : widths (taken room cells) ≤ room := by
  induction cells generalizing room with
  | nil => exact Nat.zero_le room
  | cons cell cells ih =>
      by_cases hfits : cell.width ≤ room
      · have hrest := ih (room - cell.width)
        rw [taken_of_le hfits]
        unfold widths at hrest ⊢
        rw [map_cons, sum_cons]
        omega
      · rw [taken_of_lt (Nat.lt_of_not_le hfits)]
        exact ih room

/-- What is taken of cells one after another. -/
theorem taken_append (room : Nat) (cells more : List Cell) :
    taken room (cells ++ more) =
      taken room cells ++ taken (room - widths (taken room cells)) more := by
  induction cells generalizing room with
  | nil => rfl
  | cons cell cells ih =>
      rw [cons_append]
      by_cases hfits : cell.width ≤ room
      · rw [taken_of_le hfits, taken_of_le hfits, ih, cons_append, Nat.sub_sub]
        rfl
      · rw [taken_of_lt (Nat.lt_of_not_le hfits), taken_of_lt (Nat.lt_of_not_le hfits), ih]

/-- Nothing is taken exactly when nothing fits. -/
theorem taken_eq_nil_iff {room : Nat} {cells : List Cell} :
    taken room cells = [] ↔ ∀ cell ∈ cells, room < cell.width := by
  induction cells with
  | nil => exact iff_of_true rfl fun _ h => absurd h not_mem_nil
  | cons first cells ih =>
      rw [forall_mem_cons]
      by_cases hfits : first.width ≤ room
      · rw [taken_of_le hfits]
        exact iff_of_false (cons_ne_nil _ _) fun h => Nat.not_le_of_gt h.1 hfits
      · have hwide := Nat.lt_of_not_le hfits
        rw [taken_of_lt hwide, ih, and_iff_right hwide]

/-- At most one blank is taken when there is room for at most one. -/
theorem taken_blanks {room : Nat} (h : room ≤ 1) (style : Style) {n : Nat} (hpos : 0 < n) :
    taken room (List.replicate n (style, [' '])) = taken room [(style, [' '])] := by
  have hwidth : width (style, [' ']) = 1 := rfl
  have hnothing (n : Nat) : taken 0 (replicate n (style, [' '])) = [] := by
    refine taken_eq_nil_iff.mpr fun cell hcell => ?_
    rw [eq_of_mem_replicate hcell]
    exact Nat.zero_lt_one
  obtain ⟨n, rfl⟩ := Nat.exists_eq_succ_of_ne_zero (Nat.ne_of_gt hpos)
  rw [Nat.succ_eq_add_one, replicate_succ]
  obtain rfl | rfl : room = 0 ∨ room = 1 := by omega
  · exact hnothing (n + 1)
  · rw [taken_of_le (Nat.le_of_eq hwidth), taken_of_le (Nat.le_of_eq hwidth)]
    exact congrArg (cons _) (hnothing n)

end Cell

namespace LayoutOut

/-! ## Lines that are cut -/

/-- The current line has what fits of some cells. -/
structure Cut (maxWidth : Nat) (ended : List (List Cell)) (current : List Cell)
    (out : LayoutOut) : Prop where
  width : out.width = maxWidth
  noWrap : out.wrap = false
  ended : (callLines out.calls).1 =
    ended.map fun cells => (Cell.taken maxWidth cells).map Cell.run
  runs : (callLines out.calls).2 = (Cell.taken maxWidth current).map Cell.run
  counted : out.column = Cell.widths (Cell.taken maxWidth current)
  full : Cell.taken maxWidth current = current ∨ maxWidth ≤ out.column + 1

variable {maxWidth : Nat} {ended : List (List Cell)} {current : List Cell} {out : LayoutOut}

theorem Cut.bound (h : Cut maxWidth ended current out) : out.column ≤ maxWidth :=
  h.counted ▸ Cell.widths_taken maxWidth current

theorem Cut.ends (h : Cut maxWidth ended current out) :
    Cut maxWidth (ended ++ [current]) [] out.lineBreak := by
  refine ⟨h.width, h.noWrap, ?_, ?_, rfl, .inl rfl⟩
  · unfold lineBreak
    rw [callLines_lineBreak, map_append, map_singleton, h.ended, h.runs]
  · unfold lineBreak
    rw [callLines_lineBreak]
    rfl

/-- A cell that is no line end. -/
theorem Cut.cluster (h : Cut maxWidth ended current out) (hpos : 0 < maxWidth) {cell : Cell}
    (hcell : cell.Sound) (hend : cell.2 ≠ ['\n']) (hreturn : cell.2 ≠ ['\r']) :
    Cut maxWidth ended (current ++ [cell]) (out.cluster cell.1 cell.2) ∧
      out.column ≤ (out.cluster cell.1 cell.2).column := by
  have hboth : cell.2 ≠ ['\r', '\n'] := hcell.ne_both hreturn
  have htwo := cell_width_le cell
  have hbound := h.bound
  have htaken := Cell.taken_append maxWidth current [cell]
  rw [← h.counted] at htaken
  unfold LayoutOut.cluster
  rw [if_neg (not_or.mpr ⟨hend, hboth⟩), if_neg hreturn, h.width, h.noWrap]
  by_cases hroom : maxWidth < out.column + cell.width
  · -- the cell is left out
    rw [if_pos (show 0 < maxWidth ∧ maxWidth < out.column + graphemeClusterWidth cell.2 from
      ⟨hpos, hroom⟩), if_neg Bool.false_ne_true]
    have hleft : Cell.taken maxWidth (current ++ [cell]) = Cell.taken maxWidth current := by
      rw [htaken, Cell.taken_of_lt (by omega)]
      exact append_nil _
    exact ⟨⟨h.width, h.noWrap, h.ended, hleft ▸ h.runs, hleft ▸ h.counted, .inr (by omega)⟩,
      Nat.le_refl _⟩
  · rw [if_neg fun hlt => hroom hlt.2, put_eq (by rw [h.width]; omega)]
    have hput : Cell.taken maxWidth (current ++ [cell]) =
        Cell.taken maxWidth current ++ [cell] := by
      rw [htaken, Cell.taken_of_le (by omega)]
      rfl
    refine ⟨⟨h.width, h.noWrap, ?_, ?_, ?_, ?_⟩, Nat.le_add_right _ _⟩
    · dsimp only
      rw [callLines_run]
      exact h.ended
    · dsimp only
      rw [callLines_run, hput, h.runs, map_append, map_singleton]
    · dsimp only
      rw [hput, Cell.widths_append, ← h.counted]
      exact congrArg (out.column + ·) (Nat.add_zero _).symm
    · rw [hput]
      exact h.full.imp (congrArg (· ++ [cell])) fun hfull => by
        dsimp only
        omega

/-- The blanks of a tab. -/
theorem Cut.blanks (h : Cut maxWidth ended current out) (hpos : 0 < maxWidth) (style : Style)
    (n : Nat) :
    Cut maxWidth ended (current ++ List.replicate n (style, [' ']))
        ((List.replicate n [' ']).foldl (LayoutOut.cluster style) out) ∧
      out.column ≤ ((List.replicate n [' ']).foldl (LayoutOut.cluster style) out).column := by
  induction n generalizing current out with
  | zero =>
      rw [replicate_zero, replicate_zero]
      exact ⟨(append_nil current).symm ▸ h, Nat.le_refl _⟩
  | succ n ih =>
      obtain ⟨hblank, hcolumn⟩ := h.cluster hpos (Cell.sound_blank style)
        (by decide : [' '] ≠ ['\n']) (by decide : [' '] ≠ ['\r'])
      obtain ⟨hmore, hcolumns⟩ := ih hblank
      rw [append_assoc] at hmore
      exact ⟨hmore, Nat.le_trans hcolumn hcolumns⟩

/-- A tab, whose blanks are counted from the column that the line has without a limit. -/
theorem Cut.tab (h : Cut maxWidth ended current out) (hpos : 0 < maxWidth) (style : Style) :
    Cut maxWidth ended (current ++ Cell.expand (Cell.widths current) (style, ['\t']))
      (out.cell (style, ['\t'])) := by
  unfold LayoutOut.cell Cell.expand
  rw [if_pos rfl, step_tab]
  obtain ⟨hblanks, hcolumn⟩ := h.blanks hpos style (4 - out.column % 4)
  rcases h.full with hall | hfull
  · have hcounted := h.counted
    rw [hall] at hcounted
    rw [← hcounted]
    exact hblanks
  · -- however many blanks there are, what fits of them is what fits of one
    have hone : ∀ {n : Nat}, 0 < n →
        Cell.taken maxWidth (current ++ replicate n (style, [' '])) =
          Cell.taken maxWidth (current ++ [(style, [' '])]) := by
      intro n hn
      rw [Cell.taken_append, Cell.taken_append, ← h.counted,
        Cell.taken_blanks (by omega) style hn]
    have hsame := (hone (blanks_bound out.column).1).trans
      (hone (blanks_bound (Cell.widths current)).1).symm
    refine ⟨hblanks.width, hblanks.noWrap, hblanks.ended, ?_, ?_,
      .inr (Nat.le_trans hfull (Nat.succ_le_succ hcolumn))⟩
    · exact hsame ▸ hblanks.runs
    · exact hsame ▸ hblanks.counted

/-- A sound cell of the text. -/
theorem Cut.add (h : Cut maxWidth ended current out) (hpos : 0 < maxWidth) {cell : Cell}
    (hcell : cell.Sound) :
    Cut maxWidth (Cell.add (ended, current) cell).1 (Cell.add (ended, current) cell).2
      (out.cell cell) := by
  obtain ⟨style, cs⟩ := cell
  unfold Cell.add
  dsimp only
  by_cases htab : cs = ['\t']
  · subst htab
    exact h.tab hpos style
  · by_cases hend : cs = ['\n']
    · subst hend
      exact h.ends
    · rw [if_neg hend]
      unfold Cell.expand LayoutOut.cell step
      rw [if_neg htab, if_neg htab]
      by_cases hreturn : cs = ['\r']
      · subst hreturn
        rw [if_pos rfl, append_nil]
        exact h
      · rw [if_neg hreturn]
        exact (h.cluster hpos hcell hend hreturn).1

end LayoutOut

/-! ## What is written without wrapping -/

namespace Cell

theorem Sound.expand {cell : Cell} (h : cell.Sound) (column : Nat) :
    ∀ other ∈ cell.expand column, other.Sound := by
  unfold Cell.expand
  split
  · intro other hother
    rw [eq_of_mem_replicate hother]
    exact sound_blank cell.1
  · split
    · exact fun _ hother => absurd hother not_mem_nil
    · exact forall_mem_singleton.mpr h

theorem chars_blanks (style : Style) (n : Nat) :
    (List.replicate n ((style, [' ']) : Cell)).flatMap chars =
      styledText style (List.replicate n ' ') := by
  induction n with
  | zero => rfl
  | succ n ih =>
      rw [replicate_succ, flatMap_cons, ih, replicate_succ]
      rfl

/-- What a sound cell is expanded to. -/
theorem Sound.expands {cell : Cell} (h : cell.Sound) (column : Nat) :
    Expands cell.chars ((cell.expand column).flatMap chars) := by
  obtain ⟨style, cs⟩ := cell
  unfold Cell.expand
  dsimp only
  by_cases htab : cs = ['\t']
  · subst htab
    obtain ⟨hpos, hle⟩ := blanks_bound column
    have htabs : Expands [(style, '\t')] _ := .tab (4 - column % 4) hpos hle .nil
    rw [if_pos rfl, chars_blanks]
    rwa [append_nil] at htabs
  · rw [if_neg htab]
    by_cases hreturn : cs = ['\r']
    · subst hreturn
      exact .return .nil
    · rw [if_neg hreturn, flatMap_singleton]
      refine expands_self fun sc hsc => ?_
      obtain ⟨c, hc, rfl⟩ := mem_map.mp hsc
      refine ⟨?_, ?_⟩
      · rintro rfl
        exact hreturn (h.single _ hc (.inr (.inl rfl)))
      · rintro rfl
        exact htab (h.single _ hc (.inr (.inr rfl)))

end Cell

end Omp2.Render
