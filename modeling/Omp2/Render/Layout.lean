import Omp2.Render.Filled

/-!
# Lines of the layout

The layout reads a text as cells, which are its clusters with their styles. With wrapping, each
cell that is no line end goes to the current line, which ends before it when there is no room.
Without wrapping, a cell for which there is no room is left out, but the cells after it are not,
so a line of the output begins the line of the text only if nothing fits after the first cell
that does not.
-/

namespace Omp2.Render

open Component RichText List

/-! ## Cells -/

/-- A cluster with its style. -/
abbrev Cell := Style × List Char

namespace Cell

/-- The cells of some runs. -/
def ofRuns (runs : List Run) : List Cell :=
  runs.flatMap fun run => (graphemeClusters run.text.toList).map fun cluster => (run.style, cluster)

/-- The width of a cell. -/
def width (cell : Cell) : Nat :=
  graphemeClusterWidth cell.2

/-- The styled characters of a cell. -/
def chars (cell : Cell) : List StyledChar :=
  styledText cell.1 cell.2

/-- The run that a cell is written as. -/
def run (cell : Cell) : Run :=
  .new cell.1 (String.ofList cell.2)

/-- Characters that can not share their cell with another one. -/
def Separate (c : Char) : Prop :=
  c = '\n' ∨ c = '\r' ∨ c = '\t'

instance : DecidablePred Separate := fun _ => inferInstanceAs (Decidable (_ ∨ _))

/-- A cell of allowed characters, whose cluster is the only one, and which is not a separate
character with others. -/
structure Sound (cell : Cell) : Prop where
  allowed : ∀ c ∈ cell.2, Allowed c
  cluster : graphemeClusters cell.2 = [cell.2]
  single : ∀ c ∈ cell.2, Separate c → cell.2 = [c]

theorem cluster_of_mem {cs cluster : List Char} (h : cluster ∈ graphemeClusters cs) :
    graphemeClusters cluster = [cluster] := by
  obtain ⟨before, after, hclusters⟩ := append_of_mem h
  have hsegment : graphemeClusters cs = before ++ [cluster] ++ after := by
    rw [hclusters, append_assoc, singleton_append]
  simpa using graphemeClusters_segment hsegment

theorem Sound.run_eq {cell : Cell} (h : cell.Sound) :
    cell.run = ⟨cell.1, String.ofList cell.2⟩ :=
  congrArg (Run.mk cell.1) (sanitizeText_ofList h.allowed)

theorem Sound.width_run {cell : Cell} (h : cell.Sound) :
    strVisibleWidth cell.run.text = cell.width := by
  rw [h.run_eq]
  unfold strVisibleWidth visibleWidth
  dsimp only
  rw [String.toList_ofList, h.cluster, map_singleton, sum_singleton]
  rfl

theorem Sound.styled_run {cell : Cell} (h : cell.Sound) : styled [cell.run] = cell.chars := by
  rw [h.run_eq, styled_singleton, String.toList_ofList]
  rfl

theorem Sound.ne_both {cell : Cell} (h : cell.Sound) (hreturn : cell.2 ≠ ['\r']) :
    cell.2 ≠ ['\r', '\n'] := by
  intro hboth
  refine hreturn (h.single '\r' ?_ (.inr (.inl rfl)))
  rw [hboth]
  exact mem_cons_self

theorem sound_blank (style : Style) : Sound (style, [' ']) := by
  refine ⟨fun c hc => ?_, rfl, fun c hc _ => ?_⟩
  · rw [mem_singleton.mp hc]
    exact .inr (.inr (.inr (by decide)))
  · rw [mem_singleton.mp hc]

end Cell

/-! ## Blanks -/

/-- The clusters of blanks. -/
theorem graphemeClusters_blanks (n : Nat) :
    graphemeClusters (List.replicate n ' ') = List.replicate n [' '] := by
  have hafter (n : Nat) : clustersAfter (.opening ' ') (replicate n ' ') =
      ([], replicate n [' ']) := by
    induction n with
    | zero => rfl
    | succ n ih =>
      have hblank : (ClusterState.opening ' ').extend ' ' = none := by decide
      rw [replicate_succ, replicate_succ, clustersAfter, hblank]
      dsimp only
      rw [ih]
  cases n with
  | zero => rfl
  | succ n =>
      rw [replicate_succ, replicate_succ, graphemeClusters, hafter]

/-- The blanks of a tab, which are written one by one. -/
theorem LayoutOut.step_tab (style : Style) (out : LayoutOut) :
    out.step style ['\t'] =
      (List.replicate (4 - out.column % 4) [' ']).foldl (LayoutOut.cluster style) out := by
  have hallowed : ∀ c ∈ LayoutOut.blanks out.column, Allowed c := by
    intro c hc
    rw [eq_of_mem_replicate hc]
    exact .inr (.inr (.inr (by decide)))
  unfold LayoutOut.step
  rw [if_pos rfl, sanitizeText_ofList hallowed, String.toList_ofList, LayoutOut.blanks,
    graphemeClusters_blanks]

theorem blanks_bound (column : Nat) : 0 < 4 - column % 4 ∧ 4 - column % 4 ≤ 4 := by
  omega

/-! ## Expanding -/

theorem Expands.append {line expanded line' expanded' : List StyledChar}
    (h : Expands line expanded) (h' : Expands line' expanded') :
    Expands (line ++ line') (expanded ++ expanded') := by
  induction h with
  | nil => exact h'
  | «return» _ ih => exact .return ih
  | tab n hpos hle _ ih =>
      rw [append_assoc]
      exact .tab n hpos hle ih
  | char hreturn htab _ ih => exact .char hreturn htab ih

theorem expands_self {line : List StyledChar} (h : ∀ sc ∈ line, sc.2 ≠ '\r' ∧ sc.2 ≠ '\t') :
    Expands line line := by
  induction line with
  | nil => exact .nil
  | cons sc line ih =>
      obtain ⟨hsc, hline⟩ := forall_mem_cons.mp h
      exact .char hsc.1 hsc.2 (ih hline)

/-- What a line is expanded to has characters of the line and blanks. -/
theorem Expands.mem {line expanded : List StyledChar} (h : Expands line expanded) :
    ∀ sc ∈ expanded, sc.2 = ' ' ∨ (sc ∈ line ∧ sc.2 ≠ '\r' ∧ sc.2 ≠ '\t') := by
  induction h with
  | nil => exact fun _ hsc => absurd hsc not_mem_nil
  | «return» _ ih =>
      intro sc hsc
      exact (ih sc hsc).imp_right fun h => ⟨mem_cons_of_mem _ h.1, h.2⟩
  | tab n _ _ _ ih =>
      intro sc hsc
      rcases mem_append.mp hsc with hsc | hsc
      · obtain ⟨c, hc, rfl⟩ := mem_map.mp hsc
        exact .inl (eq_of_mem_replicate hc)
      · exact (ih sc hsc).imp_right fun h => ⟨mem_cons_of_mem _ h.1, h.2⟩
  | char hreturn htab _ ih =>
      intro sc hsc
      rcases mem_cons.mp hsc with rfl | hsc
      · exact .inr ⟨mem_cons_self, hreturn, htab⟩
      · exact (ih sc hsc).imp_right fun h => ⟨mem_cons_of_mem _ h.1, h.2⟩

theorem callLines_run (calls : List Call) (run : Run) :
    callLines (calls ++ [.run run]) = ((callLines calls).1, (callLines calls).2 ++ [run]) := by
  unfold callLines
  rw [foldl_append]
  rfl

theorem callLines_lineBreak (calls : List Call) :
    callLines (calls ++ [.lineBreak]) = ((callLines calls).1 ++ [(callLines calls).2], []) := by
  unfold callLines
  rw [foldl_append]
  rfl

theorem width_concat (runs : List Run) (run : Run) :
    (RichText.mk (runs ++ [run])).width = (RichText.mk runs).width + strVisibleWidth run.text := by
  unfold RichText.width
  rw [map_append, sum_append, map_singleton, sum_singleton]

/-- Each run that is written is on a line. -/
theorem exists_line_of_run {calls : List Call} {run : Run} (h : .run run ∈ calls) :
    ∃ line ∈ outputLines calls, run ∈ line.runs := by
  have hlines : ∃ line ∈ (callLines calls).1 ++ [(callLines calls).2], run ∈ line := by
    induction calls using reverseRecOn with
    | nil => cases h
    | append_singleton calls call ih =>
      rcases mem_append.mp h with h | h
      · obtain ⟨line, hline, hrun⟩ := ih h
        cases call with
        | run other =>
          rw [callLines_run]
          rcases mem_append.mp hline with hline | hline
          · exact ⟨line, mem_append_left _ hline, hrun⟩
          · rw [mem_singleton.mp hline] at hrun
            exact ⟨_, mem_concat_self, mem_append_left _ hrun⟩
        | lineBreak =>
          rw [callLines_lineBreak]
          exact ⟨line, mem_append_left _ hline, hrun⟩
      · cases mem_singleton.mp h
        rw [callLines_run]
        exact ⟨_, mem_concat_self, mem_concat_self⟩
  obtain ⟨line, hline, hrun⟩ := hlines
  exact ⟨⟨line⟩, mem_map_of_mem hline, hrun⟩

namespace LayoutOut

/-! ## Cells of the layout -/

/-- A cell of the text. -/
def cell (out : LayoutOut) (cell : Cell) : LayoutOut :=
  out.step cell.1 cell.2

/-- The layout writes cell after cell. -/
theorem layout_eq (text : RichText) (width : Nat) (wrap : Bool) :
    layout text width wrap =
      ((Cell.ofRuns text.runs).foldl cell ⟨width, wrap, 0, []⟩).calls := by
  have hfrom : ∀ (runs : List Run) (out : LayoutOut),
      runs.foldl writeRun out = (Cell.ofRuns runs).foldl cell out := by
    intro runs
    induction runs with
    | nil => exact fun _ => rfl
    | cons run runs ih =>
      intro out
      rw [foldl_cons, ih]
      unfold Cell.ofRuns
      rw [flatMap_cons, foldl_append, foldl_map]
      rfl
  exact congrArg calls (hfrom text.runs _)

/-- Nothing that has been written is taken back, and the settings stay. -/
structure Extends (out out' : LayoutOut) : Prop where
  width : out'.width = out.width
  wrap : out'.wrap = out.wrap
  calls : ∀ call ∈ out.calls, call ∈ out'.calls

theorem Extends.refl (out : LayoutOut) : Extends out out :=
  ⟨rfl, rfl, fun _ h => h⟩

theorem Extends.trans {out out' out'' : LayoutOut} (h : Extends out out')
    (h' : Extends out' out'') : Extends out out'' :=
  ⟨h'.width.trans h.width, h'.wrap.trans h.wrap,
    fun call hcall => h'.calls call (h.calls call hcall)⟩

theorem Extends.foldl {α : Type} {f : LayoutOut → α → LayoutOut}
    (h : ∀ out a, Extends out (f out a)) (as : List α) (out : LayoutOut) :
    Extends out (as.foldl f out) := by
  induction as generalizing out with
  | nil => exact .refl out
  | cons a as ih => exact (h out a).trans (ih (f out a))

theorem extends_lineBreak (out : LayoutOut) : Extends out out.lineBreak :=
  ⟨rfl, rfl, fun _ h => mem_append_left _ h⟩

theorem extends_put (out : LayoutOut) (style : Style) (cs : List Char) :
    Extends out (out.put style cs) := by
  unfold put
  dsimp only
  split
  · exact ⟨rfl, rfl, fun _ h => mem_append_left _ h⟩
  · exact .refl out

theorem extends_cluster (style : Style) (out : LayoutOut) (cs : List Char) :
    Extends out (out.cluster style cs) := by
  unfold cluster
  split
  · exact extends_lineBreak out
  · split
    · exact .refl out
    · split
      · split
        · exact (extends_lineBreak out).trans (extends_put _ style cs)
        · exact .refl out
      · exact extends_put out style cs

theorem extends_cell (out : LayoutOut) (cell : Cell) : Extends out (out.cell cell) := by
  unfold LayoutOut.cell
  by_cases htab : cell.2 = ['\t']
  · rw [htab, step_tab]
    exact .foldl (extends_cluster cell.1) _ out
  · unfold step
    rw [if_neg htab]
    exact extends_cluster cell.1 out cell.2

theorem put_eq {out : LayoutOut} {cell : Cell} (h : cell.width ≤ out.width) :
    out.put cell.1 cell.2 =
      { out with column := out.column + cell.width, calls := out.calls ++ [.run cell.run] } :=
  if_pos (.inr h)

theorem cell_width_le (cell : Cell) : cell.width ≤ 2 :=
  graphemeClusterWidth_le cell.2

/-- With wrapping, each cell that is no line end is written. -/
theorem mem_calls_cluster {out : LayoutOut} (hwrap : out.wrap = true) (htwo : 2 ≤ out.width)
    {cell : Cell} (hend : cell.2 ≠ ['\n']) (hboth : cell.2 ≠ ['\r', '\n'])
    (hreturn : cell.2 ≠ ['\r']) : .run cell.run ∈ (out.cluster cell.1 cell.2).calls := by
  have hfits : cell.width ≤ out.width := Nat.le_trans (cell_width_le cell) htwo
  unfold cluster
  rw [if_neg (not_or.mpr ⟨hend, hboth⟩), if_neg hreturn]
  split
  · rw [put_eq (show cell.width ≤ out.lineBreak.width from hfits)]
    exact mem_concat_self
  · rw [put_eq hfits]
    exact mem_concat_self

/-! ## With wrapping -/

/-- The lines are written in a group for each line that has ended and for the current one. -/
structure Laid (maxWidth : Nat) (ended : List (List StyledChar)) (current : List StyledChar)
    (out : LayoutOut) : Prop where
  width : out.width = maxWidth
  wrap : out.wrap = true
  divided : ∃ (groups : List (List (List Run))) (group : List (List Run)),
    (callLines out.calls).1 = groups.flatten ++ group ∧
      groups.map (fun group => styled group.flatten) = ended ∧
      styled (group.flatten ++ (callLines out.calls).2) = current
  fits : ∀ line ∈ (callLines out.calls).1, (RichText.mk line).width ≤ maxWidth
  counted : out.column = (RichText.mk (callLines out.calls).2).width
  bound : out.column ≤ maxWidth

variable {maxWidth : Nat} {ended : List (List StyledChar)} {current : List StyledChar}
  {out : LayoutOut}

theorem Laid.fits_lineBreak (h : Laid maxWidth ended current out) :
    ∀ line ∈ (callLines out.lineBreak.calls).1, (RichText.mk line).width ≤ maxWidth := by
  intro line hline
  unfold lineBreak at hline
  rw [callLines_lineBreak] at hline
  rcases mem_append.mp hline with hline | hline
  · exact h.fits line hline
  · rw [mem_singleton.mp hline, ← h.counted]
    exact h.bound

/-- The end of a line of the text. -/
theorem Laid.ends (h : Laid maxWidth ended current out) :
    Laid maxWidth (ended ++ [current]) [] out.lineBreak := by
  obtain ⟨groups, group, hlines, hended, hcurrent⟩ := h.divided
  refine ⟨h.width, h.wrap, ⟨groups ++ [group ++ [(callLines out.calls).2]], [], ?_, ?_, ?_⟩,
    h.fits_lineBreak, ?_, Nat.zero_le _⟩
  · unfold lineBreak
    rw [callLines_lineBreak, flatten_append, flatten_singleton, hlines,
      append_nil, append_assoc]
  · rw [map_append, map_singleton, hended, flatten_append,
      flatten_singleton, hcurrent]
  · unfold lineBreak
    rw [callLines_lineBreak]
    rfl
  · unfold lineBreak
    rw [callLines_lineBreak]
    rfl

/-- The end of a line for which there is no room. -/
theorem Laid.breaks (h : Laid maxWidth ended current out) :
    Laid maxWidth ended current out.lineBreak := by
  obtain ⟨groups, group, hlines, hended, hcurrent⟩ := h.divided
  refine ⟨h.width, h.wrap, ⟨groups, group ++ [(callLines out.calls).2], ?_, hended, ?_⟩,
    h.fits_lineBreak, ?_, Nat.zero_le _⟩
  · unfold lineBreak
    rw [callLines_lineBreak, hlines, append_assoc]
  · unfold lineBreak
    rw [callLines_lineBreak, append_nil, flatten_append, flatten_singleton,
      hcurrent]
  · unfold lineBreak
    rw [callLines_lineBreak]
    rfl

/-- A cell for which there is room. -/
theorem Laid.put (h : Laid maxWidth ended current out) (htwo : 2 ≤ maxWidth) {cell : Cell}
    (hcell : cell.Sound) (hroom : out.column + cell.width ≤ maxWidth) :
    Laid maxWidth ended (current ++ cell.chars) (out.put cell.1 cell.2) := by
  have hfits : cell.width ≤ out.width := by
    rw [h.width]
    exact Nat.le_trans (cell_width_le cell) htwo
  rw [put_eq hfits]
  obtain ⟨groups, group, hlines, hended, hcurrent⟩ := h.divided
  refine ⟨h.width, h.wrap, ⟨groups, group, ?_, hended, ?_⟩, ?_, ?_, hroom⟩
  · dsimp only
    rw [callLines_run]
    exact hlines
  · dsimp only
    rw [callLines_run, ← append_assoc, styled_append, hcurrent, hcell.styled_run]
  · dsimp only
    rw [callLines_run]
    exact h.fits
  · dsimp only
    rw [callLines_run, width_concat, ← h.counted, hcell.width_run]

/-- A cell that is no line end. -/
theorem Laid.cluster (h : Laid maxWidth ended current out) (htwo : 2 ≤ maxWidth) {cell : Cell}
    (hcell : cell.Sound) (hend : cell.2 ≠ ['\n']) (hreturn : cell.2 ≠ ['\r']) :
    Laid maxWidth ended (current ++ cell.chars) (out.cluster cell.1 cell.2) := by
  have hboth : cell.2 ≠ ['\r', '\n'] := hcell.ne_both hreturn
  have hwidth := cell_width_le cell
  unfold LayoutOut.cluster
  rw [if_neg (not_or.mpr ⟨hend, hboth⟩), if_neg hreturn]
  split
  · rw [if_pos h.wrap]
    refine h.breaks.put htwo hcell ?_
    exact Nat.le_trans (Nat.le_of_eq (Nat.zero_add _)) (Nat.le_trans hwidth htwo)
  · next hroom =>
    refine h.put htwo hcell (Nat.le_of_not_lt fun hlt => hroom ⟨?_, ?_⟩)
    · rw [h.width]
      omega
    · rw [h.width]
      exact hlt

/-- The blanks of a tab. -/
theorem Laid.blanks (h : Laid maxWidth ended current out) (htwo : 2 ≤ maxWidth) (style : Style)
    (n : Nat) : Laid maxWidth ended (current ++ styledText style (List.replicate n ' '))
      ((List.replicate n [' ']).foldl (LayoutOut.cluster style) out) := by
  induction n generalizing current out with
  | zero =>
      rw [replicate_zero, replicate_zero]
      exact (append_nil current).symm ▸ h
  | succ n ih =>
      have hblank := h.cluster htwo (Cell.sound_blank style)
        (by decide : [' '] ≠ ['\n']) (by decide : [' '] ≠ ['\r'])
      have hmore := ih hblank
      rw [append_assoc] at hmore
      exact hmore

/-- A cell that is no newline adds what it is expanded to. -/
theorem Laid.cell (h : Laid maxWidth ended current out) (htwo : 2 ≤ maxWidth) {cell : Cell}
    (hcell : cell.Sound) (hend : cell.2 ≠ ['\n']) :
    ∃ more, Expands cell.chars more ∧ Laid maxWidth ended (current ++ more) (out.cell cell) := by
  obtain ⟨style, cs⟩ := cell
  unfold LayoutOut.cell
  by_cases htab : cs = ['\t']
  · subst htab
    obtain ⟨hpos, hle⟩ := blanks_bound out.column
    have hblanks := h.blanks htwo style (4 - out.column % 4)
    refine ⟨_, ?_, (step_tab style out).symm ▸ hblanks⟩
    have htabs : Expands [(style, '\t')] _ := Expands.tab (4 - out.column % 4) hpos hle .nil
    rwa [append_nil] at htabs
  · unfold step
    rw [if_neg htab]
    by_cases hreturn : cs = ['\r']
    · subst hreturn
      refine ⟨[], .return .nil, ?_⟩
      rw [append_nil]
      exact h
    · refine ⟨_, expands_self fun sc hsc => ?_, h.cluster htwo hcell hend hreturn⟩
      obtain ⟨c, hc, rfl⟩ := mem_map.mp hsc
      refine ⟨?_, ?_⟩
      · rintro rfl
        exact hreturn (hcell.single _ hc (.inr (.inl rfl)))
      · rintro rfl
        exact htab (hcell.single _ hc (.inr (.inr rfl)))

end LayoutOut

/-- The lines of the cells so far. -/
def linesSoFar (chars : List StyledChar) : List (List StyledChar) × List StyledChar :=
  chars.foldl addChar ([], [])

end Omp2.Render
