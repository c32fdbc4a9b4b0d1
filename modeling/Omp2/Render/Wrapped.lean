import Mathlib.Data.Bool.AllAny
import Omp2.Render.Cutting

/-!
# What wrapping keeps

When wrapping loses nothing and fits. A text must have only characters that sanitizing keeps, and
no newline, carriage return or tab that shares its cluster with another character; each word of a
line that is too wide must fit, since no word is divided; and where nothing is wrapped, nothing may
fit after the first cell that is left out.
-/

namespace Omp2.Render

open Component RichText List

/-- What wrapping a text to a width is meant to keep: filling divides each logical line into lines
that fit, the layout does so with each line expanded, and without wrapping the layout writes the
first cells of each line that fit. -/
structure KeepsText (text : RichText) (width : Nat) : Prop where
  counted : (logicalLines (styled text.runs)).length =
    (styled text.runs).countP (·.2 = '\n') + 1
  character : Wraps width (logicalLines (styled text.runs))
    (wrapRichText text width .characterWrap)
  word : Wraps width (logicalLines (styled text.runs)) (wrapRichText text width .wordWrap)
  layout : ∃ expanded, List.Forall₂ Expands (logicalLines (styled text.runs)) expanded ∧
    Wraps width expanded (outputLines (LayoutOut.layout text width true))
  expanded : List.Forall₂ Expands (logicalLines (styled text.runs))
    ((Cell.lines text).map fun cells => cells.flatMap Cell.chars)
  begins : List.Forall₂
    (fun cells line => line.runs <+: cells.map Cell.run ∧ line.width ≤ width)
    (Cell.lines text) (outputLines (LayoutOut.layout text width false))

variable {text : RichText} {width : Nat}

/-! ## Texts that are kept -/

theorem wrapRichText_eq (hpos : 0 < width) {mode : WrapMode} (hmode : mode ≠ .noWrap) :
    wrapRichText text width mode = text.splitLines.flatMap (wrapLine width mode) :=
  if_neg (not_or.mpr ⟨Nat.ne_of_gt hpos, hmode⟩)

/-- Each character that is no newline is on a logical line. -/
theorem exists_logicalLine {chars : List StyledChar} {sc : StyledChar} (h : sc ∈ chars)
    (hnewline : sc.2 ≠ '\n') : ∃ line ∈ logicalLines chars, sc ∈ line := by
  have hfrom : sc ∈ (linesSoFar chars).2 ∨ ∃ line ∈ (linesSoFar chars).1, sc ∈ line := by
    induction chars using reverseRecOn with
    | nil => cases h
    | append_singleton chars last ih =>
      unfold linesSoFar at ih ⊢
      rw [foldl_append, foldl_cons, foldl_nil]
      generalize chars.foldl addChar ([], []) = state at *
      obtain ⟨lines, current⟩ := state
      unfold addChar
      rcases mem_append.mp h with h | h
      · split
        · rcases ih h with hcurrent | ⟨line, hline, hsc⟩
          · exact .inr ⟨current, mem_concat_self, hcurrent⟩
          · exact .inr ⟨line, mem_append_left _ hline, hsc⟩
        · exact (ih h).imp_left (mem_append_left _)
      · cases mem_singleton.mp h
        rw [if_neg hnewline]
        exact .inl mem_concat_self
  rcases hfrom with hcurrent | ⟨line, hline, hsc⟩
  · exact ⟨_, mem_concat_self, hcurrent⟩
  · exact ⟨line, mem_append_left _ hline, hsc⟩

/-- No character of a logical line is a newline. -/
theorem ne_newline_of_mem_logicalLine {chars line : List StyledChar}
    (h : line ∈ logicalLines chars) : ∀ sc ∈ line, sc.2 ≠ '\n' := by
  have hfrom : (∀ line ∈ (linesSoFar chars).1, ∀ sc ∈ line, sc.2 ≠ '\n') ∧
      ∀ sc ∈ (linesSoFar chars).2, sc.2 ≠ '\n' := by
    clear h
    unfold linesSoFar
    induction chars using reverseRecOn with
    | nil => exact ⟨fun _ h => absurd h not_mem_nil, fun _ h => absurd h not_mem_nil⟩
    | append_singleton chars last ih =>
      rw [foldl_append, foldl_cons, foldl_nil]
      generalize chars.foldl addChar ([], []) = state at *
      obtain ⟨lines, current⟩ := state
      unfold addChar
      split
      · refine ⟨fun line hline => ?_, fun _ h => absurd h not_mem_nil⟩
        rcases mem_append.mp hline with hline | hline
        · exact ih.1 line hline
        · exact mem_singleton.mp hline ▸ ih.2
      · next hlast =>
        refine ⟨ih.1, fun sc hsc => ?_⟩
        rcases mem_append.mp hsc with hsc | hsc
        · exact ih.2 sc hsc
        · exact mem_singleton.mp hsc ▸ hlast
  rcases mem_append.mp h with h | h
  · exact hfrom.1 line h
  · exact mem_singleton.mp h ▸ hfrom.2

theorem exists_of_forall₂_right {α β : Type} {R : α → β → Prop} {as : List α} {bs : List β}
    (h : List.Forall₂ R as bs) {b : β} (hb : b ∈ bs) : ∃ a ∈ as, R a b := by
  induction h with
  | nil => cases hb
  | cons hab _ ih =>
      rcases mem_cons.mp hb with rfl | hb
      · exact ⟨_, mem_cons_self, hab⟩
      · obtain ⟨a, ha, hR⟩ := ih hb
        exact ⟨a, mem_cons_of_mem _ ha, hR⟩

/-- Each character of a line that is divided is on a line that it is divided into. -/
theorem Wraps.mem_of_line {lines : List (List StyledChar)} {wrapped : List RichText}
    (h : Wraps width lines wrapped) {line : List StyledChar} (hline : line ∈ lines)
    {sc : StyledChar} (hsc : sc ∈ line) : ∃ filled ∈ wrapped, sc ∈ styled filled.runs := by
  obtain ⟨groups, rfl, rfl⟩ := h.divided
  obtain ⟨group, hgroup, rfl⟩ := mem_map.mp hline
  obtain ⟨filled, hfilled, hsc⟩ := mem_flatMap.mp hsc
  exact ⟨filled, mem_flatten.mpr ⟨group, hgroup, hfilled⟩, hsc⟩

/-- Each character of what lines are divided into is on one of the lines. -/
theorem Wraps.mem_of_filled {lines : List (List StyledChar)} {wrapped : List RichText}
    (h : Wraps width lines wrapped) {filled : RichText} (hfilled : filled ∈ wrapped)
    {sc : StyledChar} (hsc : sc ∈ styled filled.runs) : ∃ line ∈ lines, sc ∈ line := by
  obtain ⟨groups, rfl, rfl⟩ := h.divided
  obtain ⟨group, hgroup, hfilled⟩ := mem_flatten.mp hfilled
  exact ⟨_, mem_map_of_mem hgroup, mem_flatMap.mpr ⟨filled, hfilled, hsc⟩⟩

/-- A text that is kept is allowed, since what is filled has been sanitized. -/
theorem KeepsText.allowed (htwo : 2 ≤ width) (h : KeepsText text width) :
    AllowedRuns text.runs := by
  intro run hrun c hc
  by_cases hnewline : c = '\n'
  · exact .inl hnewline
  · have hsc : (run.style, c) ∈ styled text.runs :=
      mem_flatMap.mpr ⟨run, hrun, mem_map_of_mem hc⟩
    obtain ⟨line, hline, hsc⟩ := exists_logicalLine hsc hnewline
    obtain ⟨filled, hfilled, hsc⟩ := h.character.mem_of_line hline hsc
    rw [wrapRichText_eq (Nat.lt_of_lt_of_le Nat.zero_lt_two htwo) (by decide)] at hfilled
    obtain ⟨source, hsource, hfilled⟩ := mem_flatMap.mp hfilled
    have htidy := (splitLines_spec text).1 source hsource
    have hsame := (wrapLine_character htwo htidy).1
    have hmem : (run.style, c) ∈ styled source.runs :=
      hsame ▸ mem_flatMap.mpr ⟨filled, hfilled, hsc⟩
    obtain ⟨other, hother, hmem⟩ := mem_flatMap.mp hmem
    obtain ⟨d, hd, heq⟩ := mem_map.mp hmem
    exact (Prod.mk.inj heq).2 ▸ htidy.allowed other hother d hd

/-- With wrapping, the layout writes each cell that is no line end and no tab. -/
theorem mem_layout {cell : Cell} (htwo : 2 ≤ width) (hcell : cell ∈ Cell.ofRuns text.runs)
    (hend : cell.2 ≠ ['\n']) (hboth : cell.2 ≠ ['\r', '\n']) (hreturn : cell.2 ≠ ['\r'])
    (htab : cell.2 ≠ ['\t']) : .run cell.run ∈ LayoutOut.layout text width true := by
  obtain ⟨before, after, hcells⟩ := append_of_mem hcell
  rw [LayoutOut.layout_eq, hcells, foldl_append, foldl_cons]
  have hbefore := LayoutOut.Extends.foldl LayoutOut.extends_cell before ⟨width, true, 0, []⟩
  have hmem : .run cell.run ∈
      ((before.foldl LayoutOut.cell ⟨width, true, 0, []⟩).cell cell).calls := by
    unfold LayoutOut.cell LayoutOut.step
    rw [if_neg htab]
    exact LayoutOut.mem_calls_cluster hbefore.wrap (hbefore.width ▸ htwo) hend hboth hreturn
  exact (LayoutOut.Extends.foldl LayoutOut.extends_cell after _).calls _ hmem

/-- In a text that is kept no newline, carriage return or tab shares its cluster. -/
theorem KeepsText.alone (htwo : 2 ≤ width) (h : KeepsText text width) :
    ∀ run ∈ text.runs, ∀ cluster ∈ graphemeClusters run.text.toList, ∀ c ∈ cluster,
      Cell.Separate c → cluster = [c] := by
  intro run hrun cluster hcluster c hc hseparate
  by_contra hshared
  have hcell : (run.style, cluster) ∈ Cell.ofRuns text.runs :=
    mem_flatMap.mpr ⟨run, hrun, mem_map_of_mem hcluster⟩
  have hne (d : Char) : cluster ≠ [d] := by
    rintro rfl
    exact hshared (congrArg (fun d => [d]) (mem_singleton.mp hc).symm)
  have hboth : cluster ≠ ['\r', '\n'] := by
    rintro rfl
    exact absurd (Cell.cluster_of_mem hcluster) (by decide)
  have hwritten := mem_layout htwo hcell (hne _) hboth (hne _) (hne _)
  obtain ⟨line, hline, hmem⟩ := exists_line_of_run hwritten
  have hallowed : ∀ d ∈ cluster, Allowed d := fun d hd => h.allowed htwo run hrun d (by
    rw [← graphemeClusters_flatten run.text.toList]
    exact mem_flatten.mpr ⟨cluster, hcluster, hd⟩)
  have hsc : (run.style, c) ∈ styled line.runs := by
    refine mem_flatMap.mpr ⟨_, hmem, mem_map.mpr ⟨c, ?_, rfl⟩⟩
    unfold Cell.run Run.new
    dsimp only
    rw [sanitizeText_ofList hallowed, String.toList_ofList]
    exact hc
  -- the character would be on a line that has been expanded
  obtain ⟨expanded, hexpands, hwraps⟩ := h.layout
  obtain ⟨expandedLine, hexpandedLine, hsc⟩ := hwraps.mem_of_filled hline hsc
  obtain ⟨logicalLine, hlogicalLine, hexpand⟩ := exists_of_forall₂_right hexpands hexpandedLine
  rcases hexpand.mem _ hsc with hblank | ⟨hmem, hreturn, htab⟩
  · dsimp only at hblank
    subst hblank
    exact absurd hseparate (by unfold Cell.Separate; decide)
  · have hnewline := ne_newline_of_mem_logicalLine hlogicalLine _ hmem
    rcases hseparate with rfl | rfl | rfl
    · exact hnewline rfl
    · exact hreturn rfl
    · exact htab rfl

end Omp2.Render
