import Omp2.Cli.EditorRuns

/-!
# Where the cursor is shown

The lines that are shown are rows of clusters that lay out the text, each with the byte position at
which it starts. The cursor is shown on a row of them, after the clusters that stand before it,
unless it is at the end of a logical line that fills its last row.
-/

namespace Omp2.Cli

open Omp2.Text Omp2.Slices Omp2.Graphemes List

/-- A row of clusters, with the byte position at which it starts. -/
structure Row where
  start : Nat
  clusters : List (List Char)

/-- The text of a row. -/
def Row.text (row : Row) : List Char :=
  row.clusters.flatten

/-- The rows show all clusters from a byte position on, in order and without the newlines. -/
inductive Lays : Nat → List (List Char) → List Row → Prop
  | last (start : Nat) (clusters : List (List Char)) (h : ['\n'] ∉ clusters) :
    Lays start clusters [⟨start, clusters⟩]
  | soft (start : Nat) (clusters : List (List Char)) {rest : List (List Char)} {rows : List Row}
    (h : ['\n'] ∉ clusters) (hrows : Lays (start + byteLength clusters.flatten) rest rows) :
    Lays start (clusters ++ rest) (⟨start, clusters⟩ :: rows)
  | hard (start : Nat) (clusters : List (List Char)) {rest : List (List Char)} {rows : List Row}
    (h : ['\n'] ∉ clusters) (hrows : Lays (start + byteLength clusters.flatten + 1) rest rows) :
    Lays start (clusters ++ ['\n'] :: rest) (⟨start, clusters⟩ :: rows)

section Shown

variable [Segmentation]

/-- The columns that clusters take. -/
def columns (clusters : List (List Char)) : Nat :=
  (clusters.map Segmentation.width).sum

theorem columns_append (front rest : List (List Char)) :
    columns (front ++ rest) = columns front + columns rest := by
  unfold columns
  rw [map_append, sum_append]

/-- The rows point at a byte position by a column and a row. -/
def Points (rows : List Row) (target : Nat) (position : Nat × Nat) : Prop :=
  ∃ row part rest, rows[position.2]? = some row ∧ row.clusters = part ++ rest ∧
    row.start + byteLength part.flatten = target ∧ columns part = position.1

/-! ## The rows of a line -/

/-- The rows of a logical line and the last of them. -/
def wrapRows (width start : Nat) (clusters : List (List Char)) (lineWidth : Nat) :
    List (List Char) → List Row × Row
  | [] => ([], ⟨start, clusters⟩)
  | g :: gs =>
    if width < lineWidth + Segmentation.width g ∧ 0 < lineWidth then
      let (rows, last) :=
        wrapRows width (start + byteLength clusters.flatten) [g] (Segmentation.width g) gs
      (⟨start, clusters⟩ :: rows, last)
    else wrapRows width start (clusters ++ [g]) (lineWidth + Segmentation.width g) gs

/-- The width of the last row that a logical line takes. -/
def lastWidth (width lineWidth : Nat) : List (List Char) → Nat
  | [] => lineWidth
  | g :: gs =>
    if width < lineWidth + Segmentation.width g ∧ 0 < lineWidth then
      lastWidth width (Segmentation.width g) gs
    else lastWidth width (lineWidth + Segmentation.width g) gs

/-- All rows of a logical line. -/
def lineRows (width start : Nat) (clusters : List (List Char)) (lineWidth : Nat)
    (gs : List (List Char)) : List Row :=
  (wrapRows width start clusters lineWidth gs).1 ++ [(wrapRows width start clusters lineWidth gs).2]

/-- The rows of logical lines. -/
def rowsFrom (width start : Nat) : List (List Char) → List Row
  | [] => []
  | logical :: rest =>
    let autowrap : List Row :=
      if rest.isEmpty ∧ lastWidth width 0 (graphemes logical) = width then
        [⟨start + byteLength logical, []⟩]
      else []
    lineRows width start [] 0 (graphemes logical) ++
      (autowrap ++ rowsFrom width (start + byteLength logical + 1) rest)

variable {width target : Nat}

theorem lineRows_cons (start : Nat) (clusters : List (List Char)) (lineWidth : Nat) (g : List Char)
    (gs : List (List Char)) :
    lineRows width start clusters lineWidth (g :: gs) =
      if width < lineWidth + Segmentation.width g ∧ 0 < lineWidth then
        ⟨start, clusters⟩ :: lineRows width (start + byteLength clusters.flatten) [g]
          (Segmentation.width g) gs
      else lineRows width start (clusters ++ [g]) (lineWidth + Segmentation.width g) gs := by
  unfold lineRows
  rw [wrapRows]
  split <;> rfl

/-- The lines that are shown are the texts of the rows. -/
theorem wrapFrom_eq (start : Nat) (clusters : List (List Char)) (lineWidth : Nat)
    (gs : List (List Char)) :
    Editor.wrapFrom width clusters.flatten lineWidth gs =
      ((wrapRows width start clusters lineWidth gs).1.map Row.text,
        (wrapRows width start clusters lineWidth gs).2.text, lastWidth width lineWidth gs) := by
  induction gs generalizing start clusters lineWidth with
  | nil => rfl
  | cons g gs ih =>
      unfold Editor.wrapFrom wrapRows lastWidth
      dsimp only
      split
      · have hrest := ih (start + byteLength clusters.flatten) [g] (Segmentation.width g)
        rw [flatten_singleton] at hrest
        rw [hrest]
        rfl
      · have hrest := ih start (clusters ++ [g]) (lineWidth + Segmentation.width g)
        rw [flatten_append, flatten_singleton] at hrest
        exact hrest

theorem graphemes_nil : graphemes [] = [] := by
  cases hgraphemes : graphemes [] with
  | nil => rfl
  | cons g gs =>
      have hne := Segmentation.ne_nil [] g (by rw [hgraphemes]; exact mem_cons_self)
      have hflatten := Segmentation.flatten_graphemes []
      rw [hgraphemes, flatten_cons] at hflatten
      exact absurd (append_eq_nil_iff.mp hflatten).1 hne

theorem visualLinesFrom_eq (hwidth : 0 < width) (start : Nat) (logical : List (List Char)) :
    Editor.visualLinesFrom width logical = (rowsFrom width start logical).map Row.text := by
  induction logical generalizing start with
  | nil => rfl
  | cons line rest ih =>
      unfold Editor.visualLinesFrom rowsFrom lineRows
      dsimp only
      rw [ih (start + byteLength line + 1)]
      split
      · next hempty =>
        have hnil := isEmpty_iff.mp hempty
        subst hnil
        rw [graphemes_nil, if_neg fun h => absurd h.2 hwidth.ne]
        rfl
      · have hwrap : Editor.wrapFrom width [] 0 (graphemes line) = _ :=
          wrapFrom_eq start [] 0 (graphemes line)
        rw [hwrap]
        dsimp only
        rw [map_append, map_append, map_append, append_assoc]
        split <;> rfl

/-- The first row starts where the line does, with the clusters it has so far. -/
theorem lineRows_first (start : Nat) (clusters : List (List Char)) (lineWidth : Nat)
    (gs : List (List Char)) : ∃ more rows,
      lineRows width start clusters lineWidth gs = ⟨start, clusters ++ more⟩ :: rows := by
  induction gs generalizing clusters lineWidth with
  | nil => exact ⟨[], [], by rw [append_nil]; rfl⟩
  | cons g gs ih =>
      rw [lineRows_cons]
      split
      · exact ⟨[], _, by rw [append_nil]⟩
      · obtain ⟨more, rows, hrows⟩ := ih (clusters ++ [g]) (lineWidth + Segmentation.width g)
        exact ⟨g :: more, rows, by rw [hrows, append_assoc, singleton_append]⟩

/-- The last row ends where the line does. -/
theorem lineRows_last (start : Nat) (clusters : List (List Char)) (lineWidth : Nat)
    (gs : List (List Char)) (hcolumns : columns clusters = lineWidth) :
    ∃ rows last, lineRows width start clusters lineWidth gs = rows ++ [last] ∧
      last.start + byteLength last.clusters.flatten =
        start + byteLength (clusters ++ gs).flatten ∧
      columns last.clusters = lastWidth width lineWidth gs := by
  induction gs generalizing start clusters lineWidth with
  | nil => exact ⟨[], ⟨start, clusters⟩, rfl, by rw [append_nil], hcolumns⟩
  | cons g gs ih =>
      rw [lineRows_cons]
      unfold lastWidth
      split
      · obtain ⟨rows, last, hrows, hend, hlast⟩ := ih (start + byteLength clusters.flatten) [g]
          (Segmentation.width g) (Nat.add_zero _)
        refine ⟨⟨start, clusters⟩ :: rows, last, by rw [hrows]; rfl, ?_, hlast⟩
        rw [hend, Nat.add_assoc, ← byteLength_append, ← flatten_append]
        rfl
      · obtain ⟨rows, last, hrows, hend, hlast⟩ := ih start (clusters ++ [g])
          (lineWidth + Segmentation.width g) (by rw [columns_append, hcolumns]; rfl)
        refine ⟨rows, last, hrows, ?_, hlast⟩
        rw [hend, append_assoc, singleton_append]

/-- A row is no wider than the screen, or than a cluster that does not fit. -/
theorem lineRows_bounded {bound : Nat} (hwidth : width ≤ bound) (start : Nat)
    (clusters : List (List Char)) (lineWidth : Nat) (gs : List (List Char))
    (hgs : ∀ g ∈ gs, Segmentation.width g ≤ bound) (hcolumns : columns clusters = lineWidth)
    (hbound : lineWidth ≤ bound) :
    ∀ row ∈ lineRows width start clusters lineWidth gs, columns row.clusters ≤ bound := by
  induction gs generalizing start clusters lineWidth with
  | nil =>
      intro row hrow
      rw [mem_singleton.mp hrow]
      exact hcolumns.le.trans hbound
  | cons g gs ih =>
      have hg := hgs g mem_cons_self
      have hrest := fun other hother => hgs other (mem_cons_of_mem _ hother)
      rw [lineRows_cons]
      split
      · refine forall_mem_cons.mpr ⟨hcolumns.le.trans hbound, ?_⟩
        exact ih _ _ _ hrest (Nat.add_zero _) hg
      · next hstays =>
        refine ih _ _ _ hrest (by rw [columns_append, hcolumns]; rfl) ?_
        omega

/-! ## The rows lay out the text -/

/-- The rows of a logical line go on with what follows it. -/
theorem lays_lineRows {others : List (List Char)} {more : List Row} (start : Nat)
    (clusters : List (List Char)) (lineWidth : Nat) (gs : List (List Char))
    (hclusters : ['\n'] ∉ clusters ++ gs)
    (hend : ∀ start' clusters', ['\n'] ∉ clusters' →
      start' + byteLength clusters'.flatten = start + byteLength (clusters ++ gs).flatten →
        Lays start' (clusters' ++ others) (⟨start', clusters'⟩ :: more)) :
    Lays start (clusters ++ gs ++ others)
      (lineRows width start clusters lineWidth gs ++ more) := by
  induction gs generalizing start clusters lineWidth with
  | nil =>
      rw [append_nil] at hclusters ⊢
      exact hend start clusters hclusters (by rw [append_nil])
  | cons g gs ih =>
      rw [lineRows_cons]
      split
      · have hg : ['\n'] ∉ [g] ++ gs := fun hmem => hclusters (mem_append_right _ hmem)
        rw [append_assoc]
        refine .soft start clusters (fun hmem => hclusters (mem_append_left _ hmem)) ?_
        refine ih _ _ _ hg fun start' clusters' hno hlength => hend start' clusters' hno ?_
        rw [hlength, Nat.add_assoc, ← byteLength_append, ← flatten_append]
        rfl
      · have hcons : clusters ++ g :: gs = clusters ++ [g] ++ gs := append_cons clusters g gs
        rw [hcons] at hclusters hend ⊢
        exact ih _ _ _ hclusters hend

/-- The clusters of logical lines, with the newlines between them. -/
def joinedClusters : List (List Char) → List (List Char)
  | [] => []
  | [line] => graphemes line
  | line :: rest => graphemes line ++ ['\n'] :: joinedClusters rest

/-- The clusters of a text are those of its lines. -/
theorem graphemes_lines {text : List Char} (hreturn : '\r' ∉ text) :
    graphemes text = joinedClusters (text.splitOn '\n') ∧
      ∀ line ∈ text.splitOn '\n', '\n' ∉ line := by
  rcases newline_cases text with ⟨hnone, _⟩ | ⟨line, rest, htext, hline, _⟩
  · rw [splitOn_eq_singleton hnone]
    exact ⟨rfl, forall_mem_singleton.mpr hnone⟩
  · have hrest : '\r' ∉ rest := fun hmem => hreturn (by rw [htext]; simp [hmem])
    have hbefore : '\r' ∉ line := fun hmem => hreturn (by rw [htext]; simp [hmem])
    obtain ⟨hjoined, hlines⟩ := graphemes_lines hrest
    rw [htext, splitOn_append_cons_self, splitOn_eq_singleton hline,
      Segmentation.newline _ _ hbefore, hjoined]
    refine ⟨?_, forall_mem_cons.mpr ⟨hline, hlines⟩⟩
    obtain ⟨next, others, hsplit⟩ := exists_cons_of_ne_nil
      (splitOn_ne_nil '\n' rest)
    rw [hsplit]
    rfl
termination_by text.length
decreasing_by
  rw [htext, List.length_append, List.length_cons]
  omega

theorem newline_not_mem_graphemes {line : List Char} (h : '\n' ∉ line) :
    ['\n'] ∉ graphemes line := by
  intro hmem
  have hflatten := Segmentation.flatten_graphemes line
  refine h ?_
  rw [← hflatten]
  exact mem_flatten.mpr ⟨_, hmem, mem_singleton_self _⟩

/-- The rows of logical lines lay them out. -/
theorem lays_rowsFrom (start : Nat) (logical : List (List Char)) (hne : logical ≠ [])
    (hlines : ∀ line ∈ logical, '\n' ∉ line) :
    Lays start (joinedClusters logical) (rowsFrom width start logical) := by
  induction logical generalizing start with
  | nil => exact absurd rfl hne
  | cons line rest ih =>
      have hno := newline_not_mem_graphemes (hlines line mem_cons_self)
      have hlength : start + byteLength ([] ++ graphemes line).flatten =
          start + byteLength line := by
        rw [nil_append, Segmentation.flatten_graphemes]
      unfold rowsFrom
      cases rest with
      | nil =>
        have hlays : Lays start ([] ++ graphemes line ++ [])
            (lineRows width start [] 0 (graphemes line) ++
              if lastWidth width 0 (graphemes line) = width then
                [⟨start + byteLength line, []⟩] else []) :=
          lays_lineRows start [] 0 (graphemes line) hno fun start' clusters' hno' hend => by
            split
            · refine .soft start' clusters' hno' ?_
              rw [hend, hlength]
              exact .last _ [] nofun
            · rw [append_nil]
              exact .last start' clusters' hno'
        rw [append_nil, nil_append] at hlays
        show Lays start (graphemes line) _
        simpa [rowsFrom] using hlays
      | cons next others =>
        have hrest := ih (start + byteLength line + 1) nofun fun other hother =>
          hlines other (mem_cons_of_mem _ hother)
        exact lays_lineRows start [] 0 (graphemes line) hno fun start' clusters' hno' hend => by
          refine .hard start' clusters' hno' ?_
          rw [hend, hlength]
          exact hrest

/-! ## The walk to the cursor -/

/-- The walk finds a target before a cluster on the row of this cluster. -/
theorem walkLine_found (start : Nat) (clusters : List (List Char)) (w : Editor.Walk)
    (front : List (List Char)) (g : List Char) (gs : List (List Char))
    (hpos : ∀ h ∈ front, 0 < byteLength h) (hcol : w.col = w.lineWidth)
    (hcolumns : columns clusters = w.lineWidth)
    (hbyte : w.byte = start + byteLength clusters.flatten)
    (htarget : target = w.byte + byteLength front.flatten) :
    ∃ k row part rest, Editor.walkLine width target w (front ++ g :: gs) =
        .inl (columns part, w.row + k) ∧
      (lineRows width start clusters w.lineWidth (front ++ g :: gs))[k]? = some row ∧
      row.clusters = part ++ rest ∧ row.start + byteLength part.flatten = target := by
  induction front generalizing start clusters w with
  | nil =>
      rw [nil_append, lineRows_cons]
      unfold Editor.walkLine
      dsimp only
      have hhere : w.byte = target := htarget.symm
      split
      · obtain ⟨more, rows, hrows⟩ : ∃ more rows, lineRows width _ [g] _ gs = _ :=
          lineRows_first (start + byteLength clusters.flatten) [g] (Segmentation.width g) gs
        refine ⟨1, ⟨start + byteLength clusters.flatten, [g] ++ more⟩, [], [g] ++ more, rfl, ?_,
          rfl, ?_⟩
        · rw [hrows]
          rfl
        · rw [← hbyte]
          exact hhere
      · rw [hcol, ← hcolumns]
        obtain ⟨more, rows, hrows⟩ : ∃ more rows, lineRows width start (clusters ++ [g]) _ gs = _ :=
          lineRows_first start (clusters ++ [g]) (columns clusters + Segmentation.width g) gs
        refine ⟨0, ⟨start, clusters ++ [g] ++ more⟩, clusters, [g] ++ more, rfl, ?_, ?_, ?_⟩
        · rw [hrows]
          rfl
        · exact append_assoc _ _ _
        · rw [← hbyte]
          exact hhere
  | cons h front ih =>
      have hh := hpos h mem_cons_self
      have hrest := fun other hother => hpos other (mem_cons_of_mem _ hother)
      have hbeyond : w.byte ≠ target := by
        rw [htarget, flatten_cons, byteLength_append]
        omega
      rw [flatten_cons, byteLength_append, ← Nat.add_assoc] at htarget
      rw [cons_append, lineRows_cons]
      unfold Editor.walkLine
      dsimp only
      split
      · obtain ⟨k, row, part, rest, hwalk, hrow, hclusters, hpart⟩ :=
          ih (start + byteLength clusters.flatten) [h]
            ⟨w.byte + byteLength h, w.row + 1, 0 + Segmentation.width h,
              0 + Segmentation.width h⟩ hrest rfl (by rw [Nat.zero_add]; exact Nat.add_zero _)
            (by rw [← hbyte, flatten_singleton]) htarget
        refine ⟨k + 1, row, part, rest, ?_, ?_, hclusters, hpart⟩
        · rw [hwalk]
          dsimp only
          rw [Nat.add_assoc, Nat.add_comm 1 k]
        · rw [Nat.zero_add] at hrow
          exact hrow
      · obtain ⟨k, row, part, rest, hwalk, hrow, hclusters, hpart⟩ :=
          ih start (clusters ++ [h])
            ⟨w.byte + byteLength h, w.row, w.col + Segmentation.width h,
              w.lineWidth + Segmentation.width h⟩ hrest (by rw [hcol])
            (by rw [columns_append, hcolumns]; rfl)
            (by rw [flatten_append, flatten_singleton, byteLength_append,
              ← Nat.add_assoc, ← hbyte]) htarget
        exact ⟨k, row, part, rest, hwalk, hrow, hclusters, hpart⟩

/-- The walk goes on behind a line that ends before the target, or at it. -/
theorem walkLine_beyond (start : Nat) (clusters : List (List Char)) (w : Editor.Walk)
    (gs : List (List Char)) (hpos : ∀ h ∈ gs, 0 < byteLength h) (hcol : w.col = w.lineWidth)
    (htarget : w.byte + byteLength gs.flatten ≤ target) :
    ∃ w', Editor.walkLine width target w gs = .inr w' ∧
      w'.byte = w.byte + byteLength gs.flatten ∧ w'.col = lastWidth width w.lineWidth gs ∧
      w'.row + 1 = w.row + (lineRows width start clusters w.lineWidth gs).length := by
  induction gs generalizing start clusters w with
  | nil => exact ⟨w, rfl, rfl, hcol, rfl⟩
  | cons g gs ih =>
      have hg := hpos g mem_cons_self
      have hrest := fun other hother => hpos other (mem_cons_of_mem _ hother)
      rw [flatten_cons, byteLength_append] at htarget ⊢
      have hbeyond : w.byte ≠ target := by omega
      rw [lineRows_cons]
      unfold Editor.walkLine lastWidth
      dsimp only
      split
      · obtain ⟨w', hwalk, hbyte, hcol', hrow⟩ :=
          ih (start + byteLength clusters.flatten) [g]
            ⟨w.byte + byteLength g, w.row + 1, 0 + Segmentation.width g,
              0 + Segmentation.width g⟩ hrest rfl (by dsimp only; omega)
        rw [Nat.zero_add] at hcol' hrow
        refine ⟨w', hwalk, by rw [hbyte, Nat.add_assoc], hcol', ?_⟩
        rw [hrow, length_cons]
        dsimp only
        omega
      · obtain ⟨w', hwalk, hbyte, hcol', hrow⟩ :=
          ih start (clusters ++ [g])
            ⟨w.byte + byteLength g, w.row, w.col + Segmentation.width g,
              w.lineWidth + Segmentation.width g⟩ hrest (by rw [hcol]) (by dsimp only; omega)
        exact ⟨w', hwalk, by rw [hbyte, Nat.add_assoc], hcol', hrow⟩

/-- A target at the end of a logical line has room on its last row, or at the end of the text starts
a row of its own. -/
def RoomAtEnd (width target : Nat) : Nat → List (List Char) → Prop
  | _, [] => True
  | start, line :: rest =>
    (start + byteLength line = target → lastWidth width 0 (graphemes line) < width ∨
      rest = [] ∧ lastWidth width 0 (graphemes line) = width) ∧
    RoomAtEnd width target (start + byteLength line + 1) rest

/-- What the walk returns points at the target. -/
def Finds (width start row lineWidth target : Nat) (logical : List (List Char)) : Prop :=
  ∃ k, (Editor.walkLines width target ⟨start, row, 0, lineWidth⟩ logical).2 = row + k ∧
    Points (rowsFrom width start logical) target
      ((Editor.walkLines width target ⟨start, row, 0, lineWidth⟩ logical).1, k)

/-- A target at the start of the lines. -/
theorem finds_start (hwidth : 0 < width) (start row lineWidth : Nat) (line : List Char)
    (rest : List (List Char)) : Finds width start row lineWidth start (line :: rest) := by
  have hwalk : Editor.walkLines width start ⟨start, row, 0, lineWidth⟩ (line :: rest) =
      (0, row) := by
    unfold Editor.walkLines Editor.Walk.here
    rw [if_pos rfl, if_neg (Nat.not_le.mpr hwidth)]
  obtain ⟨more, rows, hrows⟩ : ∃ more rows,
      lineRows width start [] 0 (graphemes line) = ⟨start, [] ++ more⟩ :: rows :=
    lineRows_first start [] 0 (graphemes line)
  refine ⟨0, by rw [hwalk]; rfl, ⟨start, [] ++ more⟩, [], more, ?_, rfl, rfl, by rw [hwalk]; rfl⟩
  unfold rowsFrom
  rw [hrows]
  rfl

/-- A target inside a line. -/
theorem finds_inside (start row lineWidth : Nat) (line : List Char) (rest : List (List Char))
    {front : List (List Char)} {g : List Char} {gs : List (List Char)}
    (hline : graphemes line = front ++ g :: gs) (hne : start ≠ target)
    (htarget : target = start + byteLength front.flatten) :
    Finds width start row lineWidth target (line :: rest) := by
  have hpos : ∀ h ∈ front, 0 < byteLength h := by
    intro h hmem
    have hcluster : h ∈ graphemes line := by
      rw [hline]
      exact mem_append_left _ hmem
    exact byteLength_pos hcluster
  obtain ⟨k, found, part, more, hwalk, hrow, hclusters, hpart⟩ : ∃ k found part more,
      Editor.walkLine width target ⟨start, row, 0, 0⟩ (front ++ g :: gs) = _ ∧
        (lineRows width start [] 0 (front ++ g :: gs))[k]? = some found ∧ _ ∧ _ :=
    walkLine_found start [] ⟨start, row, 0, 0⟩ front g gs hpos rfl rfl rfl htarget
  rw [← hline] at hwalk hrow
  have hlines : Editor.walkLines width target ⟨start, row, 0, lineWidth⟩ (line :: rest) =
      (columns part, row + k) := by
    unfold Editor.walkLines
    rw [if_neg hne, hwalk]
  refine ⟨k, by rw [hlines], found, part, more, ?_, hclusters, hpart, by rw [hlines]⟩
  obtain ⟨hlt, hget⟩ := List.getElem?_eq_some_iff.mp hrow
  unfold rowsFrom
  rw [List.getElem?_append_left hlt]
  exact hrow

/-- A target at the end of a line that has room for it. -/
theorem finds_end (start row lineWidth : Nat) (line : List Char) (rest : List (List Char))
    (hne : start ≠ target) (htarget : start + byteLength line = target)
    (hroom : lastWidth width 0 (graphemes line) < width ∨
      rest = [] ∧ lastWidth width 0 (graphemes line) = width) :
    Finds width start row lineWidth target (line :: rest) := by
  have hflatten := Segmentation.flatten_graphemes line
  obtain ⟨w, hwalk, hbyte, hcol, hrow⟩ : ∃ w,
      Editor.walkLine width target ⟨start, row, 0, 0⟩ (graphemes line) = .inr w ∧ _ ∧ _ ∧ _ :=
    walkLine_beyond start [] ⟨start, row, 0, 0⟩ (graphemes line) (fun h => byteLength_pos) rfl
      (by rw [hflatten]; exact htarget.le)
  rw [hflatten] at hbyte
  have hlines : Editor.walkLines width target ⟨start, row, 0, lineWidth⟩ (line :: rest) =
      w.here width := by
    unfold Editor.walkLines
    rw [if_neg hne, hwalk]
    exact if_pos (hbyte.trans htarget)
  obtain ⟨rows, last, hrows, hend, hlast⟩ : ∃ rows last,
      lineRows width start [] 0 (graphemes line) = rows ++ [last] ∧ _ ∧ _ :=
    lineRows_last start [] 0 (graphemes line) rfl
  rw [nil_append, hflatten, htarget] at hend
  rw [hrows, length_append, length_singleton] at hrow
  dsimp only at hcol hrow
  rcases hroom with hroom | ⟨rfl, hfull⟩
  · have hhere : w.here width = (w.col, w.row) := by
      unfold Editor.Walk.here
      exact if_neg (by omega)
    rw [hhere] at hlines
    refine ⟨rows.length, by rw [hlines]; dsimp only; omega, last, last.clusters, [], ?_,
      (append_nil _).symm, hend, by rw [hlines, hlast, hcol]⟩
    unfold rowsFrom
    rw [hrows, append_assoc, getElem?_append_right (Nat.le_refl _), Nat.sub_self]
    rfl
  · have hhere : w.here width = (0, w.row + 1) := by
      unfold Editor.Walk.here
      exact if_pos (by omega)
    rw [hhere] at hlines
    refine ⟨rows.length + 1, by rw [hlines]; dsimp only; omega, ⟨target, []⟩, [], [], ?_, rfl, rfl,
      by rw [hlines]; rfl⟩
    unfold rowsFrom
    have hautowrap : ([] : List (List Char)).isEmpty = true ∧
        lastWidth width 0 (graphemes line) = width := ⟨rfl, hfull⟩
    rw [hrows, if_pos hautowrap, htarget, getElem?_append_right (by simp)]
    simp

/-- A target on a later line. -/
theorem finds_beyond (hwidth : 0 < width) (start row lineWidth : Nat) (line next : List Char)
    (others : List (List Char)) (htarget : start + byteLength line + 1 ≤ target)
    (hrest : ∀ row' lineWidth', Finds width (start + byteLength line + 1) row' lineWidth' target
      (next :: others)) : Finds width start row lineWidth target (line :: next :: others) := by
  have hflatten := Segmentation.flatten_graphemes line
  obtain ⟨w, hwalk, hbyte, _, hrow⟩ : ∃ w,
      Editor.walkLine width target ⟨start, row, 0, 0⟩ (graphemes line) = .inr w ∧ _ ∧ _ ∧ _ :=
    walkLine_beyond start [] ⟨start, row, 0, 0⟩ (graphemes line) (fun h => byteLength_pos) rfl
      (by rw [hflatten]; dsimp only; omega)
  rw [hflatten] at hbyte
  have hlines : Editor.walkLines width target ⟨start, row, 0, lineWidth⟩ (line :: next :: others) =
      Editor.walkLines width target
        ⟨start + byteLength line + 1, w.row + 1, 0, w.lineWidth⟩ (next :: others) := by
    rw [Editor.walkLines, if_neg (by dsimp only; omega), hwalk]
    dsimp only
    have hmore : ¬ (next :: others).isEmpty = true := Bool.false_ne_true
    rw [if_neg (by rw [hbyte]; dsimp only; omega), if_neg hmore, hbyte]
    split
    · next hhere =>
      -- the position that is returned is the one that the next round returns
      rw [Editor.walkLines, if_pos hhere, Editor.Walk.here, if_neg (Nat.not_le.mpr hwidth)]
    · rfl
  obtain ⟨k, hk, found, part, more, hget, hclusters, hpart, hcolumns⟩ :=
    hrest (w.row + 1) w.lineWidth
  rw [← hlines] at hk hcolumns
  dsimp only at hrow hget
  refine ⟨(lineRows width start [] 0 (graphemes line)).length + k, ?_, found, part, more, ?_,
    hclusters, hpart, hcolumns⟩
  · rw [hk]
    omega
  · unfold rowsFrom
    dsimp only
    rw [getElem?_append_right (Nat.le_add_right _ _), Nat.add_sub_cancel_left]
    exact hget

/-- The walk finds every boundary that has room. -/
theorem finds_boundary (hwidth : 0 < width) (start row lineWidth : Nat)
    (logical : List (List Char)) (hne : logical ≠ []) {front rest : List (List Char)}
    (hsplit : joinedClusters logical = front ++ rest)
    (htarget : target = start + byteLength front.flatten)
    (hroom : RoomAtEnd width target start logical) :
    Finds width start row lineWidth target logical := by
  induction logical generalizing start row lineWidth front with
  | nil => exact absurd rfl hne
  | cons line lines ih =>
      have hflatten := Segmentation.flatten_graphemes line
      by_cases hstart : start = target
      · rw [← hstart]
        exact finds_start hwidth start row lineWidth line lines
      obtain ⟨tail, hjoined, htail⟩ : ∃ tail,
          joinedClusters (line :: lines) = graphemes line ++ tail ∧
            (tail = [] ∨ ∃ next others, lines = next :: others ∧
              tail = ['\n'] :: joinedClusters lines) := by
        cases lines with
        | nil => exact ⟨[], (append_nil _).symm, .inl rfl⟩
        | cons next others => exact ⟨_, rfl, .inr ⟨next, others, rfl, rfl⟩⟩
      have hatEnd : byteLength front.flatten = byteLength line →
          Finds width start row lineWidth target (line :: lines) := by
        intro hlength
        have hend : start + byteLength line = target := by rw [htarget, hlength]
        exact finds_end start row lineWidth line lines hstart hend (hroom.1 hend)
      rw [hjoined] at hsplit
      rcases append_eq_append_iff.mp hsplit with ⟨more, hfront, hmore⟩ | ⟨more, hline, _⟩
      · cases more with
        | nil => exact hatEnd (by rw [hfront, append_nil, hflatten])
        | cons g more =>
          rcases htail with rfl | ⟨next, others, rfl, rfl⟩
          · cases hmore
          · obtain ⟨rfl, hjoin⟩ := cons.inj hmore
            have hlength : byteLength front.flatten =
                byteLength line + (1 + byteLength more.flatten) := by
              rw [hfront, flatten_append, hflatten, byteLength_append, flatten_cons,
                byteLength_append]
              rfl
            have hbeyond : target = start + byteLength line + 1 + byteLength more.flatten := by
              omega
            refine finds_beyond hwidth start row lineWidth line next others (by omega) ?_
            exact fun row' lineWidth' =>
              ih (start + byteLength line + 1) row' lineWidth' nofun hjoin hbeyond hroom.2
      · cases more with
        | nil => exact hatEnd (by rw [← hflatten, hline, append_nil])
        | cons g gs => exact finds_inside start row lineWidth line lines hline hstart htarget

/-! ## The shown cursor -/

/-- A row of a text is no wider than the screen, or than a cluster that does not fit. -/
theorem rowsFrom_bounded {bound : Nat} (hwidth : width ≤ bound) (start : Nat)
    (logical : List (List Char))
    (hgs : ∀ g ∈ joinedClusters logical, Segmentation.width g ≤ bound) :
    ∀ row ∈ rowsFrom width start logical, columns row.clusters ≤ bound := by
  induction logical generalizing start with
  | nil => exact fun _ => nofun
  | cons line rest ih =>
      have hline : ∀ g ∈ graphemes line, Segmentation.width g ≤ bound := by
        intro g hg
        cases rest with
        | nil => exact hgs g hg
        | cons next others => exact hgs g (mem_append_left _ hg)
      have hrest : ∀ g ∈ joinedClusters rest, Segmentation.width g ≤ bound := by
        intro g hg
        cases rest with
        | nil => cases hg
        | cons next others =>
          exact hgs g (mem_append_right _ (mem_cons_of_mem _ hg))
      intro row hrow
      unfold rowsFrom at hrow
      rcases mem_append.mp hrow with hrow | hrow
      · exact lineRows_bounded hwidth start [] 0 (graphemes line) hline rfl (Nat.zero_le _) row hrow
      · rcases mem_append.mp hrow with hrow | hrow
        · split at hrow
          · rw [mem_singleton.mp hrow]
            exact Nat.zero_le _
          · cases hrow
        · exact ih (start + byteLength line + 1) hrest row hrow

/-- There is room for the cursor: the rows and the columns can be counted, and the cursor is not at
the end of a logical line whose last row is full, unless it is the last line and exactly full. -/
structure Roomy (e : Editor) (width : UInt16) : Prop where
  rows : (rowsFrom (max width.toNat 1) 0 (e.text.splitOn '\n')).length ≤ 2 ^ 16
  clusters : ∀ g ∈ graphemes e.text, Segmentation.width g < 2 ^ 16
  atEnd : RoomAtEnd (max width.toNat 1) e.cursor 0 (e.text.splitOn '\n')

/-- The lines that are shown lay out the text, and the cursor points into them. -/
def Shown (e : Editor) (width : UInt16) : Prop :=
  ∃ rows, e.visualLines width = rows.map Row.text ∧ Lays 0 (graphemes e.text) rows ∧
    Points rows e.cursor (e.visualCursor width)

theorem visualLines_eq (e : Editor) (width : UInt16) :
    e.visualLines width =
      (rowsFrom (max width.toNat 1) 0 (e.text.splitOn '\n')).map Row.text := by
  have hwidth : 0 < max width.toNat 1 := Nat.lt_of_lt_of_le Nat.one_pos (Nat.le_max_right _ _)
  unfold Editor.visualLines
  dsimp only
  split
  · next hempty =>
    rw [isEmpty_iff.mp hempty, splitOn_nil, ← visualLinesFrom_eq hwidth]
    rfl
  · exact visualLinesFrom_eq hwidth 0 _

/-- A cursor at a boundary with room is shown where it is. -/
theorem shown_of_roomy {e : Editor} {width : UInt16} (hkept : Kept e)
    (hboundary : IsBoundary e.text e.cursor) (h : Roomy e width) : Shown e width := by
  have hwidth : 0 < max width.toNat 1 := Nat.lt_of_lt_of_le Nat.one_pos (Nat.le_max_right _ _)
  have hbound : max width.toNat 1 ≤ 2 ^ 16 - 1 :=
    Nat.max_le.mpr ⟨Nat.le_sub_one_of_lt width.toNat_lt, by decide⟩
  obtain ⟨hjoined, hlines⟩ := graphemes_lines hkept.text.no_return
  have hne := splitOn_ne_nil '\n' e.text
  have hmin : min e.cursor (byteLength e.text) = e.cursor := Nat.min_eq_left hboundary.le
  obtain ⟨rest, front, hsplit, hlength⟩ := hboundary
  rw [hjoined] at hsplit
  have hclusters := h.clusters
  rw [hjoined] at hclusters
  obtain ⟨k, hk, row, part, more, hrow, hpart, hstart, hcolumns⟩ :=
    finds_boundary hwidth 0 0 0 (e.text.splitOn '\n') hne hsplit
      (hlength.symm.trans (Nat.zero_add _).symm) h.atEnd
  refine ⟨_, visualLines_eq e width, ?_, row, part, more, ?_, hpart, hstart, ?_⟩
  · rw [hjoined]
    exact lays_rowsFrom 0 _ hne hlines
  · obtain ⟨hlt, _⟩ := List.getElem?_eq_some_iff.mp hrow
    unfold Editor.visualCursor Editor.narrow
    dsimp only at hrow hlt ⊢
    rw [hmin, hk, Nat.zero_add, Nat.mod_eq_of_lt (hlt.trans_le h.rows)]
    exact hrow
  · have hwide := rowsFrom_bounded hbound 0 _ (fun g hg => Nat.le_sub_one_of_lt (hclusters g hg))
      row (mem_of_getElem? hrow)
    rw [hpart, columns_append] at hwide
    unfold Editor.visualCursor Editor.narrow
    dsimp only at hcolumns ⊢
    rw [hmin, ← hcolumns, Nat.mod_eq_of_lt]
    omega

/-! ## Runs -/

/-- The state of the editor is in order. -/
structure Sound (e : Editor) : Prop where
  boundary : IsBoundary e.text e.cursor ∧ e.cursor ≤ byteLength e.text
  sanitized : sanitizeAndNormalize e.text = e.text
  bounded : byteLength e.text ≤ maxBufferBytes
  history : e.history.length ≤ maxHistoryEntries
  restores : e.historyIndex = none → e.Restores

/-- In every run in which no deletion joins what it leaves, every state is in order, and at every
width that has room for the cursor it is shown where it is. -/
theorem run_sound (ops : List EditorOp)
    (h : Machine.Along Editor.step Editor.Separate Editor.new ops) :
    Sound (Machine.run Editor.step Editor.new ops) ∧
      ∀ width, Roomy (Machine.run Editor.step Editor.new ops) width →
        Shown (Machine.run Editor.step Editor.new ops) width := by
  have hkept := Editor.kept_run ops
  have hboundary := Editor.boundary_run h
  refine ⟨⟨⟨hboundary, hboundary.le⟩, sanitizeAndNormalize_eq_self hkept.text.plain,
    hkept.text.bounded, hkept.limit, fun hnone => Editor.restores_of_kept hkept hnone⟩, ?_⟩
  exact fun width hroomy => shown_of_roomy hkept hboundary hroomy

end Shown

/-- A combining accent belongs to the letter before it. -/
def joinsAccent (c d : Char) : Bool :=
  (c == '\r' && d == '\n') ||
    (c != '\n' && c != '\r' && decide (0x300 ≤ d.toNat) && decide (d.toNat ≤ 0x36f))

namespace Accents

/-- The clusters of letters and combining accents, which take no column. -/
scoped instance accents : Segmentation :=
  ofPairs joinsAccent (fun g => g.countP fun c => decide (c.toNat < 0x300))
    (fun c hc => by simp [joinsAccent, hc]) (fun d => by simp [joinsAccent])

end Accents

/-- A key without modifiers. -/
def plainKey (code : KeyCode) : EditorOp :=
  .key ⟨code, false, false, false⟩

section Accents

open Accents

/-- Deleting the newline between a letter and an accent leaves the cursor inside of the cluster that
they make. -/
theorem not_run_sound_joined : ¬ ∀ ops : List EditorOp,
    Sound (Machine.run Editor.step Editor.new ops) ∧
      ∀ width, Shown (Machine.run Editor.step Editor.new ops) width := by
  intro h
  obtain ⟨⟨⟨rest, front, hsplit, hlength⟩, _⟩, _, _, _, _⟩ :=
    (h [.insert ['a', '\n', '\u0301'], plainKey .left, plainKey .backspace]).1
  have hcursor : (Machine.run Editor.step Editor.new
      [.insert ['a', '\n', '\u0301'], plainKey .left, plainKey .backspace]).cursor = 1 := by
    decide +kernel
  have hclusters : graphemes (Machine.run Editor.step Editor.new
      [.insert ['a', '\n', '\u0301'], plainKey .left, plainKey .backspace]).text =
        [['a', '\u0301']] := by
    decide +kernel
  rw [hclusters] at hsplit
  rw [hcursor] at hlength
  cases front with
  | nil => cases hlength
  | cons g gs =>
      obtain ⟨rfl, hnil⟩ := cons.inj hsplit
      obtain ⟨rfl, _⟩ := append_eq_nil_iff.mp hnil.symm
      exact absurd hlength (by decide)

/-- Typing two letters, moving back and deleting the first one. -/
theorem run_sound_deleted :
    Sound (Machine.run Editor.step Editor.new
      [.insert ['a', 'b'], plainKey .left, plainKey .backspace]) ∧
    Shown (Machine.run Editor.step Editor.new
      [.insert ['a', 'b'], plainKey .left, plainKey .backspace]) 80 := by
  have halong : Machine.Along Editor.step Editor.Separate Editor.new
      [.insert ['a', 'b'], plainKey .left, plainKey .backspace] := by
    refine ⟨trivial, (fun _ hd => nomatch hd), fun d hd first last hcut => ?_, trivial⟩
    cases hd
    have hfirst : (first, last) = (0, 1) :=
      Option.some.inj (hcut.symm.trans (by decide +kernel))
    cases hfirst
    exact isBoundary_zero _
  obtain ⟨hsound, hshown⟩ := run_sound _ halong
  have htext : (Machine.run Editor.step Editor.new
      [.insert ['a', 'b'], plainKey .left, plainKey .backspace]).text = ['b'] := by
    decide +kernel
  have hcursor : (Machine.run Editor.step Editor.new
      [.insert ['a', 'b'], plainKey .left, plainKey .backspace]).cursor = 0 := by
    decide +kernel
  refine ⟨hsound, hshown 80 ⟨?_, ?_, ?_⟩⟩
  · rw [htext]
    decide +kernel
  · rw [htext]
    decide +kernel
  · rw [htext, hcursor]
    exact ⟨nofun, trivial⟩

end Accents

end Omp2.Cli
