import Mathlib.Data.List.Nodup
import Omp2.Tools.ReadLines
import Omp2.Library.Slices

/-!
# When the two readers agree

One reader goes through the numbers that a selector names, the other tests the number of every line.
Their lines are the same exactly when the numbers come in order and none is named twice, no line
ends with a carriage return, and every line that is named is in a conflict when conflicts only are
asked for.
-/

namespace Omp2.Tools.Read

open Ranges List

/-! ## The lines of a text -/

/-- A line with its number, and whether it stands in a conflict. -/
structure Row where
  number : Nat
  line : List Char
  conflict : Bool
  deriving DecidableEq

/-- A conflict goes from a line that opens it to the next line that closes it. -/
def rowsFrom : Nat → Bool → List (List Char) → List Row
  | _, _, [] => []
  | number, inConflict, line :: rest =>
    let inConflict := starts "<<<<<<<" line || inConflict
    ⟨number, line, inConflict⟩ :: rowsFrom (number + 1) (!starts ">>>>>>>" line && inConflict) rest

def rows (text : List Char) : List Row :=
  rowsFrom 1 false (Text.endedLines '\n' text)

/-- A line without a carriage return before its newline. -/
def Plain (line : List Char) : Prop :=
  ¬['\r', '\n'] <:+ line

/-- The numbers of a selector are computed without overflow. -/
def Bounded : LineSelector → Prop
  | .count start n => max start 1 + (n - 1) ≤ usizeMax
  | _ => True

/-- The numbers of a selector are those that it tests for, in their order. -/
def Exact (total : Nat) : LineSelector → Prop
  | .count start n => (n = 0 → total < max start 1) ∧ (start = 0 → n ≠ 0 → total < n)
  | .disjoint ranges => Ascending total ranges
  | _ => True

/-- What makes the readers agree on a text. -/
def Alike (code : Bool) (selector : Option LineSelector) (raw conflicts : Bool)
    (text : List Char) : Prop :=
  let total := (rows text).length
  match selector with
  | some selector =>
    Exact total selector ∧ ∀ row ∈ rows text, selector.selects total row.number = true →
      Plain row.line ∧ (conflicts = true → row.conflict = true)
  | none =>
    if raw then conflicts = true → ∀ row ∈ rows text, row.conflict = true
    else if conflicts then
      ∀ row ∈ rows text, if row.conflict then Plain row.line
        else ¬starts "=======" row.line ∧ ¬starts ">>>>>>>" row.line
    else ¬(code = true ∧ 40 < total) ∧ ∀ row ∈ rows text, Plain row.line

variable {number total : Nat} {inConflict raw conflicts code : Bool} {line text : List Char}
  {lines : List (List Char)} {selector : LineSelector} {label : String}

theorem map_number_rowsFrom (number : Nat) (inConflict : Bool) (lines : List (List Char)) :
    (rowsFrom number inConflict lines).map (·.number) = List.range' number lines.length := by
  induction lines generalizing number inConflict with
  | nil => rfl
  | cons line lines ih =>
      rw [rowsFrom, map_cons, ih, length_cons, range'_succ]

theorem map_line_rowsFrom (number : Nat) (inConflict : Bool) (lines : List (List Char)) :
    (rowsFrom number inConflict lines).map (·.line) = lines := by
  induction lines generalizing number inConflict with
  | nil => rfl
  | cons line lines ih => rw [rowsFrom, map_cons, ih]

theorem length_rowsFrom (number : Nat) (inConflict : Bool) (lines : List (List Char)) :
    (rowsFrom number inConflict lines).length = lines.length := by
  have hlines := congrArg length (map_line_rowsFrom number inConflict lines)
  rwa [length_map] at hlines

theorem length_rows (text : List Char) :
    (rows text).length = (Text.endedLines '\n' text).length :=
  length_rowsFrom ..

/-- A row has the line at its number. -/
theorem line_of_mem_rowsFrom {row : Row} (h : row ∈ rowsFrom number inConflict lines) :
    number ≤ row.number ∧ lines[row.number - number]? = some row.line := by
  induction lines generalizing number inConflict with
  | nil => cases h
  | cons line lines ih =>
      rcases mem_cons.mp h with rfl | h
      · exact ⟨Nat.le_refl _, by simp⟩
      · obtain ⟨hnumber, hline⟩ := ih h
        have hsub : row.number - number = row.number - (number + 1) + 1 := by omega
        exact ⟨by omega, by rw [hsub, getElem?_cons_succ, hline]⟩

theorem map_number_rows (text : List Char) :
    (rows text).map (·.number) = upTo 1 (rows text).length := by
  rw [rows, map_number_rowsFrom, length_rowsFrom, upTo, Nat.add_sub_cancel]

theorem row_inj {row row' : Row} (h : row ∈ rows text) (h' : row' ∈ rows text)
    (heq : row.number = row'.number) : row = row' := by
  refine inj_on_of_nodup_map ?_ h h' heq
  rw [map_number_rows]
  exact (upTo_pairwise _ _).imp Nat.ne_of_lt

/-! ## The reader of large files -/

/-- A marker is found in what is kept of a line. -/
theorem starts_keepLine {marker : String}
    (hlength : Text.byteLength marker.toList ≤ maxReadBytes + 1)
    (hplain : Utf8.replacement ∉ marker.toList) (line : List Char) :
    starts marker (keepLine line).1 = starts marker line := by
  have hkept : marker.toList <+: Text.truncateChars line (maxReadBytes + 1) ↔
      marker.toList <+: line := by
    constructor
    · exact fun h => h.trans (Slices.truncateChars_start _ _)
    · rintro ⟨rest, rfl⟩
      rw [Slices.truncateChars_fits hlength]
      exact prefix_append _ _
  have hreplaced : ∀ kept : List Char,
      marker.toList <+: kept ++ [Utf8.replacement] ↔ marker.toList <+: kept := by
    intro kept
    constructor
    · intro h
      refine Text.prefix_of_append h fun c hc => ?_
      rw [mem_singleton.mp hc]
      exact hplain
    · exact fun h => h.trans (prefix_append _ _)
  unfold starts keepLine
  rw [Bool.eq_iff_iff, isPrefixOf_iff_prefix, isPrefixOf_iff_prefix]
  dsimp only
  split
  · rw [hreplaced, hkept]
  · exact hkept

/-- A line that is written whole was kept whole. -/
theorem cut_eq {size : Nat} (hwhole : (keepLine line).2 = false)
    (hcut : ¬Text.byteLength (Text.truncateChars (keepLine line).1 size) <
      Text.byteLength (keepLine line).1) :
    Text.truncateChars (keepLine line).1 size = line := by
  have hline : (keepLine line).1 = line := by
    unfold keepLine at hwhole ⊢
    dsimp only at hwhole ⊢
    rw [hwhole, Bool.false_and, if_neg Bool.false_ne_true]
    exact Slices.truncateChars_eq_self (Nat.le_of_not_lt (of_decide_eq_false hwhole))
  rw [hline] at hcut ⊢
  exact Slices.eq_of_prefix (Slices.truncateChars_start _ _) (Nat.le_of_not_lt hcut)

/-- Whether a line is written. -/
def visible (selector : Option LineSelector) (conflicts : Bool) (total : Nat) (row : Row) : Bool :=
  (selector.all fun selector => selector.selects total row.number) &&
    (!conflicts || row.conflict)

/-- A run that is not cut short writes the visible lines. -/
theorem fileLoop_lines {selector : Option LineSelector} {unread : List Char} {size : Nat}
    (hunread : Text.endedLines '\n' unread = lines)
    (h : (fileLoop selector raw conflicts total lines.length number unread size
      inConflict).truncated = false) :
    (fileLoop selector raw conflicts total lines.length number unread size inConflict).lines =
      ((rowsFrom number inConflict lines).filter (visible selector conflicts total)).map fun row =>
        (row.number, row.line) := by
  induction lines generalizing number unread size inConflict with
  | nil => rfl
  | cons line rest ih =>
      obtain ⟨htake, hrest⟩ := Text.takeLine_eq hunread
      have hopens : starts "<<<<<<<" (keepLine line).1 = starts "<<<<<<<" line :=
        starts_keepLine (by decide) (by decide) line
      have hcloses : starts ">>>>>>>" (keepLine line).1 = starts ">>>>>>>" line :=
        starts_keepLine (by decide) (by decide) line
      rw [length_cons, fileLoop, htake] at h ⊢
      dsimp only at h ⊢
      rw [hopens, hcloses] at h ⊢
      rw [rowsFrom, filter_cons]
      split
      · next hhidden =>
        rw [if_pos hhidden] at h
        have hno : visible selector conflicts total
            ⟨number, line, starts "<<<<<<<" line || inConflict⟩ = false := by
          exact (Bool.not_eq_true' _).mp hhidden
        rw [hno, if_neg Bool.false_ne_true]
        exact ih hrest h
      · next hshown =>
        rw [if_neg hshown] at h
        have hyes : visible selector conflicts total
            ⟨number, line, starts "<<<<<<<" line || inConflict⟩ = true := by
          exact Bool.of_not_eq_false fun hno => hshown ((Bool.not_eq_true' _).mpr hno)
        rw [hyes, if_pos rfl, map_cons]
        split
        · next hcut =>
          rw [if_pos hcut] at h
          cases h
        · next hcut =>
          rw [if_neg hcut] at h
          rw [Bool.or_eq_true, not_or, Bool.not_eq_true, decide_eq_true_eq] at hcut
          dsimp only at h ⊢
          rw [cut_eq hcut.1 hcut.2] at h ⊢
          rw [ih hrest h]

theorem textFile_lines {selector : Option LineSelector}
    (h : (textFile label selector raw conflicts text).truncated = false) :
    (textFile label selector raw conflicts text).lines =
      ((rows text).filter (visible selector conflicts (rows text).length)).map fun row =>
        (row.number, row.line) := by
  unfold textFile at h ⊢
  dsimp only at h ⊢
  rw [← Text.length_endedLines] at h ⊢
  rw [length_rows]
  exact fileLoop_lines rfl h

/-! ## The reader of small files -/

/-- Lines that are all pushed. -/
theorem pushLines_lines {maxLines maxBytes pushed totalBytes : Nat} {numbers : List Nat}
    (h : (pushLines lines maxLines maxBytes pushed totalBytes numbers).truncated = false) :
    (pushLines lines maxLines maxBytes pushed totalBytes numbers).lines =
      numbers.map fun n => (n, lines.getD (n - 1) []) := by
  induction numbers generalizing pushed totalBytes with
  | nil => rfl
  | cons n numbers ih =>
      unfold pushLines at h ⊢
      split at h
      · cases h
      · next hlines =>
        rw [if_neg hlines]
        dsimp only at h ⊢
        split at h
        · cases h
        · next hbytes =>
          rw [if_neg hbytes, map_cons]
          exact congrArg _ (ih h)

theorem numbers_isSome (total : Nat) (selector : LineSelector) :
    (selector.numbers total).isSome = true ↔ Bounded selector := by
  cases selector with
  | count start n =>
      unfold LineSelector.numbers Bounded
      dsimp only
      split <;> simp_all
  | single n => exact iff_of_true rfl trivial
  | fromLine n => exact iff_of_true rfl trivial
  | inclusive start last => exact iff_of_true rfl trivial
  | disjoint ranges => exact iff_of_true rfl trivial
  | tail n => exact iff_of_true rfl trivial

/-- A selector that tests for one range. -/
theorem selects_range (selector : LineSelector) (total first last : Nat)
    (htest : ∀ n, 1 ≤ n → n ≤ total →
      (selector.selects total n = true ↔ first ≤ n ∧ n ≤ last)) :
    (∀ n, 1 ≤ n → n ≤ total → selector.selects total n = true →
        n ∈ upTo (max first 1) (min last total)) ∧
      (upTo 1 total).filter (selector.selects total) = upTo (max first 1) (min last total) := by
  refine ⟨fun n hfirst hlast hselects => ?_, filter_upTo htest⟩
  have hrange := (htest n hfirst hlast).mp hselects
  rw [mem_upTo]
  omega

/-- A count goes through its range, but for an empty range or one from before the first line. -/
theorem selects_count {start n : Nat} :
    (∀ m, 1 ≤ m → m ≤ total → (LineSelector.count start n).selects total m = true →
        m ∈ upTo (max start 1) (min (max start 1 + (n - 1)) total)) ∧
      ((upTo 1 total).filter ((LineSelector.count start n).selects total) =
          upTo (max start 1) (min (max start 1 + (n - 1)) total) ↔
        Exact total (.count start n)) := by
  have htest : ∀ m, (LineSelector.count start n).selects total m = true ↔
      start ≤ m ∧ m - start < n := by
    intro m
    simp [LineSelector.selects]
  refine ⟨fun m hfirst hlast hselects => ?_, ?_⟩
  · rw [htest] at hselects
    rw [mem_upTo]
    omega
  · unfold Exact
    by_cases hn : n = 0
    · have hnone : (upTo 1 total).filter ((LineSelector.count start n).selects total) = [] := by
        refine filter_eq_nil_iff.mpr fun m _ hselects => ?_
        rw [htest] at hselects
        omega
      rw [hnone, eq_comm, ← length_eq_zero_iff, length_upTo]
      omega
    · have hrange : ∀ m, 1 ≤ m → m ≤ total →
          ((LineSelector.count start n).selects total m = true ↔
            start ≤ m ∧ m ≤ start + n - 1) :=
        fun m _ _ => (htest m).trans (by omega)
      have hfilter := filter_upTo hrange
      rw [hfilter]
      constructor
      · intro heq
        have hlength := upTo_inj heq
        omega
      · intro hexact
        refine congrArg _ ?_
        omega

/-- The numbers that are tested for are gone through, and no others when they come in order. -/
theorem selects_numbers {numbers : List Nat} (h : selector.numbers total = some numbers) :
    (∀ n, 1 ≤ n → n ≤ total → selector.selects total n = true → n ∈ numbers) ∧
      ((upTo 1 total).filter (selector.selects total) = numbers ↔ Exact total selector) := by
  cases selector with
  | single n =>
      have hrange := selects_range (.single n) total n n fun m _ _ => by
          simp only [LineSelector.selects, decide_eq_true_eq]
          omega
      have hnumbers : numbers = upTo (max n 1) (min n total) := by
        rw [← Option.some.inj h]
        split
        · refine eq_of_increasing (pairwise_singleton _ _) (upTo_pairwise _ _) fun m => ?_
          rw [mem_singleton, mem_upTo]
          omega
        · refine (length_eq_zero_iff.mp ?_).symm
          rw [length_upTo]
          omega
      rw [hnumbers]
      exact ⟨hrange.1, iff_of_true hrange.2 trivial⟩
  | fromLine n =>
      have hrange := selects_range (.fromLine n) total n total fun m _ hm => by
          simp only [LineSelector.selects, decide_eq_true_eq]
          omega
      rw [Nat.min_self] at hrange
      rw [← Option.some.inj h]
      exact ⟨hrange.1, iff_of_true hrange.2 trivial⟩
  | inclusive start last =>
      have hrange := selects_range (.inclusive start last) total start last fun m _ _ => by
          simp only [LineSelector.selects, Bool.and_eq_true, decide_eq_true_eq]
      rw [← Option.some.inj h]
      exact ⟨hrange.1, iff_of_true hrange.2 trivial⟩
  | count start n =>
      unfold LineSelector.numbers at h
      dsimp only at h
      split at h
      · rw [← Option.some.inj h]
        exact selects_count
      · cases h
  | disjoint ranges =>
      have htest : ∀ m, (LineSelector.disjoint ranges).selects total m = true ↔
          ∃ range ∈ ranges, range.1 ≤ m ∧ m ≤ range.2 := by
        intro m
        simp [LineSelector.selects]
      rw [← Option.some.inj h]
      refine ⟨fun m hfirst hlast hselects => ?_, filter_any_iff htest⟩
      obtain ⟨range, hrange, hstart, hend⟩ := (htest m).mp hselects
      exact mem_flatMap.mpr ⟨range, hrange, mem_upTo.mpr (by omega)⟩
  | tail n =>
      have hrange := selects_range (.tail n) total (total - n + 1) total fun m _ hm => by
          simp only [LineSelector.selects, gt_iff_lt, decide_eq_true_eq]
          omega
      rw [Nat.min_self, Nat.max_eq_left (by omega)] at hrange
      rw [← Option.some.inj h]
      exact ⟨hrange.1, iff_of_true hrange.2 trivial⟩

/-! ## The two selections -/

/-- Lines are the same with the same numbers when the numbers are and each line is. -/
theorem map_numbers_inj {numbers numbers' : List Nat} {f g : Nat → List Char} :
    (numbers.map fun n => (n, f n)) = (numbers'.map fun n => (n, g n)) ↔
      numbers = numbers' ∧ ∀ n ∈ numbers, f n = g n := by
  constructor
  · intro h
    have hnumbers := congrArg (map Prod.fst) h
    rw [map_map, map_map] at hnumbers
    have hsame : numbers = numbers' := by simpa [Function.comp_def] using hnumbers
    subst hsame
    refine ⟨rfl, fun n hn => ?_⟩
    exact (Prod.mk.inj (map_inj_left.mp h n hn)).2
  · rintro ⟨rfl, h⟩
    exact map_congr_left fun n hn => by rw [h n hn]

/-- The line at a number. -/
def lineAt (text : List Char) (n : Nat) : List Char :=
  (Text.endedLines '\n' text).getD (n - 1) []

theorem lineAt_number {row : Row} (h : row ∈ rows text) : lineAt text row.number = row.line := by
  rw [lineAt, getD_eq_getElem?_getD, (line_of_mem_rowsFrom h).2, Option.getD_some]

theorem map_rows {chosen : List Row} (h : chosen ⊆ rows text) (f : List Char → List Char) :
    (chosen.map fun row => (row.number, f row.line)) =
      (chosen.map (·.number)).map fun n => (n, f (lineAt text n)) := by
  rw [map_map]
  exact map_congr_left fun row hrow => by rw [Function.comp_apply, lineAt_number (h hrow)]

theorem dropLineEnd_lineAt (text : List Char) (n : Nat) :
    (Text.linesFrom [] text).getD (n - 1) [] = Text.dropLineEnd (lineAt text n) := by
  rw [Text.linesFrom_nil_eq, lineAt, getD_eq_getElem?_getD, getD_eq_getElem?_getD,
    getElem?_map]
  cases (Text.endedLines '\n' text)[n - 1]? <;> rfl

/-- What a selector gives of both readers. -/
theorem selected_iff {numbers : List Nat}
    (h : selector.numbers (rows text).length = some numbers) :
    (numbers.map fun n => (n, (Text.linesFrom [] text).getD (n - 1) [])) =
        (((rows text).filter (visible (some selector) conflicts (rows text).length)).map
          fun row => (row.number, Text.dropNewline row.line)) ↔
      Alike code (some selector) raw conflicts text := by
  obtain ⟨hmem, hexact⟩ := selects_numbers h
  have hfilter : (upTo 1 (rows text).length).filter (selector.selects (rows text).length) =
      ((rows text).filter fun row => selector.selects (rows text).length row.number).map
        (·.number) := by
    rw [← map_number_rows, filter_map]
    rfl
  rw [hfilter] at hexact
  have hsub : (rows text).filter (visible (some selector) conflicts (rows text).length) ⊆
      rows text := filter_sublist.subset
  simp only [dropLineEnd_lineAt]
  rw [map_rows hsub, map_numbers_inj]
  have hvisible : ∀ row, visible (some selector) conflicts (rows text).length row = true ↔
      selector.selects (rows text).length row.number = true ∧
        (conflicts = true → row.conflict = true) := by
    intro row
    cases conflicts <;> simp [visible]
  constructor
  · rintro ⟨hnumbers, hlines⟩
    -- a row that is tested for is gone through, so it is one of the visible rows
    have hrow : ∀ row ∈ rows text, selector.selects (rows text).length row.number = true →
        row.number ∈ numbers ∧
          visible (some selector) conflicts (rows text).length row = true := by
      intro row hrow hselects
      have hrange : row.number ∈ upTo 1 (rows text).length :=
        map_number_rows text ▸ mem_map_of_mem hrow
      rw [mem_upTo] at hrange
      have hnumber := hmem row.number hrange.1 hrange.2 hselects
      obtain ⟨row', hrow', heq⟩ := mem_map.mp (hnumbers ▸ hnumber)
      rw [mem_filter] at hrow'
      rw [← row_inj hrow'.1 hrow heq]
      exact ⟨heq ▸ hnumber, hrow'.2⟩
    refine ⟨hexact.mp ?_, fun row hmemrow hselects => ⟨?_, ?_⟩⟩
    · rw [hnumbers]
      refine congrArg _ (filter_congr fun row hmemrow => ?_)
      rw [Bool.eq_iff_iff]
      exact ⟨fun hselects => (hrow row hmemrow hselects).2, fun h => ((hvisible row).mp h).1⟩
    · have heq := hlines row.number (hrow row hmemrow hselects).1
      rw [lineAt_number hmemrow] at heq
      exact Text.dropNewline_eq_iff.mp heq.symm
    · exact ((hvisible row).mp (hrow row hmemrow hselects).2).2
  · rintro ⟨hinorder, hrows⟩
    have hnumbers := hexact.mpr hinorder
    have hsame : (rows text).filter (visible (some selector) conflicts (rows text).length) =
        (rows text).filter fun row => selector.selects (rows text).length row.number := by
      refine filter_congr fun row hmemrow => ?_
      rw [Bool.eq_iff_iff, hvisible]
      exact ⟨fun h => h.1, fun h => ⟨h, (hrows row hmemrow h).2⟩⟩
    rw [hsame]
    refine ⟨hnumbers.symm, fun n hn => ?_⟩
    rw [← hnumbers] at hn
    obtain ⟨row, hmemrow, rfl⟩ := mem_map.mp hn
    obtain ⟨hmemrow, hselects⟩ := mem_filter.mp hmemrow
    rw [lineAt_number hmemrow]
    exact (Text.dropNewline_eq_iff.mpr (hrows row hmemrow hselects).1).symm

/-! ## Without a selector -/

theorem numbered_eq (text : List Char) :
    numbered text = (rows text).map fun row => (row.number, Text.dropNewline row.line) := by
  have hfrom : ∀ (lines : List (List Char)) (number : Nat) (inConflict : Bool),
      ((lines.zipIdx number).map fun line => (line.2, Text.dropNewline line.1)) =
        (rowsFrom number inConflict lines).map fun row =>
          (row.number, Text.dropNewline row.line) := by
    intro lines
    induction lines with
    | nil => exact fun _ _ => rfl
    | cons line lines ih =>
      intro number inConflict
      rw [zipIdx_cons, map_cons, rowsFrom, map_cons, ← ih]
  exact hfrom _ 1 false

/-- All lines with their numbers, as the small reader counts them. -/
theorem zipIdx_lines (text : List Char) :
    ((Text.linesFrom [] text).zipIdx 1).map (fun line => (line.2, line.1)) =
      (rows text).map fun row => (row.number, Text.dropLineEnd row.line) := by
  have hfrom : ∀ (lines : List (List Char)) (number : Nat) (inConflict : Bool),
      (((lines.map Text.dropLineEnd).zipIdx number).map fun line => (line.2, line.1)) =
        (rowsFrom number inConflict lines).map fun row =>
          (row.number, Text.dropLineEnd row.line) := by
    intro lines
    induction lines with
    | nil => exact fun _ _ => rfl
    | cons line lines ih =>
      intro number inConflict
      rw [map_cons, zipIdx_cons, map_cons, rowsFrom, map_cons, ← ih]
  rw [Text.linesFrom_nil_eq]
  exact hfrom _ 1 false

theorem map_lines_inj {chosen : List Row} :
    (chosen.map fun row => (row.number, Text.dropLineEnd row.line)) =
        (chosen.map fun row => (row.number, Text.dropNewline row.line)) ↔
      ∀ row ∈ chosen, Plain row.line := by
  rw [map_inj_left]
  refine forall₂_congr fun row _ => ?_
  rw [Prod.mk.injEq, eq_self_iff_true, true_and, eq_comm]
  exact Text.dropNewline_eq_iff

/-- The whole text is all of its lines, so none may be hidden. -/
theorem whole_iff :
    numbered text = (((rows text).filter (visible none conflicts (rows text).length)).map
        fun row => (row.number, Text.dropNewline row.line)) ↔
      (conflicts = true → ∀ row ∈ rows text, row.conflict = true) := by
  rw [numbered_eq]
  constructor
  · intro h hconflicts row hrow
    have hlength := congrArg length h
    rw [length_map, length_map, eq_comm, length_filter_eq_length_iff] at hlength
    subst hconflicts
    simpa [visible] using hlength row hrow
  · intro h
    rw [filter_eq_self.mpr fun row hrow => ?_]
    cases conflicts with
    | false => rfl
    | true => simp [visible, h rfl row hrow]

theorem starts_dropLineEnd (marker : String) (hreturn : '\r' ∉ marker.toList)
    (hnewline : '\n' ∉ marker.toList) (line : List Char) :
    starts marker (Text.dropLineEnd line) = starts marker line := by
  unfold starts
  rw [Bool.eq_iff_iff, isPrefixOf_iff_prefix, isPrefixOf_iff_prefix]
  exact Text.prefix_dropLineEnd hreturn hnewline

/-- The two modes that show conflicts only part at a marker outside of a conflict. -/
theorem conflictLoop_iff (number : Nat) (inConflict : Bool) (lines : List (List Char)) :
    conflictLoop number inConflict (lines.map Text.dropLineEnd) =
        (((rowsFrom number inConflict lines).filter (·.conflict)).map fun row =>
          (row.number, Text.dropNewline row.line)) ↔
      ∀ row ∈ rowsFrom number inConflict lines,
        if row.conflict then Plain row.line
        else ¬starts "=======" row.line ∧ ¬starts ">>>>>>>" row.line := by
  induction lines generalizing number inConflict with
  | nil => exact iff_of_true rfl nofun
  | cons line lines ih =>
      have hopens := starts_dropLineEnd "<<<<<<<" (by decide) (by decide) line
      have hmiddle := starts_dropLineEnd "=======" (by decide) (by decide) line
      have hcloses := starts_dropLineEnd ">>>>>>>" (by decide) (by decide) line
      rw [map_cons, conflictLoop, rowsFrom, forall_mem_cons, filter_cons, hopens,
        hmiddle, hcloses]
      dsimp only
      cases hconflict : (starts "<<<<<<<" line || inConflict) with
      | true =>
        have hshown : (starts "<<<<<<<" line || starts "=======" line ||
            starts ">>>>>>>" line || inConflict) = true := by
          rcases Bool.or_eq_true_iff.mp hconflict with h | h <;> simp [h]
        rw [hshown, if_pos rfl, if_pos rfl, if_pos rfl, map_cons, cons.injEq,
          Prod.mk.injEq, eq_self_iff_true, true_and, Bool.true_and, Bool.and_true, ih]
        exact and_congr_left fun _ => eq_comm.trans Text.dropNewline_eq_iff
      | false =>
        obtain ⟨hno, rfl⟩ := Bool.or_eq_false_iff.mp hconflict
        rw [hno, Bool.false_or, Bool.or_false, Bool.and_false, if_neg Bool.false_ne_true,
          if_neg Bool.false_ne_true]
        cases hstray : (starts "=======" line || starts ">>>>>>>" line) with
        | true =>
          -- the small reader shows the line, the other has only later ones
          rw [if_pos rfl]
          refine iff_of_false (fun heq => ?_) fun h => ?_
          · have hmem : (number, Text.dropLineEnd line) ∈
                ((rowsFrom (number + 1) false lines).filter (·.conflict)).map fun row =>
                  (row.number, Text.dropNewline row.line) := heq ▸ mem_cons_self
            obtain ⟨row, hrow, hpair⟩ := mem_map.mp hmem
            have hlater := (line_of_mem_rowsFrom (mem_filter.mp hrow).1).1
            have hnumber := (Prod.mk.inj hpair).1
            omega
          · rcases Bool.or_eq_true_iff.mp hstray with hmarker | hmarker
            · exact h.1.1 hmarker
            · exact h.1.2 hmarker
        | false =>
          obtain ⟨hmiddle, hcloses⟩ := Bool.or_eq_false_iff.mp hstray
          rw [if_neg Bool.false_ne_true, Bool.false_and, ih, hmiddle, hcloses]
          exact (and_iff_right ⟨Bool.false_ne_true, Bool.false_ne_true⟩).symm

/-! ## Both readers -/

/-- Neither reader was cut short. -/
def Complete (label : String) (code : Bool) (selector : Option LineSelector) (raw conflicts : Bool)
    (text : List Char) : Prop :=
  (∀ small, readSmall code selector raw conflicts text = some small → small.truncated = false) ∧
    (textFile label selector raw conflicts text).truncated = false

theorem readSmall_some (code : Bool) (selector : LineSelector) (raw conflicts : Bool)
    (text : List Char) :
    readSmall code (some selector) raw conflicts text =
      (selector.selectLinesBounded (Text.linesFrom [] text) usizeMax maxReadBytes).map .lines := by
  cases raw <;> rfl

theorem length_linesFrom (text : List Char) :
    (Text.linesFrom [] text).length = (rows text).length := by
  rw [Text.linesFrom_nil_eq, length_map, length_rows]

/-- A small file that is read without a bound. -/
theorem agree_of_read {selector : Option LineSelector} {small : SmallRead}
    (hread : readSmall code selector raw conflicts text = some small)
    (hsmall : small.truncated = false)
    (hselected : small.selected = some (((rows text).filter
        (visible selector conflicts (rows text).length)).map fun row =>
          (row.number, Text.dropNewline row.line)) ↔ Alike code selector raw conflicts text) :
    Agree label code selector raw conflicts text ↔
      (Complete label code selector raw conflicts text →
        Alike code selector raw conflicts text) := by
  unfold Agree Complete
  simp only [hread, Option.some.injEq, exists_eq_left', forall_eq', hsmall, true_and, forall_const]
  refine forall_congr' fun hlarge => ?_
  rw [textFile_lines hlarge, map_map]
  exact hselected

/-- The readers agree exactly when the numbers of the selector are computed without overflow and,
where neither was cut short, the text and the selector are alike for both. -/
theorem agree_iff (label : String) (code : Bool) (selector : Option LineSelector)
    (raw conflicts : Bool) (text : List Char) :
    Agree label code selector raw conflicts text ↔
      (∀ s ∈ selector, Bounded s) ∧
        (Complete label code selector raw conflicts text →
          Alike code selector raw conflicts text) := by
  cases selector with
  | some selector =>
      have hbounded := numbers_isSome (rows text).length selector
      cases hnumbers : selector.numbers (rows text).length with
      | none =>
        rw [hnumbers] at hbounded
        have hread : readSmall code (some selector) raw conflicts text = none := by
          rw [readSmall_some, LineSelector.selectLinesBounded, length_linesFrom, hnumbers]
          rfl
        refine iff_of_false ?_ fun h => Bool.false_ne_true (hbounded.mpr (h.1 selector rfl))
        rintro ⟨small, hsmall, -⟩
        rw [hread] at hsmall
        cases hsmall
      | some numbers =>
        rw [hnumbers] at hbounded
        have hfits : ∀ s ∈ some selector, Bounded s := by
          rintro s ⟨⟩
          exact hbounded.mp rfl
        have hread : readSmall code (some selector) raw conflicts text =
            some (.lines (pushLines (Text.linesFrom [] text) usizeMax maxReadBytes 0 0
              numbers)) := by
          rw [readSmall_some, LineSelector.selectLinesBounded, length_linesFrom, hnumbers]
          rfl
        unfold Agree Complete
        simp only [hread, Option.some.injEq, exists_eq_left', forall_eq']
        rw [and_iff_right hfits, and_imp]
        refine forall_congr' fun hsmall => forall_congr' fun hlarge => ?_
        rw [textFile_lines hlarge, map_map]
        refine Iff.trans ?_ (selected_iff hnumbers)
        rw [← pushLines_lines hsmall, SmallRead.selected, Option.some.injEq]
        exact Iff.rfl
  | none =>
      have hfits : ∀ s ∈ (none : Option LineSelector), Bounded s := nofun
      rw [and_iff_right hfits]
      cases raw with
      | true =>
        refine agree_of_read rfl rfl ?_
        rw [SmallRead.selected, Option.some.injEq]
        exact whole_iff
      | false =>
        cases conflicts with
        | true =>
          refine agree_of_read rfl rfl ?_
          rw [SmallRead.selected, Option.some.injEq]
          dsimp only
          rw [Text.linesFrom_nil_eq]
          refine Iff.trans ?_ (conflictLoop_iff 1 false (Text.endedLines '\n' text))
          have hvisible : visible none true (rows text).length = (·.conflict) := by
            funext row
            simp [visible]
          rw [hvisible]
          exact Iff.rfl
        | false =>
          have hall : (rows text).filter (visible none false (rows text).length) =
              rows text :=
            filter_eq_self.mpr fun row _ => by simp [visible]
          by_cases hsummary : code = true ∧ 40 < (rows text).length
          · have hread : readSmall code none false false text = some .summary := by
              unfold readSmall
              dsimp only
              rw [if_neg Bool.false_ne_true, if_neg Bool.false_ne_true, length_linesFrom,
                if_pos (by simpa using hsummary)]
            refine agree_of_read hread rfl (iff_of_false nofun fun h => ?_)
            exact h.1 hsummary
          · have hread : readSmall code none false false text = some (.lines
                ⟨(Text.linesFrom [] text).zipIdx 1 |>.map fun line => (line.2, line.1),
                  false⟩) := by
              unfold readSmall
              dsimp only
              rw [if_neg Bool.false_ne_true, if_neg Bool.false_ne_true, length_linesFrom,
                if_neg (by simpa using hsummary)]
            refine agree_of_read hread rfl ?_
            rw [SmallRead.selected, Option.some.injEq, hall, zipIdx_lines, map_lines_inj]
            exact (and_iff_right hsummary).symm

/-- A count of no lines shows one line of a small file, and none of a large one. -/
theorem not_agree_count : ¬Agree "a" false (some (.count 1 0)) true false ['a', '\n'] := by
  rintro ⟨small, hsmall, hagree⟩
  have hread : readSmall false (some (.count 1 0)) true false ['a', '\n'] =
      some (.lines ⟨[(1, ['a'])], false⟩) := by decide
  rw [hread] at hsmall
  cases hsmall
  exact absurd (hagree rfl (by decide)) (by decide)

end Omp2.Tools.Read
