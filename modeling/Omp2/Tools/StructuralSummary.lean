import Omp2.Library.Text

/-!
# Structural summaries

`build_structural_summary` of `omp-tools/src/host.rs`, which shows the declarations of a file and
elides what is between them. The pass over the lines is compared with the pieces that it prints:
they partition the lines of the file.
-/

namespace Omp2.Tools.Structural

open List

/-! ## The pass -/

/-- The starts of the lines that are shown. -/
def declarationStarts : List String :=
  ["fn ", "pub fn ", "struct ", "pub struct ", "enum ", "pub enum ", "impl ", "pub trait ",
    "trait ", "def ", "async def ", "class ", "function ", "async function ", "interface ", "type ",
    "export "]

/-- The test of `build_structural_summary` on a line. -/
def isDecl (line : String) : Bool :=
  declarationStarts.any fun start => start.toList.isPrefixOf (Text.trim line).toList

/-- The variables of the pass. -/
structure Pass where
  out : String
  declarations : Nat
  elidedLines : Nat
  inElision : Bool
  elisionStart : Nat

/-- What is printed for elided lines. -/
def elidedText (first last : Nat) : String :=
  s!"{first}-{last}: … ({last - first + 1} lines elided)\n"

/-- The range that is open ends at a line. -/
def Pass.close (pass : Pass) (last : Nat) : Pass :=
  if pass.inElision then
    { pass with
      elidedLines := pass.elidedLines + (last - pass.elisionStart + 1)
      out := pass.out ++ elidedText pass.elisionStart last
      inElision := false }
  else pass

/-- One round of the loop. -/
def Pass.step (pass : Pass) (lineNum : Nat) (line : String) : Pass :=
  if isDecl line then
    let pass := pass.close (lineNum - 1)
    { pass with
      declarations := pass.declarations + 1
      out := pass.out ++ s!"{lineNum}:{line}\n" }
  else if pass.inElision then pass
  else { pass with inElision := true, elisionStart := lineNum }

/-- The loop over the lines. -/
def Pass.run (pass : Pass) (lineNum : Nat) : List String → Pass
  | [] => pass
  | line :: lines => (pass.step lineNum line).run (lineNum + 1) lines

/-- What is printed after the lines. -/
def footer (declarations elidedLines : Nat) : String :=
  s!"\n[Structural summary: {declarations} declarations, {elidedLines} lines elided. " ++
    "Use :N-M selector to read specific ranges]"

/-- `build_structural_summary`. -/
def buildStructuralSummary (path tag : String) (lines : List String) : String :=
  let pass := (Pass.run ⟨s!"[{path}#{tag}]\n", 0, 0, false, 0⟩ 1 lines).close lines.length
  pass.out ++ footer pass.declarations pass.elidedLines

/-! ## The pieces -/

/-- What a summary prints between its header and its footer. -/
inductive Piece where
  | declaration (lineNum : Nat) (line : String)
  | elided (first last : Nat)

namespace Piece

/-- How a piece is printed. -/
def print : Piece → String
  | .declaration lineNum line => s!"{lineNum}:{line}\n"
  | .elided first last => elidedText first last

/-- The numbers of the lines that a piece mentions. -/
def lineNums : Piece → List Nat
  | .declaration lineNum _ => [lineNum]
  | .elided first last => range' first (last + 1 - first)

/-- A piece tells the truth about the lines of a file. A range is not empty, and no declaration is
in it. -/
def Of (lines : List String) : Piece → Prop
  | .declaration lineNum line => 1 ≤ lineNum ∧ lines[lineNum - 1]? = some line ∧ isDecl line = true
  | .elided first last => 1 ≤ first ∧ first ≤ last ∧ ∀ lineNum, first ≤ lineNum →
      lineNum ≤ last → ∀ line, lines[lineNum - 1]? = some line → isDecl line = false

end Piece

/-- The pieces from a line on, where a range may be open before it. -/
def pieces (start : Option Nat) (lineNum : Nat) : List String → List Piece
  | [] => (start.map fun first => Piece.elided first (lineNum - 1)).toList
  | line :: lines =>
    if isDecl line then
      (start.map fun first => Piece.elided first (lineNum - 1)).toList ++
        .declaration lineNum line :: pieces none (lineNum + 1) lines
    else pieces (some (start.getD lineNum)) (lineNum + 1) lines

/-- The start of the range that is open. -/
def Pass.start (pass : Pass) : Option Nat :=
  if pass.inElision then some pass.elisionStart else none

/-- The elided lines that are not counted before the range is closed. -/
def Pass.pending (pass : Pass) (lineNum : Nat) : Nat :=
  if pass.inElision then lineNum - pass.elisionStart else 0

/-- The text of pieces. -/
def printed (pieces : List Piece) : String :=
  pieces.foldr (fun piece text => piece.print ++ text) ""

theorem printed_append (front rest : List Piece) :
    printed (front ++ rest) = printed front ++ printed rest := by
  induction front with
  | nil => exact String.empty_append.symm
  | cons piece front ih =>
      show piece.print ++ printed (front ++ rest) = (piece.print ++ printed front) ++ printed rest
      rw [ih, String.append_assoc]

/-- Closing a range prints its piece and counts its lines. -/
theorem Pass.close_eq (pass : Pass) (n : Nat)
    (hstart : pass.inElision = true → pass.elisionStart ≤ n) :
    pass.close n = {
      out := pass.out ++ printed (pass.start.map fun first => Piece.elided first n).toList
      declarations := pass.declarations
      elidedLines := pass.elidedLines + pass.pending (n + 1)
      inElision := false
      elisionStart := pass.elisionStart } := by
  obtain ⟨out, declarations, elidedLines, inElision, elisionStart⟩ := pass
  unfold close start pending
  cases inElision with
  | false => simp [printed]
  | true =>
      have hcount : n - elisionStart + 1 = n + 1 - elisionStart := by
        have := hstart rfl
        dsimp only at this
        omega
      simp [printed, Piece.print, hcount]

/-- The pass prints the pieces and counts the lines. -/
theorem run_close (lines : List String) (pass : Pass) (n : Nat)
    (hstart : pass.inElision = true → pass.elisionStart ≤ n) :
    let last := (pass.run (n + 1) lines).close (n + lines.length)
    last.out = pass.out ++ printed (pieces pass.start (n + 1) lines) ∧
    last.declarations = pass.declarations + lines.countP isDecl ∧
    last.elidedLines =
      pass.elidedLines + pass.pending (n + 1) + lines.countP fun line => !isDecl line := by
  induction lines generalizing pass n with
  | nil =>
      show (pass.close n).out = _ ∧ (pass.close n).declarations = _ ∧
        (pass.close n).elidedLines = _
      rw [pass.close_eq n hstart]
      exact ⟨rfl, rfl, rfl⟩
  | cons line lines ih =>
      have hlength : n + (line :: lines).length = n + 1 + lines.length := by
        rw [length_cons, Nat.add_right_comm, Nat.add_assoc]
      rw [hlength, Pass.run, pieces, countP_cons, countP_cons]
      unfold Pass.step
      by_cases hdecl : isDecl line = true
      · -- the range that is open is closed before the declaration
        rw [if_pos hdecl, if_pos hdecl, Nat.add_sub_cancel, pass.close_eq n hstart]
        obtain ⟨hout, hdeclarations, helided⟩ := ih { pass with
          out := pass.out ++ printed (pass.start.map fun first => Piece.elided first n).toList ++
            s!"{n + 1}:{line}\n"
          declarations := pass.declarations + 1
          elidedLines := pass.elidedLines + pass.pending (n + 1)
          inElision := false } (n + 1) nofun
        refine ⟨hout.trans ?_, hdeclarations.trans ?_, helided.trans ?_⟩
        · rw [printed_append]
          show _ = pass.out ++ (_ ++ (s!"{n + 1}:{line}\n" ++ printed (pieces none _ lines)))
          simp only [String.append_assoc]
          rfl
        · rw [hdecl]
          exact Nat.add_right_comm ..
        · rw [hdecl]
          rfl
      · rw [if_neg hdecl, if_neg hdecl, if_neg hdecl,
          if_pos (show (!isDecl line) = true by simpa using hdecl)]
        obtain ⟨out, declarations, elidedLines, inElision, elisionStart⟩ := pass
        cases inElision with
        | true =>
          have hle := hstart rfl
          obtain ⟨hout, hdeclarations, helided⟩ :=
            ih ⟨out, declarations, elidedLines, true, elisionStart⟩ (n + 1) fun _ =>
              Nat.le_succ_of_le hle
          refine ⟨hout, hdeclarations, helided.trans ?_⟩
          simp only [Pass.pending, if_true] at hle ⊢
          omega
        | false =>
          obtain ⟨hout, hdeclarations, helided⟩ :=
            ih ⟨out, declarations, elidedLines, true, n + 1⟩ (n + 1) fun _ => Nat.le_refl _
          refine ⟨hout, hdeclarations, helided.trans ?_⟩
          simp only [Pass.pending, if_true, Bool.false_eq_true, if_false]
          omega

theorem Piece.Of.append {before : List String} {first last : Nat}
    (h : (Piece.elided first last).Of before) (hlast : last ≤ before.length)
    (lines : List String) : (Piece.elided first last).Of (before ++ lines) := by
  refine ⟨h.1, h.2.1, fun lineNum hfirst hle line hline => h.2.2 lineNum hfirst hle line ?_⟩
  have := h.1
  rwa [getElem?_append_left (by omega)] at hline

/-- The piece of a range that is open covers its lines. -/
theorem open_partition {before : List String} {start : Option Nat}
    (hstart : ∀ first, start = some first → (Piece.elided first before.length).Of before)
    (lines : List String) :
    (start.map fun first => Piece.elided first before.length).toList.flatMap Piece.lineNums =
      range' (start.getD (before.length + 1))
        (before.length + 1 - start.getD (before.length + 1)) ∧
    ∀ piece ∈ (start.map fun first => Piece.elided first before.length).toList,
      piece.Of (before ++ lines) := by
  cases start with
  | none => exact ⟨by simp, nofun⟩
  | some first =>
      refine ⟨by simp [Piece.lineNums], fun piece hpiece => ?_⟩
      obtain rfl := mem_singleton.mp hpiece
      exact (hstart first rfl).append (Nat.le_refl _) lines

/-- The pieces partition the lines. -/
theorem pieces_partition (lines before : List String) (start : Option Nat)
    (hstart : ∀ first, start = some first → (Piece.elided first before.length).Of before) :
    (pieces start (before.length + 1) lines).flatMap Piece.lineNums =
      range' (start.getD (before.length + 1))
        (before.length + 1 - start.getD (before.length + 1) + lines.length) ∧
    ∀ piece ∈ pieces start (before.length + 1) lines, piece.Of (before ++ lines) := by
  induction lines generalizing before start with
  | nil => exact open_partition hstart []
  | cons line lines ih =>
      have hlength : (before ++ [line]).length = before.length + 1 := length_append
      have happend : before ++ line :: lines = before ++ [line] ++ lines :=
        (append_assoc before [line] lines).symm
      have hle : start.getD (before.length + 1) ≤ before.length + 1 := by
        cases hfirst : start with
        | none => exact Nat.le_refl _
        | some first => exact Nat.le_succ_of_le (hstart first hfirst).2.1
      rw [length_cons]
      unfold pieces
      by_cases hdecl : isDecl line = true
      · obtain ⟨hopened, hopen⟩ := open_partition hstart (line :: lines)
        obtain ⟨hnums, hof⟩ := ih (before ++ [line]) none nofun
        rw [hlength] at hnums hof
        rw [if_pos hdecl, flatMap_append, flatMap_cons, Nat.add_sub_cancel, hopened, hnums]
        constructor
        · rw [Option.getD_none, Nat.sub_self, Nat.zero_add]
          show _ ++ range' (before.length + 1) (lines.length + 1) = _
          have hnext := range'_append_1 (s := start.getD (before.length + 1))
            (m := before.length + 1 - start.getD (before.length + 1)) (n := lines.length + 1)
          rwa [Nat.add_sub_cancel' hle] at hnext
        · intro piece hpiece
          rcases mem_append.mp hpiece with hpiece | hpiece
          · exact hopen piece hpiece
          · rcases mem_cons.mp hpiece with rfl | hpiece
            · exact ⟨Nat.le_add_left .., by simp, hdecl⟩
            · exact happend ▸ hof piece hpiece
      · have hnext : ∀ first, some (start.getD (before.length + 1)) = some first →
            (Piece.elided first (before ++ [line]).length).Of (before ++ [line]) := by
          rintro first ⟨⟩
          rw [hlength]
          have hone : 1 ≤ start.getD (before.length + 1) := by
            cases hfirst : start with
            | none => exact Nat.le_add_left ..
            | some first => exact (hstart first hfirst).1
          refine ⟨hone, hle, fun lineNum hfirst hlast other hother => ?_⟩
          rcases Nat.lt_or_eq_of_le hlast with hlt | rfl
          · -- an earlier line of the range
            cases hstarted : start with
            | none =>
              rw [hstarted, Option.getD_none] at hfirst
              omega
            | some first =>
              rw [hstarted, Option.getD_some] at hfirst hone
              exact ((hstart first hstarted).append (Nat.le_refl _) [line]).2.2 lineNum hfirst
                (by omega) other hother
          · rw [Nat.add_sub_cancel, getElem?_concat_length] at hother
            cases hother
            exact Bool.eq_false_iff.mpr hdecl
        obtain ⟨hnums, hof⟩ := ih (before ++ [line]) _ hnext
        rw [hlength] at hnums hof
        rw [if_neg hdecl, hnums]
        refine ⟨congrArg (range' _) ?_, fun piece hpiece => happend ▸ hof piece hpiece⟩
        rw [Option.getD_some]
        omega

/-- The printed summary of every list of lines is a header, pieces that partition the lines, and a
footer. Each number from the first to the last line is mentioned once and in order, as a declaration
with its own text or in a range without declarations that is not empty. The footer counts the
declarations and the elided lines, which are all lines. -/
theorem buildStructuralSummary_partitions (path tag : String) (lines : List String) :
    ∃ pieces : List Piece,
      pieces.flatMap Piece.lineNums = range' 1 lines.length ∧
      (∀ piece ∈ pieces, piece.Of lines) ∧
      (pieces.flatMap Piece.lineNums).length =
        lines.countP isDecl + lines.countP (fun line => !isDecl line) ∧
      buildStructuralSummary path tag lines = s!"[{path}#{tag}]\n" ++ printed pieces ++
        footer (lines.countP isDecl) (lines.countP fun line => !isDecl line) := by
  obtain ⟨hnums, hof⟩ := pieces_partition lines [] none nofun
  obtain ⟨hout, hdeclarations, helided⟩ :=
    run_close lines ⟨s!"[{path}#{tag}]\n", 0, 0, false, 0⟩ 0 nofun
  simp only [Nat.zero_add] at hout hdeclarations helided
  have hall : (pieces none 1 lines).flatMap Piece.lineNums = range' 1 lines.length := by
    simpa using hnums
  refine ⟨pieces none 1 lines, hall, by simpa using hof, ?_, ?_⟩
  · rw [hall, length_range', lines.length_eq_countP_add_countP isDecl]
    simp
  · unfold buildStructuralSummary
    dsimp only
    rw [hout, hdeclarations, helided]
    simp only [Pass.pending, Bool.false_eq_true, if_false, Nat.zero_add]
    rfl

end Omp2.Tools.Structural
