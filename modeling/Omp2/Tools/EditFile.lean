import Omp2.Inference.Compat
import Omp2.Library.Splices
import Omp2.Tools.Hashline
import Omp2.Tools.ReadLines

/-!
# Editing a file

`handle_edit` in `omp-tools/src/host.rs`, with the bytes of the file as an argument. The operations
of a section are applied one after the other to the lines of the file, each to what those before it
have left. What the file system refuses is left out.
-/

namespace Omp2.Tools

open List Splices

/-- Why the loop of `handle_edit` ends before its last operation. -/
inductive EditStop where
  | conflict (message diagnostic : String)
  | removed
  | moved (destination : String)
deriving DecidableEq

/-- The line is blank. -/
def blankLine (line : String) : Bool :=
  (Text.trimChars line.toList).isEmpty

/-- The end of the block that starts at an index: the next blank line, or the end of the file. -/
def blockEnd (lines : List String) (start : Nat) : Nat :=
  start + 1 + ((lines.drop (start + 1)).takeWhile fun line => !blankLine line).length

/-- What an operation replaces. The loop passes over the operations that replace nothing. -/
def EditOp.replaced (lines : List String) : EditOp → Except EditStop (Option (Splice String))
  | .putRange s e body =>
    if s < 1 ∨ e < s ∨ lines.length + 1 < s then
      .error (.conflict "Edit failed due to invalid range" (s!"PUT range {s}.={e} is invalid for " ++
        s!"file with {lines.length} lines"))
    else .ok (some ⟨s - 1, min e lines.length, body⟩)
  | .putBlock s body =>
    if s < 1 ∨ lines.length < s then
      .error (.conflict "Edit failed due to invalid block start" (s!"PUT block at line {s} is out " ++
        s!"of bounds for file with {lines.length} lines"))
    else .ok (some ⟨s - 1, blockEnd lines (s - 1), body⟩)
  | .insertBefore l body =>
    if l < 1 ∨ lines.length + 1 < l then
      .error (.conflict "Edit failed due to invalid insertion point" (s!"InsertBefore <{l} is out " ++
        s!"of bounds for file with {lines.length} lines"))
    else .ok (some ⟨l - 1, l - 1, body⟩)
  | .insertAfter l body =>
    if lines.length < l then
      .error (.conflict "Edit failed due to invalid insertion point" (s!"InsertAfter >{l} is out " ++
        s!"of bounds for file with {lines.length} lines"))
    else .ok (some ⟨l, l, body⟩)
  | .cutRange s e _ =>
    if s < 1 ∨ e < s ∨ lines.length < s then
      .error (.conflict "Edit failed due to invalid range" (s!"CUT range {s}.={e} is invalid for " ++
        s!"file with {lines.length} lines"))
    else .ok (some ⟨s - 1, min e lines.length, []⟩)
  | .cutBlock s _ =>
    if s < 1 ∨ lines.length < s then
      .error (.conflict "Edit failed due to invalid block start"
        (s!"CUT block at line {s} is out of bounds"))
    else .ok (some ⟨s - 1, blockEnd lines (s - 1), []⟩)
  | .removeFile => .error .removed
  | .moveFile destination => .error (.moved destination)
  | .pasteBefore .. | .pasteAfter .. => .ok none

/-- The loop of `handle_edit` over the operations of a section. -/
def editLines : List String → List EditOp → Except EditStop (List String)
  | lines, [] => .ok lines
  | lines, op :: ops =>
    match op.replaced lines with
    | .error stop => .error stop
    | .ok none => editLines lines ops
    | .ok (some splice) => editLines (splice.apply lines) ops

/-- The text that is written back. -/
def editedText (text : String) (lines : List String) : String :=
  "\n".intercalate lines ++ if text.toList.getLast? = some '\n' then "\n" else ""

/-- `section_targets_path`. -/
def sectionTargetsPath (sectionPath requested : String) : Bool :=
  let (long, short) := if requested.utf8ByteSize < sectionPath.utf8ByteSize then
    (sectionPath, requested) else (requested, sectionPath)
  sectionPath = requested ||
    (match Text.stripEnd short.toList long.toList with
      | some front => front.getLast? = some '/' || front.getLast? = some '\\'
      | none => false)

/-- What `handle_edit` leaves of a file. -/
inductive EditResponse where
  | unchanged (message diagnostic code : String)
  | removed (message : String)
  | moved (destination message : String)
  | written (content message : String)
deriving DecidableEq

/-- `handle_edit` of a file with the given bytes. -/
def handleEdit (bytes : List UInt8) (path : String) (expectedTag : Option String)
    (patchText : String) : Except ToolError EditResponse :=
  let currentTag := String.ofList (Read.fileTag bytes)
  match expectedTag.filter fun exp => !Inference.eqIgnoreAsciiCase exp currentTag with
  | some exp => .ok (.unchanged ("Edit aborted due to tag mismatch on " ++ path)
      (s!"Tag mismatch on {path}: expected #{exp}, current is #{currentTag}. Re-read file before " ++
        "editing.") "stale_tag")
  | none => do
    let sections ← Hashline.parse patchText
    match sections.find? fun s => sectionTargetsPath s.path path with
    | none => .ok (.unchanged ("Edit aborted: no section targets " ++ path)
        ("Patch contains no section targeting " ++ path ++ "; file left unchanged") "conflict")
    | some s =>
      let text := Utf8.lossy bytes
      match editLines (Text.lines text) s.ops with
      | .error (.conflict message diagnostic) => .ok (.unchanged message diagnostic "conflict")
      | .error .removed => .ok (.removed ("Deleted file " ++ path))
      | .error (.moved destination) =>
        .ok (.moved destination ("Moved " ++ path ++ " to " ++ destination))
      | .ok lines =>
        let content := editedText text lines
        let newTag := String.ofList (Read.fileTag content.toUTF8.toList)
        .ok (.written content (s!"Applied edit to {path} (new tag: #{newTag})"))

/-! ## Operations that are read against the tagged revision -/

variable {lines lines' : List String} {op : EditOp} {splice : Splice String}

/-- How many lines decide what an operation replaces. A block is followed by a line that ends it. -/
def EditOp.reach (lines : List String) : EditOp → Nat
  | .putRange _ e _ | .cutRange _ e _ => e
  | .putBlock s _ | .cutBlock s _ => blockEnd lines (s - 1) + 1
  | .insertBefore l _ => l - 1
  | .insertAfter l _ => l
  | .removeFile | .moveFile _ | .pasteBefore .. | .pasteAfter .. => 0

theorem blockEnd_le {start : Nat} (h : start < lines.length) :
    blockEnd lines start ≤ lines.length := by
  have hblock : ((lines.drop (start + 1)).takeWhile fun line => !blankLine line).length ≤
      (lines.drop (start + 1)).length := (takeWhile_sublist _).length_le
  rw [length_drop] at hblock
  unfold blockEnd
  omega

/-- A block that ends within the front of a file ends there whatever follows the front. -/
theorem blockEnd_take {start m : Nat} (hlines : m ≤ lines.length)
    (hfront : lines'.take m = lines.take m) (hend : blockEnd lines start < m) :
    blockEnd lines' start = blockEnd lines start := by
  have hstart : start + 1 ≤ m := by
    unfold blockEnd at hend
    omega
  have hsplit (file : List String) (hfile : file.take m = lines.take m) :
      file.drop (start + 1) = (lines.take m).drop (start + 1) ++ file.drop m := by
    rw [← hfile, ← drop_append_of_le_length, take_append_drop]
    rw [hfile, length_take_of_le hlines]
    exact hstart
  unfold blockEnd at hend ⊢
  rw [hsplit lines rfl, takeWhile_append] at hend ⊢
  rw [hsplit lines' hfront, takeWhile_append]
  split at hend
  · -- the block would go on to the end of the front
    rw [length_append, length_drop, length_take_of_le hlines] at hend
    omega
  · next hwithin => rw [if_neg hwithin, if_neg hwithin]

/-- The range that an operation replaces is in order, within the file and within its reach. -/
theorem replaced_range (h : op.replaced lines = .ok (some splice)) :
    splice.start ≤ splice.stop ∧ splice.stop ≤ lines.length ∧ splice.stop ≤ op.reach lines := by
  unfold EditOp.replaced at h
  cases op with
  | putRange s e body | cutRange s e register =>
      dsimp only at h
      split at h
      · cases h
      · cases h
        simp only [EditOp.reach]
        omega
  | putBlock s body | cutBlock s register =>
      dsimp only at h
      split at h
      · cases h
      · next hvalid =>
        cases h
        have hend : blockEnd lines (s - 1) ≤ lines.length := blockEnd_le (by omega)
        refine ⟨?_, hend, Nat.le_succ _⟩
        unfold blockEnd
        dsimp only
        omega
  | insertBefore l body | insertAfter l body =>
      dsimp only at h
      split at h
      · cases h
      · cases h
        simp only [EditOp.reach]
        omega
  | removeFile | moveFile destination => cases h
  | pasteBefore l register | pasteAfter l register => cases h

/-- An operation replaces the same in a file that differs behind its reach. -/
theorem replaced_take {m : Nat} (h : op.replaced lines = .ok (some splice))
    (hreach : op.reach lines ≤ m) (hlines : m ≤ lines.length) (hlines' : m ≤ lines'.length)
    (hfront : lines'.take m = lines.take m) : op.replaced lines' = .ok (some splice) := by
  unfold EditOp.replaced at h ⊢
  cases op with
  | putRange s e body | cutRange s e register =>
      dsimp only at h ⊢
      split at h
      · cases h
      · next hvalid =>
        cases h
        replace hreach : e ≤ m := hreach
        rw [if_neg (by omega), Nat.min_eq_left (hreach.trans hlines),
          Nat.min_eq_left (hreach.trans hlines')]
  | putBlock s body | cutBlock s register =>
      dsimp only at h ⊢
      split at h
      · cases h
      · next hvalid =>
        cases h
        have hend : blockEnd lines (s - 1) < m := hreach
        have hstart : s - 1 < blockEnd lines (s - 1) := by
          unfold blockEnd
          omega
        rw [if_neg (by omega), blockEnd_take hlines hfront hend]
  | insertBefore l body | insertAfter l body =>
      dsimp only at h ⊢
      split at h
      · cases h
      · next hvalid =>
        cases h
        simp only [EditOp.reach] at hreach
        rw [if_neg (by omega)]
  | removeFile | moveFile destination => cases h
  | pasteBefore l register | pasteAfter l register => cases h

/-- The first operation meets the file as it was up to its range, and the later ones stay above it. -/
theorem editLines_front {edit : EditOp × Splice String} {edits : List (EditOp × Splice String)}
    (htarget : ∀ e ∈ edit :: edits, e.1.replaced lines = .ok (some e.2))
    (hapart : (edit :: edits).Pairwise fun lower upper => upper.1.reach lines ≤ lower.2.start)
    (hedit : edit.1.replaced lines' = .ok (some edit.2)) (hlines' : edit.2.start ≤ lines'.length)
    (hfront : lines'.take edit.2.start = lines.take edit.2.start) :
    editLines lines' ((edit :: edits).map Prod.fst) =
      .ok (((edit :: edits).map Prod.snd).foldl (fun lines splice => splice.apply lines) lines') := by
  rw [map_cons, map_cons, foldl_cons, editLines, hedit]
  induction edits generalizing edit lines' with
  | nil => rfl
  | cons next edits ih =>
      obtain ⟨hhere, htarget⟩ := forall_mem_cons.mp htarget
      obtain ⟨habove, hapart⟩ := pairwise_cons.mp hapart
      obtain ⟨horder, hstop, -⟩ := replaced_range hhere
      have hnext := htarget next mem_cons_self
      have hreach := habove next mem_cons_self
      have hstart : next.2.start ≤ edit.2.start :=
        (replaced_range hnext).1.trans ((replaced_range hnext).2.2.trans hreach)
      have htake : (lines'.take edit.2.start).length = edit.2.start := length_take_of_le hlines'
      have hlength : edit.2.start ≤ (edit.2.apply lines').length := by
        rw [Splice.apply, append_assoc, length_append, htake]
        exact Nat.le_add_right _ _
      have hkept : (edit.2.apply lines').take edit.2.start = lines.take edit.2.start := by
        rw [Splice.apply, append_assoc, take_append_of_le_length (by rw [htake]), take_take,
          Nat.min_self, hfront]
      have hmet := replaced_take hnext hreach (horder.trans hstop) hlength hkept
      dsimp only
      rw [map_cons, map_cons, foldl_cons, editLines, hmet]
      refine ih htarget hapart hmet (hstart.trans hlength) ?_
      rw [← Nat.min_eq_left hstart, ← take_take, hkept, take_take]

/-- Operations whose reaches end above the ranges of those before them are all applied together:
each replaces what it names in the file as it was. -/
theorem editLines_bottomUp {edits : List (EditOp × Splice String)}
    (htarget : ∀ edit ∈ edits, edit.1.replaced lines = .ok (some edit.2))
    (hapart : edits.Pairwise fun lower upper => upper.1.reach lines ≤ lower.2.start) :
    editLines lines (edits.map Prod.fst) =
      .ok (together 0 (edits.map Prod.snd).reverse lines) := by
  have hloop : editLines lines (edits.map Prod.fst) =
      .ok ((edits.map Prod.snd).foldl (fun lines splice => splice.apply lines) lines) := by
    cases edits with
    | nil => rfl
    | cons edit edits =>
      have hedit := htarget edit mem_cons_self
      obtain ⟨horder, hstop, -⟩ := replaced_range hedit
      exact editLines_front htarget hapart hedit (horder.trans hstop) rfl
  have hrange : ∀ splice ∈ edits.map Prod.snd, splice.start ≤ splice.stop ∧
      splice.stop ≤ lines.length := by
    intro splice hsplice
    obtain ⟨edit, hedit, rfl⟩ := mem_map.mp hsplice
    obtain ⟨horder, hstop, -⟩ := replaced_range (htarget edit hedit)
    exact ⟨horder, hstop⟩
  have hstops : (edits.map Prod.snd).Pairwise fun lower upper => upper.stop ≤ lower.start :=
    pairwise_map.mpr (hapart.imp_of_mem fun _ hupper hreach =>
      (replaced_range (htarget _ hupper)).2.2.trans hreach)
  rw [hloop, foldl_apply hrange hstops]

/-- A section whose operations go through the tagged revision from the last lines to the first is
applied as a whole: every line number is that of the file that was read. -/
theorem handleEdit_bottomUp {bytes : List UInt8} {path tag patchText : String}
    {sections : List ParsedEditSection} {s : ParsedEditSection}
    {edits : List (EditOp × Splice String)}
    (htag : Inference.eqIgnoreAsciiCase tag (String.ofList (Read.fileTag bytes)) = true)
    (hparse : Hashline.parse patchText = .ok sections)
    (hsection : (sections.find? fun s => sectionTargetsPath s.path path) = some s)
    (hops : s.ops = edits.map Prod.fst)
    (htarget : ∀ edit ∈ edits,
      edit.1.replaced (Text.lines (Utf8.lossy bytes)) = .ok (some edit.2))
    (hapart : edits.Pairwise fun lower upper =>
      upper.1.reach (Text.lines (Utf8.lossy bytes)) ≤ lower.2.start) :
    ∃ message, handleEdit bytes path (some tag) patchText =
      .ok (.written (editedText (Utf8.lossy bytes)
        (together 0 (edits.map Prod.snd).reverse (Text.lines (Utf8.lossy bytes)))) message) := by
  have hmatch : (some tag).filter (fun exp =>
      !Inference.eqIgnoreAsciiCase exp (String.ofList (Read.fileTag bytes))) = none := by
    rw [Option.filter_some, htag]
    rfl
  unfold handleEdit
  dsimp only
  rw [hmatch, hparse]
  dsimp only [bind, Except.bind]
  rw [hsection]
  dsimp only
  rw [hops, editLines_bottomUp htarget hapart]
  exact ⟨_, rfl⟩

/-- Two operations on a file of three lines, with what they replace. -/
def cutPut : List (EditOp × Splice String) :=
  [(.cutRange 3 3 none, ⟨2, 3, []⟩), (.putRange 1 1 ["x", "y"], ⟨0, 1, ["x", "y"]⟩)]

/-- The last line is cut, and then the first one replaced. -/
theorem handleEdit_cutPut : ∃ message, handleEdit "a\nb\nc\n".toUTF8.toList "f"
    (some (String.ofList (Read.fileTag "a\nb\nc\n".toUTF8.toList)))
    "[f#T]\nCUT 3.=3\nPUT 1.=1:\n+x\n+y\n" = .ok (.written "x\ny\nb\n" message) := by
  have hlines : Text.lines (Utf8.lossy "a\nb\nc\n".toUTF8.toList) = ["a", "b", "c"] := by
    decide +kernel
  have hparse : Hashline.parse "[f#T]\nCUT 3.=3\nPUT 1.=1:\n+x\n+y\n" =
      .ok [⟨"f", "T", cutPut.map Prod.fst⟩] := by
    rfl
  have hsection : [(⟨"f", "T", cutPut.map Prod.fst⟩ : ParsedEditSection)].find?
      (fun s => sectionTargetsPath s.path "f") = some ⟨"f", "T", cutPut.map Prod.fst⟩ := by
    rfl
  have htarget : ∀ edit ∈ cutPut, edit.1.replaced ["a", "b", "c"] = .ok (some edit.2) := by
    intro edit hedit
    simp only [cutPut, mem_cons, not_mem_nil, or_false] at hedit
    rcases hedit with rfl | rfl <;> rfl
  have hapart : cutPut.Pairwise fun lower upper =>
      upper.1.reach ["a", "b", "c"] ≤ lower.2.start := by
    decide
  rw [← hlines] at htarget hapart
  obtain ⟨message, h⟩ := handleEdit_bottomUp (decide_eq_true rfl) hparse hsection rfl htarget hapart
  have hcontent : editedText (Utf8.lossy "a\nb\nc\n".toUTF8.toList)
      (together 0 (cutPut.map Prod.snd).reverse ["a", "b", "c"]) = "x\ny\nb\n" := by
    decide +kernel
  rw [hlines, hcontent] at h
  exact ⟨message, h⟩

end Omp2.Tools
