import Mathlib.Data.List.Forall2
import Omp2.Library.TextLines
import Omp2.Tools.Hashline

/-!
# What the hashline parser keeps of a text

A list of sections is a list of items: the headers of its sections, the headers of their
operations and the lines of their bodies. The parser reads at most one item from a line, and what
it gives back has the items of the lines, in their order. A text is accounted for when each of its
lines that is not blank has its item, and sections round-trip when they are read back from their
text in the documented syntax.
-/

namespace Omp2.Tools

open List

/-! ## Items -/

/-- The lines that an operation brings. -/
def EditOp.body : EditOp → List String
  | .putRange _ _ body | .putBlock _ body | .insertBefore _ body | .insertAfter _ body => body
  | _ => []

/-- An operation without its lines. -/
def EditOp.bare : EditOp → EditOp
  | .putRange start «end» _ => .putRange start «end» []
  | .putBlock start _ => .putBlock start []
  | .insertBefore line _ => .insertBefore line []
  | .insertAfter line _ => .insertAfter line []
  | op => op

namespace Hashline

/-- What one line of a patch can bring. -/
inductive Item where
  | header (path tag : String)
  | op (op : EditOp)
  | body (line : String)
deriving DecidableEq

/-- The items of an operation. -/
def opItems (op : EditOp) : List Item :=
  .op op.bare :: op.body.map .body

/-- The items of a section. -/
def sectionItems (s : ParsedEditSection) : List Item :=
  .header s.path s.tag :: s.ops.flatMap opItems

/-- The items of a list of sections. -/
def items (sections : List ParsedEditSection) : List Item :=
  sections.flatMap sectionItems

/-! ## The documented syntax -/

/-- The digits of a line number. -/
def digits (n : Nat) : List Char :=
  Nat.toDigits 10 n

/-- The register after the line of an operation. -/
def registerText (register : Option String) : List Char :=
  ' ' :: '@' :: (register.getD "").toList

/-- The header of an operation. A register that a cut does not name is left out. -/
def opText : EditOp → List Char
  | .putRange start «end» _ => "PUT ".toList ++ digits start ++ ".=".toList ++ digits «end» ++ [':']
  | .putBlock start _ => "PUT ".toList ++ digits start ++ ['*', ':']
  | .insertBefore line _ => "PUT <".toList ++ digits line ++ [':']
  | .insertAfter line _ => "PUT >".toList ++ digits line ++ [':']
  | .pasteBefore line register => "PUT <".toList ++ digits line ++ registerText register
  | .pasteAfter line register => "PUT >".toList ++ digits line ++ registerText register
  | .cutRange start «end» none => "CUT ".toList ++ digits start ++ ".=".toList ++ digits «end»
  | .cutRange start «end» (some register) =>
    "CUT ".toList ++ digits start ++ ".=".toList ++ digits «end» ++ registerText (some register)
  | .cutBlock start none => "CUT ".toList ++ digits start ++ ['*']
  | .cutBlock start (some register) =>
    "CUT ".toList ++ digits start ++ ['*'] ++ registerText (some register)
  | .removeFile => "REM".toList
  | .moveFile destination => "MV ".toList ++ destination.toList

/-- The line of an item. -/
def Item.text : Item → List Char
  | .header path tag => '[' :: (path.toList ++ '#' :: tag.toList ++ [']'])
  | .op operation => opText operation
  | .body line => '+' :: line.toList

/-- The text of a list of sections. -/
def render (sections : List ParsedEditSection) : String :=
  String.ofList (Text.unlines ((items sections).map Item.text))

/-! ## Lines and their items -/

/-- A line that is trimmed is the header of a section. -/
def isHeader (trimmed : List Char) : Bool :=
  decide (trimmed.head? = some '[') && decide (trimmed.getLast? = some ']')

/-- A line stands for an item. -/
inductive Accounts (line : String) : Item → Prop where
  | header {path tag : List Char} :
      Text.trimChars line.toList = '[' :: (path ++ '#' :: tag ++ [']']) → '#' ∉ path →
      Accounts line
        (.header (String.ofList (Text.trimChars path)) (String.ofList (Text.trimChars tag)))
  | op {op : EditOp} :
      parseOp (Text.trimChars line.toList) = .ok (some op) → Accounts line (.op op)
  | body {text : List Char} : line.toList = '+' :: text → Accounts line (.body (String.ofList text))

/-- A line that is not blank. -/
def filled (line : String) : Bool :=
  decide (Text.trimChars line.toList ≠ [])

/-- Every line that is not blank stands for an item of the sections, in their order. -/
def Accounted (input : String) (sections : List ParsedEditSection) : Prop :=
  List.Forall₂ Accounts ((Text.lines input).filter filled) (items sections)

/-- A trimmed line starts an operation: it is the removal, a move, a cut of a range or a block, or
a put with a mark of an insertion, a range or a block. -/
def Recognised (trimmed : List Char) : Prop :=
  trimmed = "REM".toList ∨ "MV ".toList <+: trimmed ∨
    (∃ rest, trimmed = "CUT ".toList ++ rest ∧ (['.', '='] <:+: rest ∨ ['*'] <:+ rest)) ∨
    ∃ rest, trimmed = "PUT ".toList ++ rest ∧
      let clean := Text.trimChars (rest.reverse.dropWhile (· = ':')).reverse
      ['<'] <+: clean ∨ ['>'] <+: clean ∨ ['.', '='] <:+: clean ∨ ['*'] <:+ clean

/-- A line is dropped: it is not blank, neither a header nor a line of a body, and starts no
operation. -/
def Dropped (line : String) : Prop :=
  filled line = true ∧ isHeader (Text.trimChars line.toList) = false ∧
    line.toList.head? ≠ some '+' ∧ ¬ Recognised (Text.trimChars line.toList)

/-- The item that is read from a line. -/
def readItem (line : String) : Option Item :=
  let trimmed := Text.trimChars line.toList
  if isHeader trimmed then
    (parseHeader trimmed).toOption.map fun s => .header s.path s.tag
  else match Text.stripStart ['+'] line.toList with
    | some body => some (.body (String.ofList body))
    | none =>
      if trimmed = [] then none
      else match parseOp trimmed with
        | .ok (some op) => some (.op op)
        | _ => none

/-! ## One operation -/

theorem stripStart_append (front back : List Char) :
    Text.stripStart front (front ++ back) = some back := by
  rw [Text.stripStart, if_pos (List.isPrefixOf_iff_prefix.mpr (prefix_append _ _)),
    drop_left]

theorem stripStart_eq_some {front cs back : List Char}
    (h : Text.stripStart front cs = some back) : cs = front ++ back := by
  unfold Text.stripStart at h
  split at h
  · next hstart =>
    cases h
    exact prefix_iff_eq_append.mp (List.isPrefixOf_iff_prefix.mp hstart) |>.symm
  · cases h

theorem stripStart_eq_none {front cs : List Char} :
    Text.stripStart front cs = none ↔ ¬ front <+: cs := by
  unfold Text.stripStart
  rw [← isPrefixOf_iff_prefix]
  split
  · next h => exact ⟨nofun, fun hnot => absurd h hnot⟩
  · next h => exact ⟨fun _ => h, fun _ => rfl⟩

theorem stripEnd_eq_none {back cs : List Char} :
    Text.stripEnd back cs = none ↔ ¬ back <:+ cs := by
  unfold Text.stripEnd
  rw [← isSuffixOf_iff_suffix]
  split
  · next h => exact ⟨nofun, fun hnot => absurd h hnot⟩
  · next h => exact ⟨fun _ => h, fun _ => rfl⟩

/-- What follows `CUT` is no operation exactly when it has neither mark. -/
theorem parseCut_eq_none {rest : List Char} :
    parseCut rest = .ok none ↔ ¬ (['.', '='] <:+: rest ∨ ['*'] <:+ rest) := by
  unfold parseCut
  cases hrange : Text.splitOnce ['.', '='] rest with
  | some parts =>
      have hmark : ['.', '='] <:+: rest := by
        by_contra hnot
        rw [(Text.splitOnce_eq_none (by simp)).mpr hnot] at hrange
        cases hrange
      refine ⟨fun h => ?_, fun h => absurd (.inl hmark) h⟩
      simp only [bind, Except.bind] at h
      repeat' split at h
      all_goals cases h
  | none =>
      have hrange' := (Text.splitOnce_eq_none (by simp)).mp hrange
      cases hblock : Text.stripEnd ['*'] rest with
      | some s =>
        have hmark : ['*'] <:+ rest := by
          by_contra hnot
          rw [stripEnd_eq_none.mpr hnot] at hblock
          cases hblock
        refine ⟨fun h => ?_, fun h => absurd (.inr hmark) h⟩
        simp only [bind, Except.bind] at h
        repeat' split at h
        all_goals cases h
      | none => exact ⟨fun _ h => h.elim hrange' (stripEnd_eq_none.mp hblock), fun _ => rfl⟩

/-- What follows `PUT` is no operation exactly when it has none of the marks. -/
theorem parsePut_eq_none {rest : List Char} :
    parsePut rest = .ok none ↔
      let clean := Text.trimChars (rest.reverse.dropWhile (· = ':')).reverse
      ¬ (['<'] <+: clean ∨ ['>'] <+: clean ∨ ['.', '='] <:+: clean ∨ ['*'] <:+ clean) := by
  unfold parsePut
  dsimp only
  generalize Text.trimChars (rest.reverse.dropWhile (· = ':')).reverse = clean
  cases hbefore : Text.stripStart ['<'] clean with
  | some cs =>
      have hmark : ['<'] <+: clean := ⟨cs, (stripStart_eq_some hbefore).symm⟩
      refine ⟨fun h => ?_, fun h => absurd (.inl hmark) h⟩
      simp only [bind, Except.bind] at h
      repeat' split at h
      all_goals cases h
  | none =>
      have hbefore' := stripStart_eq_none.mp hbefore
      cases hafter : Text.stripStart ['>'] clean with
      | some cs =>
        have hmark : ['>'] <+: clean := ⟨cs, (stripStart_eq_some hafter).symm⟩
        refine ⟨fun h => ?_, fun h => absurd (.inr (.inl hmark)) h⟩
        simp only [bind, Except.bind] at h
        repeat' split at h
        all_goals cases h
      | none =>
        have hafter' := stripStart_eq_none.mp hafter
        have hsame : parseCut clean = .ok none ↔
            ¬ (['<'] <+: clean ∨ ['>'] <+: clean ∨ ['.', '='] <:+: clean ∨
              ['*'] <:+ clean) := by
          rw [parseCut_eq_none]
          tauto
        rw [← hsame]
        -- the two keywords differ in their messages and results, but not in their marks
        unfold parseCut
        cases hrange : Text.splitOnce ['.', '='] clean with
        | some parts =>
          simp only [bind, Except.bind]
          constructor
          all_goals
            intro h
            repeat' split at h
            all_goals cases h
        | none =>
          cases hblock : Text.stripEnd ['*'] clean with
          | some s =>
            simp only [bind, Except.bind]
            constructor
            all_goals
              intro h
              repeat' split at h
              all_goals cases h
          | none => exact Iff.rfl

/-- A text starts with one keyword only. -/
theorem parseOp_eq_none {trimmed : List Char} :
    parseOp trimmed = .ok none ↔ ¬ Recognised trimmed := by
  unfold parseOp Recognised
  by_cases hremove : trimmed = "REM".toList
  · rw [if_pos hremove]
    exact ⟨nofun, fun h => absurd (.inl hremove) h⟩
  · rw [if_neg hremove]
    cases hmove : Text.stripStart "MV ".toList trimmed with
    | some destination =>
      exact ⟨nofun, fun h => absurd (.inr (.inl ⟨_, (stripStart_eq_some hmove).symm⟩)) h⟩
    | none =>
      have hmove' := stripStart_eq_none.mp hmove
      cases hcut : Text.stripStart "CUT ".toList trimmed with
      | some rest =>
        have htext := stripStart_eq_some hcut
        dsimp only
        rw [parseCut_eq_none]
        constructor
        · rintro hmarks (h | h | ⟨other, hother, h⟩ | ⟨other, hother, -⟩)
          · exact hremove h
          · exact hmove' h
          · rw [htext] at hother
            exact hmarks (append_cancel_left hother ▸ h)
          · rw [htext] at hother
            exact absurd hother (by simp)
        · exact fun h hmarks => h (.inr (.inr (.inl ⟨rest, htext, hmarks⟩)))
      | none =>
        have hcut' := stripStart_eq_none.mp hcut
        cases hput : Text.stripStart "PUT ".toList trimmed with
        | some rest =>
          have htext := stripStart_eq_some hput
          dsimp only
          rw [parsePut_eq_none]
          constructor
          · rintro hmarks (h | h | ⟨other, hother, -⟩ | ⟨other, hother, h⟩)
            · exact hremove h
            · exact hmove' h
            · exact hcut' ⟨other, hother.symm⟩
            · rw [htext] at hother
              exact hmarks (append_cancel_left hother ▸ h)
          · exact fun h hmarks => h (.inr (.inr (.inr ⟨rest, htext, hmarks⟩)))
        | none =>
          have hput' := stripStart_eq_none.mp hput
          refine ⟨fun _ => ?_, fun _ => rfl⟩
          rintro (h | h | ⟨other, hother, -⟩ | ⟨other, hother, -⟩)
          · exact hremove h
          · exact hmove' h
          · exact hcut' ⟨other, hother.symm⟩
          · exact hput' ⟨other, hother.symm⟩

/-- An operation that is opened has no lines yet. -/
theorem parseOp_bare {trimmed : List Char} {op : EditOp} (h : parseOp trimmed = .ok (some op)) :
    op.bare = op ∧ op.body = [] := by
  unfold parseOp at h
  split at h
  · cases h
    exact ⟨rfl, rfl⟩
  split at h
  · cases h
    exact ⟨rfl, rfl⟩
  split at h
  · unfold parseCut at h
    simp only [bind, Except.bind] at h
    repeat' split at h
    all_goals cases h
    all_goals exact ⟨rfl, rfl⟩
  split at h
  · unfold parsePut at h
    simp only [bind, Except.bind] at h
    repeat' split at h
    all_goals cases h
    all_goals exact ⟨rfl, rfl⟩
  · cases h

/-! ## One line -/

/-- The items that have been read. -/
def Reading.items (r : Reading) : List Item :=
  Hashline.items r.sections ++ (r.currentSection.map sectionItems).getD [] ++
    (r.currentOp.map opItems).getD []

/-- An operation is open in a section only. -/
def Reading.Nested (r : Reading) : Prop :=
  r.currentOp.isSome = true → r.currentSection.isSome = true

/-- Closing the open operation keeps the items. -/
theorem Reading.flushOp_items {r : Reading} (h : r.Nested) :
    r.flushOp.items = r.items ∧ r.flushOp.currentOp = none ∧
      r.flushOp.currentSection.isSome = r.currentSection.isSome := by
  obtain ⟨sections, _ | s, _ | op⟩ := r
  · exact ⟨rfl, rfl, rfl⟩
  · exact absurd (h rfl) Bool.false_ne_true
  · exact ⟨rfl, rfl, rfl⟩
  · refine ⟨?_, rfl, rfl⟩
    simp [Reading.flushOp, Reading.items, sectionItems, flatMap_append]

theorem Reading.flushSection_items {r : Reading} (h : r.currentOp = none) :
    r.flushSection.items = r.items ∧ r.flushSection.currentOp = none ∧
      r.flushSection.currentSection = none := by
  obtain ⟨sections, _ | s, _ | op⟩ := r
  · exact ⟨rfl, rfl, rfl⟩
  · cases h
  · refine ⟨?_, rfl, rfl⟩
    simp [Reading.flushSection, Reading.items, Hashline.items, flatMap_append]
  · cases h

theorem pushBody_items {line : String} {op op' : EditOp} (h : pushBody line op = some op') :
    opItems op' = opItems op ++ [.body line] := by
  cases op with
  | putRange | putBlock | insertBefore | insertAfter =>
      cases h
      simp [opItems, EditOp.bare, EditOp.body]
  | pasteBefore | pasteAfter | cutRange | cutBlock | removeFile | moveFile => cases h

/-- A line adds the item that is read from it. -/
theorem parseLine_items {r r' : Reading} {line : String} (hr : r.Nested)
    (h : parseLine r line = .ok r') : r'.Nested ∧ r'.items = r.items ++ (readItem line).toList := by
  obtain ⟨hflushed, hclosed, hsection⟩ := Reading.flushOp_items hr
  unfold parseLine at h
  unfold readItem isHeader
  dsimp only at h ⊢
  by_cases hheader : (Text.trimChars line.toList).head? = some '[' ∧
      (Text.trimChars line.toList).getLast? = some ']'
  · rw [if_pos hheader] at h
    rw [if_pos (by simp [hheader])]
    cases hopened : parseHeader (Text.trimChars line.toList) with
    | error e =>
      rw [hopened] at h
      cases h
    | ok s =>
      rw [hopened] at h
      cases h
      obtain ⟨hitems, hop, hnone⟩ := Reading.flushSection_items hclosed
      refine ⟨fun _ => rfl, ?_⟩
      have hs : s.ops = [] := by
        unfold parseHeader at hopened
        repeat' split at hopened
        all_goals cases hopened
        rfl
      have hbefore : r.items = Hashline.items r.flushOp.flushSection.sections := by
        rw [← hflushed, ← hitems, Reading.items, hop, hnone]
        simp
      rw [hbefore, Reading.items, hop]
      simp [sectionItems, hs, Except.toOption]
  · rw [if_neg hheader] at h
    rw [if_neg (by simpa using hheader)]
    cases hbody : Text.stripStart ['+'] line.toList with
    | some body =>
      rw [hbody] at h
      dsimp only at h ⊢
      cases hop : r.currentOp with
      | none =>
        rw [hop] at h
        cases h
      | some op =>
        cases hpush : pushBody (String.ofList body) op with
        | none =>
          rw [hop, Option.bind_some, hpush] at h
          cases h
        | some op' =>
          rw [hop, Option.bind_some, hpush] at h
          cases h
          refine ⟨fun _ => hr (by rw [hop]; rfl), ?_⟩
          simp [Reading.items, hop, pushBody_items hpush]
    | none =>
      rw [hbody] at h
      dsimp only at h ⊢
      by_cases hblank : Text.trimChars line.toList = []
      · rw [if_pos hblank] at h
        rw [if_pos hblank]
        cases h
        refine ⟨fun hsome => ?_, by simpa using hflushed⟩
        rw [hclosed] at hsome
        cases hsome
      · rw [if_neg hblank] at h
        rw [if_neg hblank]
        split at h
        · cases h
        · next hopen =>
          cases hparse : parseOp (Text.trimChars line.toList) with
          | error e =>
            rw [hparse] at h
            cases h
          | ok op =>
            rw [hparse] at h
            cases h
            refine ⟨fun _ => Option.isSome_iff_ne_none.mpr (by simpa using hopen), ?_⟩
            have hbefore : r.items = Hashline.items r.flushOp.sections ++
                (r.flushOp.currentSection.map sectionItems).getD [] := by
              rw [← hflushed, Reading.items, hclosed]
              simp
            rw [hbefore, Reading.items]
            cases op with
            | none => simp
            | some op =>
              obtain ⟨hbare, hlines⟩ := parseOp_bare hparse
              simp [opItems, hbare, hlines]

/-- A line that is read has no item when it is blank or dropped. -/
theorem readItem_eq_none {r r' : Reading} {line : String} (h : parseLine r line = .ok r') :
    readItem line = none ↔ filled line = false ∨ Dropped line := by
  unfold parseLine at h
  unfold readItem Dropped filled isHeader
  dsimp only at h ⊢
  by_cases hheader : (Text.trimChars line.toList).head? = some '[' ∧
      (Text.trimChars line.toList).getLast? = some ']'
  · rw [if_pos hheader] at h
    rw [if_pos (by simp [hheader])]
    cases hopened : parseHeader (Text.trimChars line.toList) with
    | error e =>
      rw [hopened] at h
      cases h
    | ok s =>
      have hne : Text.trimChars line.toList ≠ [] := by
        intro hnil
        rw [hnil] at hheader
        cases hheader.1
      simp [Except.toOption, hheader, hne]
  · rw [if_neg hheader] at h
    have hplain : (decide ((Text.trimChars line.toList).head? = some '[') &&
        decide ((Text.trimChars line.toList).getLast? = some ']')) = false := by
      simpa using hheader
    rw [hplain, if_neg Bool.false_ne_true]
    cases hbody : Text.stripStart ['+'] line.toList with
    | some body =>
      have htext := stripStart_eq_some hbody
      have hne : Text.trimChars line.toList ≠ [] := by
        rw [htext, singleton_append, Text.trimChars_plain (by decide)]
        exact cons_ne_nil _ _
      have hplus : line.toList.head? = some '+' := by rw [htext]; rfl
      simp [hne, hplus]
    | none =>
      have hplus : line.toList.head? ≠ some '+' := by
        intro hhead
        refine stripStart_eq_none.mp hbody ?_
        cases hlist : line.toList with
        | nil =>
          rw [hlist] at hhead
          cases hhead
        | cons c cs =>
          rw [hlist] at hhead
          cases hhead
          exact ⟨cs, rfl⟩
      rw [hbody] at h
      dsimp only at h ⊢
      by_cases hblank : Text.trimChars line.toList = []
      · rw [if_pos hblank]
        simp [hblank]
      · rw [if_neg hblank] at h
        rw [if_neg hblank]
        split at h
        · cases h
        · cases hparse : parseOp (Text.trimChars line.toList) with
          | error e =>
            rw [hparse] at h
            cases h
          | ok op =>
            cases op with
            | none => simp [hblank, hplus, parseOp_eq_none.mp hparse]
            | some op =>
              have hknown : Recognised (Text.trimChars line.toList) := by
                by_contra hnot
                rw [parseOp_eq_none.mpr hnot] at hparse
                cases hparse
              simp [hblank, hknown]

/-! ## A whole text -/

/-- Lines add the items that are read from them, and each of them has been read. -/
theorem foldlM_items {r r' : Reading} {ls : List String} (hr : r.Nested)
    (h : ls.foldlM parseLine r = .ok r') :
    r'.Nested ∧ r'.items = r.items ++ ls.filterMap readItem ∧
      ∀ line ∈ ls, readItem line = none ↔ filled line = false ∨ Dropped line := by
  induction ls generalizing r with
  | nil =>
      cases h
      exact ⟨hr, by simp, nofun⟩
  | cons line ls ih =>
      rw [foldlM_cons] at h
      cases hline : parseLine r line with
      | error e =>
        rw [hline] at h
        cases h
      | ok next =>
        rw [hline] at h
        obtain ⟨hnext, hitems⟩ := parseLine_items hr hline
        obtain ⟨hr', hrest, hread⟩ := ih hnext h
        refine ⟨hr', ?_, ?_⟩
        · rw [hrest, hitems, append_assoc]
          cases hitem : readItem line <;> simp [hitem]
        · intro l hl
          rcases mem_cons.mp hl with rfl | hl
          · exact readItem_eq_none hline
          · exact hread l hl

/-- What is parsed has the items of the lines. -/
theorem items_parse {input : String} {sections : List ParsedEditSection}
    (h : parse input = .ok sections) :
    sections ≠ [] ∧ items sections = (Text.lines input).filterMap readItem ∧
      ∀ line ∈ Text.lines input, readItem line = none ↔ filled line = false ∨ Dropped line := by
  unfold parse at h
  cases hfold : (Text.lines input).foldlM parseLine ⟨[], none, none⟩ with
  | error e =>
      rw [hfold] at h
      cases h
  | ok r =>
      rw [hfold] at h
      have hstart : Reading.Nested ⟨[], none, none⟩ := fun hsome => hsome
      obtain ⟨hr, hitems, hread⟩ := foldlM_items hstart hfold
      obtain ⟨hflushed, hclosed, -⟩ := Reading.flushOp_items hr
      obtain ⟨hsections, hop, hnone⟩ := Reading.flushSection_items hclosed
      simp only [bind, Except.bind] at h
      split at h
      · cases h
      · next hne =>
        cases h
        refine ⟨hne, ?_, hread⟩
        have hall : items r.flushOp.flushSection.sections = r.flushOp.flushSection.items := by
          rw [Reading.items, hop, hnone]
          simp
        rw [hall, hsections, hflushed, hitems]
        rfl

/-- The item that is read from a line stands for it. -/
theorem accounts_of_readItem {line : String} {item : Item} (h : readItem line = some item) :
    Accounts line item := by
  unfold readItem at h
  dsimp only at h
  split at h
  · next hheader =>
    obtain ⟨s, hs, rfl⟩ := Option.map_eq_some_iff.mp h
    rw [isHeader, Bool.and_eq_true, decide_eq_true_eq, decide_eq_true_eq] at hheader
    obtain ⟨hfirst, hlast⟩ := hheader
    cases hopened : parseHeader (Text.trimChars line.toList) with
    | error e =>
      rw [hopened] at hs
      cases hs
    | ok opened =>
      rw [hopened] at hs
      cases hs
      unfold parseHeader at hopened
      split at hopened
      · cases hopened
      · next path tag hsplit =>
        split at hopened
        · cases hopened
        · cases hopened
          refine .header ?_ ?_
          · have hinner := Text.splitOnce_eq_some hsplit
            cases htrim : Text.trimChars line.toList with
            | nil =>
              rw [htrim] at hfirst
              cases hfirst
            | cons c rest =>
              rw [htrim] at hfirst hlast hinner
              cases hfirst
              have hrest : rest ≠ [] := by
                rintro rfl
                cases hlast
              rw [getLast?_cons_of_ne_nil hrest] at hlast
              rw [tail_cons] at hinner
              obtain ⟨front, rfl⟩ := getLast?_eq_some_iff.mp hlast
              rw [dropLast_concat] at hinner
              rw [hinner, append_assoc path, singleton_append]
          · exact Text.not_mem_of_splitOnce hsplit
  · split at h
    · next body hbody =>
      cases h
      exact .body (stripStart_eq_some hbody)
    · split at h
      · cases h
      · split at h
        · next op hop =>
          cases h
          exact .op hop
        · cases h

/-- The items that are read from lines account for them when there is one for each. -/
theorem forall₂_filterMap {ls : List String} (h : ∀ line ∈ ls, (readItem line).isSome = true) :
    List.Forall₂ Accounts ls (ls.filterMap readItem) := by
  induction ls with
  | nil => exact .nil
  | cons line ls ih =>
      obtain ⟨item, hitem⟩ := Option.isSome_iff_exists.mp (h line mem_cons_self)
      rw [filterMap_cons_some hitem]
      exact .cons (accounts_of_readItem hitem) (ih fun l hl => h l (mem_cons_of_mem _ hl))

theorem filterMap_filled {ls : List String}
    (h : ∀ line ∈ ls, filled line = false → readItem line = none) :
    (ls.filter filled).filterMap readItem = ls.filterMap readItem := by
  rw [filterMap_filter]
  refine filterMap_congr fun line hline => ?_
  by_cases hfilled : filled line = true
  · rw [if_pos hfilled]
  · rw [if_neg hfilled, h line hline (by simpa using hfilled)]

/-- What is parsed accounts for the text exactly when no line is dropped. -/
theorem accounted_iff {input : String} {sections : List ParsedEditSection}
    (h : parse input = .ok sections) :
    Accounted input sections ↔ ∀ line ∈ Text.lines input, ¬ Dropped line := by
  obtain ⟨-, hitems, hread⟩ := items_parse h
  have hfilled := filterMap_filled fun line hline hblank => (hread line hline).mpr (.inl hblank)
  unfold Accounted
  rw [hitems, ← hfilled]
  constructor
  · intro hall line hline hdropped
    have hlength := hall.length_eq
    rw [eq_comm, filterMap_length_eq_length] at hlength
    have hsome := hlength line (mem_filter.mpr ⟨hline, hdropped.1⟩)
    rw [(hread line hline).mpr (.inr hdropped)] at hsome
    cases hsome
  · intro hkept
    refine forall₂_filterMap fun line hline => ?_
    obtain ⟨hline, hfull⟩ := mem_filter.mp hline
    rw [Option.isSome_iff_ne_none]
    intro hnone
    rcases (hread line hline).mp hnone with hblank | hdropped
    · rw [hfull] at hblank
      cases hblank
    · exact hkept line hline hdropped

/-! ## Reading a rendered text -/

/-- The line of an item as the parser is given it. -/
def Item.line (item : Item) : String :=
  String.ofList (Text.dropReturn item.text)

theorem lines_render {sections : List ParsedEditSection}
    (h : ∀ item ∈ items sections, '\n' ∉ item.text) :
    Text.lines (render sections) = (items sections).map Item.line := by
  rw [Text.lines, render, String.toList_ofList, Text.linesFrom_unlines, map_map, map_map]
  · rfl
  · intro line hline
    obtain ⟨item, hitem, rfl⟩ := mem_map.mp hline
    exact h item hitem

/-- A list that is its own image under a partial function is fixed by it. -/
theorem fixed_of_filterMap {α : Type*} {f : α → Option α} {l : List α} (h : l.filterMap f = l) :
    ∀ x ∈ l, f x = some x := by
  induction l with
  | nil => exact nofun
  | cons x l ih =>
      have hsome : ∀ y ∈ x :: l, (f y).isSome = true :=
        filterMap_length_eq_length.mp (congrArg length h)
      obtain ⟨y, hy⟩ := Option.isSome_iff_exists.mp (hsome x mem_cons_self)
      rw [filterMap_cons_some hy] at h
      obtain ⟨rfl, hrest⟩ := cons.inj h
      intro z hz
      rcases mem_cons.mp hz with rfl | hz
      · exact hy
      · exact ih hrest z hz

/-- The line of a header opens its section. -/
theorem parseLine_header {r : Reading} {line path tag : String}
    (h : readItem line = some (.header path tag)) :
    parseLine r line =
      .ok { r.flushOp.flushSection with currentSection := some ⟨path, tag, []⟩ } := by
  unfold readItem at h
  unfold parseLine
  dsimp only at h ⊢
  split at h
  · next hheader =>
    rw [isHeader, Bool.and_eq_true, decide_eq_true_eq, decide_eq_true_eq] at hheader
    rw [if_pos hheader]
    cases hopened : parseHeader (Text.trimChars line.toList) with
    | error e =>
      rw [hopened] at h
      cases h
    | ok s =>
      rw [hopened] at h
      have hs : s.ops = [] := by
        unfold parseHeader at hopened
        repeat' split at hopened
        all_goals cases hopened
        rfl
      obtain ⟨p, t, ops⟩ := s
      cases h
      cases hs
      rfl
  · repeat' split at h
    all_goals cases h

/-- The line of an operation opens it. -/
theorem parseLine_op {r : Reading} {line : String} {op : EditOp}
    (h : readItem line = some (.op op)) (hsection : r.flushOp.currentSection.isSome = true) :
    parseLine r line = .ok { r.flushOp with currentOp := some op } := by
  unfold readItem at h
  unfold parseLine
  dsimp only at h ⊢
  split at h
  · obtain ⟨s, -, hs⟩ := Option.map_eq_some_iff.mp h
    cases hs
  · next hheader =>
    have hplain : ¬ ((Text.trimChars line.toList).head? = some '[' ∧
        (Text.trimChars line.toList).getLast? = some ']') := by
      simpa [isHeader] using hheader
    rw [if_neg hplain]
    cases hbody : Text.stripStart ['+'] line.toList with
    | some text =>
      rw [hbody] at h
      cases h
    | none =>
      rw [hbody] at h
      dsimp only at h
      split at h
      · cases h
      · next hblank =>
        dsimp only
        rw [if_neg hblank, if_neg (by simpa using Option.isSome_iff_ne_none.mp hsection)]
        split at h
        · next hop =>
          cases h
          rw [hop]
          rfl
        · cases h

/-- The line of a body is added to the open operation. -/
theorem parseLine_body {r : Reading} {line body : String} {op op' : EditOp}
    (h : readItem line = some (.body body)) (hop : r.currentOp = some op)
    (hpush : pushBody body op = some op') :
    parseLine r line = .ok { r with currentOp := some op' } := by
  unfold readItem at h
  unfold parseLine
  dsimp only at h ⊢
  split at h
  · obtain ⟨s, -, hs⟩ := Option.map_eq_some_iff.mp h
    cases hs
  · next hheader =>
    have hplain : ¬ ((Text.trimChars line.toList).head? = some '[' ∧
        (Text.trimChars line.toList).getLast? = some ']') := by
      simpa [isHeader] using hheader
    rw [if_neg hplain]
    cases htext : Text.stripStart ['+'] line.toList with
    | some text =>
      rw [htext] at h
      cases h
      dsimp only
      rw [hop, Option.bind_some, hpush]
    | none =>
      rw [htext] at h
      dsimp only at h
      repeat' split at h
      all_goals cases h

/-- An operation with the given lines in place of its own. -/
def withBody (lines : List String) : EditOp → EditOp
  | .putRange start «end» _ => .putRange start «end» lines
  | .putBlock start _ => .putBlock start lines
  | .insertBefore line _ => .insertBefore line lines
  | .insertAfter line _ => .insertAfter line lines
  | op => op

theorem withBody_body (op : EditOp) : withBody op.body op.bare = op := by
  cases op <;> rfl

theorem pushBody_withBody {op : EditOp} {line : String} {lines : List String}
    (h : op.body ≠ []) :
    pushBody line (withBody lines op.bare) = some (withBody (lines ++ [line]) op.bare) := by
  cases op with
  | putRange | putBlock | insertBefore | insertAfter => rfl
  | pasteBefore | pasteAfter | cutRange | cutBlock | removeFile | moveFile =>
      exact absurd rfl h

/-- The lines of an operation are read. -/
theorem foldlM_op {done : List ParsedEditSection} {s : ParsedEditSection}
    {before : Option EditOp} {op : EditOp}
    (h : ∀ item ∈ opItems op, readItem item.line = some item) :
    ((opItems op).map Item.line).foldlM parseLine ⟨done, some s, before⟩ =
      .ok ⟨done, some { s with ops := s.ops ++ before.toList }, some op⟩ := by
  have hheader : parseLine ⟨done, some s, before⟩ (Item.line (.op op.bare)) =
      .ok ⟨done, some { s with ops := s.ops ++ before.toList }, some op.bare⟩ := by
    rw [parseLine_op (h _ mem_cons_self)]
    · cases before <;> simp [Reading.flushOp]
    · cases before <;> rfl
  have hbody : ∀ rest front, op.body = front ++ rest →
      ((rest.map Item.body).map Item.line).foldlM parseLine
        ⟨done, some { s with ops := s.ops ++ before.toList }, some (withBody front op.bare)⟩ =
      .ok ⟨done, some { s with ops := s.ops ++ before.toList }, some op⟩ := by
    intro rest
    induction rest with
    | nil =>
      intro front hfront
      rw [append_nil] at hfront
      rw [← hfront, withBody_body]
      rfl
    | cons line rest ih =>
      intro front hfront
      have hmem : Item.body line ∈ opItems op := by
        refine mem_cons_of_mem _ (mem_map_of_mem ?_)
        rw [hfront]
        simp
      have hne : op.body ≠ [] := by
        rw [hfront]
        simp
      rw [map_cons, map_cons, foldlM_cons,
        parseLine_body (h _ hmem) rfl (pushBody_withBody hne)]
      exact ih (front ++ [line]) (by rw [hfront, append_assoc]; rfl)
  have hbare : withBody [] op.bare = op.bare := by cases op <;> rfl
  rw [opItems, map_cons, foldlM_cons, hheader]
  have hall := hbody op.body [] rfl
  rw [hbare] at hall
  exact hall

/-- The operations of a section are read. -/
theorem foldlM_ops {done : List ParsedEditSection} {s : ParsedEditSection}
    {before : Option EditOp} {ops : List EditOp}
    (h : ∀ item ∈ ops.flatMap opItems, readItem item.line = some item) :
    ∃ s' last, ((ops.flatMap opItems).map Item.line).foldlM parseLine ⟨done, some s, before⟩ =
        .ok ⟨done, some s', last⟩ ∧
      { s' with ops := s'.ops ++ last.toList } =
        { s with ops := s.ops ++ before.toList ++ ops } := by
  induction ops generalizing s before with
  | nil => exact ⟨s, before, rfl, by rw [append_nil]⟩
  | cons op ops ih =>
      rw [flatMap_cons] at h ⊢
      rw [map_append, foldlM_append,
        foldlM_op fun item hitem => h item (mem_append_left _ hitem)]
      obtain ⟨s', last, hfold, hs⟩ := @ih { s with ops := s.ops ++ before.toList } (some op)
        fun item hitem => h item (mem_append_right _ hitem)
      refine ⟨s', last, hfold, hs.trans ?_⟩
      simp

/-- Sections are read. -/
theorem foldlM_sections {r : Reading} {sections : List ParsedEditSection}
    (h : ∀ item ∈ items sections, readItem item.line = some item) :
    ∃ r', ((items sections).map Item.line).foldlM parseLine r = .ok r' ∧
      r'.flushOp.flushSection.sections = r.flushOp.flushSection.sections ++ sections := by
  induction sections generalizing r with
  | nil => exact ⟨r, rfl, by rw [append_nil]⟩
  | cons s sections ih =>
      rw [items, flatMap_cons] at h ⊢
      have hheader := @parseLine_header r _ _ _
        (h (.header s.path s.tag) (by simp [sectionItems]))
      have hopen : ({ r.flushOp.flushSection with
          currentSection := some ⟨s.path, s.tag, []⟩ } : Reading) =
          ⟨r.flushOp.flushSection.sections, some ⟨s.path, s.tag, []⟩, none⟩ := by
        obtain ⟨done, _ | _, _ | _⟩ := r <;> rfl
      obtain ⟨s', last, hops, hs⟩ := @foldlM_ops r.flushOp.flushSection.sections
        ⟨s.path, s.tag, []⟩ none s.ops fun item hitem =>
          h item (mem_append_left _ (mem_cons_of_mem _ hitem))
      obtain ⟨r', hrest, hsections⟩ := @ih ⟨r.flushOp.flushSection.sections, some s', last⟩
        fun item hitem => h item (mem_append_right _ hitem)
      refine ⟨r', ?_, ?_⟩
      · rw [map_append, foldlM_append, sectionItems, map_cons, foldlM_cons,
          hheader, hopen]
        show ((s.ops.flatMap opItems).map Item.line).foldlM parseLine
          ⟨r.flushOp.flushSection.sections, some ⟨s.path, s.tag, []⟩, none⟩ >>= _ = _
        rw [hops]
        exact hrest
      · rw [hsections]
        have hlast : (Reading.flushSection (Reading.flushOp
            ⟨r.flushOp.flushSection.sections, some s', last⟩)).sections =
            r.flushOp.flushSection.sections ++ [{ s' with ops := s'.ops ++ last.toList }] := by
          cases last <;> simp [Reading.flushOp, Reading.flushSection]
        rw [hlast, hs]
        simp

/-- Sections are read back exactly when there are some and their items are read back. -/
theorem parse_render_iff {sections : List ParsedEditSection}
    (h : ∀ item ∈ items sections, '\n' ∉ item.text) :
    parse (render sections) = .ok sections ↔
      sections ≠ [] ∧ ∀ item ∈ items sections, readItem item.line = some item := by
  have hlines := lines_render h
  constructor
  · intro hparse
    obtain ⟨hne, hitems, -⟩ := items_parse hparse
    rw [hlines, filterMap_map] at hitems
    exact ⟨hne, fixed_of_filterMap hitems.symm⟩
  · rintro ⟨hne, hread⟩
    obtain ⟨r, hfold, hsections⟩ := @foldlM_sections ⟨[], none, none⟩ sections hread
    rw [parse, hlines, hfold]
    simp only [bind, Except.bind]
    have hall : r.flushOp.flushSection.sections = sections := hsections
    rw [hall, if_neg hne]

end Hashline

end Omp2.Tools
