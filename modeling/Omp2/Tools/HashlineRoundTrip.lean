import Mathlib.Data.Bool.AllAny
import Omp2.Tools.HashlineText

/-!
# Sections that are read back

Which sections over the documented language the parser reads back from their text. A put with
lines, a cut of a range and a removal are read back; a paste is refused, and a cut of a block loses
its register and then itself. White space around a path, a tag or a destination is lost, as is a
carriage return at the end of a line. `parse_keeps_iff` says so together with `accounted_iff`.
-/

namespace Omp2.Tools

open Hashline List

/-! ## The documented language -/

/-- A register is a word that starts with another character than the register mark. -/
def ValidRegister (register : String) : Prop :=
  register ≠ "" ∧ (∀ c ∈ register.toList, Text.isWhitespace c = false) ∧
    register.toList.head? ≠ some '@'

/-- A number that a line can have. -/
def ValidLine (n : Nat) : Prop :=
  1 ≤ n ∧ n < 2 ^ 64

/-- A text on one line. -/
def OneLine (text : String) : Prop :=
  '\n' ∉ text.toList

/-- An operation of the documented language. -/
def EditOp.Documented : EditOp → Prop
  | .putRange start «end» body =>
    ValidLine start ∧ ValidLine «end» ∧ start ≤ «end» ∧ ∀ line ∈ body, OneLine line
  | .putBlock line body | .insertBefore line body | .insertAfter line body =>
    ValidLine line ∧ ∀ text ∈ body, OneLine text
  | .pasteBefore line register | .pasteAfter line register | .cutBlock line register =>
    ValidLine line ∧ ∀ name ∈ register, ValidRegister name
  | .cutRange start «end» register =>
    ValidLine start ∧ ValidLine «end» ∧ start ≤ «end» ∧ ∀ name ∈ register, ValidRegister name
  | .removeFile => True
  | .moveFile destination => OneLine destination

/-- A section of the documented language: its path and tag hold neither a mark of the header nor a
line break. -/
structure ParsedEditSection.Documented (s : ParsedEditSection) : Prop where
  path : ∀ c ∈ ['#', ']', '\n'], c ∉ s.path.toList
  tag : ∀ c ∈ ['#', ']', '\n'], c ∉ s.tag.toList
  ops : ∀ op ∈ s.ops, op.Documented

/-- The parser knows the operation. -/
def EditOp.Known : EditOp → Prop
  | .pasteBefore .. | .pasteAfter .. => False
  | .cutBlock _ register => register = none
  | .moveFile destination => destination ≠ "" ∧ Text.trim destination = destination
  | _ => True

/-- The parser knows the operation with its lines. -/
def EditOp.Kept (op : EditOp) : Prop :=
  op.Known ∧ ∀ line ∈ op.body, line.toList.getLast? ≠ some '\r'

/-- The parser knows the section with all it has. -/
structure ParsedEditSection.Kept (s : ParsedEditSection) : Prop where
  path : Text.trim s.path = s.path
  tag : s.tag ≠ "" ∧ Text.trim s.tag = s.tag
  ops : ∀ op ∈ s.ops, op.Kept

namespace Hashline

/-! ## Numbers -/

theorem isDigit_of_mem_digits {n : Nat} {c : Char} (h : c ∈ digits n) : c.isDigit = true :=
  Nat.isDigit_of_mem_toDigits (by decide) (by decide) h

theorem not_mem_digits {n : Nat} {c : Char} (h : c.isDigit = false) : c ∉ digits n := by
  intro hmem
  rw [isDigit_of_mem_digits hmem] at h
  cases h

theorem isWhitespace_of_isDigit {c : Char} (h : c.isDigit = true) :
    Text.isWhitespace c = false := by
  have hbounds : 48 ≤ c.toNat ∧ c.toNat ≤ 57 := by
    simpa [Char.isDigit, UInt32.le_iff_toNat_le] using h
  unfold Text.isWhitespace
  simp only [Bool.or_eq_false_iff, Bool.and_eq_false_iff, decide_eq_false_iff_not]
  omega

/-- The first and the last character of a number are digits. -/
theorem digits_ends (n : Nat) :
    ∃ first last front back, digits n = first :: back ∧ digits n = front ++ [last] ∧
      first.isDigit = true ∧ last.isDigit = true := by
  obtain ⟨first, back, hcons⟩ :=
    exists_cons_of_ne_nil (Nat.toDigits_ne_nil (n := n) (b := 10))
  obtain hnil | ⟨front, last, hconcat⟩ := eq_nil_or_concat (digits n)
  · exact absurd hnil Nat.toDigits_ne_nil
  · rw [concat_eq_append] at hconcat
    refine ⟨first, last, front, back, hcons, hconcat, ?_, ?_⟩
    · exact isDigit_of_mem_digits (n := n) (by rw [digits, hcons]; exact mem_cons_self)
    · exact isDigit_of_mem_digits (n := n) (by rw [hconcat]; simp)

theorem parseUsize_plain {cs : List Char} (h : cs.head? ≠ some '+') :
    parseUsize cs =
      if cs ≠ [] ∧ cs.all Char.isDigit then
        let n := cs.foldl (fun n c => 10 * n + (c.toNat - '0'.toNat)) 0
        if n < 2 ^ 64 then some n else none
      else none := by
  unfold parseUsize
  cases cs with
  | nil => rfl
  | cons c cs =>
      have hc : c ≠ '+' := fun heq => h (by rw [heq]; rfl)
      simp [hc]

/-- A number is read back from its digits. -/
theorem parseUsize_digits {n : Nat} (h : n < 2 ^ 64) : parseUsize (digits n) = some n := by
  have hall : (digits n).all Char.isDigit = true :=
    all_eq_true.mpr fun c hc => isDigit_of_mem_digits hc
  have hne : digits n ≠ [] := Nat.toDigits_ne_nil
  have hplus : (digits n).head? ≠ some '+' := by
    intro hhead
    exact not_mem_digits (by decide) (mem_of_mem_head? hhead)
  have hvalue : (digits n).foldl (fun n c => 10 * n + (c.toNat - '0'.toNat)) 0 = n :=
    Nat.ofDigitChars_ten_toDigits
  rw [parseUsize_plain hplus, if_pos ⟨hne, hall⟩]
  dsimp only
  rw [hvalue, if_pos h]

/-- A text with another character than a digit is no number. -/
theorem parseUsize_eq_none {cs : List Char} {c : Char} (hmem : c ∈ cs) (hdigit : c.isDigit = false)
    (hplus : c ≠ '+') : parseUsize cs = none := by
  unfold parseUsize
  extract_lets digits
  have hrest : c ∈ digits := by
    simp only [digits]
    split
    · exact (mem_cons.mp hmem).resolve_left hplus
    · exact hmem
  rw [if_neg]
  rintro ⟨-, hall⟩
  rw [all_eq_true.mp hall c hrest] at hdigit
  cases hdigit

/-! ## The line of an operation -/

/-- A carriage return at the end is trimmed too. -/
theorem trimChars_dropReturn {c : Char} {cs : List Char} (h : Text.isWhitespace c = false) :
    Text.trimChars (Text.dropReturn (c :: cs)) = Text.trimChars (c :: cs) := by
  by_cases hend : (c :: cs).getLast? = some '\r'
  · obtain ⟨front, hfront⟩ := getLast?_eq_some_iff.mp hend
    have hdrop : Text.dropReturn (c :: cs) = front := by
      rw [Text.dropReturn, if_pos hend, hfront, dropLast_concat]
    rw [hdrop, hfront]
    cases front with
    | nil =>
      cases hfront
      cases h
    | cons d front =>
      cases hfront
      rw [cons_append, Text.trimChars_plain h, Text.trimChars_plain h,
        Text.trimEnd_append_nil front (by decide)]
  · rw [Text.dropReturn_eq_self.mpr hend]

/-- A line that starts with the letter of a keyword is read as an operation or not at all. -/
theorem readItem_op {c : Char} {cs : List Char} {op : EditOp}
    (hc : c ∈ ['P', 'C', 'R', 'M']) :
    readItem (String.ofList (Text.dropReturn (c :: cs))) = some (.op op) ↔
      parseOp (Text.trimChars (c :: cs)) = .ok (some op) := by
  have hplain : Text.isWhitespace c = false ∧ c ≠ '[' ∧ c ≠ '+' ∧ c ≠ '\r' := by
    simp only [mem_cons, not_mem_nil, or_false] at hc
    rcases hc with rfl | rfl | rfl | rfl <;> decide
  obtain ⟨hspace, hbracket, hplus, hreturn⟩ := hplain
  have hstart : ∃ rest, Text.dropReturn (c :: cs) = c :: rest := by
    by_cases hnil : cs = []
    · subst hnil
      exact ⟨[], Text.dropReturn_eq_self.mpr (by simpa using hreturn)⟩
    · exact ⟨_, Text.dropReturn_append [c] hnil⟩
  obtain ⟨rest, hrest⟩ := hstart
  have htrim : Text.trimChars (Text.dropReturn (c :: cs)) = Text.trimChars (c :: cs) :=
    trimChars_dropReturn hspace
  unfold readItem isHeader
  rw [String.toList_ofList, htrim, hrest]
  have hhead : (Text.trimChars (c :: cs)).head? = some c := by
    rw [Text.trimChars_plain hspace]
    rfl
  have hstrip : Text.stripStart ['+'] (c :: rest) = none :=
    stripStart_eq_none.mpr fun hprefix => hplus (cons_prefix_cons.mp hprefix).1.symm
  have hne : Text.trimChars (c :: cs) ≠ [] := by
    intro hnil
    rw [hnil] at hhead
    cases hhead
  dsimp only
  rw [hhead, hstrip, if_neg (by simp [hbracket])]
  dsimp only
  rw [if_neg hne]
  cases hparse : parseOp (Text.trimChars (c :: cs)) with
  | error e => simp
  | ok found => cases found <;> simp

theorem trimChars_line {c last : Char} {front : List Char} (h : Text.isWhitespace c = false)
    (hlast : Text.isWhitespace last = false) :
    Text.trimChars (c :: (front ++ [last])) = c :: (front ++ [last]) := by
  rw [← cons_append, Text.trimChars_eq_self]
  refine ⟨fun d hd => ?_, fun d hd => ?_⟩
  · cases hd
    exact h
  · rw [getLast?_concat] at hd
    cases hd
    exact hlast

/-- A put is read from its line. -/
theorem readItem_put {front : List Char} {last : Char} {op : EditOp}
    (hlast : Text.isWhitespace last = false) :
    readItem (String.ofList (Text.dropReturn ("PUT ".toList ++ (front ++ [last])))) =
        some (.op op) ↔ parsePut (front ++ [last]) = .ok (some op) := by
  show readItem (String.ofList (Text.dropReturn ('P' :: ("UT ".toList ++ (front ++ [last]))))) =
    _ ↔ _
  rw [readItem_op (by simp), ← append_assoc, trimChars_line (by decide) hlast,
    append_assoc]
  exact Iff.rfl

/-- A cut is read from its line. -/
theorem readItem_cut {front : List Char} {last : Char} {op : EditOp}
    (hlast : Text.isWhitespace last = false) :
    readItem (String.ofList (Text.dropReturn ("CUT ".toList ++ (front ++ [last])))) =
        some (.op op) ↔ parseCut (front ++ [last]) = .ok (some op) := by
  show readItem (String.ofList (Text.dropReturn ('C' :: ("UT ".toList ++ (front ++ [last]))))) =
    _ ↔ _
  rw [readItem_op (by simp), ← append_assoc, trimChars_line (by decide) hlast,
    append_assoc]
  exact Iff.rfl

/-- The colon at the end of a put, and what is left before it. -/
theorem clean_colon {c last : Char} {front : List Char} (h : Text.isWhitespace c = false)
    (hlast : Text.isWhitespace last = false) (hcolon : last ≠ ':') :
    Text.trimChars ((c :: (front ++ [last]) ++ [':']).reverse.dropWhile (· = ':')).reverse =
      c :: (front ++ [last]) := by
  have hclean : ((c :: (front ++ [last]) ++ [':']).reverse.dropWhile (· = ':')).reverse =
      c :: (front ++ [last]) := by
    have hdrop := @Text.dropWhile_reverse_append (· = ':') last (by simpa using hcolon)
      (c :: front) [':']
    simpa using hdrop
  rw [hclean, trimChars_line h hlast]

theorem lineNumber_digits {n : Nat} (h : n < 2 ^ 64) (message : String) :
    lineNumber (digits n) message = .ok n := by
  rw [lineNumber, parseUsize_digits h]

theorem lineNumber_error {cs : List Char} (h : parseUsize cs = none) (message : String) :
    lineNumber cs message = .error (.validation message) := by
  rw [lineNumber, h]

theorem checkRange_ok {keyword : String} {start «end» : Nat} (hstart : ValidLine start)
    (hend : ValidLine «end») (hle : start ≤ «end») : checkRange keyword start «end» = .ok () := by
  obtain ⟨hstart, -⟩ := hstart
  obtain ⟨hend, -⟩ := hend
  rw [checkRange, if_neg (by omega), if_neg (by omega)]

theorem trimChars_digits (n : Nat) : Text.trimChars (digits n) = digits n := by
  rw [Text.trimChars_eq_self]
  exact ⟨fun c hc => isWhitespace_of_isDigit (isDigit_of_mem_digits (mem_of_mem_head? hc)),
    fun c hc => isWhitespace_of_isDigit (isDigit_of_mem_digits (mem_of_mem_getLast? hc))⟩

theorem blockStart_digits {keyword : String} {start : Nat} (h : ValidLine start) :
    blockStart keyword (digits start) = .ok start := by
  have hne : start ≠ 0 := Nat.ne_of_gt h.1
  rw [blockStart, trimChars_digits, lineNumber_digits h.2]
  simp [bind, Except.bind, positive, hne]

theorem insertLine_digits {side hint : String} {line : Nat} (h : ValidLine line) :
    insertLine side hint (digits line) = .ok line := by
  have hne : line ≠ 0 := Nat.ne_of_gt h.1
  rw [insertLine, lineNumber_digits h.2]
  simp [bind, Except.bind, positive, hne]

/-! ## Puts -/

theorem stripStart_digit {c mark : Char} {rest : List Char} (h : c.isDigit = true)
    (hmark : mark.isDigit = false) : Text.stripStart [mark] (c :: rest) = none := by
  rw [stripStart_eq_none, cons_prefix_cons]
  rintro ⟨rfl, -⟩
  rw [h] at hmark
  cases hmark

/-- A put of a range is read back. -/
theorem parsePut_range {start «end» : Nat} (hstart : ValidLine start) (hend : ValidLine «end»)
    (hle : start ≤ «end») :
    parsePut (digits start ++ ['.', '='] ++ digits «end» ++ [':']) =
      .ok (some (.putRange start «end» [])) := by
  obtain ⟨first, -, -, back, hfirst, -, hdigit, -⟩ := digits_ends start
  obtain ⟨-, last, front, -, -, hlast, -, hdigit'⟩ := digits_ends «end»
  have hclean := @clean_colon first last (back ++ ['.', '='] ++ front)
    (isWhitespace_of_isDigit hdigit) (isWhitespace_of_isDigit hdigit') (by rintro rfl; cases hdigit')
  have htext : digits start ++ ['.', '='] ++ digits «end» =
      first :: (back ++ ['.', '='] ++ front ++ [last]) := by
    rw [hfirst, hlast]
    simp
  rw [← htext] at hclean
  have hsplit : Text.splitOnce ['.', '='] (digits start ++ ['.', '='] ++ digits «end») =
      some (digits start, digits «end») :=
    Text.splitOnce_found (not_mem_digits (by decide)) _
  rw [parsePut, hclean]
  rw [htext, stripStart_digit hdigit (by decide)]
  dsimp only
  rw [stripStart_digit hdigit (by decide)]
  dsimp only
  rw [← htext, hsplit]
  dsimp only
  rw [lineNumber_digits hstart.2, lineNumber_digits hend.2]
  simp only [bind, Except.bind]
  rw [checkRange_ok hstart hend hle]

/-- A put of a block is read back. -/
theorem parsePut_block {start : Nat} (hstart : ValidLine start) :
    parsePut (digits start ++ ['*'] ++ [':']) = .ok (some (.putBlock start [])) := by
  obtain ⟨first, -, -, back, hfirst, -, hdigit, -⟩ := digits_ends start
  have hclean := @clean_colon first '*' back (isWhitespace_of_isDigit hdigit) (by decide)
    (by decide)
  have htext : digits start ++ ['*'] = first :: (back ++ ['*']) := by rw [hfirst]; rfl
  rw [← htext] at hclean
  have hsplit : Text.splitOnce ['.', '='] (digits start ++ ['*']) = none :=
    Text.splitOnce_missing (by simp [not_mem_digits (show ('.' : Char).isDigit = false by decide)])
  have hstrip : Text.stripEnd ['*'] (digits start ++ ['*']) = some (digits start) := by
    rw [Text.stripEnd, if_pos (isSuffixOf_iff_suffix.mpr (suffix_append _ _))]
    simp
  rw [parsePut, hclean]
  rw [htext, stripStart_digit hdigit (by decide)]
  dsimp only
  rw [stripStart_digit hdigit (by decide)]
  dsimp only
  rw [← htext, hsplit]
  dsimp only
  rw [hstrip]
  dsimp only
  rw [blockStart_digits hstart]
  rfl

/-- An insertion before a line is read back. -/
theorem parsePut_before {line : Nat} (h : ValidLine line) :
    parsePut ('<' :: digits line ++ [':']) = .ok (some (.insertBefore line [])) := by
  obtain ⟨-, last, front, -, -, hlast, -, hdigit⟩ := digits_ends line
  have hclean := @clean_colon '<' last front (by decide) (isWhitespace_of_isDigit hdigit)
    (by rintro rfl; cases hdigit)
  rw [← hlast] at hclean
  rw [parsePut, hclean]
  rw [show '<' :: digits line = ['<'] ++ digits line from rfl, stripStart_append]
  dsimp only
  rw [insertLine_digits h]
  rfl

/-- An insertion after a line is read back. -/
theorem parsePut_after {line : Nat} (h : ValidLine line) :
    parsePut ('>' :: digits line ++ [':']) = .ok (some (.insertAfter line [])) := by
  obtain ⟨-, last, front, -, -, hlast, -, hdigit⟩ := digits_ends line
  have hclean := @clean_colon '>' last front (by decide) (isWhitespace_of_isDigit hdigit)
    (by rintro rfl; cases hdigit)
  rw [← hlast] at hclean
  have hbefore : Text.stripStart ['<'] ('>' :: digits line) = none := by
    rw [stripStart_eq_none, cons_prefix_cons]
    exact fun h => absurd h.1 (by decide)
  rw [parsePut, hclean]
  rw [hbefore]
  dsimp only
  rw [show '>' :: digits line = ['>'] ++ digits line from rfl, stripStart_append]
  dsimp only
  rw [insertLine_digits h]
  rfl

/-- A paste is refused: the mark of its register stands in the line number. -/
theorem parsePut_paste {mark : Char} (hmark : mark = '<' ∨ mark = '>') (line : Nat)
    (register : List Char) (op : EditOp) :
    parsePut (mark :: (digits line ++ ' ' :: '@' :: register)) ≠ .ok (some op) := by
  have hspace : Text.isWhitespace mark = false := by
    rcases hmark with rfl | rfl <;> decide
  -- the colons and the white space at the end are taken from the register only
  obtain ⟨kept, hclean⟩ : ∃ kept, Text.trimChars
      ((mark :: (digits line ++ ' ' :: '@' :: register)).reverse.dropWhile (· = ':')).reverse =
        mark :: (digits line ++ ' ' :: '@' :: kept) := by
    have hcolons := @Text.dropWhile_reverse_append (· = ':') '@' (by decide)
      (mark :: (digits line ++ [' '])) register
    have htext : ∀ rest, mark :: (digits line ++ [' ']) ++ '@' :: rest =
        mark :: (digits line ++ ' ' :: '@' :: rest) := by
      intro rest
      simp
    rw [htext, htext] at hcolons
    rw [hcolons, Text.trimChars_cons hspace]
    generalize (register.reverse.dropWhile (· = ':')).reverse = rest
    have hblanks := @Text.dropWhile_reverse_append Text.isWhitespace '@' (by decide)
      (mark :: (digits line ++ [' '])) rest
    rw [htext, htext] at hblanks
    exact ⟨_, hblanks⟩
  have hnumber : parseUsize (digits line ++ ' ' :: '@' :: kept) = none :=
    parseUsize_eq_none (c := '@') (by simp) (by decide) (by decide)
  rw [parsePut, hclean]
  rcases hmark with rfl | rfl
  · rw [show '<' :: (digits line ++ ' ' :: '@' :: kept) =
      ['<'] ++ (digits line ++ ' ' :: '@' :: kept) from rfl, stripStart_append]
    dsimp only
    rw [insertLine, lineNumber_error hnumber]
    rintro ⟨⟩
  · have hbefore : Text.stripStart ['<'] ('>' :: (digits line ++ ' ' :: '@' :: kept)) = none := by
      rw [stripStart_eq_none, cons_prefix_cons]
      exact fun h => absurd h.1 (by decide)
    rw [hbefore]
    dsimp only
    rw [show '>' :: (digits line ++ ' ' :: '@' :: kept) =
      ['>'] ++ (digits line ++ ' ' :: '@' :: kept) from rfl, stripStart_append]
    dsimp only
    rw [insertLine, lineNumber_error hnumber]
    rintro ⟨⟩

/-! ## Cuts -/

/-- A cut of a range is read back, with its register. -/
theorem parseCut_range {start «end» : Nat} {register : Option String} (hstart : ValidLine start)
    (hend : ValidLine «end») (hle : start ≤ «end») (hname : ∀ name ∈ register, ValidRegister name) :
    parseCut (digits start ++ ['.', '='] ++
        (digits «end» ++ (register.map fun name => ' ' :: '@' :: name.toList).getD [])) =
      .ok (some (.cutRange start «end» register)) := by
  have hword : ∀ c ∈ digits «end», Text.isWhitespace c = false :=
    fun c hc => isWhitespace_of_isDigit (isDigit_of_mem_digits hc)
  have hne : digits «end» ≠ [] := Nat.toDigits_ne_nil
  have hwords : (Text.words (String.ofList
      (digits «end» ++ (register.map fun name => ' ' :: '@' :: name.toList).getD []))) =
      String.ofList (digits «end») ::
        (register.map fun name => [String.ofList ('@' :: name.toList)]).getD [] := by
    rw [Text.words, String.toList_ofList]
    cases register with
    | none => simp [Text.wordsFrom_plain hne hword]
    | some name =>
      obtain ⟨-, hplain, -⟩ := hname name rfl
      have hregister : ∀ c ∈ '@' :: name.toList, Text.isWhitespace c = false := by
        intro c hc
        rcases mem_cons.mp hc with rfl | hc
        · decide
        · exact hplain c hc
      simp [Text.wordsFrom_blank hne hword, Text.wordsFrom_plain (cons_ne_nil _ _) hregister]
  have hsplit := @Text.splitOnce_found '.' ['='] (digits start) (not_mem_digits (by decide))
    (digits «end» ++ (register.map fun name => ' ' :: '@' :: name.toList).getD [])
  rw [parseCut, hsplit]
  dsimp only
  rw [hwords, lineNumber_digits hstart.2]
  simp only [getElem?_cons_zero, Option.getD_some, String.toList_ofList]
  rw [lineNumber_digits hend.2]
  simp only [bind, Except.bind]
  rw [checkRange_ok hstart hend hle]
  cases register with
  | none => rfl
  | some name =>
      obtain ⟨-, -, hmark⟩ := hname name rfl
      have hdrop : ('@' :: name.toList).dropWhile (· = '@') = name.toList := by
        rw [dropWhile_cons_of_pos (by simp)]
        cases hlist : name.toList with
        | nil => rfl
        | cons c cs =>
          rw [hlist] at hmark
          exact dropWhile_cons_of_neg (by simpa using hmark)
      simp [hdrop]

/-- A cut of a block is read back. -/
theorem parseCut_block {start : Nat} (hstart : ValidLine start) :
    parseCut (digits start ++ ['*']) = .ok (some (.cutBlock start none)) := by
  have hsplit : Text.splitOnce ['.', '='] (digits start ++ ['*']) = none :=
    Text.splitOnce_missing (by simp [not_mem_digits (show ('.' : Char).isDigit = false by decide)])
  have hstrip : Text.stripEnd ['*'] (digits start ++ ['*']) = some (digits start) := by
    rw [Text.stripEnd, if_pos (isSuffixOf_iff_suffix.mpr (suffix_append _ _))]
    simp
  rw [parseCut, hsplit]
  dsimp only
  rw [hstrip]
  dsimp only
  rw [blockStart_digits hstart]
  rfl

/-- A cut of a block into a register is not read. -/
theorem parseCut_blockRegister (start : Nat) (register : List Char) (op : EditOp) :
    parseCut (digits start ++ '*' :: ' ' :: '@' :: register) ≠ .ok (some op) := by
  have hdot : '.' ∉ digits start ++ ['*', ' ', '@'] := by
    simp [not_mem_digits (show ('.' : Char).isDigit = false by decide)]
  have htext : digits start ++ '*' :: ' ' :: '@' :: register =
      digits start ++ ['*', ' ', '@'] ++ register := by simp
  have hsplit := @Text.splitOnce_skip '.' ['='] _ hdot register
  rw [parseCut, htext, hsplit]
  cases hrange : Text.splitOnce ['.', '='] register with
  | some parts =>
      have hnumber : parseUsize (digits start ++ ['*', ' ', '@'] ++ parts.1) = none :=
        parseUsize_eq_none (c := '*') (by simp) (by decide) (by decide)
      rw [Option.map_some]
      dsimp only
      rw [lineNumber_error hnumber]
      rintro ⟨⟩
  | none =>
      rw [Option.map_none]
      dsimp only
      unfold Text.stripEnd
      split
      · next s hs =>
        split at hs
        · next hend =>
          cases hs
          -- only the last character of the register is taken off
          obtain ⟨front, hfront⟩ := isSuffixOf_iff_suffix.mp hend
          have hmem : '@' ∈ front := by
            have hall : '@' ∈ front ++ ['*'] := by
              rw [hfront]
              simp
            simpa using hall
          have hnumber : parseUsize (Text.trimChars front) = none :=
            parseUsize_eq_none (Text.mem_trimChars hmem (by decide)) (by decide) (by decide)
          have htake : take ((front ++ ['*']).length - ['*'].length) (front ++ ['*']) =
              front := by simp
          rw [← hfront, htake, blockStart, lineNumber_error hnumber]
          rintro ⟨⟩
        · cases hs
      · rintro ⟨⟩

/-! ## Items -/

/-- A move is read back when its destination has no white space around it. -/
theorem readItem_move (destination : String) :
    readItem (String.ofList (Text.dropReturn ("MV ".toList ++ destination.toList))) =
        some (.op (.moveFile destination)) ↔
      destination ≠ "" ∧ Text.trim destination = destination := by
  show readItem (String.ofList (Text.dropReturn ('M' :: ("V ".toList ++ destination.toList)))) =
    _ ↔ _
  rw [readItem_op (by simp), Text.trimChars_cons (by decide)]
  show parseOp (Text.trimEnd ("MV ".toList ++ destination.toList)) = _ ↔ _
  by_cases hblank : Text.trimEnd destination.toList = []
  · have htrim : Text.trim destination = "" := by
      rw [Text.trim, ← Text.trimChars_trimEnd, hblank]
      rfl
    have hline : parseOp (Text.trimEnd ("MV ".toList ++ destination.toList)) = .ok none := by
      rw [Text.trimEnd_append_nil _ hblank]
      rfl
    rw [hline, htrim]
    exact ⟨nofun, fun h => absurd h.2.symm h.1⟩
  · have hline : parseOp (Text.trimEnd ("MV ".toList ++ destination.toList)) =
        .ok (some (.moveFile (Text.trim destination))) := by
      rw [Text.trimEnd_append _ hblank, Text.trim, ← Text.trimChars_trimEnd]
      rfl
    rw [hline, Except.ok.injEq, Option.some.injEq, EditOp.moveFile.injEq]
    refine ⟨fun h => ⟨?_, h⟩, fun h => h.2⟩
    rintro rfl
    exact hblank rfl

/-- A register does not end with white space. -/
theorem registerText_concat {register : Option String}
    (h : ∀ name ∈ register, ValidRegister name) :
    ∃ front last, registerText register = front ++ [last] ∧ Text.isWhitespace last = false := by
  obtain hnil | ⟨front, last, hconcat⟩ := eq_nil_or_concat (registerText register)
  · cases hnil
  · rw [concat_eq_append] at hconcat
    refine ⟨front, last, hconcat, ?_⟩
    have hlast : (registerText register).getLast? = some last := by
      rw [hconcat, getLast?_concat]
    cases register with
    | none =>
      cases hlast
      decide
    | some name =>
      obtain ⟨hne, hplain, -⟩ := h name rfl
      have hlist : name.toList ≠ [] := by simpa using hne
      rw [registerText, Option.getD_some, getLast?_cons_of_ne_nil (cons_ne_nil _ _),
        getLast?_cons_of_ne_nil hlist] at hlast
      exact hplain last (mem_of_mem_getLast? hlast)

/-- The header of a documented operation is read back exactly when the parser knows it. -/
theorem readItem_opText {op : EditOp} (h : op.Documented) :
    readItem (Item.line (.op op.bare)) = some (.op op.bare) ↔ op.Known := by
  unfold Item.line Item.text EditOp.bare opText
  cases op with
  | putRange start «end» body =>
      obtain ⟨hstart, hend, hle, -⟩ := h
      dsimp only
      rw [show "PUT ".toList ++ digits start ++ ".=".toList ++ digits «end» ++ [':'] =
        "PUT ".toList ++ (digits start ++ ['.', '='] ++ digits «end» ++ [':']) by simp,
        readItem_put (by decide), parsePut_range hstart hend hle]
      exact ⟨fun _ => trivial, fun _ => rfl⟩
  | putBlock start body =>
      obtain ⟨hstart, -⟩ := h
      dsimp only
      rw [show "PUT ".toList ++ digits start ++ ['*', ':'] =
        "PUT ".toList ++ (digits start ++ ['*'] ++ [':']) by simp,
        readItem_put (by decide), parsePut_block hstart]
      exact ⟨fun _ => trivial, fun _ => rfl⟩
  | insertBefore line body =>
      obtain ⟨hline, -⟩ := h
      dsimp only
      rw [show "PUT <".toList ++ digits line ++ [':'] =
        "PUT ".toList ++ ('<' :: digits line ++ [':']) by rfl,
        readItem_put (by decide), parsePut_before hline]
      exact ⟨fun _ => trivial, fun _ => rfl⟩
  | insertAfter line body =>
      obtain ⟨hline, -⟩ := h
      dsimp only
      rw [show "PUT >".toList ++ digits line ++ [':'] =
        "PUT ".toList ++ ('>' :: digits line ++ [':']) by rfl,
        readItem_put (by decide), parsePut_after hline]
      exact ⟨fun _ => trivial, fun _ => rfl⟩
  | pasteBefore line register =>
      obtain ⟨front, last, hconcat, hlast⟩ := registerText_concat h.2
      have htext : "PUT <".toList ++ digits line ++ registerText register =
          "PUT ".toList ++ ('<' :: (digits line ++ front) ++ [last]) := by
        rw [hconcat]
        simp
      have hpaste : '<' :: (digits line ++ front) ++ [last] =
          '<' :: (digits line ++ ' ' :: '@' :: (register.getD "").toList) := by
        rw [show ' ' :: '@' :: (register.getD "").toList = registerText register from rfl, hconcat]
        simp
      dsimp only
      rw [htext, readItem_put hlast, hpaste]
      exact ⟨fun hread => absurd hread (parsePut_paste (.inl rfl) _ _ _), False.elim⟩
  | pasteAfter line register =>
      obtain ⟨front, last, hconcat, hlast⟩ := registerText_concat h.2
      have htext : "PUT >".toList ++ digits line ++ registerText register =
          "PUT ".toList ++ ('>' :: (digits line ++ front) ++ [last]) := by
        rw [hconcat]
        simp
      have hpaste : '>' :: (digits line ++ front) ++ [last] =
          '>' :: (digits line ++ ' ' :: '@' :: (register.getD "").toList) := by
        rw [show ' ' :: '@' :: (register.getD "").toList = registerText register from rfl, hconcat]
        simp
      dsimp only
      rw [htext, readItem_put hlast, hpaste]
      exact ⟨fun hread => absurd hread (parsePut_paste (.inr rfl) _ _ _), False.elim⟩
  | cutRange start «end» register =>
      obtain ⟨hstart, hend, hle, hname⟩ := h
      have hread := parseCut_range hstart hend hle hname
      refine ⟨fun _ => trivial, fun _ => ?_⟩
      cases register with
      | none =>
        obtain ⟨-, last, front, -, -, hlast, -, hdigit⟩ := digits_ends «end»
        have htext : "CUT ".toList ++ digits start ++ ".=".toList ++ digits «end» =
            "CUT ".toList ++ (digits start ++ ['.', '='] ++ front ++ [last]) := by
          rw [hlast]
          simp
        dsimp only
        rw [htext, readItem_cut (isWhitespace_of_isDigit hdigit), ← hread, hlast]
        simp
      | some name =>
        obtain ⟨front, last, hconcat, hlast⟩ := registerText_concat hname
        have htext : "CUT ".toList ++ digits start ++ ".=".toList ++ digits «end» ++
            registerText (some name) = "CUT ".toList ++
              (digits start ++ ['.', '='] ++ digits «end» ++ front ++ [last]) := by
          rw [hconcat]
          simp
        dsimp only
        rw [htext, readItem_cut hlast, ← hread, append_assoc _ front, ← hconcat,
          append_assoc _ (digits «end»)]
        rfl
  | cutBlock start register =>
      cases register with
      | none =>
        dsimp only
        rw [append_assoc, readItem_cut (by decide), parseCut_block h.1]
        exact ⟨fun _ => rfl, fun _ => rfl⟩
      | some name =>
        obtain ⟨front, last, hconcat, hlast⟩ := registerText_concat h.2
        have htext : "CUT ".toList ++ digits start ++ ['*'] ++ registerText (some name) =
            "CUT ".toList ++ (digits start ++ '*' :: front ++ [last]) := by
          rw [hconcat]
          simp
        have hblock : digits start ++ '*' :: front ++ [last] =
            digits start ++ '*' :: ' ' :: '@' :: name.toList := by
          rw [show ' ' :: '@' :: name.toList = registerText (some name) from rfl, hconcat]
          simp
        dsimp only
        rw [htext, readItem_cut hlast, hblock]
        exact ⟨fun hread => absurd hread (parseCut_blockRegister _ _ _), nofun⟩
  | removeFile => exact ⟨fun _ => trivial, fun _ => by decide⟩
  | moveFile destination => exact readItem_move destination

/-- The header of a section is read back when nothing is trimmed from its path and its tag. -/
theorem readItem_header {path tag : String} (hpath : '#' ∉ path.toList) :
    readItem (Item.line (.header path tag)) = some (.header path tag) ↔
      Text.trim path = path ∧ tag ≠ "" ∧ Text.trim tag = tag := by
  have hline : Item.text (.header path tag) = '[' :: (path.toList ++ '#' :: tag.toList ++ [']']) :=
    rfl
  have hdrop : Text.dropReturn (Item.text (.header path tag)) = Item.text (.header path tag) := by
    rw [Text.dropReturn_eq_self, hline, ← cons_append, getLast?_concat]
    decide
  have htrim : Text.trimChars (Item.text (.header path tag)) = Item.text (.header path tag) := by
    rw [hline]
    exact trimChars_line (by decide) (by decide)
  have hheader : isHeader (Item.text (.header path tag)) = true := by
    rw [isHeader, hline, ← cons_append, getLast?_concat]
    simp
  have hinner : (Item.text (.header path tag)).tail.dropLast =
      path.toList ++ ['#'] ++ tag.toList := by
    rw [hline, tail_cons, dropLast_concat]
    simp
  unfold readItem
  rw [Item.line, String.toList_ofList, hdrop, htrim]
  dsimp only
  rw [if_pos hheader, parseHeader, hinner, Text.splitOnce_found hpath]
  dsimp only
  by_cases hblank : Text.trimChars tag.toList = []
  · rw [if_pos hblank]
    refine ⟨(by rintro ⟨⟩), ?_⟩
    rintro ⟨-, hne, htag⟩
    rw [Text.trim, hblank] at htag
    exact absurd htag.symm hne
  · rw [if_neg hblank]
    show some (Item.header (Text.trim path) (Text.trim tag)) = some (.header path tag) ↔ _
    rw [Option.some.injEq, Item.header.injEq]
    refine ⟨fun h => ⟨h.1, ?_, h.2⟩, fun h => ⟨h.1, h.2.2⟩⟩
    rintro rfl
    exact hblank rfl

/-- A line of a body is read back when no carriage return is taken from it. -/
theorem readItem_body (body : String) :
    readItem (Item.line (.body body)) = some (.body body) ↔ body.toList.getLast? ≠ some '\r' := by
  have hdrop : Text.dropReturn ('+' :: body.toList) = '+' :: Text.dropReturn body.toList := by
    by_cases hnil : body.toList = []
    · rw [hnil]
      rfl
    · exact Text.dropReturn_append ['+'] hnil
  have hheader : isHeader (Text.trimChars ('+' :: Text.dropReturn body.toList)) = false := by
    rw [Text.trimChars_plain (by decide)]
    rfl
  unfold readItem
  rw [Item.line, String.toList_ofList, Item.text, hdrop]
  dsimp only
  have hstrip : Text.stripStart ['+'] ('+' :: Text.dropReturn body.toList) =
      some (Text.dropReturn body.toList) := stripStart_append ['+'] _
  rw [hheader, if_neg Bool.false_ne_true, hstrip, ← Text.dropReturn_eq_self]
  dsimp only
  rw [Option.some.injEq, Item.body.injEq]
  constructor
  · intro h
    have hlist := congrArg String.toList h
    rwa [String.toList_ofList] at hlist
  · intro h
    rw [h, String.ofList_toList]

open List (not_mem_append) in
/-- Documented sections hold no newline in an item. -/
theorem newline_notMem_items {sections : List ParsedEditSection}
    (h : ∀ s ∈ sections, s.Documented) : ∀ item ∈ items sections, '\n' ∉ item.text := by
  intro item hitem
  obtain ⟨s, hs, hitem⟩ := mem_flatMap.mp hitem
  obtain ⟨hpath, htag, hops⟩ := h s hs
  have hdigits : ∀ n, '\n' ∉ digits n := fun n => not_mem_digits (by decide)
  rcases mem_cons.mp hitem with rfl | hitem
  · simp [Item.text, hpath '\n' (by simp), htag '\n' (by simp)]
  · obtain ⟨op, hop, hitem⟩ := mem_flatMap.mp hitem
    have hdocumented := hops op hop
    have hregister : ∀ register : Option String, (∀ name ∈ register, ValidRegister name) →
        '\n' ∉ registerText register := by
      intro register hname hmem
      cases register with
      | none => simp [registerText] at hmem
      | some name =>
        have hmem' : '\n' ∈ name.toList := by simpa [registerText] using hmem
        have hplain := (hname name rfl).2.1 '\n' hmem'
        revert hplain
        decide
    rcases mem_cons.mp hitem with rfl | hitem
    · have hput : '\n' ∉ "PUT ".toList ∧ '\n' ∉ "PUT <".toList ∧ '\n' ∉ "PUT >".toList := by decide
      have hcut : '\n' ∉ "CUT ".toList ∧ '\n' ∉ "REM".toList ∧ '\n' ∉ "MV ".toList := by decide
      have hmark : '\n' ∉ ".=".toList ∧ '\n' ∉ [':'] ∧ '\n' ∉ ['*'] ∧ '\n' ∉ ['*', ':'] := by
        decide
      cases op with
      | putRange start «end» =>
        have hrange := not_mem_append (not_mem_append hput.1 (hdigits start)) hmark.1
        exact not_mem_append (not_mem_append hrange (hdigits «end»)) hmark.2.1
      | putBlock start => exact not_mem_append (not_mem_append hput.1 (hdigits _)) hmark.2.2.2
      | insertBefore line => exact not_mem_append (not_mem_append hput.2.1 (hdigits _)) hmark.2.1
      | insertAfter line => exact not_mem_append (not_mem_append hput.2.2 (hdigits _)) hmark.2.1
      | pasteBefore line register =>
        exact not_mem_append (not_mem_append hput.2.1 (hdigits _))
          (hregister register hdocumented.2)
      | pasteAfter line register =>
        exact not_mem_append (not_mem_append hput.2.2 (hdigits _))
          (hregister register hdocumented.2)
      | cutRange start «end» register =>
        have hfirst := not_mem_append (not_mem_append hcut.1 (hdigits start)) hmark.1
        have hrange := not_mem_append hfirst (hdigits «end»)
        cases register with
        | none => exact hrange
        | some name => exact not_mem_append hrange (hregister _ hdocumented.2.2.2)
      | cutBlock start register =>
        have hblock := not_mem_append (not_mem_append hcut.1 (hdigits start)) hmark.2.2.1
        cases register with
        | none => exact hblock
        | some name => exact not_mem_append hblock (hregister _ hdocumented.2)
      | removeFile => exact hcut.2.1
      | moveFile destination => exact not_mem_append hcut.2.2 hdocumented
    · obtain ⟨line, hline, rfl⟩ := mem_map.mp hitem
      have hone : OneLine line := by
        cases op with
        | putRange => exact hdocumented.2.2.2 line hline
        | putBlock | insertBefore | insertAfter => exact hdocumented.2 line hline
        | pasteBefore | pasteAfter | cutRange | cutBlock | removeFile | moveFile => cases hline
      have hplain : '\n' ∉ line.toList := hone
      simp [Item.text, hplain]

/-- A section is read back exactly when the parser knows it. -/
theorem readItem_section {s : ParsedEditSection} (h : s.Documented) :
    (∀ item ∈ sectionItems s, readItem item.line = some item) ↔ s.Kept := by
  have hheader := @readItem_header _ s.tag (h.path '#' (by simp))
  constructor
  · intro hread
    obtain ⟨hpath, htag⟩ := hheader.mp (hread _ mem_cons_self)
    refine ⟨hpath, htag, fun op hop => ⟨?_, fun line hline => ?_⟩⟩
    · refine (readItem_opText (h.ops op hop)).mp (hread _ (mem_cons_of_mem _ ?_))
      exact mem_flatMap.mpr ⟨op, hop, mem_cons_self⟩
    · refine (readItem_body line).mp (hread _ (mem_cons_of_mem _ ?_))
      exact mem_flatMap.mpr
        ⟨op, hop, mem_cons_of_mem _ (mem_map_of_mem hline)⟩
  · rintro ⟨hpath, htag, hops⟩ item hitem
    rcases mem_cons.mp hitem with rfl | hitem
    · exact hheader.mpr ⟨hpath, htag⟩
    · obtain ⟨op, hop, hitem⟩ := mem_flatMap.mp hitem
      rcases mem_cons.mp hitem with rfl | hitem
      · exact (readItem_opText (h.ops op hop)).mpr (hops op hop).1
      · obtain ⟨line, hline, rfl⟩ := mem_map.mp hitem
        exact (readItem_body line).mpr ((hops op hop).2 line hline)

/-- The parser keeps a text exactly when no line of it is dropped, and documented sections exactly
when there are some and it knows each of them. -/
theorem parse_keeps_iff {input : String} {accepted sections : List ParsedEditSection}
    (h : parse input = .ok accepted) (hsections : ∀ s ∈ sections, s.Documented) :
    (Accounted input accepted ↔ ∀ line ∈ Text.lines input, ¬ Dropped line) ∧
      (parse (render sections) = .ok sections ↔ sections ≠ [] ∧ ∀ s ∈ sections, s.Kept) := by
  refine ⟨accounted_iff h, ?_⟩
  rw [parse_render_iff (newline_notMem_items hsections)]
  refine and_congr_right fun _ => ?_
  constructor
  · intro hread s hs
    refine (readItem_section (hsections s hs)).mp fun item hitem => hread item ?_
    exact mem_flatMap.mpr ⟨s, hs, hitem⟩
  · intro hkept item hitem
    obtain ⟨s, hs, hitem⟩ := mem_flatMap.mp hitem
    exact (readItem_section (hsections s hs)).mpr (hkept s hs) item hitem

/-- A patch that is parsed without dropping a line, and a section that is read back. -/
theorem parse_keeps_put :
    Accounted "[a#B]\nPUT 1.=2:\n+x\n" [⟨"a", "B", [.putRange 1 2 ["x"]]⟩] ∧
      parse (render [⟨"a", "B", [.cutRange 1 2 (some "r")]⟩]) =
        .ok [⟨"a", "B", [.cutRange 1 2 (some "r")]⟩] := by
  have haccepted : parse "[a#B]\nPUT 1.=2:\n+x\n" = .ok [⟨"a", "B", [.putRange 1 2 ["x"]]⟩] := by
    rfl
  have hsections : ∀ s ∈ [(⟨"a", "B", [.cutRange 1 2 (some "r")]⟩ : ParsedEditSection)],
      s.Documented := by
    rintro s hs
    cases mem_singleton.mp hs
    refine ⟨all_iff_forall_prop.mp (by decide), all_iff_forall_prop.mp (by decide),
      fun op hop => ?_⟩
    cases mem_singleton.mp hop
    refine ⟨⟨by decide, by decide⟩, ⟨by decide, by decide⟩, by decide, ?_⟩
    rintro name ⟨⟩
    exact ⟨by decide, all_iff_forall_prop.mp (by decide), by decide⟩
  obtain ⟨haccounted, hread⟩ := parse_keeps_iff haccepted hsections
  constructor
  · refine haccounted.mpr ?_
    have hlines : Text.lines "[a#B]\nPUT 1.=2:\n+x\n" = ["[a#B]", "PUT 1.=2:", "+x"] := by
      decide +kernel
    rw [hlines]
    rintro line hline ⟨-, hheader, hbody, hrecognised⟩
    simp only [mem_cons, not_mem_nil, or_false] at hline
    rcases hline with rfl | rfl | rfl
    · exact absurd hheader (by decide)
    · exact absurd (parseOp_eq_none.mpr hrecognised) (by rintro ⟨⟩)
    · exact absurd rfl hbody
  · refine hread.mpr ⟨cons_ne_nil _ _, ?_⟩
    rintro s hs
    cases mem_singleton.mp hs
    refine ⟨by decide, by decide, fun op hop => ?_⟩
    cases mem_singleton.mp hop
    exact ⟨trivial, forall_mem_nil _⟩

/-- A cut without a range is accepted and dropped, and a paste is not read back. -/
theorem not_parse_keeps_cut :
    parse "[a#B]\nCUT 3\n" = .ok [⟨"a", "B", []⟩] ∧
      ¬ Accounted "[a#B]\nCUT 3\n" [⟨"a", "B", []⟩] ∧
      ParsedEditSection.Documented ⟨"a", "B", [.pasteBefore 1 (some "r")]⟩ ∧
      parse (render [⟨"a", "B", [.pasteBefore 1 (some "r")]⟩]) ≠
        .ok [⟨"a", "B", [.pasteBefore 1 (some "r")]⟩] := by
  refine ⟨by rfl, ?_, ?_, ?_⟩
  · intro h
    have hlines : (Text.lines "[a#B]\nCUT 3\n").filter filled = ["[a#B]", "CUT 3"] := by
      decide +kernel
    have hlength := h.length_eq
    rw [hlines] at hlength
    exact absurd hlength (by decide)
  · refine ⟨all_iff_forall_prop.mp (by decide), all_iff_forall_prop.mp (by decide), fun op hop => ?_⟩
    cases mem_singleton.mp hop
    refine ⟨⟨by decide, by decide⟩, ?_⟩
    rintro name ⟨⟩
    exact ⟨by decide, all_iff_forall_prop.mp (by decide), by decide⟩
  · rintro ⟨⟩

end Hashline

end Omp2.Tools
