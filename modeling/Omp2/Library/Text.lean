import Mathlib.Algebra.Ring.Int.Defs
import Mathlib.Algebra.Ring.Nat
import Mathlib.Data.List.Basic
import Mathlib.Data.String.Basic

/-!
# Byte lengths and trimming of UTF-8 strings

The standard-library string operations of the source language that are not the same as
Lean's: trimming by the Unicode `White_Space` property, and cutting a string back to a byte
length. `truncate_append` says that cutting an appended string back to the old byte length
removes exactly what was appended.
-/

namespace Omp2.Text

/-- The characters with the Unicode `White_Space` property. -/
def isWhitespace (c : Char) : Bool :=
  let code := c.toNat
  (0x09 ≤ code && code ≤ 0x0d) || code = 0x20 || code = 0x85 || code = 0xa0 ||
    code = 0x1680 || (0x2000 ≤ code && code ≤ 0x200a) || code = 0x2028 || code = 0x2029 ||
    code = 0x202f || code = 0x205f || code = 0x3000

/-- The characters of a string without its leading and trailing white space. -/
def trimChars (cs : List Char) : List Char :=
  ((cs.dropWhile isWhitespace).reverse.dropWhile isWhitespace).reverse

/-- The string without its leading and trailing white space. -/
def trim (s : String) : String :=
  String.ofList (trimChars s.toList)

/-- The lower-case mapping of Unicode, whose tables are not part of this development. -/
class Unicode where
  /-- `str::to_lowercase`. -/
  toLowercase : String → String
  /-- Texts of ASCII characters are mapped letter by letter. -/
  toLowercase_ascii : ∀ s : String, (∀ c ∈ s.toList, c.toNat < 128) → toLowercase s = s.toLower

/-- The mapping of ASCII letters. -/
scoped instance asciiCase : Unicode where
  toLowercase := String.toLower
  toLowercase_ascii _ _ := rfl

/-- The longest run of leading characters that fits into `size` bytes of UTF-8. -/
def truncateChars : List Char → Nat → List Char
  | [], _ => []
  | c :: cs, size => if c.utf8Size ≤ size then c :: truncateChars cs (size - c.utf8Size) else []

/-- Cut a string back to a byte length, which callers take on a character boundary. -/
def truncate (s : String) (size : Nat) : String :=
  String.ofList (truncateChars s.toList size)

/-- The rest of a string that starts with `start`. -/
def stripPrefix (s start : String) : Option String :=
  if start.toList.isPrefixOf s.toList then some (String.ofList (s.toList.drop start.length))
  else none

/-- The rest of a list that starts with `start`. -/
def stripStart (start cs : List Char) : Option (List Char) :=
  if start.isPrefixOf cs then some (cs.drop start.length) else none

/-- The rest of a list that ends with `«end»`. -/
def stripEnd («end» cs : List Char) : Option (List Char) :=
  if «end».isSuffixOf cs then some (cs.take (cs.length - «end».length)) else none

/-- The longest end of a string that fits into `size` bytes of UTF-8. -/
def suffix (s : String) (size : Nat) : String :=
  String.ofList (truncateChars s.toList.reverse size).reverse

/-- The lines of a list of characters, with the last characters of the current line in reverse. -/
def linesFrom (line : List Char) : List Char → List (List Char)
  | [] => if line.isEmpty then [] else [line.reverse]
  | c :: cs =>
    if c = '\n' then
      (match line with
        | '\r' :: rest => rest.reverse
        | line => line.reverse) :: linesFrom [] cs
    else linesFrom (c :: line) cs

/-- The lines of a string without their line ends. -/
def lines (s : String) : List String :=
  (linesFrom [] s.toList).map String.ofList

/-- The words of a list of characters, with the last characters of the current word in reverse. -/
def wordsFrom (word : List Char) : List Char → List (List Char)
  | [] => if word.isEmpty then [] else [word.reverse]
  | c :: cs =>
    if isWhitespace c then
      if word.isEmpty then wordsFrom [] cs else word.reverse :: wordsFrom [] cs
    else wordsFrom (c :: word) cs

/-- The words of a string that white space separates. -/
def words (s : String) : List String :=
  (wordsFrom [] s.toList).map String.ofList

/-- The parts of a list before and after the first place at which a separator stands. -/
def splitOnce (separator : List Char) : List Char → Option (List Char × List Char)
  | [] => none
  | c :: cs =>
    if separator.isPrefixOf (c :: cs) then some ([], (c :: cs).drop separator.length)
    else (splitOnce separator cs).map fun parts => (c :: parts.1, parts.2)

/-- The parts of a split text around its separator. -/
theorem splitOnce_eq_some {separator text before after : List Char}
    (h : splitOnce separator text = some (before, after)) :
    text = before ++ separator ++ after := by
  induction text generalizing before with
  | nil => cases h
  | cons c cs ih =>
      unfold splitOnce at h
      split at h
      · next hstart =>
        cases h
        rw [List.nil_append]
        exact List.prefix_iff_eq_append.mp (List.isPrefixOf_iff_prefix.mp hstart) |>.symm
      · obtain ⟨parts, hparts, heq⟩ := Option.map_eq_some_iff.mp h
        cases heq
        rw [ih hparts]
        rfl

/-- The UTF-8 byte length of a list of characters. -/
def byteLength (cs : List Char) : Nat :=
  (cs.map Char.utf8Size).sum

theorem utf8ByteSize_ofList (cs : List Char) :
    (String.ofList cs).utf8ByteSize = byteLength cs := by
  induction cs with
  | nil => rfl
  | cons c cs ih =>
      have hcons : String.ofList (c :: cs) = String.singleton c ++ String.ofList cs := by
        rw [String.singleton_eq_ofList, ← String.ofList_append, List.singleton_append]
      simp [hcons, ih, byteLength]

theorem utf8ByteSize_eq (s : String) : s.utf8ByteSize = byteLength s.toList := by
  rw [← utf8ByteSize_ofList, String.ofList_toList]

/-- Cutting back to the length of the first part drops exactly the second part. -/
theorem truncateChars_append (front back : List Char) :
    truncateChars (front ++ back) (byteLength front) = front := by
  induction front with
  | nil =>
      cases back with
      | nil => rfl
      | cons c cs =>
        have hpos : 0 < c.utf8Size := c.utf8Size_pos
        simp [truncateChars, byteLength]
        omega
  | cons c cs ih =>
      have hfit : c.utf8Size ≤ byteLength (c :: cs) := by simp [byteLength]
      have hrest : byteLength (c :: cs) - c.utf8Size = byteLength cs := by simp [byteLength]
      simp only [List.cons_append, truncateChars, hfit, if_true, hrest, ih]

theorem truncate_append (s t : String) : truncate (s ++ t) s.utf8ByteSize = s := by
  simp [truncate, utf8ByteSize_eq, truncateChars_append]

end Omp2.Text
