import Mathlib.Data.List.DropRight
import Mathlib.Data.List.Infix
import Mathlib.Data.List.TakeWhile
import Omp2.Library.Text

/-!
# Lines, trimmed texts and split texts

What the operations of `Omp2.Library.Text` give on texts that are put together from parts: a text
of ended lines has these lines, a text that starts and ends with other characters than white space
is trimmed already, and a separator is found where it is put.
-/

namespace Omp2.Text

open List

/-! ## Lines -/

/-- A line without the carriage return at its end. -/
def dropReturn (line : List Char) : List Char :=
  if line.getLast? = some '\r' then line.dropLast else line

/-- The text of lines, each of them ended. -/
def unlines (ls : List (List Char)) : List Char :=
  ls.flatMap fun line => line ++ ['\n']

/-- A newline ends the current line. -/
theorem linesFrom_newline (line rest : List Char) :
    linesFrom line ('\n' :: rest) = dropReturn line.reverse :: linesFrom [] rest := by
  cases line with
  | nil => rfl
  | cons c line =>
      rw [dropReturn, reverse_cons, getLast?_concat, dropLast_concat]
      by_cases hc : c = '\r'
      · subst hc
        rfl
      · rw [if_neg (by simpa using hc), ← reverse_cons]
        rw [linesFrom, if_pos rfl]
        rintro _ ⟨⟩
        exact hc rfl

/-- The first line of a text ends at its first newline. -/
theorem linesFrom_append {xs : List Char} (h : '\n' ∉ xs) (line rest : List Char) :
    linesFrom line (xs ++ '\n' :: rest) =
      dropReturn (line.reverse ++ xs) :: linesFrom [] rest := by
  induction xs generalizing line with
  | nil => rw [nil_append, append_nil, linesFrom_newline]
  | cons x xs ih =>
      have hx : x ≠ '\n' := fun heq => h (heq ▸ mem_cons_self)
      have hstep : linesFrom line (x :: (xs ++ '\n' :: rest)) =
          linesFrom (x :: line) (xs ++ '\n' :: rest) := if_neg hx
      rw [cons_append, hstep, ih fun hmem => h (mem_cons_of_mem _ hmem),
        reverse_cons, append_assoc, singleton_append]

theorem linesFrom_unlines {ls : List (List Char)} (h : ∀ line ∈ ls, '\n' ∉ line) :
    linesFrom [] (unlines ls) = ls.map dropReturn := by
  induction ls with
  | nil => rfl
  | cons line ls ih =>
      rw [unlines, flatMap_cons, append_assoc, singleton_append,
        linesFrom_append (h line mem_cons_self)]
      exact congrArg _ (ih fun l hl => h l (mem_cons_of_mem _ hl))

theorem dropReturn_eq_self {line : List Char} :
    dropReturn line = line ↔ line.getLast? ≠ some '\r' := by
  unfold dropReturn
  split
  · next h =>
    refine ⟨fun heq => ?_, fun hne => absurd h hne⟩
    have hlength := congrArg length heq
    rw [length_dropLast] at hlength
    cases line with
    | nil => cases h
    | cons c cs => simp at hlength
  · next h => exact ⟨fun _ => h, fun _ => rfl⟩

theorem dropReturn_append (front : List Char) {back : List Char} (h : back ≠ []) :
    dropReturn (front ++ back) = front ++ dropReturn back := by
  unfold dropReturn
  rw [getLast?_append_of_ne_nil _ h, dropLast_append_of_ne_nil h]
  split <;> rfl

/-! ## Trimming -/

/-- A text without the white space at its end. -/
def trimEnd (cs : List Char) : List Char :=
  (cs.reverse.dropWhile isWhitespace).reverse

theorem trimChars_eq (cs : List Char) : trimChars cs = trimEnd (cs.dropWhile isWhitespace) := rfl

theorem trimChars_cons {c : Char} (h : isWhitespace c = false) (cs : List Char) :
    trimChars (c :: cs) = trimEnd (c :: cs) := by
  rw [trimChars_eq, dropWhile_cons_of_neg (by simp [h])]

theorem trimEnd_append (front : List Char) {back : List Char} (h : trimEnd back ≠ []) :
    trimEnd (front ++ back) = front ++ trimEnd back := by
  unfold trimEnd at h ⊢
  rw [reverse_append, dropWhile_append, if_neg, reverse_append,
    reverse_reverse]
  simpa using h

theorem trimEnd_append_nil (front : List Char) {back : List Char} (h : trimEnd back = []) :
    trimEnd (front ++ back) = trimEnd front := by
  unfold trimEnd at h ⊢
  rw [reverse_append, dropWhile_append, if_pos]
  simpa using h

theorem trimEnd_concat {c : Char} (h : isWhitespace c = false) (cs : List Char) :
    trimEnd (cs ++ [c]) = cs ++ [c] := by
  unfold trimEnd
  rw [reverse_concat, dropWhile_cons_of_neg (by simp [h]), ← reverse_concat,
    reverse_reverse]

/-- A trimmed end does not end with white space. -/
theorem trimEnd_eq_self {cs : List Char} :
    trimEnd cs = cs ↔ ∀ c ∈ cs.getLast?, isWhitespace c = false := by
  rcases eq_nil_or_concat cs with rfl | ⟨front, c, rfl⟩
  · exact ⟨fun _ => nofun, fun _ => rfl⟩
  · rw [concat_eq_append, getLast?_concat]
    constructor
    · rintro h _ ⟨⟩
      by_contra hc
      rw [Bool.not_eq_false] at hc
      have hlength := congrArg length h
      rw [trimEnd, reverse_concat, dropWhile_cons_of_pos hc, length_reverse,
        length_append] at hlength
      have hle := (dropWhile_sublist isWhitespace (l := front.reverse)).length_le
      rw [length_reverse] at hle
      simp only [length_cons, length_nil] at hlength
      omega
    · exact fun h => trimEnd_concat (h c rfl) front

theorem trimChars_plain {c : Char} (h : isWhitespace c = false) (cs : List Char) :
    trimChars (c :: cs) = c :: trimEnd cs := by
  rw [trimChars_cons h, ← singleton_append]
  by_cases hnil : trimEnd cs = []
  · rw [trimEnd_append_nil _ hnil, hnil]
    exact trimEnd_concat h []
  · rw [trimEnd_append _ hnil]
    rfl

/-- A text is trimmed when it neither starts nor ends with white space. -/
theorem trimChars_eq_self {cs : List Char} :
    trimChars cs = cs ↔ (∀ c ∈ cs.head?, isWhitespace c = false) ∧
      ∀ c ∈ cs.getLast?, isWhitespace c = false := by
  cases cs with
  | nil => exact ⟨fun _ => ⟨nofun, nofun⟩, fun _ => rfl⟩
  | cons c cs =>
      by_cases hc : isWhitespace c = false
      · rw [trimChars_cons hc, trimEnd_eq_self]
        exact ⟨fun h => ⟨fun _ heq => by cases heq; exact hc, h⟩, fun h => h.2⟩
      · constructor
        · intro h
          rw [Bool.not_eq_false] at hc
          have hlength := congrArg length h
          rw [trimChars_eq, dropWhile_cons_of_pos hc, trimEnd, length_reverse] at hlength
          have hle := (dropWhile_sublist isWhitespace
            (l := (cs.dropWhile isWhitespace).reverse)).length_le
          have hle' := (dropWhile_sublist isWhitespace (l := cs)).length_le
          rw [length_reverse] at hle
          rw [length_cons] at hlength
          omega
        · exact fun h => absurd (h.1 c rfl) hc

/-- A trimmed text that is not empty starts with another character than white space. -/
theorem trimChars_head {cs : List Char} {c : Char} (h : (trimChars cs).head? = some c) :
    isWhitespace c = false := by
  rw [trimChars_eq] at h
  cases hdrop : cs.dropWhile isWhitespace with
  | nil =>
      rw [hdrop] at h
      cases h
  | cons d ds =>
      have hd : isWhitespace d = false := by
        have hnot := head?_dropWhile_not isWhitespace cs
        rw [hdrop] at hnot
        exact hnot
      rw [hdrop] at h
      have hne : trimEnd (d :: ds) ≠ [] := by
        intro hnil
        rw [hnil] at h
        cases h
      have hfront : trimEnd (d :: ds) <+: d :: ds := by
        unfold trimEnd
        have hsuffix := dropWhile_suffix isWhitespace (l := (d :: ds).reverse)
        have hprefix := reverse_prefix.mpr hsuffix
        rwa [reverse_reverse] at hprefix
      cases htrim : trimEnd (d :: ds) with
      | nil => exact absurd htrim hne
      | cons e es =>
        rw [htrim] at h hfront
        cases h
        obtain ⟨rfl, -⟩ := cons_prefix_cons.mp hfront
        exact hd

theorem trimChars_last {cs : List Char} {c : Char} (h : (trimChars cs).getLast? = some c) :
    isWhitespace c = false := by
  rw [trimChars, getLast?_reverse] at h
  have hnot := head?_dropWhile_not isWhitespace (cs.dropWhile isWhitespace).reverse
  rw [h] at hnot
  exact hnot

theorem trimChars_trimChars (cs : List Char) : trimChars (trimChars cs) = trimChars cs :=
  trimChars_eq_self.mpr ⟨fun _ h => trimChars_head h, fun _ h => trimChars_last h⟩

/-- Another character than white space is not trimmed away. -/
theorem mem_trimChars {c : Char} {cs : List Char} (hmem : c ∈ cs) (h : isWhitespace c = false) :
    c ∈ trimChars cs := by
  have hkept : ∀ {l : List Char}, c ∈ l → c ∈ l.dropWhile isWhitespace := by
    intro l hl
    rw [← takeWhile_append_dropWhile (p := isWhitespace) (l := l), mem_append] at hl
    refine hl.resolve_left fun htake => ?_
    rw [mem_takeWhile_imp htake] at h
    cases h
  rw [trimChars, mem_reverse]
  exact hkept (mem_reverse.mpr (hkept hmem))

/-- Trimming the end first changes nothing. -/
theorem trimChars_trimEnd (cs : List Char) : trimChars (trimEnd cs) = trimChars cs := by
  induction cs with
  | nil => rfl
  | cons c cs ih =>
      by_cases hnil : trimEnd cs = []
      · have hsplit : trimEnd (c :: cs) = trimEnd [c] := trimEnd_append_nil [c] hnil
        rw [hsplit]
        by_cases hc : isWhitespace c = true
        · have hsingle : trimEnd [c] = [] := by
            rw [trimEnd, reverse_singleton, dropWhile_cons_of_pos hc]
            rfl
          rw [hsingle, trimChars_eq (c :: cs), dropWhile_cons_of_pos hc, ← trimChars_eq, ← ih,
            hnil]
        · rw [Bool.not_eq_true] at hc
          rw [trimChars_plain hc, hnil]
          show trimChars (trimEnd ([] ++ [c])) = _
          rw [trimEnd_concat hc, nil_append, trimChars_plain hc]
          rfl
      · have hsplit : trimEnd (c :: cs) = c :: trimEnd cs := trimEnd_append [c] hnil
        rw [hsplit]
        by_cases hc : isWhitespace c = true
        · rw [trimChars_eq, dropWhile_cons_of_pos hc, trimChars_eq (c :: cs),
            dropWhile_cons_of_pos hc, ← trimChars_eq, ← trimChars_eq, ih]
        · rw [Bool.not_eq_true] at hc
          rw [trimChars_plain hc, trimChars_plain hc]
          congr 1
          unfold trimEnd
          rw [reverse_reverse, dropWhile_idempotent]

/-! ## Words -/

/-- A word is read on to its end. -/
theorem wordsFrom_append {part : List Char} (h : ∀ c ∈ part, isWhitespace c = false)
    (word rest : List Char) :
    wordsFrom word (part ++ rest) = wordsFrom (part.reverse ++ word) rest := by
  induction part generalizing word with
  | nil => rfl
  | cons c part ih =>
      rw [cons_append, wordsFrom, if_neg (by simp [h c mem_cons_self]),
        ih fun d hd => h d (mem_cons_of_mem _ hd), reverse_cons, append_assoc,
        singleton_append]

theorem wordsFrom_plain {part : List Char} (hne : part ≠ [])
    (h : ∀ c ∈ part, isWhitespace c = false) : wordsFrom [] part = [part] := by
  have hall := wordsFrom_append h [] []
  rw [append_nil, append_nil] at hall
  rw [hall, wordsFrom, if_neg (by simpa using hne), reverse_reverse]

theorem wordsFrom_blank {part : List Char} (hne : part ≠ [])
    (h : ∀ c ∈ part, isWhitespace c = false) (rest : List Char) :
    wordsFrom [] (part ++ ' ' :: rest) = part :: wordsFrom [] rest := by
  rw [wordsFrom_append h, append_nil, wordsFrom, if_pos (by decide), if_neg (by simpa using hne),
    reverse_reverse]

/-! ## Splitting -/

/-- What is taken from the end of a text stops at a character that stays. -/
theorem dropWhile_reverse_append {p : Char → Bool} {c : Char} (h : p c = false)
    (front back : List Char) :
    ((front ++ c :: back).reverse.dropWhile p).reverse =
      front ++ c :: (back.reverse.dropWhile p).reverse := by
  rw [reverse_append, reverse_cons, append_assoc, dropWhile_append]
  split
  · next hnil =>
    rw [List.isEmpty_iff] at hnil
    rw [hnil, List.singleton_append, List.dropWhile_cons_of_neg (by simp [h])]
    simp
  · simp

/-- A text before which a separator does not start is skipped. -/
theorem splitOnce_skip {c : Char} {separator front : List Char} (h : c ∉ front)
    (rest : List Char) :
    splitOnce (c :: separator) (front ++ rest) =
      (splitOnce (c :: separator) rest).map fun parts => (front ++ parts.1, parts.2) := by
  induction front with
  | nil => simp
  | cons b front ih =>
      have hne : c ≠ b := fun heq => h (heq ▸ mem_cons_self)
      rw [cons_append, splitOnce, if_neg, ih fun hmem => h (mem_cons_of_mem _ hmem),
        Option.map_map]
      · rfl
      · rw [List.isPrefixOf_iff_prefix, cons_prefix_cons]
        exact fun hprefix => hne hprefix.1

/-- A separator whose first character does not stand before it is found. -/
theorem splitOnce_found {c : Char} {separator before : List Char} (h : c ∉ before)
    (after : List Char) :
    splitOnce (c :: separator) (before ++ (c :: separator) ++ after) = some (before, after) := by
  have hhere : splitOnce (c :: separator) ((c :: separator) ++ after) = some ([], after) := by
    rw [cons_append, splitOnce, if_pos, ← cons_append, drop_left]
    rw [← cons_append, isPrefixOf_iff_prefix]
    exact prefix_append _ _
  rw [append_assoc, splitOnce_skip h, hhere, Option.map_some, append_nil]

/-- The first place of a separator character is found. -/
theorem not_mem_of_splitOnce {c : Char} {cs before after : List Char}
    (h : splitOnce [c] cs = some (before, after)) : c ∉ before := by
  induction cs generalizing before with
  | nil => cases h
  | cons d cs ih =>
      unfold splitOnce at h
      split at h
      · cases h
        exact not_mem_nil
      · next hstart =>
        obtain ⟨parts, hparts, heq⟩ := Option.map_eq_some_iff.mp h
        cases heq
        have hne : c ≠ d := by
          rintro rfl
          exact hstart (by simp)
        exact fun hmem => (mem_cons.mp hmem).elim hne (ih hparts)

theorem splitOnce_missing {c : Char} {separator cs : List Char} (h : c ∉ cs) :
    splitOnce (c :: separator) cs = none := by
  cases hsplit : splitOnce (c :: separator) cs with
  | none => rfl
  | some parts =>
      refine absurd ?_ h
      rw [splitOnce_eq_some hsplit]
      simp

/-- A separator is found exactly when it stands in the text. -/
theorem splitOnce_eq_none {separator cs : List Char} (hne : separator ≠ []) :
    splitOnce separator cs = none ↔ ¬ separator <:+: cs := by
  induction cs with
  | nil =>
      refine ⟨fun _ hinfix => hne (infix_nil.mp hinfix), fun _ => rfl⟩
  | cons c cs ih =>
      rw [splitOnce, infix_cons_iff, ← isPrefixOf_iff_prefix]
      by_cases hstart : separator.isPrefixOf (c :: cs) = true
      · rw [if_pos hstart]
        exact ⟨nofun, fun h => absurd (.inl hstart) h⟩
      · rw [if_neg hstart, Option.map_eq_none_iff, ih]
        exact ⟨fun h hor => hor.elim hstart h, fun h hinfix => h (.inr hinfix)⟩

end Omp2.Text
