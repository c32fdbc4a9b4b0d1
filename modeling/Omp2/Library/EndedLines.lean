import Omp2.Library.TextLines

/-!
# Lines with their ends

A text is the concatenation of its lines when each line keeps the newline that ends it. The lines of
the standard library are these lines without their newlines, and without a carriage return before
the newline.
-/

namespace Omp2.Text

open List

/-! ## Splitting after each newline -/

section Generic

variable {α : Type*} [DecidableEq α] (newline : α)

/-- The lines of a text, each with the newline that ends it. -/
def endedLines : List α → List (List α)
  | [] => []
  | item :: items =>
    if item = newline then [item] :: endedLines items
    else
      match endedLines items with
      | [] => [[item]]
      | line :: rest => (item :: line) :: rest

/-- The first line, with its newline, and what follows it. -/
def takeLine : List α → List α × List α
  | [] => ([], [])
  | item :: items =>
    if item = newline then ([item], items)
    else (item :: (takeLine items).1, (takeLine items).2)

/-- How many lines there are: the newlines, and one more if the last line is not ended. -/
def countLines (items : List α) : Nat :=
  items.count newline +
    if items.getLast?.any fun item => decide (item ≠ newline) then 1 else 0

variable {newline}

theorem endedLines_flatten (items : List α) : (endedLines newline items).flatten = items := by
  induction items with
  | nil => rfl
  | cons item items ih =>
      unfold endedLines
      split
      · rw [flatten_cons, ih, singleton_append]
      · split
        · next hnil =>
          rw [hnil] at ih
          rw [← ih]
          rfl
        · next line rest hlines =>
          rw [hlines] at ih
          rw [← ih]
          rfl

/-- The first line is taken off the text. -/
theorem takeLine_eq {items line : List α} {rest : List (List α)}
    (h : endedLines newline items = line :: rest) :
    takeLine newline items = (line, rest.flatten) ∧
      endedLines newline rest.flatten = rest := by
  induction items generalizing line rest with
  | nil => cases h
  | cons item items ih =>
      unfold endedLines at h
      unfold takeLine
      split at h
      · next heq =>
        cases h
        rw [if_pos heq, endedLines_flatten]
        exact ⟨rfl, rfl⟩
      · next hne =>
        rw [if_neg hne]
        split at h
        · next hnil =>
          cases h
          have hitems := @endedLines_flatten _ _ newline items
          rw [hnil] at hitems
          rw [← hitems]
          exact ⟨rfl, rfl⟩
        · next first more hlines =>
          cases h
          obtain ⟨htake, hrest⟩ := ih hlines
          rw [htake]
          exact ⟨rfl, hrest⟩

theorem length_endedLines (items : List α) :
    (endedLines newline items).length = countLines newline items := by
  induction items with
  | nil => rfl
  | cons item items ih =>
      unfold endedLines
      unfold countLines at ih ⊢
      split
      · next heq =>
        subst heq
        rw [length_cons, ih, count_cons_self]
        cases items with
        | nil => simp
        | cons next items =>
          rw [getLast?_cons_cons]
          omega
      · next hne =>
        rw [count_cons_of_ne hne]
        split
        · next hnil =>
          have hitems := @endedLines_flatten _ _ newline items
          rw [hnil] at hitems
          rw [← hitems]
          simp [hne]
        · next line rest hlines =>
          rw [hlines] at ih
          cases items with
          | nil => cases hlines
          | cons next items =>
            rw [getLast?_cons_cons]
            exact ih

/-- A text that ends its last line has its own lines before those of what follows. -/
theorem endedLines_append {front : List α} (h : ∀ item ∈ front.getLast?, item = newline)
    (rest : List α) :
    endedLines newline (front ++ rest) = endedLines newline front ++ endedLines newline rest := by
  induction front with
  | nil => rfl
  | cons item front ih =>
      cases front with
      | nil =>
        have hitem : item = newline := h item rfl
        rw [singleton_append, endedLines, if_pos hitem, endedLines, if_pos hitem]
        rfl
      | cons next front =>
        have hmore := ih fun last hlast => h last (by rwa [getLast?_cons_cons])
        have hstep : ∀ items, endedLines newline (item :: items) =
            if item = newline then [item] :: endedLines newline items
            else
              match endedLines newline items with
              | [] => [[item]]
              | line :: rest => (item :: line) :: rest := fun _ => rfl
        rw [cons_append, hstep, hmore, hstep (next :: front)]
        split
        · rfl
        · have hlines := @endedLines_flatten _ _ newline (next :: front)
          cases hfirst : endedLines newline (next :: front) with
          | nil =>
            rw [hfirst] at hlines
            cases hlines
          | cons line lines => rfl

end Generic

/-! ## Lines of characters -/

/-- A line without its newline. -/
def dropNewline (line : List Char) : List Char :=
  if line.getLast? = some '\n' then line.dropLast else line

/-- A line without its newline and a carriage return before it. -/
def dropLineEnd (line : List Char) : List Char :=
  if line.getLast? = some '\n' then dropReturn line.dropLast else line

theorem dropLineEnd_newline (line : List Char) :
    dropLineEnd (line ++ ['\n']) = dropReturn line := by
  unfold dropLineEnd
  rw [getLast?_concat, if_pos rfl, dropLast_concat]

/-- The lines of the standard library are the ended lines without their ends. -/
theorem linesFrom_eq (line text : List Char) :
    linesFrom line text =
      match endedLines '\n' text with
      | [] => if line.isEmpty then [] else [line.reverse]
      | first :: rest => dropLineEnd (line.reverse ++ first) :: rest.map dropLineEnd := by
  induction text generalizing line with
  | nil => rfl
  | cons c cs ih =>
      by_cases hc : c = '\n'
      · subst hc
        rw [linesFrom_newline, endedLines, if_pos rfl]
        dsimp only
        rw [dropLineEnd_newline, ih []]
        cases endedLines '\n' cs <;> rfl
      · have hstep : linesFrom line (c :: cs) = linesFrom (c :: line) cs := if_neg hc
        rw [hstep, endedLines, if_neg hc, ih (c :: line)]
        cases endedLines '\n' cs with
        | nil =>
          show [(c :: line).reverse] = [dropLineEnd (line.reverse ++ [c])]
          rw [reverse_cons, dropLineEnd, getLast?_concat, if_neg (by simpa using hc)]
        | cons first rest =>
          show dropLineEnd ((c :: line).reverse ++ first) :: _ = _
          rw [reverse_cons, append_assoc]
          rfl

theorem linesFrom_nil_eq (text : List Char) :
    linesFrom [] text = (endedLines '\n' text).map dropLineEnd := by
  rw [linesFrom_eq]
  cases endedLines '\n' text <;> rfl

theorem linesFrom_ended {front : List Char} (h : ∀ c ∈ front.getLast?, c = '\n')
    (rest : List Char) : linesFrom [] (front ++ rest) = linesFrom [] front ++ linesFrom [] rest := by
  rw [linesFrom_nil_eq, linesFrom_nil_eq, linesFrom_nil_eq, endedLines_append h, map_append]

/-- The two differ where a carriage return stands before the newline. -/
theorem dropNewline_eq_iff {line : List Char} :
    dropNewline line = dropLineEnd line ↔ ¬['\r', '\n'] <:+ line := by
  rcases eq_nil_or_concat line with rfl | ⟨front, c, rfl⟩
  · exact iff_of_true rfl (by decide)
  · rw [concat_eq_append]
    by_cases hc : c = '\n'
    · subst hc
      rw [dropLineEnd_newline, dropNewline, getLast?_concat, if_pos rfl, dropLast_concat,
        eq_comm, dropReturn_eq_self]
      refine not_congr ⟨fun hlast => ?_, ?_⟩
      · obtain ⟨start, rfl⟩ := getLast?_eq_some_iff.mp hlast
        exact ⟨start, by rw [append_assoc]; rfl⟩
      · rintro ⟨start, heq⟩
        have hsplit : start ++ ['\r', '\n'] = (start ++ ['\r']) ++ ['\n'] := by
          rw [append_assoc]
          rfl
        rw [hsplit] at heq
        rw [← (append_inj' heq rfl).1, getLast?_concat]
    · have hlast : (front ++ [c]).getLast? ≠ some '\n' := by
        rw [getLast?_concat]
        exact fun heq => hc (Option.some.inj heq)
      rw [dropNewline, dropLineEnd, if_neg hlast, if_neg hlast]
      refine iff_of_true rfl ?_
      rintro ⟨start, heq⟩
      have hend := congrArg getLast? heq
      rw [getLast?_concat, getLast?_append_of_ne_nil _ (cons_ne_nil _ _)] at hend
      exact hc (Option.some.inj hend).symm

/-- A start of a text that has none of the characters at its end is a start of the rest. -/
theorem prefix_of_append {front text tail : List Char} (h : front <+: text ++ tail)
    (htail : ∀ c ∈ tail, c ∉ front) : front <+: text := by
  rcases prefix_or_prefix_of_prefix h (prefix_append text tail) with hin | ⟨more, heq⟩
  · exact hin
  · subst heq
    rw [prefix_append_right_inj] at h
    cases more with
    | nil => rw [append_nil]
    | cons c more =>
      cases tail with
      | nil => cases prefix_nil.mp h
      | cons d tail =>
        obtain ⟨rfl, -⟩ := cons_prefix_cons.mp h
        exact absurd (mem_append_right text mem_cons_self)
          (htail c mem_cons_self)

/-- The end of a line does not matter for a start that has none of its characters. -/
theorem prefix_dropLineEnd {front line : List Char} (hreturn : '\r' ∉ front)
    (hnewline : '\n' ∉ front) : front <+: dropLineEnd line ↔ front <+: line := by
  have hend : ∃ tail, line = dropLineEnd line ++ tail ∧ ∀ c ∈ tail, c ∉ front := by
    unfold dropLineEnd
    split
    · next hlast =>
      obtain ⟨start, rfl⟩ := getLast?_eq_some_iff.mp hlast
      rw [dropLast_concat]
      unfold dropReturn
      split
      · next hreturned =>
        obtain ⟨begin, rfl⟩ := getLast?_eq_some_iff.mp hreturned
        rw [dropLast_concat]
        exact ⟨['\r', '\n'], by rw [append_assoc]; rfl, by simp [hreturn, hnewline]⟩
      · exact ⟨['\n'], rfl, by simp [hnewline]⟩
    · exact ⟨[], (append_nil _).symm, nofun⟩
  obtain ⟨tail, htail, hmem⟩ := hend
  constructor
  · intro h
    rw [htail]
    exact h.trans (prefix_append _ _)
  · intro h
    rw [htail] at h
    exact prefix_of_append h hmem

end Omp2.Text
