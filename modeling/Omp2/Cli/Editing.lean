import Omp2.Cli.Editor
import Omp2.Render.Truncation

/-!
# Editing keeps the text in order

What is inserted is sanitized, so the text, the draft and the history are, and they stay within
their limits. The loops over the clusters end at boundaries, and every motion does. A deletion ends
at a boundary exactly when what it leaves on its two sides does not join.
-/

namespace Omp2.Cli

open Omp2.Text Omp2.Slices Omp2.Graphemes Omp2.Render

/-! ## Sanitized text -/

/-- A character that sanitizing keeps as it is. -/
def Plain (c : Char) : Prop :=
  Clean c ∧ c ≠ '\r' ∧ c ≠ '\t'

theorem normalize_no_return (input : List Char) :
    ∀ c ∈ normalize input, c ≠ '\r' ∧ c ≠ '\t' := by
  fun_induction normalize input with
  | case1 => exact fun _ => nofun
  | case2 rest ih => exact List.forall_mem_cons.mpr ⟨by decide, ih⟩
  | case3 rest _ ih => exact List.forall_mem_cons.mpr ⟨by decide, ih⟩
  | case4 rest ih =>
      intro c hc
      simp only [List.mem_cons] at hc
      rcases hc with rfl | rfl | rfl | rfl | hc
      · decide
      · decide
      · decide
      · decide
      · exact ih c hc
  | case5 c rest hcrlf hreturn htab ih =>
      exact List.forall_mem_cons.mpr ⟨⟨hreturn, htab⟩, ih⟩

theorem normalize_eq_self {text : List Char} (h : ∀ c ∈ text, c ≠ '\r' ∧ c ≠ '\t') :
    normalize text = text := by
  fun_induction normalize text with
  | case1 => rfl
  | case2 rest ih => exact absurd rfl (h '\r' List.mem_cons_self).1
  | case3 rest _ ih => exact absurd rfl (h '\r' List.mem_cons_self).1
  | case4 rest ih => exact absurd rfl (h '\t' List.mem_cons_self).2
  | case5 c rest hcrlf hreturn htab ih =>
      rw [ih fun other hother => h other (List.mem_cons_of_mem _ hother)]

/-- Sanitizing keeps characters of its input. -/
theorem mem_of_mem_sanitizeChars {state : EscapeState} {cs : List Char} {c : Char}
    (h : c ∈ sanitizeChars state cs) : c ∈ cs := by
  induction cs generalizing state with
  | nil => cases h
  | cons first rest ih =>
      unfold sanitizeChars at h
      split at h
      · next next kept hscan =>
        rcases List.mem_cons.mp h with rfl | h
        · have hsame : c = first := by
            unfold EscapeState.scan EscapeState.scanText at hscan
            split at hscan <;> split_ifs at hscan <;> simp_all
          rw [hsame]
          exact List.mem_cons_self
        · exact List.mem_cons_of_mem _ (ih h)
      · exact List.mem_cons_of_mem _ (ih h)

theorem plain_of_mem_sanitized {input : List Char} {c : Char}
    (h : c ∈ sanitizeAndNormalize input) : Plain c :=
  ⟨clean_of_mem_sanitizeChars h, normalize_no_return input c (mem_of_mem_sanitizeChars h)⟩

theorem sanitizeAndNormalize_eq_self {text : List Char} (h : ∀ c ∈ text, Plain c) :
    sanitizeAndNormalize text = text := by
  unfold sanitizeAndNormalize
  rw [normalize_eq_self fun c hc => (h c hc).2, sanitizeChars_of_clean fun c hc => (h c hc).1]

/-! ## Lines -/

/-- A text has no newline, or a first one. -/
theorem newline_cases (text : List Char) :
    ('\n' ∉ text ∧ text.dropWhile (· ≠ '\n') = []) ∨
      ∃ line rest, text = line ++ '\n' :: rest ∧ '\n' ∉ line ∧
        text.dropWhile (· ≠ '\n') = '\n' :: rest ∧ text.takeWhile (· ≠ '\n') = line := by
  induction text with
  | nil => exact .inl ⟨nofun, rfl⟩
  | cons c text ih =>
      by_cases hc : c = '\n'
      · subst hc
        exact .inr ⟨[], text, rfl, nofun, rfl, rfl⟩
      · have hkeep : decide (c ≠ '\n') = true := decide_eq_true hc
        rcases ih with ⟨hnone, hdrop⟩ | ⟨line, rest, rfl, hline, hdrop, htake⟩
        · refine .inl ⟨fun hmem => ?_, ?_⟩
          · rcases List.mem_cons.mp hmem with rfl | hmem
            · exact hc rfl
            · exact hnone hmem
          · rw [List.dropWhile_cons, if_pos hkeep, hdrop]
        · refine .inr ⟨c :: line, rest, rfl, fun hmem => ?_, ?_, ?_⟩
          · rcases List.mem_cons.mp hmem with rfl | hmem
            · exact hc rfl
            · exact hline hmem
          · rw [List.dropWhile_cons, if_pos hkeep, hdrop]
          · rw [List.takeWhile_cons, if_pos hkeep, htake]

/-- The first newline of a text. -/
theorem findNewline_cases (text : List Char) :
    (findNewline text = none ∧ '\n' ∉ text) ∨
      ∃ line rest, text = line ++ '\n' :: rest ∧ '\n' ∉ line ∧
        findNewline text = some (byteLength line) := by
  unfold findNewline
  rcases newline_cases text with ⟨hnone, hdrop⟩ | ⟨line, rest, htext, hline, hdrop, htake⟩
  · rw [hdrop]
    exact .inl ⟨rfl, hnone⟩
  · rw [hdrop, htake]
    exact .inr ⟨line, rest, htext, hline, rfl⟩

theorem byteLength_reverse (text : List Char) : byteLength text.reverse = byteLength text := by
  unfold byteLength
  rw [List.map_reverse, List.sum_reverse]

/-- The last newline of a text. -/
theorem rfindNewline_cases (text : List Char) :
    (rfindNewline text = none ∧ '\n' ∉ text) ∨
      ∃ front line, text = front ++ '\n' :: line ∧ '\n' ∉ line ∧
        rfindNewline text = some (byteLength front) := by
  unfold rfindNewline
  rcases newline_cases text.reverse with ⟨hnone, hdrop⟩ | ⟨line, rest, htext, hline, hdrop, _⟩
  · rw [hdrop]
    exact .inl ⟨rfl, fun hmem => hnone (List.mem_reverse.mpr hmem)⟩
  · rw [hdrop]
    refine .inr ⟨rest.reverse, line.reverse, ?_, ?_, ?_⟩
    · rw [← List.reverse_reverse text, htext, List.reverse_append, List.reverse_cons,
        List.append_assoc, List.singleton_append]
    · exact fun hmem => hline (List.mem_reverse.mp hmem)
    · rw [byteLength_reverse]

/-- A part of a text that starts at the start of a line. -/
def StartsLine (front : List Char) : Prop :=
  front = [] ∨ ∃ lines, front = lines ++ ['\n']

/-- A part of a text that starts at the end of a line. -/
def EndsLine (rest : List Char) : Prop :=
  rest = [] ∨ ∃ lines, rest = '\n' :: lines

/-- The last line of a text. -/
theorem lineStart_spec (text : List Char) :
    ∃ front line, text = front ++ line ∧ StartsLine front ∧ '\n' ∉ line ∧
      byteLength front = lineStart text := by
  unfold lineStart
  rcases rfindNewline_cases text with ⟨hfind, hnone⟩ | ⟨front, line, htext, hline, hfind⟩
  · rw [hfind]
    exact ⟨[], text, rfl, .inl rfl, hnone, rfl⟩
  · rw [hfind]
    refine ⟨front ++ ['\n'], line, ?_, .inr ⟨front, rfl⟩, hline, ?_⟩
    · rw [htext, List.append_assoc, List.singleton_append]
    · rw [byteLength_append]
      rfl

section Boundaries

variable [Segmentation] {text front line rest : List Char} {position : Nat}

/-- A boundary of a line is one of the text. -/
theorem isBoundary_of_line (hreturn : '\r' ∉ front ++ line) (hfront : StartsLine front)
    (hrest : EndsLine rest) (h : IsBoundary line position) :
    IsBoundary (front ++ line ++ rest) (byteLength front + position) := by
  have hline : IsBoundary (line ++ rest) position := by
    rcases hrest with rfl | ⟨lines, rfl⟩
    · rwa [List.append_nil]
    · exact h.before_newline (fun hmem => hreturn (List.mem_append_right _ hmem)) lines
  rcases hfront with rfl | ⟨lines, rfl⟩
  · rw [List.nil_append, show byteLength [] = 0 from rfl, Nat.zero_add]
    exact hline
  · have hlines : '\r' ∉ lines := fun hmem =>
      hreturn (List.mem_append_left _ (List.mem_append_left _ hmem))
    have hboundary := hline.after_newline hlines
    rw [List.append_assoc, List.append_assoc, List.singleton_append, byteLength_append]
    exact hboundary

/-! ## The loops end at boundaries -/

variable {gs : List (List Char)} {cursor other : Nat}

theorem isBoundary_nearestFrom (hother : IsBoundary text other) (h : Reached text position gs) :
    IsBoundary text (nearestFrom cursor other position gs) := by
  induction gs generalizing other position with
  | nil => exact hother
  | cons g gs ih =>
      unfold nearestFrom
      split
      · next heq =>
        rw [← heq]
        exact h.isBoundary
      · split
        · exact hother
        · exact ih h.isBoundary h.step

theorem isBoundary_forwardFrom (h : Reached text position gs) :
    IsBoundary text (forwardFrom cursor position gs) := by
  induction gs generalizing position with
  | nil => exact h.isBoundary
  | cons g gs ih =>
      unfold forwardFrom
      split
      · next heq =>
        rw [← heq]
        exact h.isBoundary
      · split
        · exact h.step.isBoundary
        · exact ih h.step

theorem isBoundary_previousFrom (hother : IsBoundary text other) (h : Reached text position gs) :
    IsBoundary text (previousFrom cursor other position gs) := by
  induction gs generalizing other position with
  | nil => exact hother
  | cons g gs ih =>
      unfold previousFrom
      split
      · exact hother
      · exact ih h.isBoundary h.step

theorem isBoundary_nextFrom (h : Reached text position gs) :
    IsBoundary text (nextFrom cursor position gs) := by
  induction gs generalizing position with
  | nil => exact h.isBoundary
  | cons g gs ih =>
      unfold nextFrom
      split
      · exact h.isBoundary
      · split
        · exact h.step.isBoundary
        · exact ih h.step

/-- The budget ends at a boundary and within it. -/
theorem budgetFrom_spec {maxBytes : Nat} (h : Reached text position gs)
    (hle : position ≤ maxBytes) : IsBoundary text (budgetFrom maxBytes position gs) ∧
      budgetFrom maxBytes position gs ≤ maxBytes := by
  induction gs generalizing position with
  | nil => exact ⟨h.isBoundary, hle⟩
  | cons g gs ih =>
      unfold budgetFrom
      split
      · exact ⟨h.isBoundary, hle⟩
      · next hfits => exact ih h.step (Nat.not_lt.mp hfits)

/-- A column of a line is a boundary of the line. -/
theorem columnFrom_spec (column start : Nat) (h : Reached text position gs) :
    ∃ target, columnFrom column (start + position) gs = start + target ∧
      IsBoundary text target := by
  induction gs generalizing column position with
  | nil => exact ⟨position, by unfold columnFrom; rfl, h.isBoundary⟩
  | cons g gs ih =>
      cases column with
      | zero => exact ⟨position, rfl, h.isBoundary⟩
      | succ column =>
        unfold columnFrom
        rw [Nat.add_assoc]
        exact ih column h.step

end Boundaries

/-- The nearest boundary of a boundary in the text is itself. -/
theorem nearestFrom_eq_self {position other : Nat} (front rest : List (List Char))
    (hrest : rest ≠ []) :
    nearestFrom (position + byteLength front.flatten) other position (front ++ rest) =
      position + byteLength front.flatten := by
  induction front generalizing other position with
  | nil =>
      obtain ⟨g, gs, rfl⟩ := List.exists_cons_of_ne_nil hrest
      unfold nearestFrom
      exact if_pos rfl
  | cons g front ih =>
      rw [List.flatten_cons, byteLength_append, List.cons_append, ← Nat.add_assoc]
      unfold nearestFrom
      split
      · rfl
      · rw [if_neg (by omega)]
        exact ih

theorem previousFrom_le {cursor previous position : Nat} (gs : List (List Char))
    (h : previous ≤ cursor) : previousFrom cursor previous position gs ≤ cursor := by
  induction gs generalizing previous position with
  | nil => exact h
  | cons g gs ih =>
      unfold previousFrom
      split
      · exact h
      · next hbefore => exact ih (Nat.le_of_not_le hbefore)

/-! ## Parts of a text -/

theorem upTo_start (text : List Char) (position : Nat) : upTo text position <+: text := by
  unfold upTo
  cases htake : takeBytes text position with
  | none => exact List.nil_prefix
  | some front =>
      obtain ⟨rest, rfl, _⟩ := takeBytes_eq_some htake
      exact List.prefix_append _ _

theorem byteLength_upTo_le (text : List Char) (position : Nat) :
    byteLength (upTo text position) ≤ position := by
  unfold upTo
  cases htake : takeBytes text position with
  | none => exact Nat.zero_le _
  | some front =>
      obtain ⟨rest, _, hlength⟩ := takeBytes_eq_some htake
      exact hlength.le

theorem after_suffix (text : List Char) (position : Nat) : after text position <:+ text := by
  unfold after
  cases hdrop : dropBytes text position with
  | none => exact List.nil_suffix
  | some rest =>
      obtain ⟨front, rfl, _⟩ := dropBytes_eq_some hdrop
      exact List.suffix_append _ _

theorem byteLength_after_le (text : List Char) (position : Nat) :
    byteLength (after text position) ≤ byteLength text - position := by
  unfold after
  cases hdrop : dropBytes text position with
  | none => exact Nat.zero_le _
  | some rest =>
      obtain ⟨front, rfl, rfl⟩ := dropBytes_eq_some hdrop
      show byteLength rest ≤ _
      rw [byteLength_append]
      omega

end Omp2.Cli
