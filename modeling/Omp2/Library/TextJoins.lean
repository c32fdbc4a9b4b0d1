import Omp2.Library.TextLines

/-!
# Trimmed parts joined by a separator

Trimming each part of a text and joining the parts by white space gives the text again, but for
white space around it, exactly when the white space that the parts have between them is what the
separators put there.
-/

namespace Omp2.Text

open List

/-- A text of white space. -/
def isBlank (cs : List Char) : Bool :=
  cs.all isWhitespace

/-- The white space at the end of a text. -/
def trailing (cs : List Char) : List Char :=
  (cs.reverse.takeWhile isWhitespace).reverse

/-- Two parts that are not blank have the separator between them once for each step. -/
def Spaced (separator : List Char) : List (List Char) → Prop
  | [] => True
  | part :: rest =>
    (isBlank part ∨ rest.all isBlank ∨
      trailing part ++ rest.flatten.takeWhile isWhitespace =
        (List.replicate ((rest.takeWhile isBlank).length + 1) separator).flatten) ∧
      Spaced separator rest

variable {cs front part text : List Char} {parts rest : List (List Char)}

theorem isBlank_iff : isBlank cs = true ↔ ∀ c ∈ cs, isWhitespace c = true :=
  all_eq_true

theorem isBlank_append : isBlank (front ++ cs) = (isBlank front && isBlank cs) :=
  all_append

theorem isBlank_flatten : isBlank parts.flatten = parts.all isBlank := by
  induction parts with
  | nil => rfl
  | cons part parts ih => rw [flatten_cons, isBlank_append, ih, all_cons]

theorem dropWhile_blank (h : isBlank front = true) (cs : List Char) :
    (front ++ cs).dropWhile isWhitespace = cs.dropWhile isWhitespace :=
  dropWhile_append_of_pos (isBlank_iff.mp h)

theorem trimChars_blank_append (h : isBlank front = true) (cs : List Char) :
    trimChars (front ++ cs) = trimChars cs := by
  rw [trimChars_eq, dropWhile_blank h, ← trimChars_eq]

theorem trimEnd_blank (h : isBlank cs = true) : trimEnd cs = [] := by
  rw [trimEnd, dropWhile_eq_nil_iff.mpr, reverse_nil]
  exact fun c hc => isBlank_iff.mp h c (mem_reverse.mp hc)

theorem trimChars_append_blank (h : isBlank cs = true) (front : List Char) :
    trimChars (front ++ cs) = trimChars front := by
  rw [← trimChars_trimEnd, trimEnd_append_nil front (trimEnd_blank h), trimChars_trimEnd]

theorem trimChars_eq_nil : trimChars cs = [] ↔ isBlank cs = true := by
  constructor
  · intro h
    refine isBlank_iff.mpr fun c hc => by_contra fun hne => ?_
    have hmem := mem_trimChars hc (Bool.eq_false_iff.mpr hne)
    rw [h] at hmem
    cases hmem
  · intro h
    rw [← append_nil cs, trimChars_blank_append h]
    rfl

/-- A text that is not blank starts with another character after its white space. -/
theorem dropWhile_not_blank (h : isBlank cs = false) :
    ∃ c tail, cs.dropWhile isWhitespace = c :: tail ∧ isWhitespace c = false := by
  cases hdrop : cs.dropWhile isWhitespace with
  | nil =>
      have hblank : isBlank cs = true := isBlank_iff.mpr (dropWhile_eq_nil_iff.mp hdrop)
      rw [h] at hblank
      cases hblank
  | cons c tail =>
      have hhead := head?_dropWhile_not isWhitespace cs
      rw [hdrop] at hhead
      exact ⟨c, tail, rfl, hhead⟩

theorem trimChars_not_blank (h : isBlank cs = false) :
    ∃ c tail, trimChars cs = c :: tail ∧ isWhitespace c = false := by
  obtain ⟨c, tail, hdrop, hc⟩ := dropWhile_not_blank h
  refine ⟨c, trimEnd tail, ?_, hc⟩
  rw [trimChars_eq, hdrop, ← trimChars_cons hc, trimChars_plain hc]

/-- A trimmed text and the white space at its end. -/
theorem trimChars_trailing (h : isBlank cs = false) :
    cs.dropWhile isWhitespace = trimChars cs ++ trailing cs := by
  obtain ⟨c, tail, hdrop, hc⟩ := dropWhile_not_blank h
  have hsplit := takeWhile_append_dropWhile (p := isWhitespace) (l := cs)
  have hend : trailing cs = trailing (cs.dropWhile isWhitespace) := by
    have hstop : ((cs.dropWhile isWhitespace).reverse.takeWhile isWhitespace).length ≠
        (cs.dropWhile isWhitespace).reverse.length := by
      intro hlength
      have hall := takeWhile_eq_self_iff.mp
        (takeWhile_sublist isWhitespace |>.eq_of_length hlength)
      have hmem : c ∈ (cs.dropWhile isWhitespace).reverse := by
        rw [hdrop]
        simp
      rw [hall c hmem] at hc
      cases hc
    unfold trailing
    conv_lhs => rw [← hsplit, reverse_append, takeWhile_append, if_neg hstop]
  rw [hend, trimChars_eq, trimEnd, trailing, ← reverse_append,
    takeWhile_append_dropWhile, reverse_reverse]

theorem isBlank_trailing (cs : List Char) : isBlank (trailing cs) = true :=
  isBlank_iff.mpr fun _ hc => mem_takeWhile_imp (mem_reverse.mp hc)

theorem isBlank_takeWhile (cs : List Char) : isBlank (cs.takeWhile isWhitespace) = true :=
  isBlank_iff.mpr fun _ hc => mem_takeWhile_imp hc

/-- Two texts that are not blank are trimmed around what stands between them. -/
theorem trimChars_append (hpart : isBlank part = false) (htext : isBlank text = false) :
    trimChars (part ++ text) =
      trimChars part ++ ((trailing part ++ text.takeWhile isWhitespace) ++ trimChars text) := by
  obtain ⟨c, tail, hdrop, hc⟩ := dropWhile_not_blank hpart
  have hfront : (part ++ text).dropWhile isWhitespace =
      part.dropWhile isWhitespace ++ text := by
    rw [dropWhile_append, hdrop]
    rfl
  have hne : trimEnd (text.dropWhile isWhitespace) ≠ [] := by
    rw [← trimChars_eq]
    intro hnil
    rw [trimChars_eq_nil.mp hnil] at htext
    cases htext
  have hsplit : text = text.takeWhile isWhitespace ++ text.dropWhile isWhitespace :=
    takeWhile_append_dropWhile.symm
  rw [trimChars_eq, hfront, trimChars_trailing hpart]
  conv_lhs => rw [hsplit]
  rw [← append_assoc, trimEnd_append _ hne, ← trimChars_eq]
  simp only [append_assoc]

/-- White space before another character is determined. -/
theorem gap_eq {gap gap' : List Char} {c d : Char} {tail tail' : List Char}
    (hgap : isBlank gap = true) (hgap' : isBlank gap' = true) (hc : isWhitespace c = false)
    (hd : isWhitespace d = false) :
    gap ++ c :: tail = gap' ++ d :: tail' ↔ gap = gap' ∧ c :: tail = d :: tail' := by
  have htake : ∀ {gap : List Char} {c : Char} {tail : List Char}, isBlank gap = true →
      isWhitespace c = false → (gap ++ c :: tail).takeWhile isWhitespace = gap := by
    intro gap c tail hgap hc
    rw [takeWhile_append_of_pos (isBlank_iff.mp hgap),
      takeWhile_cons_of_neg (by simp [hc]), append_nil]
  constructor
  · intro heq
    have hsame : gap = gap' := by
      rw [← @htake gap c tail hgap hc, heq, htake hgap' hd]
    subst hsame
    exact ⟨rfl, append_cancel_left heq⟩
  · rintro ⟨rfl, heq⟩
    rw [heq]

/-! ## Joined parts -/

variable {separator : List Char}

/-- The trimmed parts with the separator between them. -/
def joined (separator : List Char) (parts : List (List Char)) : List Char :=
  separator.intercalate (parts.map trimChars)

theorem joined_cons (part : List Char) (hrest : rest ≠ []) :
    joined separator (part :: rest) = trimChars part ++ (separator ++ joined separator rest) := by
  cases rest with
  | nil => exact absurd rfl hrest
  | cons other rest => exact intercalate_cons_cons.trans (append_assoc _ _ _)

theorem isBlank_trimChars : isBlank (trimChars cs) = isBlank cs := by
  rw [Bool.eq_iff_iff, ← trimChars_eq_nil, trimChars_trimChars, trimChars_eq_nil]

theorem isBlank_joined (h : isBlank separator = true) (parts : List (List Char)) :
    isBlank (joined separator parts) = parts.all isBlank := by
  induction parts with
  | nil => rfl
  | cons part rest ih =>
      cases rest with
      | nil => simp [joined, intercalate, isBlank_trimChars]
      | cons other rest =>
        rw [joined_cons part (cons_ne_nil _ _), isBlank_append, isBlank_append, h, ih,
          isBlank_trimChars, Bool.true_and, all_cons (a := part)]

/-- The white space at the start of joined parts comes from the separators after blank parts. -/
theorem takeWhile_joined (h : isBlank separator = true) (hparts : parts.all isBlank = false) :
    (joined separator parts).takeWhile isWhitespace =
      (List.replicate (parts.takeWhile isBlank).length separator).flatten := by
  induction parts with
  | nil => cases hparts
  | cons part rest ih =>
      by_cases hpart : isBlank part = true
      · have hrest : rest.all isBlank = false := by
          rwa [all_cons, hpart, Bool.true_and] at hparts
        have hne : rest ≠ [] := by
          rintro rfl
          cases hrest
        rw [joined_cons part hne, trimChars_eq_nil.mpr hpart, nil_append,
          takeWhile_append_of_pos (isBlank_iff.mp h), ih hrest,
          takeWhile_cons_of_pos hpart]
        rfl
      · rw [Bool.not_eq_true] at hpart
        obtain ⟨c, tail, htrim, hc⟩ := trimChars_not_blank hpart
        have hstart : ∃ more, joined separator (part :: rest) = c :: more := by
          cases rest with
          | nil => exact ⟨tail, by simp [joined, intercalate, htrim]⟩
          | cons other rest =>
            rw [joined_cons part (cons_ne_nil _ _), htrim]
            exact ⟨_, rfl⟩
        obtain ⟨more, hmore⟩ := hstart
        rw [hmore, takeWhile_cons_of_neg (by simp [hc]),
          takeWhile_cons_of_neg (by simp [hpart])]
        rfl

theorem Spaced.of_blank (h : parts.all isBlank = true) : Spaced separator parts := by
  induction parts with
  | nil => trivial
  | cons part rest ih =>
      rw [all_cons, Bool.and_eq_true] at h
      exact ⟨.inl h.1, ih h.2⟩

/-- Trimmed and joined parts are the text just when they are spaced as the separators are. -/
theorem trimChars_joined_iff (h : isBlank separator = true) (parts : List (List Char)) :
    trimChars (joined separator parts) = trimChars parts.flatten ↔ Spaced separator parts := by
  induction parts with
  | nil => exact iff_of_true rfl trivial
  | cons part rest ih =>
      rw [flatten_cons, Spaced]
      by_cases hpart : isBlank part = true
      · -- a blank part adds a separator in front of the others, which is trimmed away
        have hjoined : trimChars (joined separator (part :: rest)) =
            trimChars (joined separator rest) := by
          cases rest with
          | nil => simp [joined, intercalate, trimChars_eq_nil.mpr hpart]
          | cons other rest =>
            rw [joined_cons part (cons_ne_nil _ _), trimChars_eq_nil.mpr hpart,
              nil_append, trimChars_blank_append h]
        rw [hjoined, trimChars_blank_append hpart, ih]
        exact (and_iff_right (.inl hpart)).symm
      · rw [Bool.not_eq_true] at hpart
        by_cases hrest : rest.all isBlank = true
        · -- only this part is left of both
          have hflatten : isBlank rest.flatten = true := isBlank_flatten.trans hrest
          have hjoined : trimChars (joined separator (part :: rest)) = trimChars part := by
            cases rest with
            | nil => simp [joined, intercalate, trimChars_trimChars]
            | cons other rest =>
              rw [joined_cons part (cons_ne_nil _ _), trimChars_append_blank,
                trimChars_trimChars]
              rw [isBlank_append, h, isBlank_joined h, hrest]
              rfl
          rw [hjoined, trimChars_append_blank hflatten]
          exact iff_of_true rfl ⟨.inr (.inl hrest), .of_blank hrest⟩
        · -- both have the two trimmed parts with a gap between them
          rw [Bool.not_eq_true] at hrest
          have hne : rest ≠ [] := by
            rintro rfl
            cases hrest
          have hflatten : isBlank rest.flatten = false := isBlank_flatten.trans hrest
          have hmore : isBlank (separator ++ joined separator rest) = false := by
            rw [isBlank_append, isBlank_joined h, hrest, Bool.and_false]
          have hself : isBlank (trimChars part) = false := isBlank_trimChars.trans hpart
          obtain ⟨c, tail, htail, hc⟩ := trimChars_not_blank hflatten
          obtain ⟨d, tail', htail', hd⟩ :=
            trimChars_not_blank ((isBlank_joined h rest).trans hrest)
          have hnone : trailing (trimChars part) = [] := by
            have hdrop := trimChars_trailing hself
            obtain ⟨e, more, he, hspace⟩ := trimChars_not_blank hpart
            rw [trimChars_trimChars, he, dropWhile_cons_of_neg (by simp [hspace])] at hdrop
            rw [he]
            exact append_right_eq_self.mp hdrop.symm
          have hgap : trimChars (separator ++ joined separator rest) =
              trimChars (joined separator rest) := trimChars_blank_append h _
          rw [joined_cons part hne, trimChars_append hself hmore, trimChars_append hpart hflatten,
            trimChars_trimChars, append_right_inj, hnone, nil_append, hgap,
            takeWhile_append_of_pos (isBlank_iff.mp h), takeWhile_joined h hrest, htail,
            htail', gap_eq _ _ hd hc, ← htail, ← htail', ih]
          · simp only [hpart, hrest, Bool.false_eq_true, false_or]
            refine and_congr_left fun _ => ?_
            rw [replicate_succ, flatten_cons]
            exact eq_comm
          · rw [isBlank_append, h, isBlank_flatten, Bool.true_and, all_replicate]
            simp [h]
          · rw [isBlank_append, isBlank_trailing, isBlank_takeWhile]
            rfl

end Omp2.Text
