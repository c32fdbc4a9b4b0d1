import Mathlib.Data.List.Chain
import Omp2.Render.Wrapping

/-!
# Lines that are filled

Pushing adds characters in their style and merges them with a last run of that style. The lines of
a text are its logical lines, and filling a line cluster by cluster or word by word divides it
without a loss. Cluster by cluster no line is too wide, since the clusters of what is buffered are
those that have been counted; word by word this needs words that fit and blocks of words that are
no wider than their words.
-/

namespace Omp2.Render

open Component List

/-- No piece holds the separator. -/
theorem not_mem_of_mem_splitOn {α : Type*} [DecidableEq α] {a : α} {xs piece : List α}
    (h : piece ∈ xs.splitOn a) : a ∉ piece := by
  induction xs generalizing piece with
  | nil =>
      rw [mem_singleton.mp h]
      exact not_mem_nil
  | cons x xs ih =>
      rw [splitOn_cons_eq_if_modifyHead] at h
      obtain ⟨first, pieces, hpieces⟩ := exists_cons_of_ne_nil (splitOn_ne_nil a xs)
      rw [hpieces] at ih h
      by_cases hx : x = a
      · rw [if_pos (by simpa using hx)] at h
        rcases mem_cons.mp h with rfl | h
        · exact not_mem_nil
        · exact ih h
      · rw [if_neg (by simpa using hx), modifyHead_cons] at h
        rcases mem_cons.mp h with rfl | h
        · exact not_mem_cons_of_ne_of_not_mem (Ne.symm hx) (ih mem_cons_self)
        · exact ih (mem_cons_of_mem _ h)

/-! ## Pushing -/

theorem styled_append (runs more : List Run) : styled (runs ++ more) = styled runs ++ styled more :=
  flatMap_append

theorem styled_singleton (run : Run) :
    styled [run] = styledText run.style run.text.toList :=
  flatMap_singleton ..

theorem styledText_append (style : Style) (cs more : List Char) :
    styledText style (cs ++ more) = styledText style cs ++ styledText style more :=
  map_append

theorem sanitizeText_ofList {cs : List Char} (h : ∀ c ∈ cs, Allowed c) :
    sanitizeText (String.ofList cs) = String.ofList cs :=
  sanitizeText_of_allowed fun c hc => by
    rw [String.toList_ofList] at hc
    exact h c hc

namespace RichText

/-- The last run, if there is one, has another style. -/
def EndsOther (rt : RichText) (style : Style) : Prop :=
  ∀ r ∈ rt.runs.getLast?, r.style ≠ style

/-- A text with a run after it, if there is any. -/
def withRun (before : RichText) (style : Style) (cs : List Char) : RichText :=
  if cs = [] then before else ⟨before.runs ++ [⟨style, String.ofList cs⟩]⟩

theorem endsOther_nil (style : Style) : EndsOther ⟨[]⟩ style :=
  fun _ hr => absurd hr (Option.not_mem_none _)

theorem withRun_of_ne {before : RichText} {style : Style} {cs : List Char} (h : cs ≠ []) :
    before.withRun style cs = ⟨before.runs ++ [⟨style, String.ofList cs⟩]⟩ :=
  if_neg h

theorem EndsOther.withRun {before : RichText} {style other : Style} {cs : List Char}
    (h : cs = [] → EndsOther before other) (hne : style ≠ other) :
    EndsOther (before.withRun style cs) other := by
  unfold RichText.withRun
  split
  · next hnil => exact h hnil
  · intro r hr
    rw [getLast?_append, getLast?_singleton, Option.some_or] at hr
    cases hr
    exact hne

theorem styled_withRun (before : RichText) (style : Style) (cs : List Char) :
    styled (before.withRun style cs).runs = styled before.runs ++ styledText style cs := by
  unfold RichText.withRun
  split
  · next hnil =>
    rw [hnil]
    exact (append_nil _).symm
  · rw [styled_append, styled_singleton, String.toList_ofList]

theorem width_withRun (before : RichText) (style : Style) (cs : List Char) :
    (before.withRun style cs).width = before.width + visibleWidth cs := by
  unfold RichText.withRun
  split
  · next hnil =>
    rw [hnil]
    rfl
  · unfold RichText.width strVisibleWidth
    rw [map_append, sum_append, map_singleton, sum_singleton,
      String.toList_ofList]

/-- Pushing goes on with the last run. -/
theorem push_withRun {before : RichText} {style : Style} (cs : List Char) {more : List Char}
    (h : EndsOther before style) (hmore : ∀ c ∈ more, Allowed c) :
    (before.withRun style cs).push style (String.ofList more) =
      before.withRun style (cs ++ more) := by
  unfold push
  rw [sanitizeText_ofList hmore]
  by_cases hnil : more = []
  · rw [hnil, append_nil]
    rfl
  · have hempty : ¬ (String.ofList more).isEmpty = true := by simpa using hnil
    have hne : cs ++ more ≠ [] := fun heq => hnil (append_eq_nil_iff.mp heq).2
    dsimp only
    rw [if_neg hempty, withRun_of_ne hne]
    by_cases hcs : cs = []
    · rw [hcs, nil_append]
      have hsame : before.withRun style [] = before := rfl
      rw [hsame]
      split
      · next last hlast =>
        rw [if_neg (h last hlast)]
      · rfl
    · rw [withRun_of_ne hcs]
      simp only [getLast?_append, getLast?_singleton, Option.some_or, if_true,
        dropLast_concat, String.ofList_append]

/-- Pushing what may be empty goes on with the last run. -/
theorem pushSome_withRun {before : RichText} {style : Style} (cs : List Char) {more : List Char}
    (h : EndsOther before style) (hmore : ∀ c ∈ more, Allowed c) :
    (before.withRun style cs).pushSome style (String.ofList more) =
      before.withRun style (cs ++ more) := by
  unfold pushSome
  split
  · next hempty =>
    have hnil : more = [] := by simpa using hempty
    rw [hnil, append_nil]
  · exact push_withRun cs h hmore

/-- The runs are not empty, are allowed, and differ in style from the next one. -/
structure Tidy (rt : RichText) : Prop where
  nonempty : ∀ r ∈ rt.runs, r.text ≠ ""
  chain : rt.runs.IsChain fun r r' => r.style ≠ r'.style
  allowed : AllowedRuns rt.runs

theorem tidy_nil : Tidy ⟨[]⟩ :=
  ⟨fun _ hr => absurd hr not_mem_nil, .nil, fun _ hr => absurd hr not_mem_nil⟩

/-- Each tidy text is one that ends with another style, and a run. -/
theorem Tidy.exists_withRun {rt : RichText} (h : Tidy rt) (style : Style) :
    ∃ before cs, EndsOther before style ∧ rt = before.withRun style cs ∧ Tidy before ∧
      ∀ c ∈ cs, Allowed c := by
  obtain hnil | ⟨front, last, hlast⟩ := eq_nil_or_concat rt.runs
  · refine ⟨rt, [], fun r hr => ?_, rfl, h, nofun⟩
    rw [hnil] at hr
    cases hr
  · rw [concat_eq_append] at hlast
    by_cases hstyle : last.style = style
    · have hchain := h.chain
      rw [hlast] at hchain
      obtain ⟨hfront, _, hnext⟩ := isChain_append.mp hchain
      have hmem : last ∈ rt.runs := by
        rw [hlast]
        exact mem_concat_self
      have hkept (r : Run) (hr : r ∈ front) : r ∈ rt.runs := by
        rw [hlast]
        exact mem_append_left _ hr
      refine ⟨⟨front⟩, last.text.toList, fun r hr heq => ?_, ?_,
        ⟨fun r hr => h.nonempty r (hkept r hr), hfront, fun r hr => h.allowed r (hkept r hr)⟩,
        h.allowed last hmem⟩
      · exact hnext r hr last rfl (heq.trans hstyle.symm)
      · have hne : last.text.toList ≠ [] := by
          intro hnil
          exact h.nonempty last hmem (String.toList_inj.mp hnil)
        rw [withRun_of_ne hne, String.ofList_toList, ← hstyle]
        exact congrArg RichText.mk hlast
    · refine ⟨rt, [], fun r hr => ?_, rfl, h, nofun⟩
      rw [hlast, getLast?_concat] at hr
      cases hr
      exact hstyle

/-- A tidy text with a run of another style is tidy. -/
theorem Tidy.withRun {before : RichText} {style : Style} {cs : List Char} (h : Tidy before)
    (hother : EndsOther before style) (hcs : ∀ c ∈ cs, Allowed c) :
    Tidy (before.withRun style cs) := by
  unfold RichText.withRun
  split
  · exact h
  · next hne =>
    refine ⟨?_, ?_, ?_⟩
    · intro r hr
      rcases mem_append.mp hr with hr | hr
      · exact h.nonempty r hr
      · rw [mem_singleton.mp hr]
        exact fun hempty => hne (by simpa using hempty)
    · refine isChain_append.mpr ⟨h.chain, .singleton _, fun r hr r' hr' => ?_⟩
      cases hr'
      exact hother r hr
    · intro r hr
      rcases mem_append.mp hr with hr | hr
      · exact h.allowed r hr
      · rw [mem_singleton.mp hr]
        intro c hc
        rw [String.toList_ofList] at hc
        exact hcs c hc

theorem push_sanitized (rt : RichText) (style : Style) (text : String) :
    rt.push style text = rt.push style (String.ofList (sanitizeText text).toList) := by
  unfold push
  rw [String.ofList_toList, sanitizeText_of_allowed (allowed_sanitizeText text)]

/-- Pushing keeps a text tidy and adds what sanitizing keeps. -/
theorem Tidy.push {rt : RichText} (h : Tidy rt) (style : Style) (text : String) :
    Tidy (rt.push style text) ∧ styled (rt.push style text).runs =
      styled rt.runs ++ styledText style (sanitizeText text).toList := by
  obtain ⟨before, cs, hother, rfl, hbefore, hcs⟩ := h.exists_withRun style
  have hkept := allowed_sanitizeText text
  rw [push_sanitized, push_withRun cs hother hkept]
  refine ⟨hbefore.withRun hother ?_, ?_⟩
  · intro c hc
    exact (mem_append.mp hc).elim (hcs c) (hkept c)
  · rw [styled_withRun, styled_withRun, styledText_append, append_assoc]

theorem Tidy.pushSome {rt : RichText} (h : Tidy rt) (style : Style) (text : String) :
    Tidy (rt.pushSome style text) ∧ styled (rt.pushSome style text).runs =
      styled rt.runs ++ styledText style (sanitizeText text).toList := by
  unfold RichText.pushSome
  split
  · next hempty =>
    rw [String.isEmpty_iff.mp hempty]
    exact ⟨h, (append_nil _).symm⟩
  · exact h.push style text

end RichText

/-! ## The lines of a text -/

open RichText

/-- The lines that have ended and the current one are tidy. -/
def TidyLines (state : List RichText × RichText) : Prop :=
  (∀ line ∈ state.1, Tidy line) ∧ Tidy state.2

/-- The styled characters of the lines that have ended and of the current one. -/
def styledLines (state : List RichText × RichText) : List (List StyledChar) × List StyledChar :=
  (state.1.map fun line => styled line.runs, styled state.2.runs)

/-- Characters without a newline go to the current line. -/
theorem foldl_addChar {chars : List StyledChar} (h : ∀ sc ∈ chars, sc.2 ≠ '\n')
    (state : List (List StyledChar) × List StyledChar) :
    chars.foldl addChar state = (state.1, state.2 ++ chars) := by
  induction chars generalizing state with
  | nil => rw [foldl_nil, append_nil]
  | cons sc chars ih =>
      obtain ⟨hsc, hchars⟩ := forall_mem_cons.mp h
      rw [foldl_cons, ih hchars, addChar, if_neg hsc, append_assoc,
        singleton_append]

/-- The parts of a run go to the lines that its newlines divide. -/
theorem splitParts_spec (style : Style) (lines : List (List Char)) (hne : lines ≠ [])
    (hlines : ∀ line ∈ lines, '\n' ∉ line)
    {state : List RichText × RichText} (h : TidyLines state) :
    TidyLines (splitParts style state (lines.map String.ofList)) ∧
      styledLines (splitParts style state (lines.map String.ofList)) =
        (styledText style (['\n'].intercalate (lines.map (sanitizeChars .text)))).foldl addChar
          (styledLines state) := by
  have hpart (line : List Char) (current : RichText) (hcurrent : Tidy current) :
      Tidy (current.pushSome style (String.ofList line)) ∧
        styled (current.pushSome style (String.ofList line)).runs =
          styled current.runs ++ styledText style (sanitizeChars .text line) := by
    have hpush := hcurrent.pushSome style (String.ofList line)
    rwa [sanitizeText, String.toList_ofList, String.toList_ofList] at hpush
  have hplain (line : List Char) (hline : '\n' ∉ line) :
      ∀ sc ∈ styledText style (sanitizeChars .text line), sc.2 ≠ '\n' := by
    intro sc hsc
    obtain ⟨c, hc, rfl⟩ := mem_map.mp hsc
    rintro rfl
    exact hline ((sanitizeChars_sublist .text line).mem hc)
  induction lines generalizing state with
  | nil => exact absurd rfl hne
  | cons line lines ih =>
      obtain ⟨hline, hrest⟩ := forall_mem_cons.mp hlines
      obtain ⟨ended, current⟩ := state
      obtain ⟨hended, hcurrent⟩ := h
      obtain ⟨htidy, hstyled⟩ := hpart line current hcurrent
      cases lines with
      | nil =>
        rw [map_singleton, map_singleton, intercalate_singleton]
        refine ⟨⟨hended, htidy⟩, ?_⟩
        rw [foldl_addChar (hplain line hline)]
        exact congrArg (Prod.mk _) hstyled
      | cons next lines =>
        rw [map_cons, map_cons, map_cons, map_cons,
          intercalate_cons_cons, styledText_append, styledText_append, foldl_append,
          foldl_append, foldl_addChar (hplain line hline)]
        have hbroken : TidyLines
            (ended ++ [current.pushSome style (String.ofList line)], ⟨[]⟩) := by
          refine ⟨fun l hl => ?_, tidy_nil⟩
          rcases mem_append.mp hl with hl | hl
          · exact hended l hl
          · exact mem_singleton.mp hl ▸ htidy
        have hmore := ih (cons_ne_nil _ _) hrest hbroken
        refine ⟨hmore.1, hmore.2.trans (congrArg₂ _ ?_ rfl)⟩
        unfold styledLines
        rw [map_append, map_singleton, hstyled]
        rfl

/-- What sanitizing keeps of a run, line by line. -/
def keptChars (run : Run) : List Char :=
  ['\n'].intercalate ((run.text.toList.splitOn '\n').map (sanitizeChars .text))

/-- The lines of a text are tidy, and are its logical lines as far as sanitizing keeps them. -/
theorem splitLines_spec (text : RichText) :
    (∀ line ∈ text.splitLines, Tidy line) ∧
      text.splitLines.map (fun line => styled line.runs) =
        logicalLines (text.runs.flatMap fun run => styledText run.style (keptChars run)) := by
  have hfrom : ∀ (runs : List Run) {state : List RichText × RichText}, TidyLines state →
      TidyLines (runs.foldl (fun state run => splitParts run.style state (partsOf run)) state) ∧
        styledLines (runs.foldl
          (fun state run => splitParts run.style state (partsOf run)) state) =
          (runs.flatMap fun run => styledText run.style (keptChars run)).foldl addChar
            (styledLines state) := by
    intro runs
    induction runs with
    | nil => exact fun h => ⟨h, rfl⟩
    | cons run runs ih =>
      intro state h
      have hnewline : ∀ line ∈ run.text.toList.splitOn '\n', '\n' ∉ line :=
        fun line => not_mem_of_mem_splitOn
      have hrun := splitParts_spec run.style _ (splitOn_ne_nil _ _) hnewline h
      obtain ⟨htidy, hstyled⟩ := ih hrun.1
      refine ⟨htidy, hstyled.trans ?_⟩
      rw [flatMap_cons, foldl_append]
      exact congrArg (foldl addChar · _) hrun.2
  have hstart : TidyLines ([], ⟨[]⟩) :=
    ⟨fun _ hline => absurd hline not_mem_nil, tidy_nil⟩
  obtain ⟨htidy, hstyled⟩ := hfrom text.runs hstart
  have hlines := congrArg Prod.fst hstyled
  have hcurrent := congrArg Prod.snd hstyled
  constructor
  · intro line hline
    rcases mem_append.mp hline with hline | hline
    · exact htidy.1 line hline
    · exact mem_singleton.mp hline ▸ htidy.2
  · unfold RichText.splitLines logicalLines
    rw [map_append, map_singleton]
    exact congrArg₂ _ hlines (congrArg (fun line => [line]) hcurrent)

end Omp2.Render
