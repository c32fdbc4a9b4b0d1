import Omp2.Render.Content

/-!
# The sinks agree

The string sink has the characters of all runs, the line sink has them sanitized, and the terminal
sink has them between sequences. Where the runs are allowed, all of them have the same text; with
what a rendering shows this says exactly when nothing is lost on the way to a sink.
-/

namespace Omp2.Render

open List

/-! ## Sequences -/

/-- The character stands inside of a sequence of a style. -/
def isSgrChar (c : Char) : Bool :=
  c.isDigit || c = ';'

/-- What follows a sequence, when its start has been read. -/
def sgrRest : List Char → Option (List Char)
  | [] => none
  | c :: cs => if c = 'm' then some cs else if isSgrChar c then sgrRest cs else none

theorem sgrRest_length {cs rest : List Char} (h : sgrRest cs = some rest) :
    rest.length < cs.length := by
  induction cs with
  | nil => cases h
  | cons c cs ih =>
      unfold sgrRest at h
      split_ifs at h
      · cases h
        exact Nat.lt_succ_self _
      · exact Nat.lt_succ_of_lt (ih h)

/-- A text without its sequences of styles. -/
def stripSgr : List Char → List Char
  | [] => []
  | c :: cs =>
    if c = '\x1b' ∧ cs.head? = some '[' then
      match _h : sgrRest cs.tail with
      | some rest => stripSgr rest
      | none => c :: stripSgr cs
    else c :: stripSgr cs
termination_by cs => cs.length
decreasing_by
  · have hlength := sgrRest_length _h
    rw [List.length_tail] at hlength
    simp only [List.length_cons]
    omega
  · exact Nat.lt_succ_self _
  · exact Nat.lt_succ_self _

theorem sgrRest_body {body : List Char} (h : ∀ c ∈ body, isSgrChar c = true)
    (rest : List Char) : sgrRest (body ++ 'm' :: rest) = some rest := by
  induction body with
  | nil => rfl
  | cons c body ih =>
      obtain ⟨hc, hbody⟩ := forall_mem_cons.mp h
      have hne : c ≠ 'm' := by
        rintro rfl
        exact absurd hc (by decide)
      rw [cons_append, sgrRest, if_neg hne, if_pos hc, ih hbody]

/-- A text that is a sequence of a style. -/
def IsSequence (cs : List Char) : Prop :=
  ∃ body, (∀ c ∈ body, isSgrChar c = true) ∧ cs = '\x1b' :: '[' :: body ++ ['m']

/-- A sequence is taken out. -/
theorem stripSgr_sequence {cs : List Char} (h : IsSequence cs) (rest : List Char) :
    stripSgr (cs ++ rest) = stripSgr rest := by
  obtain ⟨body, hbody, rfl⟩ := h
  have hrest : sgrRest (body ++ ['m'] ++ rest) = some rest := by
    rw [append_assoc]
    exact sgrRest_body hbody rest
  rw [cons_append, cons_append, cons_append, cons_append, stripSgr,
    if_pos ⟨rfl, rfl⟩, tail_cons]
  split
  · next found hfound =>
    rw [hrest] at hfound
    cases hfound
    rfl
  · next hfound =>
    rw [hrest] at hfound
    cases hfound

/-- Text without an escape is left as it is. -/
theorem stripSgr_allowed {cs : List Char} (h : ∀ c ∈ cs, Allowed c) (rest : List Char) :
    stripSgr (cs ++ rest) = cs ++ stripSgr rest := by
  induction cs with
  | nil => rfl
  | cons c cs ih =>
      obtain ⟨hc, hcs⟩ := forall_mem_cons.mp h
      have hne : c ≠ '\x1b' := by
        rintro rfl
        rcases hc with h | h | h | h
        · exact absurd h (by decide)
        · exact absurd h (by decide)
        · exact absurd h (by decide)
        · exact h (by decide)
      rw [cons_append, stripSgr, if_neg fun h => hne h.1, ih hcs, cons_append]

namespace AnsiOutSink

theorem isSgrChar_toString {n : Nat} {c : Char} (h : c ∈ (toString n).toList) :
    isSgrChar c = true := by
  rw [Nat.toString_eq_repr, Nat.toList_repr] at h
  unfold isSgrChar
  rw [Nat.isDigit_of_mem_toDigits (by decide) (by decide) h, Bool.true_or]

/-- The codes of a color are digits and semicolons. -/
theorem isSgrChar_colorCodes {base : Nat} {color : Color} {code : String} {c : Char}
    (hcode : code ∈ colorCodes base color) (h : c ∈ code.toList) : isSgrChar c = true := by
  have hnumber {n : Nat} (hcode : code ∈ [toString n]) : isSgrChar c = true := by
    rw [mem_singleton.mp hcode] at h
    exact isSgrChar_toString h
  have htext : ∀ text ∈ [";2;", ";5;", ";"], c ∈ text.toList → isSgrChar c = true := by
    intro text htext hc
    have hall : ∀ text ∈ [";2;", ";5;", ";"], text.toList.all isSgrChar = true := by
      decide
    exact all_eq_true.mp (hall text htext) c hc
  cases color with
  | semantic color => cases color <;> exact hnumber hcode
  | reset => exact hnumber hcode
  | default => cases hcode
  | rgb r g b =>
      rw [mem_singleton.mp hcode] at h
      simp only [String.toList_append, mem_append] at h
      rcases h with (((((h | h) | h) | h) | h) | h) | h
      · exact isSgrChar_toString h
      · exact htext ";2;" (by decide) h
      · exact isSgrChar_toString h
      · exact htext ";" (by decide) h
      · exact isSgrChar_toString h
      · exact htext ";" (by decide) h
      · exact isSgrChar_toString h
  | ansi256 n =>
      rw [mem_singleton.mp hcode] at h
      simp only [String.toList_append, mem_append] at h
      rcases h with (h | h) | h
      · exact isSgrChar_toString h
      · exact htext ";5;" (by decide) h
      · exact isSgrChar_toString h

/-- The codes of a style are digits and semicolons. -/
theorem isSgrChar_codes {style : Style} {code : String} {c : Char} (hcode : code ∈ codes style)
    (h : c ∈ code.toList) : isSgrChar c = true := by
  have hmodifier {set : Bool} {digit : String} (hdigit : digit.toList.all isSgrChar = true)
      (hcode : code ∈ modifierCode set digit) : isSgrChar c = true := by
    unfold modifierCode at hcode
    split at hcode
    · rw [mem_singleton.mp hcode] at h
      exact all_eq_true.mp hdigit c h
    · cases hcode
  have hcolor {base : Nat} {color : Option Color}
      (hcode : code ∈ (color.map (colorCodes base)).getD []) : isSgrChar c = true := by
    cases color with
    | none => cases hcode
    | some color => exact isSgrChar_colorCodes hcode h
  unfold codes at hcode
  simp only [mem_append] at hcode
  rcases hcode with ((((((hcode | hcode) | hcode) | hcode) | hcode) | hcode) | hcode) | hcode
  · exact hmodifier (by decide) hcode
  · exact hmodifier (by decide) hcode
  · exact hmodifier (by decide) hcode
  · exact hmodifier (by decide) hcode
  · exact hmodifier (by decide) hcode
  · exact hmodifier (by decide) hcode
  · exact hcolor hcode
  · exact hcolor hcode

/-- What is written before a run is a sequence, if it is anything. -/
theorem isSequence_styleToAnsi {style : Style} (h : styleToAnsi style ≠ "") :
    IsSequence (styleToAnsi style).toList := by
  unfold styleToAnsi at h ⊢
  split at h
  · exact absurd rfl h
  · next hcodes =>
    rw [if_neg hcodes]
    refine ⟨(String.intercalate ";" (codes style)).toList, fun c hc => ?_, ?_⟩
    · rw [String.toList_intercalate] at hc
      rcases mem_intercalate_singleton hc with rfl | ⟨part, hpart, hc⟩
      · decide
      · obtain ⟨code, hcode, rfl⟩ := mem_map.mp hpart
        exact isSgrChar_codes hcode hc
    · rw [String.toList_append, String.toList_append]
      rfl

theorem isSequence_reset : IsSequence reset.toList :=
  ⟨['0'], all_eq_true.mp (by decide), by decide⟩

end AnsiOutSink

/-! ## Sinks -/

/-- The characters of a call. -/
def Call.chars : Call → List Char
  | .run r => r.text.toList
  | .lineBreak => ['\n']

/-- The characters of a call, sanitized. -/
def Call.sanitized : Call → List Char
  | .run r => (sanitizeText r.text).toList
  | .lineBreak => ['\n']

/-- The runs of a call are allowed. -/
def Call.Allowed : Call → Prop
  | .run r => AllowedText r.text
  | .lineBreak => True

/-- What a string sink holds after some calls. -/
def stringOutput (calls : List Call) : String :=
  (calls.foldl StringOutSink.take ⟨""⟩).buffer

/-- The lines of a line sink, the last of which is not ended, joined by newlines. -/
def LineBufferSink.joined (sink : LineBufferSink) : List Char :=
  ['\n'].intercalate ((sink.lines ++ [sink.currentLine]).map fun line =>
    Component.runChars line.runs)

/-- What the lines of a line sink are after some calls, joined. -/
def lineOutput (calls : List Call) : List Char :=
  (calls.foldl LineBufferSink.take ⟨[], ⟨[]⟩⟩).joined

/-- The string sink has the characters of the calls. -/
theorem stringOutput_eq (calls : List Call) :
    (stringOutput calls).toList = calls.flatMap Call.chars := by
  have hfrom (sink : StringOutSink) : (calls.foldl StringOutSink.take sink).buffer.toList =
      sink.buffer.toList ++ calls.flatMap Call.chars := by
    induction calls generalizing sink with
    | nil => exact (append_nil _).symm
    | cons call calls ih =>
      rw [foldl_cons, ih, flatMap_cons, ← append_assoc]
      congr 1
      cases call with
      | run r => exact String.toList_append
      | lineBreak => exact String.toList_append
  exact hfrom ⟨""⟩

/-- Text that is pushed comes after the runs, sanitized. -/
theorem runChars_push (rt : RichText) (style : Style) (text : String) :
    Component.runChars (rt.push style text).runs =
      Component.runChars rt.runs ++ (sanitizeText text).toList := by
  have happend (runs : List Run) (run : Run) :
      Component.runChars (runs ++ [run]) = Component.runChars runs ++ run.text.toList := by
    unfold Component.runChars
    rw [flatMap_append, flatMap_singleton]
  unfold RichText.push
  dsimp only
  split
  · next hempty =>
    rw [String.isEmpty_iff.mp hempty]
    exact (append_nil _).symm
  · split
    · next last hlast =>
      split
      · have hruns := dropLast_append_getLast? last hlast
        conv => rhs; rw [← hruns]
        rw [happend, happend, String.toList_append, append_assoc]
      · exact happend _ _
    · exact happend _ _

/-- The last line of joined lines goes on. -/
theorem intercalate_append_last {α : Type} (separator : List α) (parts : List (List α))
    (last more : List α) :
    separator.intercalate (parts ++ [last ++ more]) =
      separator.intercalate (parts ++ [last]) ++ more := by
  induction parts with
  | nil =>
      rw [nil_append, nil_append, intercalate_singleton,
        intercalate_singleton]
  | cons part parts ih =>
      have hlast : ∀ l : List α, parts ++ [l] ≠ [] := fun l => by simp
      rw [cons_append, cons_append, intercalate_cons_of_ne_nil (hlast _),
        intercalate_cons_of_ne_nil (hlast _), ih, ← append_assoc]

/-- A line after joined lines. -/
theorem intercalate_append_new {α : Type} (separator : List α) (parts : List (List α))
    (last : List α) :
    separator.intercalate (parts ++ [last] ++ [[]]) =
      separator.intercalate (parts ++ [last]) ++ separator := by
  induction parts with
  | nil =>
      rw [nil_append, singleton_append, intercalate_cons_cons,
        intercalate_singleton, intercalate_singleton, append_nil]
  | cons part parts ih =>
      have hlast : ∀ (parts : List (List α)) (l : List α), parts ++ [l] ≠ [] :=
        fun parts l => by simp
      rw [cons_append, cons_append, intercalate_cons_of_ne_nil (hlast _ _),
        intercalate_cons_of_ne_nil (hlast _ _), ih, ← append_assoc]

/-- The line sink has the characters of the calls, sanitized. -/
theorem lineOutput_eq (calls : List Call) : lineOutput calls = calls.flatMap Call.sanitized := by
  have hfrom (sink : LineBufferSink) : (calls.foldl LineBufferSink.take sink).joined =
      sink.joined ++ calls.flatMap Call.sanitized := by
    induction calls generalizing sink with
    | nil => exact (append_nil _).symm
    | cons call calls ih =>
      rw [foldl_cons, ih, flatMap_cons, ← append_assoc]
      congr 1
      unfold LineBufferSink.joined
      cases call with
      | run r =>
        rw [map_append, map_append, map_singleton, map_singleton]
        change ['\n'].intercalate (_ ++ [Component.runChars
          (sink.currentLine.push r.style r.text).runs]) = _
        rw [runChars_push, intercalate_append_last]
        rfl
      | lineBreak =>
        have hlines : (sink.take .lineBreak).lines = sink.lines ++ [sink.currentLine] := rfl
        have hcurrent : (sink.take .lineBreak).currentLine = ⟨[]⟩ := rfl
        rw [hlines, hcurrent, map_append, map_append]
        exact intercalate_append_new ['\n'] (sink.lines.map fun line =>
          Component.runChars line.runs) (Component.runChars sink.currentLine.runs)
  exact hfrom ⟨[], ⟨[]⟩⟩

/-- The string sink and the line sink agree exactly when all runs are allowed. -/
theorem lineOutput_eq_iff (calls : List Call) :
    (stringOutput calls).toList = lineOutput calls ↔ ∀ call ∈ calls, call.Allowed := by
  have hsublist (call : Call) : call.sanitized.Sublist call.chars := by
    cases call with
    | run r => exact sanitizeText_sublist r.text
    | lineBreak => exact .refl _
  have hcall (call : Call) : call.sanitized = call.chars ↔ call.Allowed := by
    cases call with
    | run r => exact sanitizeText_eq_iff r.text
    | lineBreak => exact iff_of_true rfl trivial
  rw [stringOutput_eq, lineOutput_eq, eq_comm, flatMap_eq_of_sublists fun call _ => hsublist call]
  exact forall₂_congr fun call _ => hcall call

/-- Without its sequences the output for a terminal is that of the string sink. -/
theorem stripSgr_output {calls : List Call} (h : ∀ call ∈ calls, call.Allowed) :
    stripSgr (ansiOutput calls).toList = (stringOutput calls).toList := by
  have hpieces : stripSgr ((calls.flatMap Call.pieces).flatMap Piece.chars) =
      calls.flatMap Call.chars := by
    induction calls with
    | nil => rw [flatMap_nil, flatMap_nil, stripSgr, flatMap_nil]
    | cons call calls ih =>
      obtain ⟨hcall, hcalls⟩ := forall_mem_cons.mp h
      rw [flatMap_cons, flatMap_append, flatMap_cons, ← ih hcalls]
      cases call with
      | lineBreak =>
        have hnewline : ∀ c ∈ ['\n'], Allowed c := forall_mem_singleton.mpr (.inl rfl)
        exact stripSgr_allowed hnewline _
      | run r =>
        rw [Component.pieces_run]
        split
        · rw [flatMap_singleton]
          exact stripSgr_allowed hcall _
        · next hstyle =>
          rw [flatMap_cons, flatMap_cons, flatMap_singleton,
            append_assoc, append_assoc]
          exact (stripSgr_sequence (AnsiOutSink.isSequence_styleToAnsi hstyle) _).trans
            ((stripSgr_allowed hcall _).trans
              (congrArg _ (stripSgr_sequence AnsiOutSink.isSequence_reset _)))
  rw [stringOutput_eq, ← hpieces]
  unfold ansiOutput
  rw [take_buffer]
  rfl

/-- The three sinks have the same text. -/
structure SinksAgree (calls : List Call) : Prop where
  terminal : stripSgr (ansiOutput calls).toList = (stringOutput calls).toList
  lines : (stringOutput calls).toList = lineOutput calls

theorem sinksAgree_iff (calls : List Call) :
    SinksAgree calls ↔ ∀ call ∈ calls, call.Allowed :=
  ⟨fun h => (lineOutput_eq_iff calls).mp h.lines,
    fun h => ⟨stripSgr_output h, (lineOutput_eq_iff calls).mpr h⟩⟩

namespace Component

/-- The runs of the calls are allowed exactly when those that are written as they are are. -/
theorem allowed_calls_iff (writes : List Write) :
    (∀ call ∈ writes.flatMap Write.calls, call.Allowed) ↔
      AllowedRuns (writes.flatMap richRuns) := by
  have hnone : AllowedRuns [] := fun r hr => absurd hr not_mem_nil
  have hsanitized (style : Style) (text : String) :
      ∀ call ∈ [Call.run (.new style text)], call.Allowed :=
    forall_mem_singleton.mpr (allowed_sanitizeText text)
  have hended : ∀ call ∈ [Call.lineBreak], call.Allowed :=
    forall_mem_singleton.mpr trivial
  have hwrite (w : Write) : (∀ call ∈ w.calls, call.Allowed) ↔ AllowedRuns (richRuns w) := by
    cases w with
    | rich rt => exact forall_mem_map
    | own style part => exact iff_of_true (hsanitized style part) hnone
    | str style text => exact iff_of_true (hsanitized style text) hnone
    | plain text => exact iff_of_true (hsanitized .new text) hnone
    | ownBreak => exact iff_of_true hended hnone
    | lineBreak => exact iff_of_true hended hnone
  unfold AllowedRuns
  rw [forall_mem_flatMap, forall_mem_flatMap]
  exact forall₂_congr fun w _ => hwrite w

/-- A rendering writes the texts of all nodes once and in order, and the sinks agree on it. -/
structure DropsNothing (c : Component) (indent : Nat) : Prop where
  texts : (c.renderToSink indent).flatMap content = c.texts
  sinks : SinksAgree (c.calls indent)

/-- A rendering drops nothing exactly when each text stands where the renderer looks and is
allowed. -/
theorem dropsNothing_iff (c : Component) (indent : Nat) :
    c.DropsNothing indent ↔ c.Complete := by
  rw [← (faithful_renderToSink c indent).shows]
  have hsinks : SinksAgree (c.calls indent) ↔
      AllowedRuns ((c.renderToSink indent).flatMap richRuns) :=
    (sinksAgree_iff _).trans (allowed_calls_iff _)
  exact ⟨fun h => ⟨h.texts, hsinks.mp h.sinks⟩, fun h => ⟨h.1, hsinks.mpr h.2⟩⟩

/-- A link whose label is a child. -/
def linkWithChild : Component :=
  .node .link ⟨[("href", .string "https://example.com")]⟩
    [.node .text ⟨[]⟩ [] (some (.fromPlain "label"))] none

/-- The label is accepted and not written. -/
theorem not_dropsNothing_link : ¬ ∀ (c : Component) (indent : Nat), c.validate = .ok () →
    c.DropsNothing indent := by
  intro h
  have hdrops := h linkWithChild 0 rfl
  exact absurd hdrops.texts (by decide +kernel)

end Component

end Omp2.Render
