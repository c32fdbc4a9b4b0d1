import Omp2.Control.Tokens

/-!
# Literal arguments

The arguments of an alias are joined with blanks and tokenized again. `literalFrom` says which
arguments the tokenizer reads back as they are: the scans keep every character of literal
arguments (`run_literalArgs`), and arguments that are read back from a text all of whose
characters are kept are literal (`literalArgs_of_reads`).
-/

namespace Omp2.Control

open Json List

/-! ## Literal arguments -/

/-- The tokenizer reads the text back as it is: it has no quotation mark, separator, comment or
white space that is not behind a backslash, and no backslash that stands for another character.
`escaped` says that a backslash comes before, `blank` that white space does, and `final` that
nothing follows. -/
def literalFrom (final : Bool) : Bool → Bool → List Char → Bool
  | false, blank, [] => !(final && blank)
  | true, _, [] => final
  | false, blank, c :: cs =>
    if c = '\\' then literalFrom final true false cs
    else c ≠ '"' && !Text.isWhitespace c && c ≠ ';' && c ≠ '#' &&
      !(c = '/' && blank && cs.head? == some '/') && literalFrom final false false cs
  | true, _, c :: cs =>
    c ∉ ['n', 't', 'r', '"', '\\'] && literalFrom final false (Text.isWhitespace c) cs

/-- Every argument is literal; the last one has nothing after it. -/
def literalArgs : List (List Char) → Bool
  | [] => true
  | [arg] => literalFrom true false true arg
  | arg :: args => literalFrom false false true arg && literalArgs args

/-- `[String]::join(" ")` on characters. -/
def joinChars (args : List (List Char)) : List Char :=
  List.intercalate [' '] args

theorem joinChars_cons {arg : List Char} {args : List (List Char)} (h : args ≠ []) :
    joinChars (arg :: args) = arg ++ ' ' :: joinChars args := by
  simp [joinChars, intercalate_cons_of_ne_nil h]

theorem weight_joinChars {args : List (List Char)} (h : args ≠ []) :
    weight args = (joinChars args).length + 1 := by
  induction args with
  | nil => exact absurd rfl h
  | cons arg args ih =>
      by_cases hargs : args = []
      · subst hargs
        simp [joinChars]
      · rw [joinChars_cons hargs, weight_cons, ih hargs]
        simp
        omega

theorem joinChars_ne_nil {args : List (List Char)} (hargs : args ≠ [])
    (hfull : ∀ arg ∈ args, arg ≠ []) : joinChars args ≠ [] := by
  intro hempty
  have hweight := weight_joinChars hargs
  obtain ⟨arg, more, rfl⟩ := exists_cons_of_ne_nil hargs
  have := length_pos_iff.mpr (hfull arg mem_cons_self)
  rw [hempty, weight_cons, length_nil] at hweight
  omega

/-! ## What follows a statement -/

namespace SplitState

/-- All characters of a text are kept for the current statement. -/
def Keeps : SplitState → List Char → Prop
  | _, [] => True
  | st, c :: cs =>
    (st.next c cs.head?).statements = st.statements ∧
      (st.next c cs.head?).current = st.current ++ [c] ∧ (st.next c cs.head?).Keeps cs

/-- One statement more than before is the one that is cut out first. -/
theorem finish_eq_append {st st' : SplitState} {cs : List Char} {x : List Char}
    (hstatements : st'.statements = st.statements ++ st.ended) (hended : st.ended ≠ [])
    (h : (st'.run cs).finish = st.statements ++ [x]) : x = Text.trimChars st.current := by
  have hone : st.ended = [Text.trimChars st.current] := by
    unfold ended at hended ⊢
    split at hended
    · exact absurd rfl hended
    · next hnot => rw [if_neg hnot]
  have hmore : st.statements ++ [Text.trimChars st.current] <+: st.statements ++ [x] := by
    rw [← h, ← hone, ← hstatements]
    exact (st'.statements_run cs).trans (prefix_append _ _)
  have hx : [Text.trimChars st.current] <+: [x] := (prefix_append_right_inj _).mp hmore
  have heq := (prefix_iff_eq_take.mp hx)
  simpa using heq.symm

theorem volume_blank {st : SplitState} (h : st.ended = []) :
    (TokenState.start.run st.current).volume = 0 := by
  have htrim : Text.trimChars st.current = [] := by
    unfold ended at h
    split at h
    · next hempty => exact isEmpty_iff.mp hempty
    · cases h
  rw [TokenState.run_blank (isWhitespace_of_trimChars_nil htrim)]
  rfl

theorem volume_cut {st st' : SplitState} (hended : st.ended = [])
    (h : st'.current = [] ∨ st.ended = [] ∧ st'.current = st.current) :
    (TokenState.start.run st'.current).volume = 0 := by
  rcases h with hnil | ⟨_, hsame⟩
  · rw [hnil]
    rfl
  · rw [hsame, volume_blank hended]

/-- The statement that a text completes weighs at most what was there and the text. -/
theorem weight_completed {st : SplitState} {cs : List Char} {x : List Char}
    {tokens : List (List Char)} (h : (st.run cs).finish = st.statements ++ [x])
    (hx : tokenizeChars x = some tokens) :
    weight tokens ≤ (TokenState.start.run st.current).volume + cs.length + 1 := by
  induction cs generalizing st with
  | nil =>
      have hended : st.ended = [x] := append_cancel_left h
      unfold ended at hended
      split at hended
      · cases hended
      · cases hended
        have := weight_tokenize_trimChars hx
        simpa using this
  | cons c cs ih =>
      have hrun : ((st.next c cs.head?).run cs).finish = st.statements ++ [x] := h
      simp only [length_cons]
      rcases st.next_cases c cs.head? with
        ⟨hsame, hcurrent, _⟩ | ⟨hsame, hcurrent, _⟩ | ⟨hmore, hcut⟩
      · have hrest := ih (hsame ▸ hrun)
        have hnext := ((TokenState.start.run st.current).volume_next c).2
        rw [hcurrent, TokenState.run_append] at hrest
        have hone : ((TokenState.start.run st.current).run [c]) =
            (TokenState.start.run st.current).next c := rfl
        rw [hone] at hrest
        omega
      · have hrest := ih (hsame ▸ hrun)
        rw [hcurrent] at hrest
        omega
      · by_cases hended : st.ended = []
        · rw [hended, append_nil] at hmore
          have hrest := ih (hmore ▸ hrun)
          have hvolume := volume_cut hended hcut
          omega
        · cases finish_eq_append hmore hended hrun
          have := weight_tokenize_trimChars hx
          omega

/-- In a comment the text before the next line is lost. -/
theorem weight_completed_comment {st : SplitState} {cs : List Char} {x : List Char}
    {tokens : List (List Char)} (hmode : st.mode = .comment) (hblank : st.ended = [])
    (h : (st.run cs).finish = st.statements ++ [x]) (hx : tokenizeChars x = some tokens) :
    weight tokens ≤ cs.length := by
  induction cs generalizing st with
  | nil =>
      have hended : st.ended = [x] := append_cancel_left h
      rw [hblank] at hended
      cases hended
  | cons c cs ih =>
      have hrun : ((st.next c cs.head?).run cs).finish = st.statements ++ [x] := h
      by_cases hline : c = '\n'
      · have hnext : st.next c cs.head? = { st with mode := .plain } := by
          simp [next, hmode, hline]
        rw [hnext] at hrun
        have hweight := @weight_completed { st with mode := .plain } cs x tokens hrun hx
        have hvolume := volume_blank hblank
        simp only [length_cons]
        simp only at hweight
        omega
      · have hnext : st.next c cs.head? = st := by simp [next, hmode, hline]
        rw [hnext] at hrun
        have := ih hmode hblank hrun
        simp only [length_cons]
        omega

/-- A text completes the current statement, or makes one of its own end. -/
theorem completed_cases {st : SplitState} {cs : List Char} {x : List Char}
    (hmode : st.mode ≠ .comment) (h : (st.run cs).finish = st.statements ++ [x]) :
    (∃ piece, piece <+: cs ∧ x = Text.trimChars (st.current ++ piece) ∧
      (piece = cs → st.Keeps cs)) ∨
      ∀ tokens, tokenizeChars x = some tokens → weight tokens ≤ cs.length := by
  induction cs generalizing st with
  | nil =>
      have hended : st.ended = [x] := append_cancel_left h
      unfold ended at hended
      split at hended
      · cases hended
      · cases hended
        exact .inl ⟨[], prefix_rfl, by simp, fun _ => trivial⟩
  | cons c cs ih =>
      have hrun : ((st.next c cs.head?).run cs).finish = st.statements ++ [x] := h
      rcases st.next_cases c cs.head? with
        ⟨hsame, hcurrent, hplain⟩ | ⟨_, _, hcomment⟩ | ⟨hmore, hcut⟩
      · rcases ih hplain (hsame ▸ hrun) with ⟨piece, hpiece, hx, hkeeps⟩ | hsmall
        · refine .inl ⟨c :: piece, cons_prefix_cons.mpr ⟨rfl, hpiece⟩, ?_, fun heq => ?_⟩
          · rw [hx, hcurrent, append_assoc, singleton_append]
          · exact ⟨hsame, hcurrent, hkeeps (cons.inj heq).2⟩
        · refine .inr fun tokens hx => ?_
          have := hsmall tokens hx
          simp only [length_cons]
          omega
      · exact absurd hcomment hmode
      · by_cases hended : st.ended = []
        · refine .inr fun tokens hx => ?_
          rw [hended, append_nil] at hmore
          have hweight := weight_completed (hmore ▸ hrun) hx
          have hvolume := volume_cut hended hcut
          simp only [length_cons]
          omega
        · refine .inl ⟨[], nil_prefix, ?_, fun heq => by cases heq⟩
          rw [finish_eq_append hmore hended hrun, append_nil]

theorem startsWord_push (st : SplitState) (c : Char) :
    (st.push c).startsWord = Text.isWhitespace c := by
  simp [startsWord, push]

/-- A character that is kept outside quotations is just added. -/
theorem next_of_kept {st : SplitState} {c : Char} {peek : Option Char} (hmode : st.mode = .plain)
    (hquotes : st.inQuotes = false) (hc : c ≠ '\\') (hquote : c ≠ '"')
    (h : (st.next c peek).current = st.current ++ [c]) :
    st.next c peek = st.push c ∧ c ≠ ';' ∧ c ≠ '#' ∧
      ¬ (c = '/' ∧ peek = some '/' ∧ st.startsWord = true) := by
  have hcomment : st.comment.current ≠ st.current ++ [c] := by
    unfold comment
    split <;> simp
  unfold next at h ⊢
  simp only [hmode, hc, hquote, hquotes, if_false, Bool.false_eq_true] at h ⊢
  split at h
  · exact absurd h hcomment
  · next hslash =>
    split at h
    · exact absurd h hcomment
    · next hhash =>
      split at h
      · simp [close] at h
      · next hseparator =>
        rw [if_neg hslash, if_neg hhash, if_neg hseparator]
        exact ⟨rfl, fun heq => hseparator (.inl heq), hhash, hslash⟩

/-- Literal characters are kept. -/
theorem run_literal {final : Bool} {cs : List Char} {escaped blank : Bool} {st : SplitState}
    (h : literalFrom final escaped blank cs = true) (hquotes : st.inQuotes = false)
    (hmode : st.mode = if escaped then .escaped else .plain)
    (hblank : escaped = false → st.startsWord = blank) :
    (st.run cs).statements = st.statements ∧ (st.run cs).current = st.current ++ cs ∧
      (st.run cs).inQuotes = false ∧ (final = false → (st.run cs).mode = .plain) := by
  induction cs generalizing escaped blank st with
  | nil =>
      refine ⟨rfl, (append_nil _).symm, hquotes, fun hfinal => ?_⟩
      cases escaped with
      | false => exact hmode
      | true =>
        rw [literalFrom, hfinal] at h
        cases h
  | cons c cs ih =>
      have hstep : ∀ (st' : SplitState) (escaped' blank' : Bool),
          st.next c cs.head? = st' → st'.statements = st.statements →
          st'.current = st.current ++ [c] → literalFrom final escaped' blank' cs = true →
          st'.inQuotes = false → st'.mode = (if escaped' then .escaped else .plain) →
          (escaped' = false → st'.startsWord = blank') →
          (st.run (c :: cs)).statements = st.statements ∧
            (st.run (c :: cs)).current = st.current ++ c :: cs ∧
            (st.run (c :: cs)).inQuotes = false ∧
            (final = false → (st.run (c :: cs)).mode = .plain) := by
        intro st' escaped' blank' hnext hstatements hcurrent hliteral hquotes' hmode' hblank'
        have hrest := ih hliteral hquotes' hmode' hblank'
        rw [hstatements, hcurrent, append_assoc, singleton_append] at hrest
        show ((st.next c cs.head?).run cs).statements = _ ∧ _
        rw [hnext]
        exact ⟨hrest.1, by rw [run, hnext]; exact hrest.2.1, by rw [run, hnext]; exact hrest.2.2.1,
          fun hfinal => by rw [run, hnext]; exact hrest.2.2.2 hfinal⟩
      cases escaped with
      | true =>
        simp only [literalFrom, Bool.and_eq_true] at h
        refine hstep { st.push c with mode := .plain } false (Text.isWhitespace c) ?_ rfl rfl h.2
          hquotes rfl (fun _ => st.startsWord_push c)
        simp [next, hmode]
      | false =>
        have hplain : st.mode = .plain := hmode
        unfold literalFrom at h
        split at h
        · next hc =>
          refine hstep { st.push c with mode := .escaped } true false ?_ rfl rfl h hquotes rfl
            (fun hfalse => by cases hfalse)
          simp [next, hplain, hc]
        · next hc =>
          simp only [Bool.and_eq_true, decide_eq_true_eq, Bool.not_eq_true', ne_eq] at h
          obtain ⟨⟨⟨⟨⟨hquote, hwhite⟩, hsemi⟩, hhash⟩, hslash⟩, hrest⟩ := h
          refine hstep (st.push c) false false ?_ rfl rfl hrest hquotes hplain
            (fun _ => by rw [startsWord_push, hwhite])
          have hline : c ≠ '\n' ∧ c ≠ '\r' := by
            constructor <;> (rintro rfl; revert hwhite; decide)
          have hword : ¬ (c = '/' ∧ cs.head? = some '/' ∧ st.startsWord = true) := by
            rintro ⟨rfl, hpeek, hstarts⟩
            rw [hblank rfl] at hstarts
            simp [hpeek, hstarts] at hslash
          simp [next, hplain, hc, hquote, hquotes, hhash, hsemi, hline.1, hline.2, hword]

end SplitState

namespace TokenState

/-- A state in which the token has begun and no quotation is open. -/
def within (tokens : List (List Char)) (current : List Char) (escaped : Bool) : TokenState :=
  ⟨tokens, current, false, escaped⟩

/-- A backslash that waits for its character. -/
def pending (escaped : Bool) : List Char :=
  if escaped then ['\\'] else []

/-- Literal characters are read as they are. -/
theorem run_literal {final : Bool} {cs : List Char} {escaped blank : Bool}
    (h : literalFrom final escaped blank cs = true) (tokens : List (List Char))
    (current : List Char) :
    ((within tokens current escaped).run cs).settle =
        within tokens (current ++ pending escaped ++ cs) false ∧
      (final = false → (within tokens current escaped).run cs =
        within tokens (current ++ pending escaped ++ cs) false) := by
  induction cs generalizing escaped blank current with
  | nil =>
      cases escaped with
      | false => simp [run, within, pending, settle]
      | true =>
        refine ⟨by simp [run, within, pending, settle, push], fun hfinal => ?_⟩
        rw [literalFrom, hfinal] at h
        cases h
  | cons c cs ih =>
      cases escaped with
      | true =>
        simp only [literalFrom, Bool.and_eq_true, decide_eq_true_eq, mem_cons,
          not_mem_nil, or_false, not_or] at h
        obtain ⟨⟨hn, ht, hr, hquote, hbackslash⟩, hrest⟩ := h
        have hnext : (within tokens current true).next c =
            within tokens (current ++ ['\\', c]) false := by
          simp [next, within, push, unescape, hn, ht, hr, hquote, hbackslash]
        have hall := ih hrest (current ++ ['\\', c])
        show (((within tokens current true).next c).run cs).settle = _ ∧
          (final = false → ((within tokens current true).next c).run cs = _)
        rw [hnext]
        simpa [pending] using hall
      | false =>
        unfold literalFrom at h
        split at h
        · next hc =>
          have hnext : (within tokens current false).next c = within tokens current true := by
            simp [next, within, hc]
          have hall := ih h current
          show (((within tokens current false).next c).run cs).settle = _ ∧
            (final = false → ((within tokens current false).next c).run cs = _)
          rw [hnext]
          simpa [pending, hc] using hall
        · next hc =>
          simp only [Bool.and_eq_true, decide_eq_true_eq, Bool.not_eq_true', ne_eq] at h
          obtain ⟨⟨⟨⟨⟨hquote, hwhite⟩, _⟩, _⟩, _⟩, hrest⟩ := h
          have hnext : (within tokens current false).next c =
              within tokens (current ++ [c]) false := by
            simp [next, within, push, hc, hquote, hwhite]
          have hall := ih hrest (current ++ [c])
          show (((within tokens current false).next c).run cs).settle = _ ∧
            (final = false → ((within tokens current false).next c).run cs = _)
          rw [hnext]
          simpa [pending] using hall

end TokenState

/-- A backslash at the end of a text would take the blank that follows into its token. -/
theorem TokenState.escaped_of_read {t : TokenState} {tokens args : List (List Char)}
    {more : List Char} (hfinish : t.finish = some tokens)
    (hread : ((t.next ' ').run more).finish = some (tokens ++ args)) : t.escaped = false := by
  by_contra hescaped
  simp only [Bool.not_eq_false] at hescaped
  have htokens : tokens = t.tokens ++ [t.current ++ ['\\']] := by
    unfold finish at hfinish
    split at hfinish
    · cases hfinish
    · cases hfinish
      simp [settle, push, ended, hescaped]
  have hnext : t.next ' ' = { t.push ['\\', ' '] with escaped := false } := by
    simp [next, hescaped, unescape]
  rw [hnext] at hread
  obtain ⟨token, htoken, hprefix⟩ := current_finish (by simp [push]) hread
  rw [htokens, append_assoc] at htoken
  obtain ⟨rfl, _⟩ := cons_prefix_cons.mp ((prefix_append_right_inj _).mp htoken)
  have := hprefix.length_le
  simp [push] at this

/-! ## Arguments that arrive -/

open TokenState (within pending)

/-- An argument that the tokenizer reads back in a kept text is literal. -/
theorem literal_of_reads {rest : List Char} {tokens args : List (List Char)}
    (hrest : rest = [] ∨ rest.head? = some ' ') (hweight : weight args = rest.length)
    {arg : List Char} {escaped blank : Bool} {current : List Char} {st : SplitState}
    (hquotes : st.inQuotes = false) (hmode : st.mode = if escaped then .escaped else .plain)
    (hblank : escaped = false → st.startsWord = blank) (hcurrent : st.current ≠ [])
    (hkeeps : st.Keeps (arg ++ rest))
    (hlast : rest = [] → ∀ c ∈ (st.current ++ arg).getLast?, Text.isWhitespace c = false)
    (hreads : ((within tokens current escaped).run (arg ++ rest)).finish =
      some (tokens ++ (current ++ pending escaped ++ arg) :: args)) :
    literalFrom rest.isEmpty escaped blank arg = true := by
  induction arg generalizing escaped blank current st with
  | nil =>
      cases escaped with
      | false =>
        rw [literalFrom]
        by_cases hnil : rest = []
        · -- the last character of the whole text is no white space
          have hstarts := hblank rfl
          obtain ⟨c, hc⟩ := Option.isSome_iff_exists.mp (getLast?_isSome.mpr hcurrent)
          have hwhite := hlast hnil c (by rw [append_nil]; exact hc)
          simp only [SplitState.startsWord, hc, hwhite] at hstarts
          simp [← hstarts]
        · simp [hnil]
      | true =>
        rw [literalFrom]
        rcases hrest with rfl | hhead
        · rfl
        · -- the backslash would take the blank into the token
          obtain ⟨more, rfl⟩ := head?_eq_some_iff.mp hhead
          have hfinish : (within tokens current true).finish =
              some (tokens ++ [current ++ ['\\']]) := by
            simp [within, TokenState.finish, TokenState.settle, TokenState.push, TokenState.ended]
          have hread := hreads
          rw [nil_append, append_nil, append_cons] at hread
          cases TokenState.escaped_of_read hfinish hread
  | cons c cs ih =>
      rw [cons_append] at hkeeps
      obtain ⟨hsame, hkept, hmore⟩ := hkeeps
      have hrun : (((within tokens current escaped).next c).run (cs ++ rest)).finish =
          some (tokens ++ (current ++ pending escaped ++ c :: cs) :: args) := hreads
      have hlast' : rest = [] → ∀ d ∈ ((st.current ++ [c]) ++ cs).getLast?,
          Text.isWhitespace d = false := by
        rw [append_assoc, singleton_append]
        exact hlast
      -- a step that adds too little cannot yield the tokens
      have hheavy : ∀ t : TokenState, (within tokens current escaped).next c = t →
          t.volume + 1 ≤ weight tokens + (current ++ pending escaped).length + 1 → False := by
        intro t ht hvolume
        rw [ht] at hrun
        have hfinish := TokenState.weight_finish hrun
        have hscan := t.volume_run_le (cs ++ rest)
        simp only [weight_append, weight_cons, length_append, length_cons] at *
        omega
      cases escaped with
      | true =>
        have hstep : (st.next c (cs ++ rest).head?) = { st.push c with mode := .plain } := by
          simp [SplitState.next, hmode]
        rw [hstep] at hmore
        have hplain : c ∉ ['n', 't', 'r', '"', '\\'] := by
          intro hc
          have hlength := TokenState.length_unescape c
          rw [if_pos hc] at hlength
          refine hheavy _ rfl ?_
          simp [TokenState.next, within, TokenState.push, TokenState.volume, pending, hlength]
        have hnext : (within tokens current true).next c =
            within tokens (current ++ ['\\', c]) false := by
          have hunescape : TokenState.unescape c = ['\\', c] := by
            simp only [mem_cons, not_mem_nil, or_false, not_or] at hplain
            simp [TokenState.unescape, hplain]
          simp [TokenState.next, within, TokenState.push, hunescape]
        rw [literalFrom, decide_eq_true hplain, Bool.true_and]
        refine @ih false _ (current ++ ['\\', c]) { st.push c with mode := .plain } hquotes rfl
          (fun _ => st.startsWord_push c) (by simp [SplitState.push]) hmore hlast' ?_
        rw [← hnext, hrun]
        simp [pending]
      | false =>
        have hplain : st.mode = .plain := hmode
        rw [literalFrom]
        split
        · next hc =>
          have hstep : st.next c (cs ++ rest).head? =
              { st.push c with mode := .escaped } := by
            simp [SplitState.next, hplain, hc]
          have hnext : (within tokens current false).next c = within tokens current true := by
            simp [TokenState.next, within, hc]
          rw [hstep] at hmore
          refine @ih true false current { st.push c with mode := .escaped } hquotes rfl
            (fun h => by cases h) (by simp [SplitState.push]) hmore hlast' ?_
          rw [← hnext, hrun]
          simp [pending, hc]
        · next hc =>
          have hquote : c ≠ '"' := by
            intro hquote
            refine hheavy _ rfl ?_
            simp [TokenState.next, within, hquote, TokenState.volume, pending]
          have hwhite : Text.isWhitespace c = false := by
            by_contra hwhite
            simp only [Bool.not_eq_false] at hwhite
            have hnext : (within tokens current false).next c =
                within (tokens ++ (within tokens current false).ended) [] false := by
              simp [TokenState.next, within, hc, hquote, hwhite]
            by_cases hbegun : current = []
            · refine hheavy _ hnext ?_
              simp [within, TokenState.ended, TokenState.volume, hbegun]
            · -- the white space would end the token
              rw [hnext] at hrun
              have hended : (within tokens current false).ended = [current] := by
                simp [within, TokenState.ended, hbegun]
              rw [hended] at hrun
              have hfirst := (TokenState.tokens_run _ _).trans (TokenState.tokens_finish hrun)
              have hone : [current] <+: (current ++ pending false ++ c :: cs) :: args :=
                (prefix_append_right_inj _).mp hfirst
              obtain ⟨heq, _⟩ := cons_prefix_cons.mp hone
              have := congrArg length heq
              simp [pending] at this
          obtain ⟨hstep, hsemi, hhash, hslash⟩ :=
            SplitState.next_of_kept hplain hquotes hc hquote hkept
          have hnext : (within tokens current false).next c =
              within tokens (current ++ [c]) false := by
            simp [TokenState.next, within, TokenState.push, hc, hquote, hwhite]
          rw [hstep] at hmore
          have hliteral : literalFrom rest.isEmpty false false cs = true := by
            refine @ih false false (current ++ [c]) (st.push c) hquotes hplain
              (fun _ => by rw [SplitState.startsWord_push, hwhite])
              (by simp [SplitState.push]) hmore hlast' ?_
            rw [← hnext, hrun]
            simp [pending]
          have hcomment : (c = '/' && blank && cs.head? == some '/') = false := by
            by_contra hcomment
            simp only [Bool.not_eq_false, Bool.and_eq_true, decide_eq_true_eq,
              beq_iff_eq] at hcomment
            obtain ⟨⟨hc', hstarts⟩, hpeek⟩ := hcomment
            refine hslash ⟨hc', ?_, by rw [hblank rfl, hstarts]⟩
            rw [head?_append, hpeek]
            rfl
          simp [hquote, hwhite, hsemi, hhash, hcomment, hliteral]

/-- The rest of a text is kept too. -/
theorem SplitState.keeps_append {st : SplitState} {cs more : List Char}
    (hhead : more.head? ≠ some '/') (h : st.Keeps (cs ++ more)) : (st.run cs).Keeps more := by
  induction cs generalizing st with
  | nil => exact h
  | cons c cs ih =>
      have hpeek : st.next c (cs ++ more).head? = st.next c cs.head? := by
        cases cs with
        | nil => exact st.next_peek c hhead (by simp)
        | cons d cs => rfl
      rw [cons_append] at h
      rw [Keeps, hpeek] at h
      exact ih h.2.2

theorem SplitState.next_blank {st : SplitState} (hmode : st.mode = .plain)
    (hquotes : st.inQuotes = false) (peek : Option Char) :
    st.next ' ' peek = st.push ' ' ∧ (st.push ' ').startsWord = true := by
  refine ⟨by simp [next, hmode, hquotes], ?_⟩
  rw [startsWord_push, isWhitespace_blank]

theorem TokenState.next_blank (tokens : List (List Char)) (current : List Char) :
    (within tokens current false).next ' ' =
      within (tokens ++ (within tokens current false).ended) [] false := by
  simp [next, within]

/-- Arguments that the tokenizer reads back in a kept text are literal. -/
theorem literalArgs_of_reads {args tokens : List (List Char)} {st : SplitState} (hargs : args ≠ [])
    (hfull : ∀ arg ∈ args, arg ≠ []) (hquotes : st.inQuotes = false) (hmode : st.mode = .plain)
    (hstarts : st.startsWord = true) (hcurrent : st.current ≠ [])
    (hkeeps : st.Keeps (joinChars args))
    (hlast : ∀ c ∈ (st.current ++ joinChars args).getLast?, Text.isWhitespace c = false)
    (hreads : ((within tokens [] false).run (joinChars args)).finish = some (tokens ++ args)) :
    literalArgs args = true := by
  induction args generalizing tokens st with
  | nil => exact absurd rfl hargs
  | cons arg args ih =>
      have hfirst : ∀ rest, joinChars (arg :: args) = arg ++ rest →
          (rest = [] ∨ rest.head? = some ' ') → weight args = rest.length →
          literalFrom rest.isEmpty false true arg = true := by
        intro rest hjoin hhead hweight
        rw [hjoin] at hkeeps hlast hreads
        have hread : ((within tokens [] false).run (arg ++ rest)).finish =
            some (tokens ++ ([] ++ pending false ++ arg) :: args) := by
          rw [hreads]
          simp [pending]
        refine literal_of_reads hhead hweight hquotes hmode (fun _ => hstarts) hcurrent hkeeps ?_
          hread
        rintro rfl
        rwa [append_nil] at hlast
      by_cases hnil : args = []
      · subst hnil
        rw [literalArgs]
        exact hfirst [] (by simp [joinChars]) (.inl rfl) rfl
      · have hjoin := @joinChars_cons arg args hnil
        have hliteral : literalFrom false false true arg = true :=
          hfirst (' ' :: joinChars args) hjoin (.inr rfl) (by
            rw [weight_joinChars hnil, length_cons])
        -- the scans reach the next argument in the same kind of state
        obtain ⟨_, hkept, hquotes', hplain⟩ :=
          SplitState.run_literal hliteral hquotes (by exact hmode) (fun _ => hstarts)
        have hmode' := hplain rfl
        rw [hjoin] at hkeeps hlast hreads
        have hkeeps' := SplitState.keeps_append (by simp) hkeeps
        obtain ⟨hblank, hstarts'⟩ := SplitState.next_blank hmode' hquotes' (joinChars args).head?
        rw [SplitState.Keeps, hblank] at hkeeps'
        have htokens := (TokenState.run_literal hliteral tokens []).2 rfl
        have hended : (within tokens arg false).ended = [arg] := by
          simp [within, TokenState.ended, hfull arg mem_cons_self]
        rw [TokenState.run_append, htokens] at hreads
        have hnext : (within tokens ([] ++ pending false ++ arg) false).run
            (' ' :: joinChars args) =
            (within (tokens ++ [arg]) [] false).run (joinChars args) := by
          show ((within tokens ([] ++ pending false ++ arg) false).next ' ').run _ = _
          rw [TokenState.next_blank]
          simp [pending, hended]
        rw [hnext] at hreads
        have hrest : literalArgs args = true := by
          refine @ih (tokens ++ [arg]) ((st.run arg).push ' ') hnil
            (fun a ha => hfull a (mem_cons_of_mem _ ha)) hquotes' hmode' hstarts'
            (by simp [SplitState.push]) hkeeps'.2.2 ?_ ?_
          · rw [SplitState.push, hkept]
            simpa using hlast
          · rw [hreads]
            simp
        obtain ⟨second, more, rfl⟩ := exists_cons_of_ne_nil hnil
        rw [literalArgs, hliteral, hrest]
        · rfl
        · simp

/-- A last argument that is literal does not end in white space. -/
theorem literalFrom_getLast {escaped blank : Bool} {cs : List Char} (hne : cs ≠ [])
    (h : literalFrom true escaped blank cs = true) :
    ∀ c ∈ cs.getLast?, Text.isWhitespace c = false := by
  induction cs generalizing escaped blank with
  | nil => exact absurd rfl hne
  | cons c cs ih =>
      have hrest : ∀ escaped' blank', literalFrom true escaped' blank' cs = true →
          (cs = [] → Text.isWhitespace c = false) →
          ∀ d ∈ (c :: cs).getLast?, Text.isWhitespace d = false := by
        intro escaped' blank' hliteral hone d hd
        cases cs with
        | nil =>
          cases hd
          exact hone rfl
        | cons e es => exact ih (by simp) hliteral d hd
      cases escaped with
      | true =>
        simp only [literalFrom, Bool.and_eq_true] at h
        refine hrest false _ h.2 ?_
        rintro rfl
        simpa [literalFrom] using h.2
      | false =>
        unfold literalFrom at h
        split at h
        · next hc => exact hrest true false h (fun _ => hc ▸ isWhitespace_backslash)
        · next hc =>
          simp only [Bool.and_eq_true, decide_eq_true_eq, Bool.not_eq_true', ne_eq] at h
          exact hrest false false h.2 (fun _ => h.1.1.1.1.2)

/-- Literal arguments are kept for the statement and read back. -/
theorem run_literalArgs {args tokens : List (List Char)} {st : SplitState} (hargs : args ≠ [])
    (hfull : ∀ arg ∈ args, arg ≠ []) (hliteral : literalArgs args = true)
    (hquotes : st.inQuotes = false) (hmode : st.mode = .plain) (hstarts : st.startsWord = true) :
    (st.run (joinChars args)).statements = st.statements ∧
      (st.run (joinChars args)).current = st.current ++ joinChars args ∧
      ((within tokens [] false).run (joinChars args)).finish = some (tokens ++ args) ∧
      ∀ c ∈ (joinChars args).getLast?, Text.isWhitespace c = false := by
  induction args generalizing tokens st with
  | nil => exact absurd rfl hargs
  | cons arg args ih =>
      have harg := hfull arg mem_cons_self
      by_cases hnil : args = []
      · subst hnil
        rw [literalArgs] at hliteral
        have hsplit := SplitState.run_literal hliteral hquotes (by exact hmode) (fun _ => hstarts)
        have hsettle := (TokenState.run_literal hliteral tokens []).1
        have hjoin : joinChars [arg] = arg := by simp [joinChars]
        rw [hjoin]
        refine ⟨hsplit.1, hsplit.2.1, ?_, literalFrom_getLast harg hliteral⟩
        have hopen : ((within tokens [] false).run arg).inQuotes = false := by
          have hquotes := congrArg TokenState.inQuotes hsettle
          unfold TokenState.settle at hquotes
          split at hquotes
          · exact hquotes
          · exact hquotes
        rw [TokenState.finish, hopen, hsettle]
        simp [within, TokenState.ended, pending, harg]
      · obtain ⟨second, more, heq⟩ := exists_cons_of_ne_nil hnil
        have hboth : literalFrom false false true arg = true ∧ literalArgs args = true := by
          subst heq
          simpa [literalArgs] using hliteral
        have hsplit := SplitState.run_literal hboth.1 hquotes (by exact hmode) (fun _ => hstarts)
        have hplain := hsplit.2.2.2 rfl
        obtain ⟨hblank, hstarts'⟩ :=
          SplitState.next_blank hplain hsplit.2.2.1 (joinChars args).head?
        have hrest := @ih (tokens ++ [arg]) ((st.run arg).push ' ') hnil
          (fun a ha => hfull a (mem_cons_of_mem _ ha)) hboth.2 hsplit.2.2.1 hplain hstarts'
        have hrun : st.run (joinChars (arg :: args)) =
            ((st.run arg).push ' ').run (joinChars args) := by
          rw [joinChars_cons hnil, SplitState.run_append _ _ (by simp), SplitState.run, hblank]
        have htokens : (within tokens [] false).run (joinChars (arg :: args)) =
            (within (tokens ++ [arg]) [] false).run (joinChars args) := by
          have hended : (within tokens arg false).ended = [arg] := by
            simp [within, TokenState.ended, harg]
          rw [joinChars_cons hnil, TokenState.run_append,
            (TokenState.run_literal hboth.1 tokens []).2 rfl]
          show ((within tokens ([] ++ pending false ++ arg) false).next ' ').run _ = _
          rw [TokenState.next_blank]
          simp [pending, hended]
        have hne := joinChars_ne_nil hnil fun a ha => hfull a (mem_cons_of_mem _ ha)
        rw [hrun, htokens]
        refine ⟨hrest.1.trans hsplit.1, ?_, ?_, ?_⟩
        · rw [hrest.2.1, SplitState.push, hsplit.2.1, joinChars_cons hnil]
          simp
        · rw [hrest.2.2.1]
          simp
        · rw [joinChars_cons hnil]
          intro c hc
          refine hrest.2.2.2 c ?_
          obtain ⟨d, ds, hcons⟩ := exists_cons_of_ne_nil hne
          rw [hcons] at hc ⊢
          simpa [getLast?_append] using hc

/-! ## Text after trimming -/

/-- A text that does not end in white space has the tokens of the trimmed text. -/
theorem tokenize_trimChars_of_last {cs : List Char}
    (h : ∀ c ∈ cs.getLast?, Text.isWhitespace c = false) :
    tokenizeChars (Text.trimChars cs) = tokenizeChars cs := by
  obtain ⟨front, back, heq, hfront, hback⟩ := trimChars_decomposition cs
  have hnil : back = [] := by
    by_contra hne
    obtain ⟨c, hc⟩ := Option.isSome_iff_exists.mp (getLast?_isSome.mpr hne)
    have hlast := h c (by rw [heq, getLast?_append, hc]; rfl)
    rw [hback c (mem_of_getLast? hc)] at hlast
    cases hlast
  rw [hnil, append_nil] at heq
  conv_rhs => rw [heq]
  rw [tokenizeChars, tokenizeChars, TokenState.run_append, TokenState.run_blank hfront]

theorem trimChars_getLast (cs : List Char) :
    ∀ c ∈ (Text.trimChars cs).getLast?, Text.isWhitespace c = false := by
  intro c hc
  rw [Text.trimChars, getLast?_reverse] at hc
  have hnot := head?_dropWhile_not Text.isWhitespace (cs.dropWhile Text.isWhitespace).reverse
  rw [Option.mem_def.mp hc] at hnot
  exact hnot

/-- Where every character of a text adds to the weight, the text does not end in white space. -/
theorem last_of_weight {cs more : List Char} {tokens : List (List Char)} (hmore : more ≠ [])
    (h : tokenizeChars (Text.trimChars (cs ++ more)) = some tokens)
    (hweight : (TokenState.start.run cs).volume + more.length < weight tokens) :
    ∀ c ∈ (cs ++ more).getLast?, Text.isWhitespace c = false := by
  obtain ⟨front, back, heq, hfront, _⟩ := trimChars_decomposition (cs ++ more)
  have hfinish := TokenState.weight_finish h
  have hscan : TokenState.start.run (front ++ Text.trimChars (cs ++ more)) =
      TokenState.start.run (Text.trimChars (cs ++ more)) := by
    rw [TokenState.run_append, TokenState.run_blank hfront]
  have hlength := length_pos_iff.mpr hmore
  by_cases hback : back = []
  · rw [hback, append_nil] at heq
    intro c hc
    rw [heq, getLast?_append] at hc
    cases htrim : Text.trimChars (cs ++ more) with
    | nil =>
      rw [htrim] at hfinish
      have hvolume : (TokenState.start.run []).volume = 0 := rfl
      omega
    | cons d ds =>
      refine trimChars_getLast (cs ++ more) c ?_
      rw [htrim, Option.mem_def, getLast?_cons] at hc ⊢
      simpa using hc
  · -- without its last character the text already has the tokens
    exfalso
    have hcut : cs ++ more.dropLast = front ++ Text.trimChars (cs ++ more) ++ back.dropLast := by
      rw [← dropLast_append_of_ne_nil hmore, heq, dropLast_append_of_ne_nil hback, ← heq]
    have hmono := (TokenState.start.run (front ++ Text.trimChars (cs ++ more))).volume_le_run
      back.dropLast
    rw [← TokenState.run_append, ← hcut, hscan, TokenState.run_append] at hmono
    have hgrow := (TokenState.start.run cs).volume_run_le more.dropLast
    rw [length_dropLast] at hgrow
    omega

end Omp2.Control
