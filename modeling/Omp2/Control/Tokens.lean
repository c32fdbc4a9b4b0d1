import Mathlib.Data.List.TakeWhile
import Omp2.Control.Script

/-!
# What the scanners keep

Facts about the two loops of the tokenizer. No character yields more than one character of a
token or one end of a token, so that the `volume` of a scan, what its tokens weigh, grows by at
most one a character; a scan only adds to its tokens; and the statements that `split_statements`
cuts out leave no quotation open, which `Synced` carries from character to character.
-/

namespace Omp2.Control

open List

/-! ## White space -/

/-- A backslash is no white space. -/
@[simp] theorem isWhitespace_backslash : Text.isWhitespace '\\' = false := by decide

/-- A blank is white space. -/
@[simp] theorem isWhitespace_blank : Text.isWhitespace ' ' = true := by decide

/-- Trimming takes white space from both ends. -/
theorem trimChars_decomposition (cs : List Char) :
    ∃ front back, cs = front ++ Text.trimChars cs ++ back ∧
      (∀ c ∈ front, Text.isWhitespace c = true) ∧ ∀ c ∈ back, Text.isWhitespace c = true := by
  refine ⟨cs.takeWhile Text.isWhitespace,
    ((cs.dropWhile Text.isWhitespace).reverse.takeWhile Text.isWhitespace).reverse, ?_, ?_, ?_⟩
  · have hback : Text.trimChars cs ++
        ((cs.dropWhile Text.isWhitespace).reverse.takeWhile Text.isWhitespace).reverse =
        cs.dropWhile Text.isWhitespace := by
      rw [Text.trimChars, ← reverse_append, takeWhile_append_dropWhile,
        reverse_reverse]
    rw [append_assoc, hback, takeWhile_append_dropWhile]
  · exact fun c hc => mem_takeWhile_imp hc
  · exact fun c hc => mem_takeWhile_imp (mem_reverse.mp hc)

theorem isWhitespace_of_trimChars_nil {cs : List Char} (h : Text.trimChars cs = []) :
    ∀ c ∈ cs, Text.isWhitespace c = true := by
  obtain ⟨front, back, heq, hfront, hback⟩ := trimChars_decomposition cs
  rw [h, append_nil] at heq
  intro c hc
  rw [heq] at hc
  exact (mem_append.mp hc).elim (hfront c) (hback c)

theorem trimChars_of_isWhitespace {cs : List Char} (h : ∀ c ∈ cs, Text.isWhitespace c = true) :
    Text.trimChars cs = [] := by
  simp [Text.trimChars, dropWhile_eq_nil_iff.mpr h]

/-! ## The tokens of a statement -/

/-- What tokens weigh: their characters and one end each. -/
def weight (tokens : List (List Char)) : Nat :=
  (tokens.map fun token => token.length + 1).sum

/-- Tokens weigh what their parts weigh. -/
@[simp] theorem weight_append (tokens more : List (List Char)) :
    weight (tokens ++ more) = weight tokens + weight more := by
  simp [weight]

/-- One token and the rest. -/
@[simp] theorem weight_cons (token : List Char) (tokens : List (List Char)) :
    weight (token :: tokens) = token.length + 1 + weight tokens := by
  simp [weight]

/-- No tokens weigh nothing. -/
@[simp] theorem weight_nil : weight [] = 0 := rfl

namespace TokenState

/-- The weight of a scan that has not ended. -/
def volume (t : TokenState) : Nat :=
  weight t.tokens + t.current.length + if t.escaped then 1 else 0

theorem length_unescape (c : Char) :
    (unescape c).length = if c ∈ ['n', 't', 'r', '"', '\\'] then 1 else 2 := by
  unfold unescape
  simp only [mem_cons, not_mem_nil, or_false]
  split_ifs <;> simp_all

theorem weight_ended (t : TokenState) :
    weight t.ended = if t.current = [] then 0 else t.current.length + 1 := by
  unfold ended
  rcases hcurrent : t.current with _ | ⟨c, cs⟩ <;> simp

/-- A character adds at most one, and takes nothing away. -/
theorem volume_next (t : TokenState) (c : Char) :
    t.volume ≤ (t.next c).volume ∧ (t.next c).volume ≤ t.volume + 1 := by
  unfold next
  split
  · next hescaped =>
    have hlength := length_unescape c
    have hbounds : 1 ≤ (unescape c).length ∧ (unescape c).length ≤ 2 := by
      rw [hlength]
      split <;> omega
    simp only [volume, push, hescaped, length_append, if_true, Bool.false_eq_true, if_false]
    omega
  · next hplain =>
    simp only [Bool.not_eq_true] at hplain
    split
    · simp [volume, hplain]
    · split
      · simp [volume]
      · split
        · have hended := t.weight_ended
          simp only [volume, weight_append, length_nil, hplain, Bool.false_eq_true, if_false]
          split at hended
          · next hempty => simp [hempty, hended]
          · omega
        · simp [volume, push, hplain]
          omega

theorem volume_run_le (t : TokenState) (cs : List Char) :
    (t.run cs).volume ≤ t.volume + cs.length := by
  induction cs generalizing t with
  | nil => simp [run]
  | cons c cs ih =>
      have hnext := (t.volume_next c).2
      have hrest := ih (t.next c)
      simp only [run, foldl_cons, length_cons] at hrest ⊢
      omega

theorem volume_le_run (t : TokenState) (cs : List Char) : t.volume ≤ (t.run cs).volume := by
  induction cs generalizing t with
  | nil => simp [run]
  | cons c cs ih => exact (t.volume_next c).1.trans (ih (t.next c))

theorem run_append (t : TokenState) (cs more : List Char) :
    t.run (cs ++ more) = (t.run cs).run more := by
  simp [run]

/-- The tokens at the end of a scan weigh at most one more than the scan. -/
theorem weight_finish {t : TokenState} {tokens : List (List Char)} (h : t.finish = some tokens) :
    weight tokens ≤ t.volume + 1 := by
  unfold finish at h
  split at h
  · cases h
  · cases h
    have hended := t.settle.weight_ended
    have hvolume : weight t.settle.tokens + t.settle.current.length = t.volume := by
      unfold settle volume
      split
      · simp [push]
        omega
      · simp
    rw [weight_append]
    split at hended <;> omega

/-- A character continues the token that is being read or ends it. -/
theorem next_cases (t : TokenState) (c : Char) :
    ((t.next c).tokens = t.tokens ∧ t.current <+: (t.next c).current) ∨
      ((t.next c).tokens = t.tokens ++ t.ended ∧ (t.next c).current = []) := by
  unfold next push
  split
  · exact .inl ⟨rfl, prefix_append _ _⟩
  · split
    · exact .inl ⟨rfl, prefix_rfl⟩
    · split
      · exact .inl ⟨rfl, prefix_rfl⟩
      · split
        · exact .inr ⟨rfl, rfl⟩
        · exact .inl ⟨rfl, prefix_append _ _⟩

theorem tokens_run (t : TokenState) (cs : List Char) : t.tokens <+: (t.run cs).tokens := by
  induction cs generalizing t with
  | nil => exact prefix_rfl
  | cons c cs ih =>
      have hnext : t.tokens <+: (t.next c).tokens := by
        rcases t.next_cases c with ⟨htokens, _⟩ | ⟨htokens, _⟩
        · exact htokens ▸ prefix_rfl
        · exact htokens ▸ prefix_append _ _
      exact hnext.trans (ih (t.next c))

theorem tokens_finish {t : TokenState} {tokens : List (List Char)} (h : t.finish = some tokens) :
    t.tokens <+: tokens := by
  unfold finish at h
  split at h
  · cases h
  · cases h
    have hsettle : t.settle.tokens = t.tokens := by
      unfold settle
      split <;> rfl
    rw [hsettle]
    exact prefix_append _ _

/-- A token that has begun is completed by what follows: it is the next token at the end. -/
theorem current_finish {t : TokenState} {cs : List Char} {tokens : List (List Char)}
    (hcurrent : t.current ≠ []) (h : (t.run cs).finish = some tokens) :
    ∃ token, t.tokens ++ [token] <+: tokens ∧ t.current <+: token := by
  induction cs generalizing t with
  | nil =>
      have hfinish : t.finish = some tokens := h
      unfold finish at hfinish
      split at hfinish
      · cases hfinish
      · cases hfinish
        have hsettle : t.settle.tokens = t.tokens ∧ t.current <+: t.settle.current := by
          unfold settle
          split
          · exact ⟨rfl, prefix_append _ _⟩
          · exact ⟨rfl, prefix_rfl⟩
        obtain ⟨htokens, hcur⟩ := hsettle
        have hne : t.settle.current ≠ [] := fun hnil =>
          hcurrent (prefix_nil.mp (hnil ▸ hcur))
        refine ⟨t.settle.current, ?_, hcur⟩
        simp [ended, hne, htokens]
  | cons c cs ih =>
      have hnext : ((t.next c).run cs).finish = some tokens := h
      rcases t.next_cases c with ⟨htokens, hcur⟩ | ⟨htokens, _⟩
      · have hne : (t.next c).current ≠ [] := fun hnil =>
          hcurrent (prefix_nil.mp (hnil ▸ hcur))
        obtain ⟨token, htoken, hprefix⟩ := ih hne hnext
        exact ⟨token, htokens ▸ htoken, hcur.trans hprefix⟩
      · refine ⟨t.current, ?_, prefix_rfl⟩
        have hended : t.ended = [t.current] := by simp [ended, hcurrent]
        rw [← hended, ← htokens]
        exact ((t.next c).tokens_run cs).trans (tokens_finish hnext)

/-- White space before the first token changes nothing. -/
theorem run_blank {cs : List Char} (h : ∀ c ∈ cs, Text.isWhitespace c = true) :
    start.run cs = start := by
  induction cs with
  | nil => rfl
  | cons c cs ih =>
      obtain ⟨hc, hcs⟩ := forall_mem_cons.mp h
      have hbackslash : c ≠ '\\' := by
        rintro rfl
        cases hc
      have hquote : c ≠ '"' := by
        rintro rfl
        cases hc
      have hnext : start.next c = start := by
        simp [next, start, hbackslash, hquote, hc, ended]
      show (start.next c).run cs = start
      rw [hnext, ih hcs]

/-- White space opens and closes no quotation. -/
theorem inQuotes_run_blank {t : TokenState} {cs : List Char}
    (h : ∀ c ∈ cs, Text.isWhitespace c = true) : (t.run cs).inQuotes = t.inQuotes := by
  induction cs generalizing t with
  | nil => rfl
  | cons c cs ih =>
      obtain ⟨hc, hcs⟩ := forall_mem_cons.mp h
      have hquote : c ≠ '"' := by
        rintro rfl
        cases hc
      have hnext : (t.next c).inQuotes = t.inQuotes := by
        unfold next push
        split_ifs <;> simp_all
      show ((t.next c).run cs).inQuotes = t.inQuotes
      rw [ih hcs, hnext]

theorem finish_isSome (t : TokenState) : t.finish.isSome = !t.inQuotes := by
  unfold finish
  split <;> simp_all

end TokenState

theorem tokenizeChars_trimChars (cs : List Char) :
    (tokenizeChars (Text.trimChars cs)).isSome = !(TokenState.start.run cs).inQuotes := by
  obtain ⟨front, back, heq, hfront, hback⟩ := trimChars_decomposition cs
  rw [tokenizeChars, TokenState.finish_isSome]
  conv_rhs => rw [heq]
  rw [TokenState.run_append, TokenState.run_append, TokenState.run_blank hfront,
    TokenState.inQuotes_run_blank hback]

/-- The tokens of a trimmed statement weigh at most one more than the scan of the statement. -/
theorem weight_tokenize_trimChars {cs : List Char} {tokens : List (List Char)}
    (h : tokenizeChars (Text.trimChars cs) = some tokens) :
    weight tokens ≤ (TokenState.start.run cs).volume + 1 := by
  obtain ⟨front, back, heq, hfront, _⟩ := trimChars_decomposition cs
  have hscan : (TokenState.start.run cs).volume =
      ((TokenState.start.run (Text.trimChars cs)).run back).volume := by
    conv_lhs => rw [heq]
    rw [TokenState.run_append, TokenState.run_append, TokenState.run_blank hfront]
  have hweight := TokenState.weight_finish h
  have hmono := (TokenState.start.run (Text.trimChars cs)).volume_le_run back
  omega

/-! ## The statements of a text -/

namespace SplitState

/-- A character is kept, skipped in a comment, or ends a statement. -/
theorem next_cases (st : SplitState) (c : Char) (peek : Option Char) :
    ((st.next c peek).statements = st.statements ∧
        (st.next c peek).current = st.current ++ [c] ∧ (st.next c peek).mode ≠ .comment) ∨
      ((st.next c peek).statements = st.statements ∧
        (st.next c peek).current = st.current ∧ st.mode = .comment) ∨
      ((st.next c peek).statements = st.statements ++ st.ended ∧
        ((st.next c peek).current = [] ∨
          st.ended = [] ∧ (st.next c peek).current = st.current)) := by
  have hcomment : st.comment.statements = st.statements ++ st.ended ∧
      (st.comment.current = [] ∨ st.ended = [] ∧ st.comment.current = st.current) := by
    refine ⟨rfl, ?_⟩
    unfold comment
    by_cases hended : st.ended = []
    · exact .inr ⟨hended, by simp [hended]⟩
    · exact .inl (by simp [hended])
  unfold next
  split
  · exact .inl ⟨rfl, rfl, by simp⟩
  · next hmode =>
    split
    · exact .inr (.inl ⟨rfl, rfl, hmode⟩)
    · exact .inr (.inl ⟨rfl, rfl, hmode⟩)
  · next hmode =>
    have hpush : (st.push c).mode ≠ .comment := by simp [push, hmode]
    split
    · exact .inl ⟨rfl, rfl, by simp⟩
    · split
      · exact .inl ⟨rfl, rfl, hpush⟩
      · split
        · exact .inl ⟨rfl, rfl, hpush⟩
        · split
          · exact .inr (.inr hcomment)
          · split
            · exact .inr (.inr hcomment)
            · split
              · exact .inr (.inr ⟨rfl, .inl rfl⟩)
              · exact .inl ⟨rfl, rfl, hpush⟩

/-- A scan only adds to the statements. -/
theorem statements_run (st : SplitState) (cs : List Char) :
    st.statements <+: (st.run cs).statements := by
  induction cs generalizing st with
  | nil => exact prefix_rfl
  | cons c cs ih =>
      have hnext : st.statements <+: (st.next c cs.head?).statements := by
        rcases st.next_cases c cs.head? with ⟨hsame, _⟩ | ⟨hsame, _⟩ | ⟨hmore, _⟩
        · exact hsame ▸ prefix_rfl
        · exact hsame ▸ prefix_rfl
        · exact hmore ▸ prefix_append _ _
      exact hnext.trans (ih _)

theorem next_peek (st : SplitState) (c : Char) {peek peek' : Option Char} (h : peek ≠ some '/')
    (h' : peek' ≠ some '/') : st.next c peek = st.next c peek' := by
  unfold next
  simp [h, h']

/-- A scan in two parts, of which the second does not start with a slash. -/
theorem run_append (st : SplitState) (cs : List Char) {more : List Char}
    (h : more.head? ≠ some '/') : st.run (cs ++ more) = (st.run cs).run more := by
  induction cs generalizing st with
  | nil => rfl
  | cons c cs ih =>
      have hpeek : st.next c (cs ++ more).head? = st.next c cs.head? := by
        cases cs with
        | nil => exact st.next_peek c h (by simp)
        | cons d cs => rfl
      show (st.next c (cs ++ more).head?).run (cs ++ more) = _
      rw [hpeek, ih]
      rfl

/-- The scan of the statements and the scan of the current statement's tokens agree on quotations
and backslashes, and the statements that were cut out leave no quotation open. -/
structure Synced (st : SplitState) : Prop where
  quotes : (TokenState.start.run st.current).inQuotes = st.inQuotes
  escaped : (TokenState.start.run st.current).escaped = decide (st.mode = .escaped)
  blank : st.mode = .comment → ∀ c ∈ st.current, Text.isWhitespace c = true
  statements : ∀ statement ∈ st.statements, (tokenizeChars statement).isSome = true

/-- No statement is cut out while it leaves a quotation open. -/
theorem Synced.ended {st : SplitState} (h : Synced st) (hquotes : st.inQuotes = false) :
    ∀ statement ∈ st.statements ++ st.ended, (tokenizeChars statement).isSome = true := by
  intro statement hmem
  rcases mem_append.mp hmem with hmem | hmem
  · exact h.statements statement hmem
  · unfold SplitState.ended at hmem
    split at hmem
    · cases hmem
    · rw [mem_singleton.mp hmem, tokenizeChars_trimChars, h.quotes, hquotes]
      rfl

theorem synced_start : Synced start := ⟨rfl, rfl, by simp [start], by simp [start]⟩

/-- Every character keeps the two scans together. -/
theorem Synced.next {st : SplitState} (h : Synced st) (c : Char) (peek : Option Char) :
    Synced (st.next c peek) := by
  have hpush : TokenState.start.run (st.current ++ [c]) =
      (TokenState.start.run st.current).next c := TokenState.run_append _ _ _
  unfold SplitState.next
  split
  · next hmode =>
    have hescaped := h.escaped
    rw [hmode, decide_eq_true rfl] at hescaped
    refine ⟨?_, ?_, by simp, h.statements⟩
    · show (TokenState.start.run (st.current ++ [c])).inQuotes = st.inQuotes
      rw [hpush, TokenState.next, if_pos hescaped]
      exact h.quotes
    · show (TokenState.start.run (st.current ++ [c])).escaped = _
      rw [hpush, TokenState.next, if_pos hescaped]
      rfl
  · next hmode =>
    split
    · refine ⟨h.quotes, ?_, by simp, h.statements⟩
      rw [h.escaped, hmode]
      rfl
    · exact h
  · next hmode =>
    have hescaped := h.escaped
    rw [hmode] at hescaped
    have hplain : (TokenState.start.run st.current).escaped = false := hescaped
    split
    · next hc =>
      refine ⟨?_, ?_, by simp, h.statements⟩
      · show (TokenState.start.run (st.current ++ [c])).inQuotes = st.inQuotes
        rw [hpush, TokenState.next, hplain, if_neg (by simp), if_pos hc]
        exact h.quotes
      · show (TokenState.start.run (st.current ++ [c])).escaped = _
        rw [hpush, TokenState.next, hplain, if_neg (by simp), if_pos hc]
        rfl
    · next hc =>
      split
      · next hquote =>
        refine ⟨?_, ?_, fun hm => absurd (hmode.symm.trans hm) (by simp), h.statements⟩
        · show (TokenState.start.run (st.current ++ [c])).inQuotes = !st.inQuotes
          rw [hpush, TokenState.next, hplain, if_neg (by simp), if_neg hc, if_pos hquote,
            ← h.quotes]
        · show (TokenState.start.run (st.current ++ [c])).escaped = decide (st.mode = _)
          rw [hpush, TokenState.next, hplain, if_neg (by simp), if_neg hc, if_pos hquote,
            hmode]
          rfl
      · next hquote =>
        have hkeep : Synced (st.push c) := by
          have hnext : ((TokenState.start.run st.current).next c).inQuotes =
              (TokenState.start.run st.current).inQuotes ∧
              ((TokenState.start.run st.current).next c).escaped = false := by
            rw [TokenState.next, hplain, if_neg (by simp), if_neg hc, if_neg hquote]
            split
            · exact ⟨rfl, rfl⟩
            · exact ⟨rfl, hplain⟩
          refine ⟨?_, ?_, fun hm => absurd (hmode.symm.trans hm) (by simp), h.statements⟩
          · show (TokenState.start.run (st.current ++ [c])).inQuotes = st.inQuotes
            rw [hpush, hnext.1, h.quotes]
          · show (TokenState.start.run (st.current ++ [c])).escaped = decide (st.mode = _)
            rw [hpush, hnext.2, hmode]
            rfl
        split
        · exact hkeep
        · next hopen =>
          simp only [Bool.not_eq_true] at hopen
          have hcomment : Synced st.comment := by
            have hblank : ∀ d ∈ st.comment.current, Text.isWhitespace d = true := by
              unfold comment
              split
              · next hempty =>
                unfold SplitState.ended at hempty
                split at hempty
                · next htrim =>
                  exact isWhitespace_of_trimChars_nil (isEmpty_iff.mp htrim)
                · cases hempty
              · simp
            have hstart := TokenState.run_blank hblank
            refine ⟨?_, ?_, fun _ => hblank, h.ended hopen⟩
            · rw [hstart]
              exact hopen.symm
            · rw [hstart]
              rfl
          split
          · exact hcomment
          · split
            · exact hcomment
            · split
              · refine ⟨?_, ?_, fun hm => absurd (hmode.symm.trans hm) (by simp),
                  h.ended hopen⟩
                · exact hopen.symm
                · show false = decide (st.mode = _)
                  rw [hmode]
                  rfl
              · exact hkeep

theorem Synced.run {st : SplitState} (h : Synced st) (cs : List Char) : Synced (st.run cs) := by
  induction cs generalizing st with
  | nil => exact h
  | cons c cs ih => exact ih (h.next c cs.head?)

end SplitState

end Omp2.Control
