import Mathlib.Data.List.Forall2
import Omp2.Control.Arguments
import Omp2.Control.Engine
import Omp2.Library.JsonText

/-!
# Calls of aliases with arguments

An alias that is called with arguments is replaced by its text and the arguments joined with
blanks, which is split and tokenized again. `arrivesIntact_iff` says which calls this serves: one
argument never arrives, because two tokens are read as the setting of a variable before aliases
are looked up; two or more arrive when the alias's text leaves a statement open and the arguments
are literal, that is, written so that the tokenizer reads them back as they are.
-/

namespace Omp2.Control

open Json List

open TokenState (within pending)

/-! ## Calls -/

/-- The statements have these tokens. -/
def Reads (statements : List (List Char)) (tokens : List (List (List Char))) : Prop :=
  List.Forall₂ (fun statement words => tokenizeChars statement = some words) statements tokens

/-- The tokens of an alias's text with arguments after it: the arguments are tokens of the
statement that the text leaves open. -/
def AliasFollowed (text : List Char) (args : List (List Char)) (tokens : List (List (List Char))) :
    Prop :=
  if args = [] then Reads (splitChars text) tokens
  else ∃ before last, Reads (SplitState.start.run text).statements before ∧
    tokenizeChars (SplitState.start.run text).current = some last ∧
    tokens = before ++ [last ++ args]

/-- Statements without open quotations have tokens. -/
theorem exists_reads {statements : List (List Char)}
    (h : ∀ statement ∈ statements, (tokenizeChars statement).isSome = true) :
    ∃ tokens, Reads statements tokens := by
  induction statements with
  | nil => exact ⟨[], .nil⟩
  | cons statement statements ih =>
      obtain ⟨words, hwords⟩ := Option.isSome_iff_exists.mp (h statement mem_cons_self)
      obtain ⟨tokens, htokens⟩ := ih fun s hs => h s (mem_cons_of_mem _ hs)
      exact ⟨words :: tokens, .cons hwords htokens⟩

theorem Reads.isSome {statements : List (List Char)} {tokens : List (List (List Char))}
    (h : Reads statements tokens) :
    ∀ statement ∈ statements, (tokenizeChars statement).isSome = true := by
  induction h with
  | nil => exact fun _ hmem => by cases hmem
  | cons hwords _ ih =>
      refine forall_mem_cons.mpr ⟨?_, ih⟩
      rw [hwords]
      rfl

theorem synced_text (text : List Char) : (SplitState.start.run text).Synced :=
  SplitState.synced_start.run text

theorem SplitState.Synced.current_isSome {st : SplitState} (h : st.Synced) :
    (tokenizeChars st.current).isSome = !st.inQuotes := by
  rw [tokenizeChars, TokenState.finish_isSome, h.quotes]

/-- A text has tokens when it leaves no quotation open. -/
theorem reads_iff (text : List Char) :
    (∃ tokens, Reads (splitChars text) tokens) ↔ (SplitState.start.run text).inQuotes = false := by
  have hsynced := synced_text text
  constructor
  · rintro ⟨tokens, hreads⟩
    by_cases hblank : Text.trimChars (SplitState.start.run text).current = []
    · rw [← hsynced.quotes, TokenState.run_blank (isWhitespace_of_trimChars_nil hblank)]
      rfl
    · have hended : (SplitState.start.run text).ended =
          [Text.trimChars (SplitState.start.run text).current] := by
        simp [SplitState.ended, hblank]
      have hsome := hreads.isSome (Text.trimChars (SplitState.start.run text).current) (by
        rw [splitChars, SplitState.finish, hended]
        exact mem_append_right _ (mem_singleton_self _))
      rw [tokenizeChars_trimChars, hsynced.quotes] at hsome
      simpa using hsome
  · exact fun hquotes => exists_reads (hsynced.ended hquotes)

/-- A blank after a scan: the scan weighs what its tokens weigh. -/
theorem TokenState.volume_next_blank {t : TokenState} {tokens : List (List Char)}
    (h : t.finish = some tokens) : (t.next ' ').volume = weight tokens := by
  unfold finish at h
  split at h
  · cases h
  · next hopen =>
    cases h
    simp only [Bool.not_eq_true] at hopen
    by_cases hescaped : t.escaped = true
    · simp [next, settle, push, hescaped, unescape, volume, ended]
    · simp [next, settle, hescaped, hopen, volume]

theorem TokenState.next_blank_of_finish {t : TokenState} {tokens : List (List Char)}
    (h : t.finish = some tokens) (hescaped : t.escaped = false) :
    t.next ' ' = within tokens [] false := by
  unfold finish at h
  split at h
  · cases h
  · next hopen =>
    cases h
    simp only [Bool.not_eq_true] at hopen
    simp [next, settle, hescaped, hopen, within]

/-- The arguments after a text are held by one more statement. -/
theorem completed_of_followed {text more : List Char} {before : List (List (List Char))}
    {words : List (List Char)} (hbefore : Reads (SplitState.start.run text).statements before)
    (hmore : more.head? ≠ some '/')
    (hreads : Reads (splitChars (text ++ more)) (before ++ [words])) :
    ∃ x, ((SplitState.start.run text).run more).finish =
        (SplitState.start.run text).statements ++ [x] ∧ tokenizeChars x = some words := by
  rw [splitChars, SplitState.run_append _ _ hmore] at hreads
  obtain ⟨rest, hrest⟩ := ((SplitState.start.run text).statements_run more).trans
    (prefix_append _ ((SplitState.start.run text).run more).ended)
  have hlast := forall₂_drop_append _ before [words] hreads
  rw [SplitState.finish, ← hrest, ← hbefore.length_eq, drop_left] at hlast
  obtain ⟨x, none, hx, hnone, rfl⟩ := forall₂_cons_right_iff.mp hlast
  cases hnone
  exact ⟨x, by rw [SplitState.finish, ← hrest], hx⟩

/-- After a text that leaves a statement open, literal arguments are more tokens of it. -/
theorem reads_of_literal {text : List Char} {args : List (List Char)} (hargs : args ≠ [])
    (hfull : ∀ arg ∈ args, arg ≠ [])
    (hquotes : (SplitState.start.run text).inQuotes = false)
    (hmode : (SplitState.start.run text).mode = .plain) (hliteral : literalArgs args = true) :
    ∃ tokens, AliasFollowed text args tokens ∧
      Reads (splitChars (text ++ ' ' :: joinChars args)) tokens := by
  have hsynced := synced_text text
  obtain ⟨before, hbefore⟩ := exists_reads hsynced.statements
  have hsome := hsynced.current_isSome
  rw [hquotes] at hsome
  obtain ⟨last, hlast⟩ := Option.isSome_iff_exists.mp hsome
  refine ⟨before ++ [last ++ args], ?_, ?_⟩
  · rw [AliasFollowed, if_neg hargs]
    exact ⟨before, last, hbefore, hlast, rfl⟩
  · obtain ⟨hblank, hstarts⟩ := SplitState.next_blank hmode hquotes (joinChars args).head?
    obtain ⟨hsame, hkept, hfinish, hend⟩ := @run_literalArgs args last
      ((SplitState.start.run text).push ' ') hargs hfull hliteral hquotes hmode hstarts
    have hescaped := hsynced.escaped
    rw [hmode] at hescaped
    -- the whole text does not end in white space, so that trimming changes nothing
    have hlastChar : ∀ c ∈ ((SplitState.start.run text).current ++ [' '] ++
        joinChars args).getLast?, Text.isWhitespace c = false := by
      intro c hc
      obtain ⟨d, ds, hcons⟩ := exists_cons_of_ne_nil (joinChars_ne_nil hargs hfull)
      refine hend c ?_
      rw [hcons] at hc ⊢
      simpa [getLast?_append] using hc
    have hwords : tokenizeChars (Text.trimChars ((SplitState.start.run text).current ++ [' '] ++
        joinChars args)) = some (last ++ args) := by
      rw [tokenize_trimChars_of_last hlastChar, tokenizeChars, TokenState.run_append,
        TokenState.run_append, ← hfinish]
      have hnext := TokenState.next_blank_of_finish hlast hescaped
      show ((TokenState.next _ ' ').run _).finish = _
      rw [hnext]
    have hne : Text.trimChars ((SplitState.start.run text).current ++ [' '] ++
        joinChars args) ≠ [] := by
      intro hnil
      have hnone : some ([] : List (List Char)) = some (last ++ args) := by
        rw [← hwords, hnil]
        rfl
      exact hargs (append_eq_nil_iff.mp (Option.some.inj hnone).symm).2
    rw [splitChars, SplitState.run_append _ _ (by simp), SplitState.run, hblank]
    have hended : ((((SplitState.start.run text).push ' ').run (joinChars args))).finish =
        (SplitState.start.run text).statements ++
          [Text.trimChars ((SplitState.start.run text).current ++ [' '] ++ joinChars args)] := by
      rw [SplitState.finish, SplitState.ended, hsame, hkept]
      simp only [SplitState.push, List.isEmpty_iff]
      rw [if_neg hne]
    rw [hended]
    exact List.rel_append hbefore (.cons hwords .nil)

/-- After the blank that follows a text, a text that is not in a comment is scanned plainly. -/
theorem SplitState.next_blank_open {st : SplitState} (hmode : st.mode ≠ .comment)
    (hquotes : st.inQuotes = false) (peek : Option Char) :
    (st.next ' ' peek).statements = st.statements ∧
      (st.next ' ' peek).current = st.current ++ [' '] ∧ (st.next ' ' peek).mode = .plain ∧
      (st.next ' ' peek).inQuotes = false ∧ (st.next ' ' peek).startsWord = true := by
  cases hst : st.mode with
  | comment => exact absurd hst hmode
  | escaped => simp [next, hst, hquotes, push, startsWord]
  | plain => simp [next, hst, hquotes, push, startsWord]

/-- Arguments that are read back after a text are literal, and the text leaves a statement open. -/
theorem literal_of_completed {text : List Char} {args last : List (List Char)} (hargs : args ≠ [])
    (hfull : ∀ arg ∈ args, arg ≠ [])
    (hlast : tokenizeChars (SplitState.start.run text).current = some last)
    {x : List Char} (hx : tokenizeChars x = some (last ++ args))
    (hfinish : ((SplitState.start.run text).run (' ' :: joinChars args)).finish =
      (SplitState.start.run text).statements ++ [x]) :
    (SplitState.start.run text).inQuotes = false ∧ (SplitState.start.run text).mode = .plain ∧
      literalArgs args = true := by
  have hsynced := synced_text text
  have hjoin := weight_joinChars hargs
  have hquotes : (SplitState.start.run text).inQuotes = false := by
    have hsome := hsynced.current_isSome
    rw [hlast] at hsome
    simpa using hsome.symm
  generalize SplitState.start.run text = st at *
  have hnotComment : st.mode ≠ .comment := by
    intro hcomment
    have hnext : st.next ' ' (joinChars args).head? = st := by
      simp [SplitState.next, hcomment]
    rw [SplitState.run, hnext] at hfinish
    have hended : st.ended = [] := by
      simp [SplitState.ended, trimChars_of_isWhitespace (hsynced.blank hcomment)]
    have hweight := SplitState.weight_completed_comment hcomment hended hfinish hx
    rw [weight_append] at hweight
    omega
  obtain ⟨hsame, hkept, hmode, hquotes', hstarts⟩ :=
    SplitState.next_blank_open hnotComment hquotes (joinChars args).head?
  rw [SplitState.run] at hfinish
  generalize st.next ' ' (joinChars args).head? = st' at *
  have hvolume : (TokenState.start.run st'.current).volume = weight last := by
    rw [hkept, TokenState.run_append]
    exact TokenState.volume_next_blank hlast
  -- the statement is the one that the text leaves open, with all arguments
  obtain ⟨piece, hpiece, hxpiece, hkeeps⟩ | hsmall :=
    SplitState.completed_cases (by rw [hmode]; simp) (hsame ▸ hfinish)
  · have hwhole : piece = joinChars args := by
      refine hpiece.eq_of_length_le ?_
      have hweight := weight_tokenize_trimChars (hxpiece ▸ hx)
      have hgrow := (TokenState.start.run st'.current).volume_run_le piece
      rw [← TokenState.run_append] at hgrow
      rw [weight_append] at hweight
      omega
    subst hwhole
    have hend := last_of_weight (joinChars_ne_nil hargs hfull) (hxpiece ▸ hx) (by
      rw [hvolume, weight_append]
      omega)
    have hread : ((TokenState.start.run st'.current).run (joinChars args)).finish =
        some (last ++ args) := by
      rw [← TokenState.run_append, ← hx, hxpiece, tokenize_trimChars_of_last hend]
      rfl
    rw [hkept, TokenState.run_append] at hread
    have hescaped := TokenState.escaped_of_read hlast hread
    have hplain : st.mode = .plain := by
      have hsync := hsynced.escaped
      rw [hescaped] at hsync
      cases hst : st.mode with
      | comment => exact absurd hst hnotComment
      | escaped => simp [hst] at hsync
      | plain => rfl
    refine ⟨hquotes, hplain, ?_⟩
    have hnext := TokenState.next_blank_of_finish hlast hescaped
    have hblank : (TokenState.start.run st.current).run [' '] = within last [] false := hnext
    rw [hblank] at hread
    exact literalArgs_of_reads hargs hfull hquotes' hmode hstarts (by rw [hkept]; simp)
      (hkeeps rfl) hend hread
  · have hweight := hsmall _ hx
    rw [weight_append] at hweight
    omega

/-- Arguments after a text are read back exactly when they are literal and a statement is open. -/
theorem followed_iff {text : List Char} {args : List (List Char)} (hargs : args ≠ [])
    (hfull : ∀ arg ∈ args, arg ≠ []) :
    (∃ tokens, AliasFollowed text args tokens ∧
        Reads (splitChars (text ++ ' ' :: joinChars args)) tokens) ↔
      (SplitState.start.run text).inQuotes = false ∧ (SplitState.start.run text).mode = .plain ∧
        literalArgs args = true := by
  constructor
  · rintro ⟨tokens, hfollowed, hreads⟩
    rw [AliasFollowed, if_neg hargs] at hfollowed
    obtain ⟨before, last, hbefore, hlast, rfl⟩ := hfollowed
    obtain ⟨x, hfinish, hx⟩ := completed_of_followed hbefore (by simp) hreads
    exact literal_of_completed hargs hfull hlast hx hfinish
  · rintro ⟨hquotes, hmode, hliteral⟩
    exact reads_of_literal hargs hfull hquotes hmode hliteral

/-- No token is empty. -/
theorem TokenState.full_finish {t : TokenState} {cs : List Char} {tokens : List (List Char)}
    (hfull : ∀ token ∈ t.tokens, token ≠ []) (h : (t.run cs).finish = some tokens) :
    ∀ token ∈ tokens, token ≠ [] := by
  have hended : ∀ st : TokenState, ∀ token ∈ st.ended, token ≠ [] := by
    intro st token htoken
    unfold ended at htoken
    split at htoken
    · cases htoken
    · next hne =>
      rw [mem_singleton.mp htoken]
      simpa using hne
  induction cs generalizing t with
  | nil =>
      have hfinish : t.finish = some tokens := h
      unfold finish at hfinish
      split at hfinish
      · cases hfinish
      · cases hfinish
        have hsettle : t.settle.tokens = t.tokens := by
          unfold settle
          split <;> rfl
        intro token htoken
        exact (mem_append.mp htoken).elim (fun hm => hfull token (hsettle ▸ hm))
          (hended _ token)
  | cons c cs ih =>
      refine @ih (t.next c) ?_ h
      rcases t.next_cases c with ⟨htokens, _⟩ | ⟨htokens, _⟩
      · rw [htokens]
        exact hfull
      · rw [htokens]
        exact fun token htoken => (mem_append.mp htoken).elim (hfull token) (hended t token)

section Calls

variable [SerdeJson] [Text.Unicode]

/-- A statement whose first token is no verb, parsed. -/
theorem parseScript_of_reads {statement name : String} {args : List String}
    (hverb : name.toLower ∉ builtinVerbs)
    (h : Reads (splitChars statement.toList) [name.toList :: args.map String.toList]) :
    parseScript statement = .ok [parseOther name args] := by
  obtain ⟨x, none, hx, hnone, heq⟩ := forall₂_cons_right_iff.mp h
  cases hnone
  have htokens : tokenizeLine (String.ofList x) = .ok (name :: args) := by
    rw [tokenizeLine, String.toList_ofList, hx]
    simp
  have hparse : parseStatement (String.ofList x) = .ok (parseOther name args) := by
    rw [parseStatement, htokens]
    exact parseTokens_other args hverb
  rw [parseScript, splitStatements, heq, map_cons, map_nil, parseStatements, hparse]
  rfl

/-- `expand_command` puts a text in the place of the call of an alias, one level deeper. -/
def Replaces (e : CommandEngine) (statement name text : String) (depth : Nat)
    (visited : List String) (meter : Meter) : Prop :=
  (∃ command, parseScript statement = .ok [command] ∧ e.replacement command = some (name, text)) ∧
    ∀ fuel, e.expandCommand (fuel + 1) statement depth visited meter =
      match e.expandCommand fuel text (depth + 1) (visited ++ [name])
        ⟨meter.bytes + statement.utf8ByteSize, max meter.deepest depth⟩ with
      | some (.ok (commands, opened), meter) => some (.ok (commands, opened.dropLast), meter)
      | other => other

/-- The call of an alias is expanded to the alias's text followed by the arguments, each of them
one token. -/
def ArrivesIntact (e : CommandEngine) (statement name «alias» : String) (args : List String)
    (depth : Nat) (visited : List String) (meter : Meter) : Prop :=
  ∃ text tokens, Replaces e statement name text depth visited meter ∧
    AliasFollowed «alias».toList (args.map String.toList) tokens ∧
    Reads (splitChars text.toList) tokens

/-- The alias serves the arguments: none, or two and more that are literal, after a text that ends
outside comments and without a backslash; no quotation is left open. -/
def Invocable («alias» : String) (args : List String) : Prop :=
  (SplitState.start.run «alias».toList).inQuotes = false ∧ args.length ≠ 1 ∧
    (args ≠ [] → (SplitState.start.run «alias».toList).mode = .plain ∧
      literalArgs (args.map String.toList) = true)

/-- A statement that calls an alias, expanded within the limits. -/
theorem replaces_of_replacement {e : CommandEngine} {statement name text : String} {depth : Nat}
    {visited : List String} {meter : Meter} {command : Command}
    (hparse : parseScript statement = .ok [command])
    (hcommand : e.replacement command = some (name, text))
    (hbytes : meter.bytes + statement.utf8ByteSize ≤ e.limits.maxBytes)
    (hdepth : depth ≤ e.limits.maxDepth) (hopen : name ∉ visited) :
    Replaces e statement name text depth visited meter := by
  refine ⟨⟨command, hparse, hcommand⟩, fun fuel => ?_⟩
  rw [CommandEngine.expandCommand]
  simp only [Nat.not_lt.mpr hbytes, Nat.not_lt.mpr hdepth, if_false, hparse,
    CommandEngine.expandLoop, hcommand, hopen]
  cases e.expandCommand fuel text (depth + 1) (visited ++ [name]) _ with
  | none => rfl
  | some result =>
      obtain ⟨result, after⟩ := result
      cases result with
      | error => rfl
      | ok => simp [Expansion.prepend]

/-- A call of an alias is expanded to the alias's text followed by the arguments, each of them
the token that was written, exactly when the alias serves the arguments. -/
theorem arrivesIntact_iff {e : CommandEngine} {statement name «alias» : String}
    {args : List String} {depth : Nat} {visited : List String} {meter : Meter}
    (halias : e.aliases[name]? = some «alias») (hverb : name.toLower ∉ builtinVerbs)
    (hstatement : Reads (splitChars statement.toList) [name.toList :: args.map String.toList])
    (hbytes : meter.bytes + statement.utf8ByteSize ≤ e.limits.maxBytes)
    (hdepth : depth ≤ e.limits.maxDepth) (hopen : name ∉ visited) :
    ArrivesIntact e statement name «alias» args depth visited meter ↔ Invocable «alias» args := by
  have hparse := parseScript_of_reads hverb hstatement
  have hfull : ∀ arg ∈ args.map String.toList, arg ≠ [] := by
    obtain ⟨x, none, hx, _, _⟩ := forall₂_cons_right_iff.mp hstatement
    have hall := TokenState.full_finish (by simp [TokenState.start]) hx
    exact fun arg harg => hall arg (mem_cons_of_mem _ harg)
  rcases args with _ | ⟨first, _ | ⟨second, more⟩⟩
  · have hcommand : e.replacement (parseOther name []) = some (name, «alias») := by
      simp [parseOther, CommandEngine.replacement, halias]
    have hreplaces := replaces_of_replacement hparse hcommand hbytes hdepth hopen
    have hreads := reads_iff «alias».toList
    constructor
    · rintro ⟨text, tokens, _, hfollowed, _⟩
      exact ⟨hreads.mp ⟨tokens, hfollowed⟩, by simp, by simp⟩
    · rintro ⟨hquotes, _, _⟩
      obtain ⟨tokens, htokens⟩ := hreads.mpr hquotes
      exact ⟨«alias», tokens, hreplaces, htokens, htokens⟩
  · constructor
    · rintro ⟨text, tokens, ⟨⟨command, hcommand, hreplacement⟩, _⟩, _⟩
      rw [hparse] at hcommand
      cases hcommand
      cases hreplacement
    · rintro ⟨_, hlength, _⟩
      exact absurd rfl hlength
  · set args := first :: second :: more with hargs
    have hcommand : e.replacement (parseOther name args) =
        some (name, «alias» ++ " " ++ joinWords args) := by
      simp [hargs, parseOther, CommandEngine.replacement, halias]
    have hreplaces := replaces_of_replacement hparse hcommand hbytes hdepth hopen
    have htext : («alias» ++ " " ++ joinWords args).toList =
        «alias».toList ++ ' ' :: joinChars (args.map String.toList) := by
      simp [joinWords, joinChars, String.toList_intercalate]
    have hiff := @followed_iff «alias».toList (args.map String.toList) (by simp [hargs]) hfull
    constructor
    · rintro ⟨text, tokens, ⟨⟨command, hparsed, hreplacement⟩, _⟩, hfollowed, hreads⟩
      rw [hparse] at hparsed
      cases hparsed
      rw [hcommand] at hreplacement
      cases hreplacement
      rw [htext] at hreads
      obtain ⟨hquotes, hmode, hliteral⟩ := hiff.mp ⟨tokens, hfollowed, hreads⟩
      exact ⟨hquotes, by simp [hargs], fun _ => ⟨hmode, hliteral⟩⟩
    · rintro ⟨hquotes, _, hopen⟩
      obtain ⟨hmode, hliteral⟩ := hopen (by simp [hargs])
      obtain ⟨tokens, hfollowed, hreads⟩ := hiff.mpr ⟨hquotes, hmode, hliteral⟩
      exact ⟨_, tokens, hreplaces, hfollowed, by rw [htext]; exact hreads⟩

end Calls

section Greeter

open scoped Compact Text

/-- An engine with one alias. -/
def greeter : CommandEngine :=
  { CommandEngine.withLimits .standard with
    aliases := (∅ : Std.ExtTreeMap String String).insert "say" "echo" }

/-- A call with two plain arguments arrives. -/
theorem arrivesIntact_two :
    ArrivesIntact greeter "say hello world" "say" "echo" ["hello", "world"] 0 [] ⟨0, 0⟩ := by
  have hcheck : greeter.aliases["say"]? = some "echo" ∧ "say".toLower ∉ builtinVerbs ∧
      splitChars "say hello world".toList = ["say hello world".toList] ∧
      tokenizeChars "say hello world".toList =
        some ["say".toList, "hello".toList, "world".toList] ∧
      (SplitState.start.run "echo".toList).inQuotes = false ∧
      (SplitState.start.run "echo".toList).mode = .plain ∧
      literalArgs ["hello".toList, "world".toList] = true := by
    decide +kernel
  obtain ⟨halias, hverb, hsplit, htokens, hquotes, hmode, hliteral⟩ := hcheck
  refine (arrivesIntact_iff halias hverb ?_ (by decide) (by decide) (by simp)).mpr
    ⟨hquotes, by simp, fun _ => ⟨hmode, hliteral⟩⟩
  rw [hsplit]
  exact .cons htokens .nil

/-- A call with one argument is read as the setting of a variable. -/
theorem not_arrivesIntact_one :
    greeter.aliases["say"]? = some "echo" ∧ "say".toLower ∉ builtinVerbs ∧
      Reads (splitChars "say hello".toList) ["say".toList :: ["hello"].map String.toList] ∧
      ¬ ArrivesIntact greeter "say hello" "say" "echo" ["hello"] 0 [] ⟨0, 0⟩ := by
  have hcheck : greeter.aliases["say"]? = some "echo" ∧ "say".toLower ∉ builtinVerbs ∧
      splitChars "say hello".toList = ["say hello".toList] ∧
      tokenizeChars "say hello".toList = some ["say".toList, "hello".toList] := by
    decide +kernel
  obtain ⟨halias, hverb, hsplit, htokens⟩ := hcheck
  have hreads : Reads (splitChars "say hello".toList)
      ["say".toList :: ["hello"].map String.toList] := by
    rw [hsplit]
    exact .cons htokens .nil
  refine ⟨halias, hverb, hreads, ?_⟩
  rintro ⟨text, tokens, ⟨⟨command, hcommand, hreplacement⟩, _⟩, _⟩
  rw [parseScript_of_reads hverb hreads] at hcommand
  cases hcommand
  cases hreplacement

end Greeter

end Omp2.Control
