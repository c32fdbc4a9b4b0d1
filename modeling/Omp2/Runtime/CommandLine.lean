import Mathlib.Data.List.Basic

/-!
# Windows command lines

`escape_windows_arg` of `omp-runtime/src/process.rs` and the command line that `spawn_internal`
builds with it. A child process splits its command line again by the rules of the Microsoft runtime,
which are another machine than the one that quotes. It gets the arguments as they were.
-/

namespace Omp2.Runtime

open List

/-! ## Quoting -/

/-- The characters for which an argument is quoted. -/
def needsQuotes (c : Char) : Bool :=
  c ∈ [' ', '\t', '\n', '\x0b', '"']

/-- The loop of `escape_windows_arg` with the number of pending backslashes. -/
def escapeLoop : Nat → List Char → List Char
  | backslashes, [] => replicate (backslashes * 2) '\\' ++ ['"']
  | backslashes, c :: cs =>
    if c = '\\' then escapeLoop (backslashes + 1) cs
    else if c = '"' then replicate (backslashes * 2 + 1) '\\' ++ '"' :: escapeLoop 0 cs
    else replicate backslashes '\\' ++ c :: escapeLoop 0 cs

/-- `escape_windows_arg`. -/
def escapeWindowsArg (arg : List Char) : List Char :=
  if arg.isEmpty then ['"', '"']
  else if arg.any needsQuotes then '"' :: escapeLoop 0 arg
  else arg

/-- The command line of `spawn_internal`. -/
def commandLine (program : String) (args : List String) : String :=
  String.ofList (escapeWindowsArg program.toList ++
    args.flatMap fun arg => ' ' :: escapeWindowsArg arg.toList)

/-! ## Splitting -/

/-- The word at the end of a part of a command line, if one has started. -/
def lastWord (word : Option (List Char)) (backslashes : Nat) : List (List Char) :=
  match word, backslashes with
  | none, 0 => []
  | word, backslashes => [word.getD [] ++ replicate backslashes '\\']

/-- The words of a command line. The state says whether the text is quoted, how many backslashes are
pending and what of a word has been read. An even number of backslashes before a quote stands for
half of them and the quote toggles the state, an odd number makes the quote a character of the word.
Other backslashes are literal, and blanks and tabs outside quotes separate. -/
def splitWords (quoted : Bool) (backslashes : Nat) (word : Option (List Char)) :
    List Char → List (List Char)
  | [] => lastWord word backslashes
  | c :: cs =>
    if c = '\\' then splitWords quoted (backslashes + 1) word cs
    else if c = '"' then
      let read := word.getD [] ++ replicate (backslashes / 2) '\\'
      if backslashes % 2 = 0 then splitWords (!quoted) 0 (some read) cs
      else splitWords quoted 0 (some (read ++ ['"'])) cs
    else if (c = ' ' ∨ c = '\t') ∧ quoted = false then
      lastWord word backslashes ++ splitWords false 0 none cs
    else splitWords quoted 0 (some (word.getD [] ++ replicate backslashes '\\' ++ [c])) cs

/-- The arguments that are read from a command line. -/
def argv (line : String) : List String :=
  (splitWords false 0 none line.toList).map String.ofList

/-- What follows the name of the program, in which every quote toggles. -/
def afterProgram : Bool → List Char → List Char
  | _, [] => []
  | quoted, c :: cs =>
    if c = '"' then afterProgram (!quoted) cs
    else if (c = ' ' ∨ c = '\t') ∧ quoted = false then c :: cs
    else afterProgram quoted cs

/-! ## One argument -/

variable {word : Option (List Char)} {quoted : Bool}

theorem splitWords_replicate (n backslashes : Nat) (cs : List Char) :
    splitWords quoted backslashes word (replicate n '\\' ++ cs) =
      splitWords quoted (backslashes + n) word cs := by
  induction n generalizing backslashes with
  | zero => rfl
  | succ n ih =>
      rw [replicate_succ, cons_append, splitWords, if_pos rfl, ih]
      exact congrArg (splitWords quoted · word cs) (by omega)

/-- The loop is read back in quotes, with the backslashes that are pending. -/
theorem splitWords_escapeLoop (arg : List Char) (backslashes : Nat) (read rest : List Char) :
    splitWords true 0 (some read) (escapeLoop backslashes arg ++ rest) =
      splitWords false 0 (some (read ++ replicate backslashes '\\' ++ arg)) rest := by
  induction arg generalizing backslashes read with
  | nil =>
      rw [escapeLoop, append_assoc, splitWords_replicate, singleton_append, splitWords,
        if_neg (by decide), if_pos rfl]
      dsimp only
      rw [if_pos (by omega), show (0 + backslashes * 2) / 2 = backslashes by omega, append_nil]
      rfl
  | cons c arg ih =>
      unfold escapeLoop
      split
      · next hbackslash =>
        rw [ih, hbackslash, replicate_succ', append_assoc, append_assoc, append_assoc,
          singleton_append]
      · split
        · next hquote =>
          rw [append_assoc, splitWords_replicate, cons_append, splitWords, if_neg (by decide),
            if_pos rfl]
          dsimp only
          rw [if_neg (by omega), show (0 + (backslashes * 2 + 1)) / 2 = backslashes by omega, ih,
            hquote, replicate_zero, append_nil, append_assoc _ ['"']]
          rfl
        · next hbackslash hquote =>
          rw [append_assoc, splitWords_replicate, cons_append, splitWords, if_neg hbackslash,
            if_neg hquote, if_neg (fun h => nomatch h.2), ih, Nat.zero_add, replicate_zero,
            append_nil, append_assoc _ [c]]
          rfl

theorem lastWord_of_started {backslashes : Nat} (h : word ≠ none ∨ backslashes ≠ 0) :
    lastWord word backslashes = [word.getD [] ++ replicate backslashes '\\'] := by
  cases word with
  | some read => rfl
  | none =>
      cases backslashes with
      | zero => exact absurd rfl (h.resolve_left (absurd rfl))
      | succ n => rfl

/-- An argument that is not quoted is read as it is. -/
theorem splitWords_plain {arg : List Char} (hplain : ∀ c ∈ arg, needsQuotes c = false)
    (backslashes : Nat) (word : Option (List Char))
    (hstarted : arg ≠ [] ∨ word ≠ none ∨ backslashes ≠ 0) :
    ∃ backslashes' word', (∀ rest, splitWords false backslashes word (arg ++ rest) =
        splitWords false backslashes' word' rest) ∧
      lastWord word' backslashes' = [word.getD [] ++ replicate backslashes '\\' ++ arg] := by
  induction arg generalizing backslashes word with
  | nil =>
      refine ⟨backslashes, word, fun _ => rfl, ?_⟩
      rw [lastWord_of_started (hstarted.resolve_left (absurd rfl)), append_nil]
  | cons c arg ih =>
      have hrest : ∀ d ∈ arg, needsQuotes d = false := fun d hd =>
        hplain d (mem_cons_of_mem _ hd)
      by_cases hbackslash : c = '\\'
      · obtain ⟨backslashes', word', hsplit, hlast⟩ := ih hrest (backslashes + 1) word
          (.inr (.inr (Nat.succ_ne_zero _)))
        refine ⟨backslashes', word', fun rest => ?_, ?_⟩
        · rw [cons_append, splitWords, if_pos hbackslash, hsplit]
        · rw [hlast, hbackslash, replicate_succ', append_assoc, append_assoc, append_assoc,
            singleton_append]
      · obtain ⟨backslashes', word', hsplit, hlast⟩ := ih hrest 0
          (some (word.getD [] ++ replicate backslashes '\\' ++ [c])) (.inr (.inl nofun))
        have hc := hplain c mem_cons_self
        simp only [needsQuotes, mem_cons, not_mem_nil, or_false, decide_eq_false_iff_not,
          not_or] at hc
        refine ⟨backslashes', word', fun rest => ?_, ?_⟩
        · rw [cons_append, splitWords, if_neg hbackslash, if_neg hc.2.2.2.2,
            if_neg fun h => h.1.elim hc.1 hc.2.1, hsplit]
        · rw [hlast, replicate_zero, append_nil, Option.getD_some, append_assoc _ [c],
            singleton_append]

/-- An argument is read back up to its end, whatever follows it. -/
theorem splitWords_escapeWindowsArg (arg : List Char) :
    ∃ backslashes word, (∀ rest, splitWords false 0 none (escapeWindowsArg arg ++ rest) =
        splitWords false backslashes word rest) ∧ lastWord word backslashes = [arg] := by
  unfold escapeWindowsArg
  split
  · next hempty =>
    rw [isEmpty_iff.mp hempty]
    exact ⟨0, some [], fun _ => rfl, rfl⟩
  · next hsome =>
    split
    · refine ⟨0, some arg, fun rest => ?_, by simp [lastWord]⟩
      exact splitWords_escapeLoop arg 0 [] rest
    · next hplain =>
      refine splitWords_plain (fun c hc => ?_) 0 none (.inl fun h => hsome (h ▸ rfl))
      exact Bool.eq_false_iff.mpr fun hquotes => hplain (any_eq_true.mpr ⟨c, hc, hquotes⟩)

/-! ## The command line -/

/-- The words of quoted arguments behind a word that has ended. -/
theorem splitWords_args (args : List (List Char)) {backslashes : Nat} {first : List Char}
    (hfirst : lastWord word backslashes = [first]) :
    splitWords false backslashes word (args.flatMap fun arg => ' ' :: escapeWindowsArg arg) =
      first :: args := by
  induction args generalizing backslashes word first with
  | nil => exact hfirst
  | cons arg args ih =>
      obtain ⟨backslashes', word', hsplit, hlast⟩ := splitWords_escapeWindowsArg arg
      rw [flatMap_cons, cons_append, splitWords, if_neg (by decide), if_neg (by decide),
        if_pos ⟨.inl rfl, rfl⟩, hfirst, hsplit, ih hlast]
      rfl

/-- The loop ends where the first quote after its start stands. -/
theorem afterProgram_escapeLoop {program : List Char} (hquote : '"' ∉ program) (backslashes : Nat)
    (rest : List Char) :
    afterProgram true (escapeLoop backslashes program ++ rest) = afterProgram false rest := by
  have hskip : ∀ (n : Nat) (cs : List Char),
      afterProgram true (replicate n '\\' ++ cs) = afterProgram true cs := by
    intro n cs
    induction n with
    | zero => rfl
    | succ n ih => exact ih
  induction program generalizing backslashes with
  | nil =>
      rw [escapeLoop, append_assoc, hskip]
      rfl
  | cons c program ih =>
      obtain ⟨hc, hprogram⟩ := not_or.mp (mem_cons.not.mp hquote)
      unfold escapeLoop
      split
      · exact ih hprogram _
      · rw [if_neg (Ne.symm hc), append_assoc, hskip, cons_append, afterProgram,
          if_neg (Ne.symm hc), if_neg fun h => nomatch h.2]
        exact ih hprogram 0

/-- The name of a program is read up to its end. -/
theorem afterProgram_escapeWindowsArg {program : List Char} (hquote : '"' ∉ program)
    (rest : List Char) :
    afterProgram false (escapeWindowsArg program ++ rest) = afterProgram false rest := by
  unfold escapeWindowsArg
  split
  · rfl
  · next hsome =>
    clear hsome
    split
    · exact afterProgram_escapeLoop hquote 0 rest
    · next hplain =>
      have hnone : ∀ c ∈ program, needsQuotes c = false := fun c hc =>
        Bool.eq_false_iff.mpr fun hquotes => hplain (any_eq_true.mpr ⟨c, hc, hquotes⟩)
      clear hplain hquote
      induction program with
      | nil => rfl
      | cons c program ih =>
        have hc := hnone c mem_cons_self
        simp only [needsQuotes, mem_cons, not_mem_nil, or_false, decide_eq_false_iff_not,
          not_or] at hc
        rw [cons_append, afterProgram, if_neg hc.2.2.2.2,
          if_neg fun h => h.1.elim hc.1 hc.2.1]
        exact ih fun d hd => hnone d (mem_cons_of_mem _ hd)

/-- For every program and every list of arguments, the words of the command line are the program and
then exactly the arguments. The same arguments are read when the first word is taken as the name of
a program, in which no quote stands. -/
theorem argv_commandLine (program : String) (args : List String) :
    argv (commandLine program args) = program :: args ∧
    ('"' ∉ program.toList →
      (splitWords false 0 none (afterProgram false (commandLine program args).toList)).map
        String.ofList = args) := by
  have hargs : (args.flatMap fun arg => ' ' :: escapeWindowsArg arg.toList) =
      (args.map String.toList).flatMap fun arg => ' ' :: escapeWindowsArg arg := by
    rw [flatMap_map]
  have hback : (args.map String.toList).map String.ofList = args := by simp
  obtain ⟨backslashes, word, hsplit, hlast⟩ := splitWords_escapeWindowsArg program.toList
  unfold argv commandLine
  rw [String.toList_ofList, hargs, hsplit, splitWords_args _ hlast]
  refine ⟨by rw [map_cons, hback, String.ofList_toList], fun hquote => ?_⟩
  rw [afterProgram_escapeWindowsArg hquote]
  have hrest : ∀ args : List (List Char),
      splitWords false 0 none (afterProgram false
        (args.flatMap fun arg => ' ' :: escapeWindowsArg arg)) = args := by
    intro args
    cases args with
    | nil => rfl
    | cons arg args =>
      obtain ⟨_, _, hsplit, hlast⟩ := splitWords_escapeWindowsArg arg
      exact (hsplit _).trans (splitWords_args args hlast)
  rw [hrest, hback]

end Omp2.Runtime
