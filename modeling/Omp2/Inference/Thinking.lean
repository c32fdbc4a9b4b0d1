import Omp2.Library.Tags

/-!
# Thinking in the answer

`normalize_thinking_tokens` of `omp-inference/src/corrective.rs` cuts the blocks between thinking
tags out of an answer. There are two kinds of tags, and the loop looks for the first kind in all of
the rest before it looks for the second. So a block of the second kind that opens before one of the
first kind stays in the content. The cut is right exactly when the blocks, taken from left to right,
never meet that case.
-/

namespace Omp2.Inference

open Tags List

/-- The two kinds of thinking tags. -/
inductive TagKind where
  | think
  | thought
  deriving DecidableEq, Repr

def TagKind.openTag : TagKind → List Char
  | .think => "<think>".toList
  | .thought => "<thought>".toList

def TagKind.closeTag : TagKind → List Char
  | .think => "</think>".toList
  | .thought => "</thought>".toList

/-- `NormalizedTurn`. -/
structure NormalizedTurn where
  thinking : Option String
  content : String
  hasThinking : Bool
  deriving DecidableEq, Repr

/-- A block that was cut out of a text. -/
structure Block where
  kind : TagKind
  body : List Char
  closed : Bool
  deriving DecidableEq, Repr

/-- What is left of a text, and the blocks that were cut out of it. -/
structure Cut where
  content : List Char
  blocks : List Block
  deriving DecidableEq, Repr

/-- Where the next block opens: what stands before it, its kind, and what follows the tag. -/
abbrev Start := Option (List Char × TagKind × List Char)

/-- The next tag of one kind. -/
def startOf (kind : TagKind) (rest : List Char) : Start :=
  (Text.splitOnce kind.openTag rest).map fun parts => (parts.1, kind, parts.2)

/-- The tag that the loop takes. -/
def thinkStart (rest : List Char) : Start :=
  (startOf .think rest).or (startOf .thought rest)

/-- The loop, with a number of rounds that the length of the rest bounds. `start` says which tag is
taken next. -/
def cutFrom (start : List Char → Start) : Nat → List Char → Cut
  | 0, rest => ⟨rest, []⟩
  | rounds + 1, rest =>
    match start rest with
    | none => ⟨rest, []⟩
    | some (before, kind, inner) =>
      match Text.splitOnce kind.closeTag inner with
      | some (body, rest) =>
        let cut := cutFrom start rounds rest
        ⟨before ++ cut.content, ⟨kind, body, true⟩ :: cut.blocks⟩
      | none => ⟨before, [⟨kind, inner, false⟩]⟩

/-- The turn that a cut text becomes. -/
def Cut.turn (cut : Cut) : NormalizedTurn :=
  let thinkingParts := cut.blocks.map fun block => String.ofList (Text.trimChars block.body)
  let hasThinking := !thinkingParts.isEmpty
  { thinking := if hasThinking then some ("\n\n".intercalate thinkingParts) else none
    content := String.ofList (Text.trimChars cut.content)
    hasThinking }

/-- `normalize_thinking_tokens`. -/
def normalizeThinkingTokens (text : String) : NormalizedTurn :=
  (cutFrom thinkStart (text.length + 1) text.toList).turn

/-! ## What the function is for -/

/-- The leftmost opening tag of any kind. -/
def leftmost (rest : List Char) : Start :=
  match startOf .think rest, startOf .thought rest with
  | some think, some thought =>
    if think.1.length ≤ thought.1.length then some think else some thought
  | some think, none => some think
  | none, thought => thought

/-- The turn when the blocks are taken from left to right. -/
def separated (text : String) : NormalizedTurn :=
  (cutFrom leftmost (text.length + 1) text.toList).turn

/-- Where a `<thought>` block is the next from the left, no `<think>` follows anywhere. -/
inductive ThinkFirst : List Char → Prop
  | plain {rest : List Char} : leftmost rest = none → ThinkFirst rest
  | unclosed {rest before inner : List Char} {kind : TagKind} :
      leftmost rest = some (before, kind, inner) →
      (kind = .thought → startOf .think rest = none) →
      Text.splitOnce kind.closeTag inner = none → ThinkFirst rest
  | block {rest before inner body after : List Char} {kind : TagKind} :
      leftmost rest = some (before, kind, inner) →
      (kind = .thought → startOf .think rest = none) →
      Text.splitOnce kind.closeTag inner = some (body, after) → ThinkFirst after →
      ThinkFirst rest

/-! ## Any order of cutting -/

/-- The tag that is taken stands where the start says. -/
def Sound (start : List Char → Start) : Prop :=
  ∀ rest before kind inner, start rest = some (before, kind, inner) →
    rest = before ++ kind.openTag ++ inner

theorem startOf_sound (kind : TagKind) : Sound (startOf kind) := by
  intro rest before other inner h
  obtain ⟨parts, hparts, heq⟩ := Option.map_eq_some_iff.mp h
  cases heq
  exact Text.splitOnce_eq_some hparts

theorem thinkStart_sound : Sound thinkStart := by
  intro rest before kind inner h
  rcases Option.or_eq_some_iff.mp h with hthink | ⟨-, hthought⟩
  · exact startOf_sound .think _ _ _ _ hthink
  · exact startOf_sound .thought _ _ _ _ hthought

theorem leftmost_sound : Sound leftmost := by
  intro rest before kind inner h
  unfold leftmost at h
  split at h
  · next think thought hthink hthought =>
    split at h
    · cases h
      exact startOf_sound .think _ _ _ _ hthink
    · cases h
      exact startOf_sound .thought _ _ _ _ hthought
  · next think hthink _ =>
    cases h
    exact startOf_sound .think _ _ _ _ hthink
  · exact startOf_sound .thought _ _ _ _ h

/-- The characters a block takes out of the text. -/
def Block.text (block : Block) : List Char :=
  block.kind.openTag ++ block.body ++ (if block.closed then block.kind.closeTag else [])

/-- A cut loses no character and adds none. -/
theorem count_cutFrom {start : List Char → Start} (hstart : Sound start) (c : Char) (rounds : Nat)
    (rest : List Char) :
    rest.count c = (cutFrom start rounds rest).content.count c +
      ((cutFrom start rounds rest).blocks.flatMap Block.text).count c := by
  induction rounds generalizing rest with
  | zero => rw [cutFrom, flatMap_nil, count_nil, Nat.add_zero]
  | succ rounds ih =>
      unfold cutFrom
      split
      · rw [flatMap_nil, count_nil, Nat.add_zero]
      · next before kind inner h =>
        rw [hstart _ _ _ _ h]
        split
        · next body after hclose =>
          have hafter := ih after
          simp only [Text.splitOnce_eq_some hclose, flatMap_cons, Block.text, if_true,
            count_append]
          omega
        · simp [Block.text]

/-- Each round shortens the rest, so more rounds than characters change nothing. -/
theorem cutFrom_rounds {start : List Char → Start} (hstart : Sound start) {rounds rounds' : Nat}
    {rest : List Char} (h : rest.length < rounds) (h' : rest.length < rounds') :
    cutFrom start rounds rest = cutFrom start rounds' rest := by
  induction rounds generalizing rounds' rest with
  | zero => exact absurd h (Nat.not_lt_zero _)
  | succ rounds ih =>
      obtain ⟨rounds', rfl⟩ := Nat.exists_eq_succ_of_ne_zero (Nat.ne_of_gt (Nat.zero_lt_of_lt h'))
      rw [cutFrom, cutFrom]
      split
      · rfl
      · next before kind inner hfound =>
        split
        · next body after hclose =>
          have hopen : 0 < kind.openTag.length := by
            cases kind <;> decide
          have hshort : after.length + kind.openTag.length ≤ rest.length := by
            rw [hstart _ _ _ _ hfound, Text.splitOnce_eq_some hclose]
            simp only [length_append]
            omega
          have hbound : after.length < rounds := by omega
          have hbound' : after.length < rounds' := by omega
          rw [ih hbound hbound']
        · rfl

/-- How many blocks of a kind were cut out. -/
def opened (kind : TagKind) (blocks : List Block) : Nat :=
  blocks.countP fun block => decide (block.kind = kind)

/-- How many of them were closed. -/
def closed (kind : TagKind) (blocks : List Block) : Nat :=
  blocks.countP fun block => decide (block.kind = kind) && block.closed

/-- Only the last block can be left open. -/
theorem closed_cutFrom (start : List Char → Start) (kind : TagKind) (rounds : Nat)
    (rest : List Char) :
    closed kind (cutFrom start rounds rest).blocks ≤
        opened kind (cutFrom start rounds rest).blocks ∧
      opened kind (cutFrom start rounds rest).blocks ≤
        closed kind (cutFrom start rounds rest).blocks + 1 := by
  induction rounds generalizing rest with
  | zero => exact ⟨Nat.le_refl _, Nat.zero_le _⟩
  | succ rounds ih =>
      unfold cutFrom
      split
      · exact ⟨Nat.le_refl _, Nat.zero_le _⟩
      · next before other inner _ =>
        split
        · next body after _ =>
          have hafter := ih after
          unfold opened closed at hafter ⊢
          simp only [countP_cons, Bool.and_true]
          omega
        · by_cases hkind : other = kind
          · simp [opened, closed, hkind]
          · simp [opened, closed, hkind]

/-- A letter that only the tags of this kind have. -/
def TagKind.letter : TagKind → Char
  | .think => 'k'
  | .thought => 'g'

theorem count_openTag (kind other : TagKind) :
    other.openTag.count kind.letter = if other = kind then 1 else 0 := by
  cases kind <;> cases other <;> decide

theorem count_closeTag (kind other : TagKind) :
    other.closeTag.count kind.letter = if other = kind then 1 else 0 := by
  cases kind <;> cases other <;> decide

/-- The letters of the blocks are those of their tags and their bodies. -/
theorem count_blocks (kind : TagKind) (blocks : List Block) :
    (blocks.flatMap Block.text).count kind.letter = opened kind blocks + closed kind blocks +
      (blocks.map fun block => block.body.count kind.letter).sum := by
  induction blocks with
  | nil => rfl
  | cons block blocks ih =>
      have hblock : block.text.count kind.letter = (if block.kind = kind then 1 else 0) +
          (if block.kind = kind ∧ block.closed = true then 1 else 0) +
          block.body.count kind.letter := by
        unfold Block.text
        rw [count_append, count_append, count_openTag]
        cases hclosed : block.closed with
        | true =>
          rw [if_pos rfl, count_closeTag]
          simp only [and_true]
          omega
        | false => simp
      unfold opened closed at ih ⊢
      rw [flatMap_cons, count_append, hblock, ih, countP_cons, countP_cons,
        map_cons, sum_cons]
      simp only [decide_eq_true_eq, Bool.and_eq_true]
      omega

/-! ## What a turn tells of the blocks -/

/-- Trimming drops white space only. -/
theorem count_trimChars {c : Char} (hc : Text.isWhitespace c = false) (cs : List Char) :
    (Text.trimChars cs).count c = cs.count c := by
  have hdrop : ∀ cs : List Char, (cs.dropWhile Text.isWhitespace).count c = cs.count c := by
    intro cs
    induction cs with
    | nil => rfl
    | cons d cs ih =>
      rw [dropWhile_cons]
      split
      · next hspace =>
        have hne : d ≠ c := by
          rintro rfl
          rw [hc] at hspace
          cases hspace
        rw [ih, count_cons_of_ne hne]
      · rfl
  unfold Text.trimChars
  rw [count_reverse, hdrop, count_reverse, hdrop]

/-- Joining adds the separators only. -/
theorem count_intercalate {c : Char} {separator : List Char} (hc : c ∉ separator)
    (parts : List (List Char)) :
    (separator.intercalate parts).count c = (parts.map (List.count c)).sum := by
  induction parts with
  | nil => rfl
  | cons part parts ih =>
      cases parts with
      | nil => simp [intercalate]
      | cons other parts =>
        rw [intercalate_cons_cons, count_append, count_append, ih,
          count_eq_zero_of_not_mem hc, Nat.add_zero]
        rfl

theorem letter_not_space (kind : TagKind) : Text.isWhitespace kind.letter = false := by
  cases kind <;> decide

/-- The letters of the thinking of a turn. -/
def NormalizedTurn.letters (turn : NormalizedTurn) (c : Char) : Nat :=
  (turn.thinking.getD "").toList.count c + turn.content.toList.count c

theorem letters_turn (cut : Cut) (kind : TagKind) :
    cut.turn.letters kind.letter = (cut.blocks.map fun block => block.body.count kind.letter).sum +
      cut.content.count kind.letter := by
  have hcontent : (String.ofList (Text.trimChars cut.content)).toList.count kind.letter =
      cut.content.count kind.letter := by
    rw [String.toList_ofList, count_trimChars (letter_not_space kind)]
  have hseparator : kind.letter ∉ "\n\n".toList := by
    cases kind <;> decide
  have hjoined : ("\n\n".intercalate (cut.blocks.map fun block =>
      String.ofList (Text.trimChars block.body))).toList.count kind.letter =
        (cut.blocks.map fun block => block.body.count kind.letter).sum := by
    rw [String.toList_intercalate, count_intercalate hseparator, map_map, map_map]
    refine congrArg sum (map_congr_left fun block _ => ?_)
    show (String.ofList (Text.trimChars block.body)).toList.count kind.letter = _
    rw [String.toList_ofList, count_trimChars (letter_not_space kind)]
  unfold NormalizedTurn.letters Cut.turn
  dsimp only
  rw [hcontent]
  cases hblocks : cut.blocks with
  | nil => simp
  | cons block blocks =>
      rw [hblocks] at hjoined
      rw [← hjoined]
      simp

/-- Two cuts of one text that become the same turn have cut out as many blocks of each kind. -/
theorem opened_eq_of_turn {start start' : List Char → Start} (hstart : Sound start)
    (hstart' : Sound start') {rounds rounds' : Nat} {text : List Char}
    (h : (cutFrom start rounds text).turn = (cutFrom start' rounds' text).turn) (kind : TagKind) :
    opened kind (cutFrom start rounds text).blocks =
      opened kind (cutFrom start' rounds' text).blocks := by
  have hletters := congrArg (fun turn => turn.letters kind.letter) h
  simp only [letters_turn] at hletters
  have hcount := count_cutFrom hstart kind.letter rounds text
  have hcount' := count_cutFrom hstart' kind.letter rounds' text
  rw [count_blocks] at hcount hcount'
  have hclosed := closed_cutFrom start kind rounds text
  have hclosed' := closed_cutFrom start' kind rounds' text
  omega

/-! ## The text as tags and characters -/

/-- The four tags. -/
inductive Mark where
  | opens (kind : TagKind)
  | closes (kind : TagKind)
  deriving DecidableEq

/-- The alphabet of the tags. -/
def marks : Alphabet Mark where
  name
    | .opens .think => "think".toList
    | .opens .thought => "thought".toList
    | .closes .think => "/think".toList
    | .closes .thought => "/thought".toList
  noOpen
    | .opens .think | .opens .thought | .closes .think | .closes .thought => by decide
  noClose
    | .opens .think | .opens .thought | .closes .think | .closes .thought => by decide
  distinct := by
    rintro (kind | kind) (other | other) h <;> cases kind <;> cases other <;>
      first | rfl | exact absurd h (by decide)

theorem text_opens (kind : TagKind) : marks.text (.opens kind) = kind.openTag := by
  cases kind <;> rfl

theorem text_closes (kind : TagKind) : marks.text (.closes kind) = kind.closeTag := by
  cases kind <;> rfl

abbrev Tokens := List (Token Mark)

/-- A token that opens a block of this kind. -/
abbrev opener (kind : TagKind) : Token Mark := .tag (.opens kind)

/-- A token that closes a block of this kind. -/
abbrev closer (kind : TagKind) : Token Mark := .tag (.closes kind)

variable {tokens front rest : Tokens} {kind : TagKind}

theorem startOf_render (h : Normal marks tokens) (kind : TagKind) :
    startOf kind (render marks tokens) = (splitTag (.opens kind) tokens).map fun parts =>
      (render marks parts.1, kind, render marks parts.2) := by
  unfold startOf
  rw [← text_opens, splitOnce_render h, Option.map_map]
  rfl

theorem startOf_append (h : Normal marks (front ++ opener kind :: rest))
    (hfront : opener kind ∉ front) :
    startOf kind (render marks (front ++ opener kind :: rest)) =
      some (render marks front, kind, render marks rest) := by
  rw [startOf_render h, splitTag_append hfront]
  rfl

theorem startOf_eq_none (h : Normal marks tokens) :
    startOf kind (render marks tokens) = none ↔ opener kind ∉ tokens := by
  rw [startOf_render h, Option.map_eq_none_iff, splitTag_eq_none]

/-- A tag that comes first in a reading is the leftmost. -/
theorem leftmost_append (h : Normal marks (front ++ opener kind :: rest))
    (hfront : ∀ other, opener other ∉ front) :
    leftmost (render marks (front ++ opener kind :: rest)) =
      some (render marks front, kind, render marks rest) := by
  have hfirst := startOf_append h (hfront kind)
  have hlater : ∀ other, other ≠ kind →
      ∀ found, startOf other (render marks (front ++ opener kind :: rest)) = some found →
        (render marks front).length < found.1.length := by
    intro other hother found hfound
    rw [startOf_render h] at hfound
    obtain ⟨⟨before, after⟩, hsplit, rfl⟩ := Option.map_eq_some_iff.mp hfound
    obtain ⟨heq, hbefore⟩ := splitTag_eq_some hsplit
    rcases append_eq_append_iff.mp heq with ⟨middle, rfl, hrest⟩ | ⟨middle, hfront', hrest⟩
    · cases middle with
      | nil =>
        cases hrest
        exact absurd rfl hother
      | cons token middle =>
        cases hrest
        rw [render_append]
        simp [render, Alphabet.text]
    · cases middle with
      | nil =>
        cases hrest
        exact absurd rfl hother
      | cons token middle =>
        cases hrest
        exact absurd (hfront' ▸ mem_append_right _ mem_cons_self) (hfront other)
  unfold leftmost
  cases kind with
  | think =>
      rw [hfirst]
      cases hthought : startOf .thought (render marks (front ++ opener .think :: rest)) with
      | none => rfl
      | some found =>
        dsimp only
        rw [if_pos (Nat.le_of_lt (hlater .thought nofun found hthought))]
  | thought =>
      rw [hfirst]
      cases hthink : startOf .think (render marks (front ++ opener .thought :: rest)) with
      | none => rfl
      | some found =>
        dsimp only
        rw [if_neg (Nat.not_le.mpr (hlater .think nofun found hthink))]

theorem leftmost_eq_none (h : Normal marks tokens) (hnone : ∀ kind, opener kind ∉ tokens) :
    leftmost (render marks tokens) = none := by
  unfold leftmost
  rw [(startOf_eq_none h).mpr (hnone .think), (startOf_eq_none h).mpr (hnone .thought)]

/-- A reading has no opening tag, or it splits at its first one. -/
theorem split_opener (tokens : Tokens) :
    (∀ kind, opener kind ∉ tokens) ∨
      ∃ front kind rest, tokens = front ++ opener kind :: rest ∧ ∀ other, opener other ∉ front := by
  induction tokens with
  | nil => exact .inl fun _ => not_mem_nil
  | cons token tokens ih =>
      by_cases hopen : ∃ kind, token = opener kind
      · obtain ⟨kind, rfl⟩ := hopen
        exact .inr ⟨[], kind, tokens, rfl, fun _ => not_mem_nil⟩
      · have hne : ∀ kind, opener kind ≠ token := fun kind heq => hopen ⟨kind, heq.symm⟩
        rcases ih with hnone | ⟨front, kind, rest, rfl, hfront⟩
        · exact .inl fun kind => not_mem_cons_of_ne_of_not_mem (hne kind) (hnone kind)
        · exact .inr ⟨token :: front, kind, rest, rfl, fun other =>
            not_mem_cons_of_ne_of_not_mem (hne other) (hfront other)⟩

theorem split_closer (kind : TagKind) (tokens : Tokens) :
    closer kind ∉ tokens ∨
      ∃ body after, tokens = body ++ closer kind :: after ∧ closer kind ∉ body := by
  cases hsplit : splitTag (.closes kind) tokens with
  | none => exact .inl (splitTag_eq_none.mp hsplit)
  | some parts => exact .inr ⟨parts.1, parts.2, splitTag_eq_some hsplit⟩

theorem splitOnce_unclosed (h : Normal marks rest) (hclose : closer kind ∉ rest) :
    Text.splitOnce kind.closeTag (render marks rest) = none := by
  rw [← text_closes, splitOnce_render h, splitTag_eq_none.mpr hclose]
  rfl

theorem splitOnce_closed {body after : Tokens} (h : Normal marks (body ++ closer kind :: after))
    (hbody : closer kind ∉ body) :
    Text.splitOnce kind.closeTag (render marks (body ++ closer kind :: after)) =
      some (render marks body, render marks after) := by
  rw [← text_closes, splitOnce_render h, splitTag_append hbody]
  rfl

theorem cutFrom_unclosed {start : List Char → Start} {text before : List Char} {rounds : Nat}
    (h : start text = some (before, kind, render marks rest)) (hnormal : Normal marks rest)
    (hclose : closer kind ∉ rest) :
    cutFrom start (rounds + 1) text = ⟨before, [⟨kind, render marks rest, false⟩]⟩ := by
  rw [cutFrom, h]
  dsimp only
  rw [splitOnce_unclosed hnormal hclose]

/-- A round that cuts a closed block out. -/
theorem cutFrom_closed {start : List Char → Start} {text before : List Char} {rounds : Nat}
    {body after : Tokens}
    (h : start text = some (before, kind, render marks (body ++ closer kind :: after)))
    (hnormal : Normal marks (body ++ closer kind :: after)) (hbody : closer kind ∉ body) :
    cutFrom start (rounds + 1) text =
      ⟨before ++ (cutFrom start rounds (render marks after)).content,
        ⟨kind, render marks body, true⟩ :: (cutFrom start rounds (render marks after)).blocks⟩ := by
  rw [cutFrom, h]
  dsimp only
  rw [splitOnce_closed hnormal hbody]

/-- How many blocks of a kind open when the tokens are taken one by one, outside of a block or
inside of one. -/
def blocksOf (kind : TagKind) : Option TagKind → Tokens → Nat
  | _, [] => 0
  | none, .tag (.opens other) :: rest =>
    (if other = kind then 1 else 0) + blocksOf kind (some other) rest
  | none, _ :: rest => blocksOf kind none rest
  | some other, token :: rest =>
    if token = closer other then blocksOf kind none rest else blocksOf kind (some other) rest

theorem blocksOf_outside {other : TagKind} (hfront : ∀ kind, opener kind ∉ front) :
    blocksOf other none (front ++ rest) = blocksOf other none rest := by
  induction front with
  | nil => rfl
  | cons token front ih =>
      have hrest := ih fun kind hmem => hfront kind (mem_cons_of_mem _ hmem)
      match token with
      | .tag (.opens kind) => exact absurd mem_cons_self (hfront kind)
      | .tag (.closes kind) => exact hrest
      | .plain c => exact hrest

theorem blocksOf_inside {other : TagKind} (hfront : closer kind ∉ front) :
    blocksOf other (some kind) (front ++ closer kind :: rest) = blocksOf other none rest := by
  induction front with
  | nil => exact if_pos rfl
  | cons token front ih =>
      rw [mem_cons, not_or] at hfront
      rw [cons_append, blocksOf, if_neg (Ne.symm hfront.1)]
      exact ih hfront.2

theorem blocksOf_unclosed {other : TagKind} (hfront : closer kind ∉ front) :
    blocksOf other (some kind) front = 0 := by
  induction front with
  | nil => rfl
  | cons token front ih =>
      rw [mem_cons, not_or] at hfront
      rw [blocksOf, if_neg (Ne.symm hfront.1)]
      exact ih hfront.2

/-- The cut from left to right takes the tokens one by one. -/
theorem opened_leftmost (other : TagKind) {rounds : Nat} (h : Normal marks tokens)
    (hrounds : tokens.length < rounds) :
    opened other (cutFrom leftmost rounds (render marks tokens)).blocks =
      blocksOf other none tokens := by
  induction rounds generalizing tokens with
  | zero => exact absurd hrounds (Nat.not_lt_zero _)
  | succ rounds ih =>
      rcases split_opener tokens with hnone | ⟨front, kind, rest, rfl, hfront⟩
      · have hcut : cutFrom leftmost (rounds + 1) (render marks tokens) =
            ⟨render marks tokens, []⟩ := by
          unfold cutFrom
          rw [leftmost_eq_none h hnone]
        have hplain : blocksOf other none (tokens ++ []) = blocksOf other none [] :=
          blocksOf_outside hnone
        rw [append_nil] at hplain
        rw [hcut, hplain]
        rfl
      · have hstart := leftmost_append h hfront
        have hrest : Normal marks rest := h.right.tail
        rw [blocksOf_outside hfront, blocksOf]
        rcases split_closer kind rest with hopen | ⟨body, after, rfl, hbody⟩
        · rw [cutFrom_unclosed hstart hrest hopen, blocksOf_unclosed hopen]
          simp [opened]
        · have hafter : Normal marks after := hrest.right.tail
          have hshort : after.length < rounds := by
            simp only [length_append, length_cons] at hrounds
            omega
          rw [cutFrom_closed hstart hrest hbody, blocksOf_inside hbody, ← ih hafter hshort]
          simp only [opened, countP_cons, decide_eq_true_eq]
          omega

/-! ## The loop's own order -/

theorem thinkStart_append (h : Normal marks (front ++ opener .think :: rest))
    (hfront : opener .think ∉ front) :
    thinkStart (render marks (front ++ opener .think :: rest)) =
      some (render marks front, .think, render marks rest) := by
  unfold thinkStart
  rw [startOf_append h hfront]
  rfl

theorem thinkStart_eq_leftmost {text : List Char} (h : startOf .think text = none) :
    thinkStart text = leftmost text := by
  unfold thinkStart leftmost
  rw [h]
  rfl

/-- Without a `<think>` the loop cuts from left to right. -/
theorem cutFrom_eq_leftmost (rounds : Nat) (h : Normal marks tokens)
    (hthink : opener .think ∉ tokens) :
    cutFrom thinkStart rounds (render marks tokens) =
      cutFrom leftmost rounds (render marks tokens) := by
  induction rounds generalizing tokens with
  | zero => rfl
  | succ rounds ih =>
      have hstart := thinkStart_eq_leftmost ((startOf_eq_none h).mpr hthink)
      rcases split_opener tokens with hnone | ⟨front, kind, rest, rfl, hfront⟩
      · rw [cutFrom, cutFrom, hstart, leftmost_eq_none h hnone]
      · have hleft := leftmost_append h hfront
        have hrest : Normal marks rest := h.right.tail
        rcases split_closer kind rest with hopen | ⟨body, after, rfl, hbody⟩
        · rw [cutFrom_unclosed (hstart.trans hleft) hrest hopen,
            cutFrom_unclosed hleft hrest hopen]
        · have hafter : opener .think ∉ after := by
            intro hmem
            refine hthink (mem_append_right _ (mem_cons_of_mem _ ?_))
            exact mem_append_right _ (mem_cons_of_mem _ hmem)
          rw [cutFrom_closed (hstart.trans hleft) hrest hbody, cutFrom_closed hleft hrest hbody,
            ih hrest.right.tail hafter]

/-- From a `<think>` on the loop cuts `<think>` blocks until one is never closed or none is left. -/
theorem think_blocks {rounds : Nat} (h : Normal marks (front ++ opener .think :: rest))
    (hfront : opener .think ∉ front)
    (hrounds : (front ++ opener .think :: rest).length < rounds) :
    let blocks := (cutFrom thinkStart rounds (render marks (front ++ opener .think :: rest))).blocks
    0 < opened .think blocks ∧
      (opened .thought blocks = 0 ∨
        ∃ middle after, rest = middle ++ closer .think :: after ∧ opener .think ∉ after ∧
          opened .thought blocks = blocksOf .thought none after) := by
  induction rounds generalizing front rest with
  | zero => exact absurd hrounds (Nat.not_lt_zero _)
  | succ rounds ih =>
      intro blocks
      have hstart := thinkStart_append h hfront
      have hrest : Normal marks rest := h.right.tail
      rcases split_closer .think rest with hopen | ⟨body, after, rfl, hbody⟩
      · have hblocks : blocks = [⟨.think, render marks rest, false⟩] :=
          congrArg Cut.blocks (cutFrom_unclosed hstart hrest hopen)
        rw [hblocks]
        exact ⟨by simp [opened], .inl rfl⟩
      · have hafter : Normal marks after := hrest.right.tail
        have hblocks : blocks = ⟨.think, render marks body, true⟩ ::
            (cutFrom thinkStart rounds (render marks after)).blocks :=
          congrArg Cut.blocks (cutFrom_closed hstart hrest hbody)
        have hthought : opened .thought blocks =
            opened .thought (cutFrom thinkStart rounds (render marks after)).blocks := by
          rw [hblocks]
          simp [opened]
        have hshort : after.length < rounds := by
          simp only [length_append, length_cons] at hrounds
          omega
        refine ⟨by rw [hblocks]; simp [opened], ?_⟩
        rw [hthought]
        cases hsplit : splitTag (.opens .think) after with
        | none =>
          have hnone := splitTag_eq_none.mp hsplit
          refine .inr ⟨body, after, rfl, hnone, ?_⟩
          rw [cutFrom_eq_leftmost rounds hafter hnone, opened_leftmost .thought hafter hshort]
        | some parts =>
          obtain ⟨next, later⟩ := parts
          obtain ⟨rfl, hnext⟩ := splitTag_eq_some hsplit
          rcases (ih hafter hnext hshort).2 with hzero | ⟨middle, last, rfl, hlast, heq⟩
          · exact .inl hzero
          · refine .inr ⟨body ++ closer .think :: (next ++ opener .think :: middle), last, ?_,
              hlast, heq⟩
            simp only [append_assoc, cons_append]

/-! ## Where the two orders differ -/

/-- Inside a `<thought>` block at most one block is missed. -/
theorem blocksOf_le_inside (tokens : Tokens) (hthink : opener .think ∉ tokens) :
    blocksOf .thought none tokens ≤ 1 + blocksOf .thought (some .thought) tokens := by
  induction tokens with
  | nil => exact Nat.zero_le _
  | cons token tokens ih =>
      rw [mem_cons, not_or] at hthink
      have hrest := ih hthink.2
      match token with
      | .tag (.opens .think) => exact absurd rfl hthink.1
      | .tag (.opens .thought) => exact Nat.le_refl _
      | .tag (.closes .think) => exact hrest
      | .tag (.closes .thought) => exact Nat.le_add_left _ _
      | .plain c => exact hrest

/-- The `<thought>` blocks after a `</think>` are cut whatever came before it. -/
theorem blocksOf_after (front : Tokens) {after : Tokens} (hthink : opener .think ∉ after) :
    blocksOf .thought none after ≤ blocksOf .thought none (front ++ closer .think :: after) ∧
      blocksOf .thought none after ≤
        1 + blocksOf .thought (some .thought) (front ++ closer .think :: after) ∧
      blocksOf .thought none after ≤
        blocksOf .thought (some .think) (front ++ closer .think :: after) := by
  induction front with
  | nil => exact ⟨Nat.le_refl _, blocksOf_le_inside after hthink, Nat.le_refl _⟩
  | cons token front ih =>
      obtain ⟨houtside, hthought, hthinking⟩ := ih
      match token with
      | .tag (.opens .think) => exact ⟨by simpa [blocksOf] using hthinking, hthought, hthinking⟩
      | .tag (.opens .thought) => exact ⟨hthought, hthought, hthinking⟩
      | .tag (.closes .think) => exact ⟨houtside, hthought, houtside⟩
      | .tag (.closes .thought) =>
        exact ⟨houtside, Nat.le_trans houtside (Nat.le_add_left _ _), hthinking⟩
      | .plain c => exact ⟨houtside, hthought, hthinking⟩

theorem blocksOf_think_eq_zero {tokens : Tokens} (hthink : opener .think ∉ tokens)
    (place : Option TagKind) : blocksOf .think place tokens = 0 := by
  induction tokens generalizing place with
  | nil => rfl
  | cons token tokens ih =>
      rw [mem_cons, not_or] at hthink
      have hrest := ih hthink.2
      cases place with
      | none =>
        match token with
        | .tag (.opens .think) => exact absurd rfl hthink.1
        | .tag (.opens .thought) => simpa [blocksOf] using hrest (some .thought)
        | .tag (.closes kind) => exact hrest none
        | .plain c => exact hrest none
      | some kind =>
        rw [blocksOf]
        split
        · exact hrest none
        · exact hrest (some kind)

/-- An open `<thought>` block hides every `<think>` block up to a `</think>`, or is the last one. -/
theorem blocksOf_inside_cases (front : Tokens) {after : Tokens} (hthink : opener .think ∉ after) :
    blocksOf .thought none after ≤
        blocksOf .thought (some .thought) (front ++ closer .think :: after) ∨
      blocksOf .think (some .thought) (front ++ closer .think :: after) = 0 := by
  induction front with
  | nil => exact .inr (blocksOf_think_eq_zero hthink (some .thought))
  | cons token front ih =>
      by_cases hclose : token = closer .thought
      · refine .inl ?_
        rw [hclose]
        exact (blocksOf_after front hthink).1
      · rw [cons_append, blocksOf, blocksOf, if_neg hclose, if_neg hclose]
        exact ih

/-- At a `<thought>` block before a `<think>` the two orders cut out different numbers of blocks. -/
theorem opened_ne {rounds : Nat} (h : Normal marks (front ++ opener .thought :: rest))
    (hfront : ∀ kind, opener kind ∉ front) (hthink : opener .think ∈ rest)
    (hrounds : (front ++ opener .thought :: rest).length < rounds) :
    ∃ kind, opened kind (cutFrom thinkStart rounds
        (render marks (front ++ opener .thought :: rest))).blocks ≠
      opened kind (cutFrom leftmost rounds
        (render marks (front ++ opener .thought :: rest))).blocks := by
  have hideal : ∀ kind, opened kind (cutFrom leftmost rounds
      (render marks (front ++ opener .thought :: rest))).blocks =
        (if TagKind.thought = kind then 1 else 0) + blocksOf kind (some .thought) rest := by
    intro kind
    rw [opened_leftmost kind h hrounds, blocksOf_outside hfront]
    rfl
  rw [exists_congr fun kind => by rw [hideal kind]]
  obtain ⟨middle, last, hsplit, hmiddle⟩ : ∃ middle last,
      rest = middle ++ opener .think :: last ∧ opener .think ∉ middle := by
    cases hsplit : splitTag (.opens .think) rest with
    | none => exact absurd hthink (splitTag_eq_none.mp hsplit)
    | some parts => exact ⟨parts.1, parts.2, splitTag_eq_some hsplit⟩
  have hwhole : front ++ opener .thought :: rest =
      (front ++ opener .thought :: middle) ++ opener .think :: last := by
    rw [hsplit, append_assoc, cons_append]
  have hbefore : opener .think ∉ front ++ opener .thought :: middle := by
    simp [hfront .think, hmiddle]
  have hblocks := think_blocks (hwhole ▸ h) hbefore (hwhole ▸ hrounds)
  rw [← hwhole] at hblocks
  obtain ⟨hopened, hzero | ⟨body, after, hlast, hafter, heq⟩⟩ := hblocks
  · refine ⟨.thought, ?_⟩
    rw [hzero, if_pos rfl]
    omega
  · have hrest : rest = (middle ++ opener .think :: body) ++ closer .think :: after := by
      rw [hsplit, hlast, append_assoc, cons_append]
    rcases blocksOf_inside_cases (middle ++ opener .think :: body) hafter with hle | hnone
    · refine ⟨.thought, ?_⟩
      rw [heq, hrest, if_pos rfl]
      omega
    · refine ⟨.think, ?_⟩
      rw [← hrest] at hnone
      rw [hnone, if_neg nofun]
      omega

/-! ## When thinking is cut out right -/

/-- Where the leftmost tag opens a `<think>` block, or no `<think>` is left, the loop takes it. -/
theorem thinkStart_of_leftmost {text before inner : List Char}
    (h : leftmost text = some (before, kind, inner))
    (hkind : kind = .thought → startOf .think text = none) :
    thinkStart text = some (before, kind, inner) := by
  cases kind with
  | thought => rw [thinkStart_eq_leftmost (hkind rfl), h]
  | think =>
      have hthought : startOf .thought text ≠ some (before, .think, inner) := by
        intro heq
        obtain ⟨parts, -, hparts⟩ := Option.map_eq_some_iff.mp heq
        cases hparts
      unfold leftmost at h
      unfold thinkStart
      cases hthink : startOf .think text with
      | none =>
        rw [hthink] at h
        exact absurd h hthought
      | some think =>
        rw [hthink] at h
        rw [← h]
        cases hother : startOf .thought text with
        | none => rfl
        | some thought =>
          rw [hother] at h hthought
          dsimp only at h ⊢
          split at h
          · next hle =>
            rw [if_pos hle]
            rfl
          · exact absurd h hthought

/-- A text that never has a `<thought>` block before a `<think>` is cut from left to right. -/
theorem ThinkFirst.cutFrom_eq {text : List Char} (h : ThinkFirst text) (rounds : Nat) :
    cutFrom thinkStart rounds text = cutFrom leftmost rounds text := by
  induction h generalizing rounds with
  | @plain rest hnone =>
      cases rounds with
      | zero => rfl
      | succ rounds =>
        have hthink : startOf .think rest = none := by
          unfold leftmost at hnone
          split at hnone
          · split at hnone <;> cases hnone
          · cases hnone
          · assumption
        rw [cutFrom, cutFrom, thinkStart_eq_leftmost hthink, hnone]
  | unclosed hleft hkind hclose =>
      cases rounds with
      | zero => rfl
      | succ rounds =>
        rw [cutFrom, cutFrom, thinkStart_of_leftmost hleft hkind, hleft]
        dsimp only
        rw [hclose]
  | block hleft hkind hclose _ ih =>
      cases rounds with
      | zero => rfl
      | succ rounds =>
        rw [cutFrom, cutFrom, thinkStart_of_leftmost hleft hkind, hleft]
        dsimp only
        rw [hclose]
        dsimp only
        rw [ih rounds]

/-- Where both orders cut the same blocks, no `<thought>` block comes before a `<think>`. -/
theorem thinkFirst_of_opened {rounds : Nat} (h : Normal marks tokens)
    (hrounds : tokens.length < rounds)
    (hopened : ∀ kind, opened kind (cutFrom thinkStart rounds (render marks tokens)).blocks =
      opened kind (cutFrom leftmost rounds (render marks tokens)).blocks) :
    ThinkFirst (render marks tokens) := by
  induction rounds generalizing tokens with
  | zero => exact absurd hrounds (Nat.not_lt_zero _)
  | succ rounds ih =>
      rcases split_opener tokens with hnone | ⟨front, kind, rest, rfl, hfront⟩
      · exact .plain (leftmost_eq_none h hnone)
      · have hleft := leftmost_append h hfront
        have hrest : Normal marks rest := h.right.tail
        have hkind : kind = .thought →
            startOf .think (render marks (front ++ opener kind :: rest)) = none := by
          rintro rfl
          rw [startOf_eq_none h]
          intro hmem
          have hlater : opener .think ∈ rest := by
            simpa [hfront .think] using hmem
          obtain ⟨other, hne⟩ := opened_ne h hfront hlater hrounds
          exact hne (hopened other)
        have hstart := thinkStart_of_leftmost hleft hkind
        rcases split_closer kind rest with hopen | ⟨body, after, rfl, hbody⟩
        · exact .unclosed hleft hkind (splitOnce_unclosed hrest hopen)
        · have hshort : after.length < rounds := by
            simp only [length_append, length_cons] at hrounds
            omega
          refine .block hleft hkind (splitOnce_closed hrest hbody)
            (ih hrest.right.tail hshort fun other => ?_)
          have hequal := hopened other
          rw [cutFrom_closed hstart hrest hbody, cutFrom_closed hleft hrest hbody] at hequal
          simp only [opened, countP_cons] at hequal ⊢
          omega

theorem length_le_render (tokens : Tokens) : tokens.length ≤ (render marks tokens).length := by
  induction tokens with
  | nil => exact Nat.le_refl _
  | cons token tokens ih =>
      match token with
      | .tag mark =>
        simp only [render, Alphabet.text, length_cons, length_append]
        omega
      | .plain c => exact Nat.succ_le_succ ih

/-- The loop ends within as many rounds as there are characters, and one more. The turn separates
the blocks from the rest of the text exactly when the blocks, taken from left to right, never have a
`<thought>` before a `<think>`. -/
theorem normalizeThinkingTokens_iff (text : String) :
    (∀ rounds, text.length < rounds → cutFrom thinkStart rounds text.toList =
      cutFrom thinkStart (text.length + 1) text.toList) ∧
    (normalizeThinkingTokens text = separated text ↔ ThinkFirst text.toList) := by
  refine ⟨fun rounds hrounds => ?_, fun h => ?_, fun h => ?_⟩
  · rw [← String.length_toList] at hrounds ⊢
    exact cutFrom_rounds thinkStart_sound hrounds (Nat.lt_succ_self _)
  · obtain ⟨tokens, hnormal, htext⟩ := exists_normal marks text.toList
    have hrounds : tokens.length < text.length + 1 := by
      rw [← String.length_toList, ← htext]
      exact Nat.lt_succ_of_le (length_le_render tokens)
    rw [← htext]
    refine thinkFirst_of_opened hnormal hrounds fun kind => ?_
    rw [htext]
    exact opened_eq_of_turn thinkStart_sound leftmost_sound h kind
  · unfold normalizeThinkingTokens separated
    rw [h.cutFrom_eq]

/-- The block that opens first stays in the content. -/
theorem normalizeThinkingTokens_leak :
    let text := "<thought>plan</thought>ok<think>more</think>"
    (normalizeThinkingTokens text).content = "<thought>plan</thought>ok" ∧
      (separated text).content = "ok" ∧ normalizeThinkingTokens text ≠ separated text := by
  decide +kernel

end Omp2.Inference
