import Omp2.Control.Projection
import Omp2.Inference.JsonRepair

/-!
# Tool calls that leaked into the text

`extract_leaked_tool_calls` of `omp-inference/src/repair.rs` scans an answer for tool calls in four
dialects. Its loops hold byte positions and cut the text there; a position inside a character is a
panic. Three of the dialects move on by what they have found. The second one moves on by the length
of a piece of JSON from the position where the untrimmed input starts, so white space of more than
one byte, or a wide character in the JSON, can leave its position inside a character.
-/

namespace Omp2.Inference

open Control Json Slices Text

/-- Why a scan does not return: a slice at a bad position, or more rounds than were allowed. -/
inductive Halt where
  | panic
  | rounds
  deriving DecidableEq, Repr

/-- A slice of a text panics where it is not defined. -/
def orPanic {α : Type} : Option α → Except Halt α
  | some a => .ok a
  | none => .error .panic

/-! ## The first JSON block -/

/-- The state of the scan for a block: whether it has started, the depth, and the place in a
string. -/
structure BlockScan where
  started : Bool
  depth : Nat
  inString : Bool
  escaped : Bool

/-- One character of the scan; none when it ends the block. -/
def BlockScan.next (scan : BlockScan) (c : Char) : Option BlockScan :=
  if scan.started = false then
    if c = '\x7b' ∨ c = '[' then some { scan with started := true, depth := 1 } else some scan
  else if scan.escaped then some { scan with escaped := false }
  else if c = '\\' then some { scan with escaped := true }
  else if c = '"' then some { scan with inString := !scan.inString }
  else if scan.inString then some scan
  else if c = '\x7b' ∨ c = '[' then some { scan with depth := scan.depth + 1 }
  else if c = '\x7d' ∨ c = ']' then
    if scan.depth = 1 then none else some { scan with depth := scan.depth - 1 }
  else some scan

/-- The byte position after the block, or zero. `position` is that of the next character. -/
def blockEnd : List Char → BlockScan → Nat → Nat
  | [], _, _ => 0
  | c :: cs, scan, position =>
    match scan.next c with
    | some scan => blockEnd cs scan (position + c.utf8Size)
    | none => position + c.utf8Size

/-- `extract_first_json_block`. -/
def extractFirstJsonBlock (s : List Char) : Except Halt (List Char) :=
  let «end» := blockEnd s ⟨false, 0, false, false⟩ 0
  if 0 < «end» then orPanic (takeBytes s «end»)
  else .ok (trimChars ((linesFrom [] s).head?.getD s))

/-! ## Calls -/

section Extraction

variable [SerdeJson]

/-- The value of a text that is JSON, or can be repaired to JSON. -/
def parsedValue (cs : List Char) : Option Value :=
  match fromStr cs with
  | .ok value => some value
  | .error _ => (repairMalformedJson cs 5).toOption

/-- The calls found so far, and their counter. -/
structure Leaked where
  counter : Nat
  calls : List ToolCallSpec

/-- Add a call under the next number. `minted` stands in where the name is no identifier. -/
def Leaked.push (leaked : Leaked) (minted : ToolCallId) (label name : String) (arguments : Value) :
    Leaked :=
  let counter := leaked.counter + 1
  let id := (Id.new s!"{label}_{counter}").toOption.getD minted
  { counter, calls := leaked.calls ++ [{ id, name, arguments }] }

/-- `parse_json_tool_call`, which adds the call it finds. -/
def Leaked.pushJson (leaked : Leaked) (minted : ToolCallId) (value : Value) : Leaked :=
  let name := (((value.get "name").or (value.get "tool")).or (value.get "function")).bind
    Value.asStr
  match name with
  | none => leaked
  | some name =>
    let arguments := (((value.get "arguments").or (value.get "parameters")).or
      (value.get "input")).getD (.object [])
    leaked.push minted "call_synthesized" name arguments

/-! ## The scans -/

variable (minted : ToolCallId) (text : List Char)

/-- Patterns 1 and 3: a JSON text between two markers. -/
def markedScan (opening closing : List Char) : Nat → Nat → Leaked → Except Halt Leaked
  | 0, _, _ => .error .rounds
  | rounds + 1, cursor, leaked => do
    let rest ← orPanic (dropBytes text cursor)
    match find opening rest with
    | none => .ok leaked
    | some start => do
      let absStart := cursor + start + byteLength opening
      let inner ← orPanic (dropBytes text absStart)
      match find closing inner with
      | none => .ok leaked
      | some «end» => do
        let body ← orPanic (slice text absStart (absStart + «end»))
        let leaked := match parsedValue (trimChars body) with
          | some value => leaked.pushJson minted value
          | none => leaked
        markedScan opening closing rounds (absStart + «end» + byteLength closing) leaked

/-- Pattern 2: an action and its input. -/
def actionScan : Nat → Nat → Leaked → Except Halt Leaked
  | 0, _, _ => .error .rounds
  | rounds + 1, cursor, leaked => do
    let rest ← orPanic (dropBytes text cursor)
    match find "Action:".toList rest with
    | none => .ok leaked
    | some action => do
      let absAction := cursor + action + byteLength "Action:".toList
      let rest ← orPanic (dropBytes text absAction)
      match find "Action Input:".toList rest with
      | none => actionScan rounds absAction leaked
      | some input => do
        let toolName ← orPanic (takeBytes rest input)
        let inputStart := input + byteLength "Action Input:".toList
        let raw ← orPanic (dropBytes rest inputStart)
        let candidate ← extractFirstJsonBlock (trimChars raw)
        let leaked := match parsedValue candidate with
          | some value =>
            leaked.push minted "call_leaked" (String.ofList (trimChars toolName)) value
          | none => leaked
        -- The white space that was trimmed before the candidate is not counted.
        actionScan rounds (absAction + inputStart + byteLength candidate) leaked

/-- The name in the header of a tag. -/
def headerName (header : List Char) : Except Halt (List Char) :=
  match find "name=\"".toList header with
  | none => .ok []
  | some name => do
    let part ← orPanic (dropBytes header (name + 6))
    .ok (part.takeWhile (· ≠ '"'))

/-- Pattern 4: an XML-like tag. -/
def tagScan (tagName : List Char) : Nat → Nat → Leaked → Except Halt Leaked
  | 0, _, _ => .error .rounds
  | rounds + 1, cursor, leaked => do
    let openPattern := '<' :: tagName
    let closePattern := "</".toList ++ tagName ++ ['>']
    let rest ← orPanic (dropBytes text cursor)
    match find openPattern rest with
    | none => .ok leaked
    | some start => do
      let absStart := cursor + start
      let tag ← orPanic (dropBytes text absStart)
      match find ['>'] tag with
      | none => .ok leaked
      | some tagEnd => do
        let header ← orPanic (slice text absStart (absStart + tagEnd))
        let contentStart := absStart + tagEnd + 1
        let content ← orPanic (dropBytes text contentStart)
        match find closePattern content with
        | none => .ok leaked
        | some close => do
          let body ← orPanic (slice text contentStart (contentStart + close))
          let toolName ← headerName header
          let leaked := match parsedValue (trimChars body) with
            | some value =>
              if toolName ≠ [] then
                leaked.push minted "call_leaked" (String.ofList toolName) value
              else leaked.pushJson minted value
            | none => leaked
          tagScan tagName rounds (contentStart + close + byteLength closePattern) leaked

/-- `extract_leaked_tool_calls`. Each of its loops gets more rounds than there are characters. -/
def extractLeakedToolCalls (minted : ToolCallId) (text : String) :
    Except Halt (List ToolCallSpec) := do
  let cs := text.toList
  let rounds := cs.length + 1
  let leaked ← markedScan minted cs "<tool_call>".toList "</tool_call>".toList rounds 0 ⟨0, []⟩
  let leaked ← actionScan minted cs rounds 0 leaked
  let leaked ← markedScan minted cs "```json".toList "```".toList rounds 0 leaked
  let leaked ← tagScan minted cs "tool_use".toList rounds 0 leaked
  let leaked ← tagScan minted cs "invoke".toList rounds 0 leaked
  let leaked ← tagScan minted cs "function_call".toList rounds 0 leaked
  .ok leaked.calls

/-! ## The scans that move by what they find -/

variable {minted text}

omit [SerdeJson] in
theorem orPanic_bind {α β : Type} (a : α) (f : α → Except Halt β) :
    (orPanic (some a) >>= f) = f a :=
  rfl

omit [SerdeJson] in
theorem ok_bind {α β : Type} (a : α) (f : α → Except Halt β) :
    ((Except.ok a : Except Halt α) >>= f) = f a :=
  rfl

omit [SerdeJson] in
/-- The end of a block is a position between two characters. -/
theorem blockEnd_cases (cs : List Char) (scan : BlockScan) (position : Nat) :
    blockEnd cs scan position = 0 ∨
      ∃ front rest, cs = front ++ rest ∧
        blockEnd cs scan position = position + byteLength front := by
  induction cs generalizing scan position with
  | nil => exact .inl rfl
  | cons c cs ih =>
      unfold blockEnd
      split
      · next scan' _ =>
        rcases ih scan' (position + c.utf8Size) with hzero | ⟨front, rest, rfl, hend⟩
        · exact .inl hzero
        · exact .inr ⟨c :: front, rest, rfl, hend.trans (Nat.add_assoc _ _ _)⟩
      · exact .inr ⟨[c], cs, rfl, rfl⟩

omit [SerdeJson] in
/-- The first block is always found, or replaced by the first line. -/
theorem extractFirstJsonBlock_ok (s : List Char) :
    ∃ candidate, extractFirstJsonBlock s = .ok candidate := by
  unfold extractFirstJsonBlock
  dsimp only
  split
  · next hpositive =>
    rcases blockEnd_cases s ⟨false, 0, false, false⟩ 0 with hzero | ⟨front, rest, hs, hend⟩
    · rw [hzero] at hpositive
      exact absurd hpositive (Nat.lt_irrefl 0)
    · rw [hend, Nat.zero_add, hs, takeBytes_append]
      exact ⟨front, rfl⟩
  · exact ⟨_, rfl⟩

/-- The scan between two markers ends well. -/
theorem markedScan_ok {opening closing rest : List Char} {rounds cursor : Nat} (leaked : Leaked)
    (hopening : opening ≠ []) (h : At text cursor rest) (hrounds : rest.length < rounds) :
    ∃ leaked', markedScan minted text opening closing rounds cursor leaked = .ok leaked' := by
  induction rounds generalizing cursor rest leaked with
  | zero => exact absurd hrounds (Nat.not_lt_zero _)
  | succ rounds ih =>
      unfold markedScan
      rw [h.dropBytes, orPanic_bind]
      cases hfind : find opening rest with
      | none => exact ⟨leaked, rfl⟩
      | some start =>
        obtain ⟨before, inner, -, rfl, rfl⟩ := find_eq_some hfind
        have hinner := h.append.append
        dsimp only
        rw [hinner.dropBytes, orPanic_bind]
        cases hclose : find closing inner with
        | none => exact ⟨leaked, rfl⟩
        | some «end» =>
          obtain ⟨body, after, -, rfl, rfl⟩ := find_eq_some hclose
          dsimp only
          rw [hinner.slice, orPanic_bind]
          refine ih _ hinner.append.append ?_
          have hlength := List.length_pos_iff.mpr hopening
          simp only [List.length_append] at hrounds
          omega

omit [SerdeJson] in
theorem headerName_ok (header : List Char) : ∃ name, headerName header = .ok name := by
  unfold headerName
  cases hfind : find "name=\"".toList header with
  | none => exact ⟨[], rfl⟩
  | some name =>
      obtain ⟨before, after, -, rfl, rfl⟩ := find_eq_some hfind
      have hpart := (at_start (before ++ ("name=\"".toList ++ after))).append.append
      rw [Nat.zero_add] at hpart
      dsimp only
      rw [show (6 : Nat) = byteLength "name=\"".toList from by decide, hpart.dropBytes]
      exact ⟨_, rfl⟩

/-- The scan for a tag ends well. -/
theorem tagScan_ok {tagName rest : List Char} {rounds cursor : Nat} (leaked : Leaked)
    (h : At text cursor rest) (hrounds : rest.length < rounds) :
    ∃ leaked', tagScan minted text tagName rounds cursor leaked = .ok leaked' := by
  induction rounds generalizing cursor rest leaked with
  | zero => exact absurd hrounds (Nat.not_lt_zero _)
  | succ rounds ih =>
      unfold tagScan
      dsimp only
      rw [h.dropBytes, orPanic_bind]
      cases hfind : find ('<' :: tagName) rest with
      | none => exact ⟨leaked, rfl⟩
      | some start =>
        obtain ⟨before, after, -, rfl, rfl⟩ := find_eq_some hfind
        have htag := h.append
        dsimp only
        rw [htag.dropBytes, orPanic_bind]
        cases hend : find ['>'] ('<' :: tagName ++ after) with
        | none => exact ⟨leaked, rfl⟩
        | some tagEnd =>
          obtain ⟨header, content, -, hsplit, rfl⟩ := find_eq_some hend
          have hshort : content.length < before.length + ('<' :: tagName ++ after).length := by
            rw [hsplit]
            simp only [List.length_append, List.length_singleton]
            omega
          rw [hsplit] at htag
          have hcontent := htag.append.append
          rw [show byteLength ['>'] = 1 from rfl] at hcontent
          dsimp only
          rw [htag.slice, orPanic_bind, hcontent.dropBytes, orPanic_bind]
          cases hclose : find ("</".toList ++ tagName ++ ['>']) content with
          | none => exact ⟨leaked, rfl⟩
          | some close =>
            obtain ⟨body, rest, -, rfl, rfl⟩ := find_eq_some hclose
            obtain ⟨toolName, hname⟩ := headerName_ok header
            dsimp only
            rw [hcontent.slice, orPanic_bind, hname]
            refine ih _ hcontent.append.append ?_
            simp only [List.length_append] at hrounds hshort
            omega

/-! ## The scan for actions -/

/-- The scan for actions meets no bad position: after every action input, the length of its
candidate ends between two characters of the text that follows the marker. -/
inductive Aligned : List Char → Prop
  | plain {rest : List Char} : splitOnce "Action:".toList rest = none → Aligned rest
  | alone {rest before after : List Char} :
      splitOnce "Action:".toList rest = some (before, after) →
      splitOnce "Action Input:".toList after = none → Aligned after → Aligned rest
  | input {rest before after name raw candidate further : List Char} :
      splitOnce "Action:".toList rest = some (before, after) →
      splitOnce "Action Input:".toList after = some (name, raw) →
      extractFirstJsonBlock (trimChars raw) = .ok candidate →
      dropBytes raw (byteLength candidate) = some further → Aligned further → Aligned rest

/-- The scan for actions ends well exactly when it meets no bad position, and panics otherwise. -/
theorem actionScan_cases {rest : List Char} {rounds cursor : Nat} (leaked : Leaked)
    (h : At text cursor rest) (hrounds : rest.length < rounds) :
    (Aligned rest ∧ ∃ leaked', actionScan minted text rounds cursor leaked = .ok leaked') ∨
      ¬Aligned rest ∧ actionScan minted text rounds cursor leaked = .error .panic := by
  induction rounds generalizing cursor rest leaked with
  | zero => exact absurd hrounds (Nat.not_lt_zero _)
  | succ rounds ih =>
      unfold actionScan
      rw [h.dropBytes, orPanic_bind]
      cases hfind : find "Action:".toList rest with
      | none => exact .inl ⟨.plain (find_eq_none.mp hfind), leaked, rfl⟩
      | some action =>
        obtain ⟨before, after, haction, rfl, rfl⟩ := find_eq_some hfind
        have hafter := h.append.append
        have hlength : after.length < rounds := by
          simp only [List.length_append] at hrounds
          have hmarker : 0 < "Action:".toList.length := by decide
          omega
        dsimp only
        rw [hafter.dropBytes, orPanic_bind]
        cases hinput : find "Action Input:".toList after with
        | none =>
          have hnone := find_eq_none.mp hinput
          rcases ih leaked hafter hlength with ⟨haligned, hok⟩ | ⟨hnot, hpanic⟩
          · exact .inl ⟨.alone haction hnone haligned, hok⟩
          · refine .inr ⟨fun haligned => ?_, hpanic⟩
            cases haligned with
            | plain h => rw [haction] at h; cases h
            | alone h _ hrest => rw [haction] at h; cases h; exact hnot hrest
            | input h h' => rw [haction] at h; cases h; rw [hnone] at h'; cases h'
        | some input =>
          obtain ⟨name, raw, hsplit, rfl, rfl⟩ := find_eq_some hinput
          have hraw := hafter.append.append
          have hname : takeBytes (name ++ ("Action Input:".toList ++ raw)) (byteLength name) =
              some name := takeBytes_append _ _
          have hrest := (at_start (name ++ ("Action Input:".toList ++ raw))).append.append
          rw [Nat.zero_add] at hrest
          obtain ⟨candidate, hcandidate⟩ := extractFirstJsonBlock_ok (trimChars raw)
          dsimp only
          rw [hname, orPanic_bind, hrest.dropBytes, orPanic_bind, hcandidate, ok_bind,
            ← Nat.add_assoc (cursor + _ + _)]
          have hnext : ∀ further, Aligned (before ++ ("Action:".toList ++
              (name ++ ("Action Input:".toList ++ raw)))) →
                dropBytes raw (byteLength candidate) = further →
                  ∃ next, further = some next ∧ Aligned next := by
            intro further haligned hfurther
            cases haligned with
            | plain h => rw [haction] at h; cases h
            | alone h h' _ => rw [haction] at h; cases h; rw [hsplit] at h'; cases h'
            | input h h' hc hd hn =>
              rw [haction] at h
              cases h
              rw [hsplit] at h'
              cases h'
              rw [hcandidate] at hc
              cases hc
              exact ⟨_, hfurther.symm.trans hd, hn⟩
          generalize (match parsedValue candidate with | some value => _ | none => _) = found
          cases hdrop : dropBytes raw (byteLength candidate) with
          | none =>
            -- The next round starts inside a character.
            obtain ⟨rounds, rfl⟩ := Nat.exists_eq_succ_of_ne_zero
              (Nat.ne_of_gt (Nat.zero_lt_of_lt hlength))
            refine .inr ⟨fun haligned => ?_, ?_⟩
            · obtain ⟨next, hnone, -⟩ := hnext _ haligned hdrop
              cases hnone
            · unfold actionScan
              rw [hraw.dropBytes_add, hdrop]
              rfl
          | some further =>
            have hfurther := hraw.of_dropBytes hdrop
            obtain ⟨front, rfl, -⟩ := dropBytes_eq_some hdrop
            have hshort : further.length < rounds := by
              simp only [List.length_append] at hlength
              omega
            rcases ih found hfurther hshort with ⟨haligned, hok⟩ | ⟨hnot, hpanic⟩
            · exact .inl ⟨.input haction hsplit hcandidate hdrop haligned, hok⟩
            · refine .inr ⟨fun haligned => ?_, hpanic⟩
              obtain ⟨next, heq, hn⟩ := hnext _ haligned hdrop
              cases heq
              exact hnot hn

/-- The extraction returns exactly when the scan for actions meets no bad position: every other
slice is at a good position. None of its loops runs on. -/
theorem extractLeakedToolCalls_iff (minted : ToolCallId) (text : String) :
    ((∃ calls, extractLeakedToolCalls minted text = .ok calls) ↔ Aligned text.toList) ∧
      extractLeakedToolCalls minted text ≠ .error .rounds := by
  have hstart := at_start text.toList
  have hrounds := Nat.lt_succ_self text.toList.length
  have hmarked : ∀ opening closing leaked, opening ≠ [] → ∃ leaked', markedScan minted text.toList
      opening closing (text.toList.length + 1) 0 leaked = .ok leaked' :=
    fun _ _ leaked hopening => markedScan_ok leaked hopening hstart hrounds
  have htag : ∀ tagName leaked, ∃ leaked', tagScan minted text.toList tagName
      (text.toList.length + 1) 0 leaked = .ok leaked' :=
    fun _ leaked => tagScan_ok leaked hstart hrounds
  obtain ⟨first, hfirst⟩ := hmarked "<tool_call>".toList "</tool_call>".toList ⟨0, []⟩ (by decide)
  unfold extractLeakedToolCalls
  dsimp only
  rw [hfirst, ok_bind]
  rcases actionScan_cases first hstart hrounds with ⟨haligned, second, hsecond⟩ | ⟨hnot, hpanic⟩
  · obtain ⟨third, hthird⟩ := hmarked "```json".toList "```".toList second (by decide)
    obtain ⟨fourth, hfourth⟩ := htag "tool_use".toList third
    obtain ⟨fifth, hfifth⟩ := htag "invoke".toList fourth
    obtain ⟨sixth, hsixth⟩ := htag "function_call".toList fifth
    rw [hsecond, ok_bind, hthird, ok_bind, hfourth, ok_bind, hfifth, ok_bind, hsixth, ok_bind]
    exact ⟨iff_of_true ⟨_, rfl⟩ haligned, nofun⟩
  · rw [hpanic]
    exact ⟨iff_of_false nofun hnot, nofun⟩

end Extraction

open scoped Compact in
/-- After a space and a letter of two bytes the second round starts inside the letter. -/
theorem extractLeakedToolCalls_panics :
    extractLeakedToolCalls ⟨"id", Eq.refl true⟩ "Action: x Action Input: é" = .error .panic := by
  rfl

end Omp2.Inference
