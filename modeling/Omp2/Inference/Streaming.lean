import Omp2.Inference.Thinking
import Omp2.Library.TagScan
import Omp2.Library.TextJoins

/-!
# Thinking in a streamed answer

`InlineThinkingParser` of `omp-inference/src/provider.rs` separates the thinking from the text of an
answer that arrives in fragments. It holds back the end of a fragment that may start a tag. In a
fragment it looks for a tag of the first kind before it looks for one of the second kind, as
`normalize_thinking_tokens` does, so what it takes for a tag depends on the fragments. Unlike that
function it closes a block at a tag of any kind.
-/

namespace Omp2.Inference

open Tags

/-- `InferenceDelta`. -/
inductive InferenceDelta where
  | text (s : List Char)
  | thinking (s : List Char)
  deriving DecidableEq, Repr

/-- `MAX_CHUNK` of `emit_bounded_delta`. -/
def maxChunk : Nat := 8192

/-- The next chunk: what is left, or the longest start of it that fits. -/
def chunkOf (remaining : List Char) : List Char :=
  if Text.byteLength remaining ≤ maxChunk then remaining
  else
    let chunk := Text.truncateChars remaining maxChunk
    if chunk.isEmpty then remaining.take 1 else chunk

/-- The loop of `emit_bounded_delta`, with a number of rounds that the length bounds. -/
def emitFrom (delta : List Char → InferenceDelta) : Nat → List Char → List InferenceDelta
  | 0, _ => []
  | rounds + 1, remaining =>
    if remaining.isEmpty then []
    else
      let chunk := chunkOf remaining
      delta chunk :: emitFrom delta rounds (remaining.drop chunk.length)

/-- `emit_bounded_delta`: what the callback receives. -/
def emitBoundedDelta (inThink : Bool) (raw : List Char) : List InferenceDelta :=
  emitFrom (if inThink then .thinking else .text) raw.length raw

/-- `InlineThinkingParser`. -/
structure InlineThinkingParser where
  inThink : Bool := false
  buffer : List Char := []
  deriving DecidableEq, Repr

/-- The tag of a kind that the parser looks for outside of a block or inside of one. -/
def mark (inThink : Bool) (kind : TagKind) : Mark :=
  if inThink then .closes kind else .opens kind

/-- The first tag of one kind, or else of the other, with what stands before and after it. -/
def findTag (inThink : Bool) (buffer : List Char) : Option (List Char × List Char) :=
  (Text.splitOnce (marks.text (mark inThink .think)) buffer).or
    (Text.splitOnce (marks.text (mark inThink .thought)) buffer)

/-- The end of the buffer that may start a tag, and what stands before it. -/
def prefixStart (inThink : Bool) (buffer : List Char) : Option (List Char × List Char) :=
  (splitLast '<' buffer).filter fun parts =>
    parts.2.isPrefixOf (marks.text (mark inThink .think)) ||
      parts.2.isPrefixOf (marks.text (mark inThink .thought))

/-- The loop of `feed`, with a number of rounds that the length of the buffer bounds. -/
def feedLoop : Nat → InlineThinkingParser → List InferenceDelta × InlineThinkingParser
  | 0, parser => ([], parser)
  | rounds + 1, parser =>
    match findTag parser.inThink parser.buffer with
    | some (before, rest) =>
      let later := feedLoop rounds ⟨!parser.inThink, rest⟩
      (emitBoundedDelta parser.inThink before ++ later.1, later.2)
    | none =>
      match prefixStart parser.inThink parser.buffer with
      | some (before, held) =>
        (emitBoundedDelta parser.inThink before, { parser with buffer := held })
      | none => (emitBoundedDelta parser.inThink parser.buffer, { parser with buffer := [] })

/-- `InlineThinkingParser::feed`. -/
def InlineThinkingParser.feed (parser : InlineThinkingParser) (chunk : List Char) :
    List InferenceDelta × InlineThinkingParser :=
  let buffer := parser.buffer ++ chunk
  feedLoop (buffer.length + 1) { parser with buffer }

/-- `InlineThinkingParser::flush`. -/
def InlineThinkingParser.flush (parser : InlineThinkingParser) : List InferenceDelta :=
  emitBoundedDelta parser.inThink parser.buffer

/-- Fragments are fed one after the other, and what is left is flushed. -/
def InlineThinkingParser.stream (parser : InlineThinkingParser) :
    List (List Char) → List InferenceDelta
  | [] => parser.flush
  | chunk :: fragments => (parser.feed chunk).1 ++ (parser.feed chunk).2.stream fragments

/-- The characters of the deltas of one sort. -/
def received (inThink : Bool) (deltas : List InferenceDelta) : List Char :=
  deltas.flatMap fun
    | .text s => if inThink then [] else s
    | .thinking s => if inThink then s else []

/-! ## What the parser is for -/

/-- The tags that end a part of a text outside of the blocks or inside of one. -/
def wanted (inside : Bool) : List Mark :=
  [mark inside .think, mark inside .thought]

/-- The leftmost of these tags. -/
abbrev firstTag (inside : Bool) (text : List Char) : Option (List Char × Mark × List Char) :=
  firstOf marks (wanted inside) text

/-- A part of a text, outside of the blocks or inside of one, and the tag that ends it. -/
structure Piece where
  inside : Bool
  body : List Char
  tag : Option Mark
  deriving DecidableEq

/-- A part with its tag. -/
def Piece.text (piece : Piece) : List Char :=
  piece.body ++ (piece.tag.map marks.text).getD []

/-- The parts of a text from left to right, a block that is never closed up to the end. -/
def piecesFrom : Nat → Bool → List Char → List Piece
  | 0, inside, text => [⟨inside, text, none⟩]
  | rounds + 1, inside, text =>
    match firstTag inside text with
    | none => [⟨inside, text, none⟩]
    | some (before, tag, rest) => ⟨inside, before, some tag⟩ :: piecesFrom rounds (!inside) rest

/-- The parts of a whole text. -/
def pieces (inside : Bool) (text : List Char) : List Piece :=
  piecesFrom (text.length + 1) inside text

/-- The bodies of the parts inside of the blocks, or of those outside. -/
def bodies (inside : Bool) (pieces : List Piece) : List (List Char) :=
  (pieces.filter fun piece => piece.inside == inside).map (·.body)

/-- However a text is cut into fragments, the deltas are its parts from left to right, and but for
white space around them they are the turn that the whole text is normalised to. -/
def Streamed (text : List Char) : Prop :=
  ∀ fragments : List (List Char), fragments.flatten = text →
    let deltas := InlineThinkingParser.stream {} fragments
    let turn := normalizeThinkingTokens (String.ofList text)
    (∀ inside, received inside deltas = (bodies inside (pieces false text)).flatten) ∧
      Text.trimChars (received false deltas) = Text.trimChars turn.content.toList ∧
      Text.trimChars (received true deltas) = Text.trimChars (turn.thinking.getD "").toList

/-! ## When it is that -/

/-- Where a tag of the second kind is the next from the left, none of the first kind that would be
taken in its place stands anywhere after it. -/
inductive Ordered : Bool → List Char → Prop
  | plain {inside : Bool} {text : List Char} : firstTag inside text = none → Ordered inside text
  | tag {inside : Bool} {text before rest : List Char} {tag : Mark} :
      firstTag inside text = some (before, tag, rest) →
      (tag = mark inside .thought →
        Text.splitOnce (marks.text (mark inside .think)) rest = none) →
      Ordered (!inside) rest → Ordered inside text

/-- A closing tag is of the kind of the tag before it. -/
def Closes (first second : Mark) : Prop :=
  ∀ kind other, first = .opens kind → second = .closes other → kind = other

/-- Every block is closed by a tag of its own kind, or never. -/
def Matched (pieces : List Piece) : Prop :=
  (pieces.filterMap (·.tag)).IsChain Closes

end Omp2.Inference
