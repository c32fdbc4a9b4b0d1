import Omp2.Library.Text

/-!
# Rich text and visible width

The text layer of `omp-render/src/richtext.rs`: runs of styled text, the removal of control
sequences when text is pushed, the grapheme clusters that one terminal cell group shows, and the
cutting of a text to a visible width. A text is worked on as its list of characters.
-/

namespace Omp2.Render

/-! ## Styles -/

/-- `SemanticColor`. -/
inductive SemanticColor where
  | info | muted | warning | error | success | primary | accent
deriving DecidableEq, Repr

/-- `Color`. -/
inductive Color where
  | semantic (color : SemanticColor)
  | rgb (r g b : UInt8)
  | ansi256 (n : UInt8)
  | reset
  | default
deriving DecidableEq, Repr

/-- `Modifier`. -/
structure Modifier where
  bold : Bool
  dim : Bool
  italic : Bool
  underline : Bool
  inverse : Bool
  strikethrough : Bool
deriving DecidableEq, Repr

/-- `Style`. -/
structure Style where
  fg : Option Color
  bg : Option Color
  modifier : Modifier
deriving DecidableEq, Repr

/-- `Style::new`. -/
def Style.new : Style :=
  ⟨none, none, ⟨false, false, false, false, false, false⟩⟩

/-! ## Visible width -/

/-- A range of code points with both ends. -/
def within (low high : Nat) (c : Char) : Bool :=
  low ≤ c.toNat && c.toNat ≤ high

/-- `char::is_control`. -/
def isControl (c : Char) : Bool :=
  within 0x0 0x1f c || within 0x7f 0x9f c

/-- `is_combining_or_extender`. -/
def isCombiningOrExtender (c : Char) : Bool :=
  within 0x0300 0x036f c || within 0x1ab0 0x1aff c || within 0x1dc0 0x1dff c ||
    within 0x20d0 0x20ff c || within 0xfe20 0xfe2f c || within 0xfe00 0xfe0f c ||
    within 0xe0100 0xe01ef c || within 0x1f3fb 0x1f3ff c || within 0xe0020 0xe007f c ||
    c.toNat = 0x200d || within 0x200b 0x200d c

/-- `is_emoji_base`. -/
def isEmojiBase (c : Char) : Bool :=
  within 0x1f300 0x1faff c || within 0x1f000 0x1f02f c || within 0x1f0a0 0x1f0ff c ||
    within 0x2600 0x26ff c || within 0x2700 0x27bf c || within 0x2b50 0x2b55 c ||
    within 0x231a 0x231b c || within 0x23e9 0x23ec c || within 0x23f0 0x23f3 c

/-- `is_east_asian_wide`. -/
def isEastAsianWide (c : Char) : Bool :=
  within 0x1100 0x115f c || within 0x2329 0x232a c || within 0x2e80 0xa4cf c ||
    within 0xac00 0xd7a3 c || within 0xf900 0xfaff c || within 0xfe10 0xfe19 c ||
    within 0xfe30 0xfe6f c || within 0xff00 0xff60 c || within 0xffe0 0xffe6 c

/-- A regional indicator, two of which make a flag. -/
def isRegionalIndicator (c : Char) : Bool :=
  within 0x1f1e6 0x1f1ff c

/-- The zero-width joiner. -/
def isJoiner (c : Char) : Bool :=
  c.toNat = 0x200d

/-- `grapheme_cluster_width`. -/
def graphemeClusterWidth : List Char → Nat
  | [] => 0
  | first :: rest =>
    if isControl first || within 0x200b 0x200d first || first.toNat = 0xfeff then 0
    else if isRegionalIndicator first then
      if 2 ≤ ((first :: rest).filter isRegionalIndicator).length then 2 else 1
    else if isEmojiBase first || (first :: rest).any (fun c => c.toNat = 0xfe0f) ||
        (first :: rest).any isJoiner then 2
    else if isEastAsianWide first then 2
    else 1

/-- What may still extend a grapheme cluster. -/
inductive ClusterState where
  | regional | extending | joined

/-- The state after the first character of a cluster. -/
def ClusterState.opening (c : Char) : ClusterState :=
  if isRegionalIndicator c then .regional else .extending

/-- The state after a further character, unless the character starts a new cluster. -/
def ClusterState.extend (state : ClusterState) (c : Char) : Option ClusterState :=
  match state with
  | .joined => some .extending
  | .regional | .extending =>
    if (state matches .regional) && isRegionalIndicator c then some .extending
    else if isJoiner c then some .joined
    else if isCombiningOrExtender c then some .extending
    else none

/-- The rest of the current cluster and the clusters after it. -/
def clustersAfter : ClusterState → List Char → List Char × List (List Char)
  | _, [] => ([], [])
  | state, c :: rest =>
    match state.extend c with
    | some state =>
      match clustersAfter state rest with
      | (cluster, others) => (c :: cluster, others)
    | none =>
      match clustersAfter (.opening c) rest with
      | (cluster, others) => ([], (c :: cluster) :: others)

/-- `grapheme_clusters`. -/
def graphemeClusters : List Char → List (List Char)
  | [] => []
  | c :: rest =>
    match clustersAfter (.opening c) rest with
    | (cluster, others) => (c :: cluster) :: others

/-- The visible width of a list of characters. -/
def visibleWidth (cs : List Char) : Nat :=
  ((graphemeClusters cs).map graphemeClusterWidth).sum

/-- `str_visible_width`. -/
def strVisibleWidth (s : String) : Nat :=
  visibleWidth s.toList

/-! ## Control sequences -/

/-- Where the scan of `sanitize_text` is. -/
inductive EscapeState where
  | text | escape | csi | string | stringEscape

/-- The scan of a character in text: its next state and what it keeps. -/
def EscapeState.scanText (c : Char) : EscapeState × Option Char :=
  if c.toNat = 0x1b then (.escape, none)
  else if c = '\n' ∨ c = '\r' ∨ c = '\t' then (.text, some c)
  else if c.toNat ≤ 0x1f ∨ within 0x7f 0x9f c then (.text, none)
  else if within 0x202a 0x202e c ∨ within 0x2066 0x2069 c then (.text, none)
  else (.text, some c)

/-- The scan of a character. -/
def EscapeState.scan (state : EscapeState) (c : Char) : EscapeState × Option Char :=
  match state with
  | .text => scanText c
  | .escape =>
    if c = '[' then (.csi, none)
    else if c ∈ [']', 'P', '^', '_', 'X'] then (.string, none)
    else (.text, none)
  | .csi => if within 0x40 0x7e c then (.text, none) else (.csi, none)
  | .string =>
    if c.toNat = 0x07 then (.text, none)
    else if c.toNat = 0x1b then (.stringEscape, none)
    else (.string, none)
  -- only a backslash belongs to the end of the string
  | .stringEscape => if c.toNat = 0x5c then (.text, none) else scanText c

/-- The characters that the scan keeps. -/
def sanitizeChars : EscapeState → List Char → List Char
  | _, [] => []
  | state, c :: rest =>
    match state.scan c with
    | (state, some kept) => kept :: sanitizeChars state rest
    | (state, none) => sanitizeChars state rest

/-- `sanitize_text`. -/
def sanitizeText (s : String) : String :=
  String.ofList (sanitizeChars .text s.toList)

/-! ## Runs -/

/-- `Run`. -/
structure Run where
  style : Style
  text : String
deriving DecidableEq

/-- `RichText`. -/
structure RichText where
  runs : List Run
deriving DecidableEq

namespace RichText

/-- `push`. -/
def push (rt : RichText) (style : Style) (text : String) : RichText :=
  let text := sanitizeText text
  if text.isEmpty then rt
  else match rt.runs.getLast? with
    | some last =>
      if last.style = style then
        ⟨rt.runs.dropLast ++ [{ last with text := last.text ++ text }]⟩
      else ⟨rt.runs ++ [⟨style, text⟩]⟩
    | none => ⟨rt.runs ++ [⟨style, text⟩]⟩

/-- `from_plain`. -/
def fromPlain (text : String) : RichText :=
  push ⟨[]⟩ .new text

/-- `plain_text`. -/
def plainText (rt : RichText) : String :=
  rt.runs.foldl (fun s run => s ++ run.text) ""

/-- `visible_width`. -/
def width (rt : RichText) : Nat :=
  (rt.runs.map fun run => strVisibleWidth run.text).sum

/-- The clusters that fit, what is left of the width, and whether all clusters did. -/
def fitting : Nat → List (List Char) → List Char × Nat × Bool
  | room, [] => ([], room, true)
  | room, cluster :: rest =>
    if room < graphemeClusterWidth cluster then ([], room, false)
    else
      match fitting (room - graphemeClusterWidth cluster) rest with
      | (kept, room, all) => (cluster ++ kept, room, all)

/-- Push a text unless it is empty. -/
def pushSome (rt : RichText) (style : Style) (text : String) : RichText :=
  if text.isEmpty then rt else rt.push style text

/-- The loop of `truncate_width` over the runs. -/
def truncateRuns (ellipsis : String) : RichText → Nat → List Run → RichText
  | truncated, _, [] => truncated.pushSome .new ellipsis
  | truncated, room, run :: rest =>
    match fitting room (graphemeClusters run.text.toList) with
    | (kept, _, false) =>
      (truncated.pushSome run.style (String.ofList kept)).pushSome run.style ellipsis
    | (kept, room, true) =>
      truncateRuns ellipsis (truncated.pushSome run.style (String.ofList kept)) room rest

/-- `truncate_width`. -/
def truncateWidth (rt : RichText) (maxWidth : Nat) (ellipsis : Option String) : RichText :=
  if rt.width ≤ maxWidth then rt
  else truncateRuns (ellipsis.getD "") ⟨[]⟩ (maxWidth - strVisibleWidth (ellipsis.getD "")) rt.runs

end RichText

end Omp2.Render
