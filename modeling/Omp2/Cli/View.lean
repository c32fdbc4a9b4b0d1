import Omp2.Cli.Wrapping
import Omp2.Library.JsonDistinct
import Omp2.Render.Sessions

/-!
# The transcript on the screen

`Transcript` of `omp-cli/src/view.rs`, which renders the elements of the body one after the other
into lines of the width of the screen. Lines are their texts, without the styles. What is shown of
the elements before one that cannot be rendered is complete below the limits of the display.
-/

namespace Omp2.Cli

open Omp2.Json Omp2.State Omp2.Render Omp2.Graphemes List

/-- `OutError`. -/
inductive OutError where
  | write (message : String)
  | bufferOverflow

/-- The line that stands for an entry that is not shown to its end. -/
def OutError.entry : OutError → String
  | .bufferOverflow =>
    "Display limit reached. Use /inspect or omp2 inspect to read the complete journal."
  | .write message => "Could not render entry: output write error: " ++ message

/-- `TranscriptSink`: the lines that have ended, and the current one. -/
structure TranscriptSink where
  ended : List (List Char)
  line : List Char
  column : Nat
  width : Nat
  bytes : Nat

/-- What a call on the sink leaves, and its result. -/
abbrev Pushed : Type :=
  TranscriptSink × Except OutError Unit

/-- A further call, unless the one before it has failed. -/
def Pushed.andThen (pushed : Pushed) (f : TranscriptSink → Pushed) : Pushed :=
  match pushed with
  | (sink, .ok ()) => f sink
  | (sink, .error error) => (sink, .error error)

/-- `setting`, with the texts of floating-point numbers. -/
def setting [SerdeJson] (number : F64 → String) (s : SessionSnapshot) (name : String) : String :=
  match (s.element (staticId "convars")).bind fun e => e.attributes[name]? with
  | some (.string value) => value
  | some (.integer value) => toString value.toInt
  | some (.bool value) => toString value
  | some (.number value) => number value
  | some (.json value) => value.display
  | some .null => "unknown"
  | none => ""

/-- `Transcript`. -/
structure Transcript where
  lines : List (List Char)
  offset : UInt64
  width : UInt16
  session : String
  theme : String

/-- `Transcript::default`. -/
def Transcript.default : Transcript :=
  ⟨[], .ofNat (2 ^ 64 - 1), 0, "", ""⟩

namespace TranscriptSink

/-- `TranscriptSink::new`. -/
def new (width : UInt16) : TranscriptSink :=
  ⟨[], [], 0, max width.toNat 1, 0⟩

/-- All lines. -/
def lines (sink : TranscriptSink) : List (List Char) :=
  sink.ended ++ [sink.line]

/-- `line_break`. -/
def lineBreak (sink : TranscriptSink) : Pushed :=
  if 50000 ≤ sink.lines.length then (sink, .error .bufferOverflow)
  else ({ sink with ended := sink.ended ++ [sink.line], line := [], column := 0 }, .ok ())

end TranscriptSink

/-- The line break before a cluster that has no room in the current line. -/
def TranscriptSink.makeRoom (sink : TranscriptSink) (columns : Nat) : Pushed :=
  if sink.width < sink.column + columns ∧ 0 < sink.column then sink.lineBreak else (sink, .ok ())

/-- Lines that have ended stay, unless the limits of the display are reached. -/
structure GoesOn (sink : TranscriptSink) (pushed : Pushed) (clusters : List (List Char)) :
    Prop where
  ended : sink.ended <+: pushed.1.ended
  shown : pushed.2 = .ok () →
    pushed.1.lines.flatten = sink.lines.flatten ++ clusters.flatten

theorem GoesOn.refl (sink : TranscriptSink) : GoesOn sink (sink, .ok ()) [] :=
  ⟨prefix_refl _, fun _ => (append_nil _).symm⟩

theorem GoesOn.andThen {sink : TranscriptSink} {pushed : Pushed} {f : TranscriptSink → Pushed}
    {clusters more : List (List Char)} (h : GoesOn sink pushed clusters)
    (h' : ∀ sink', GoesOn sink' (f sink') more) :
    GoesOn sink (pushed.andThen f) (clusters ++ more) := by
  obtain ⟨sink', result⟩ := pushed
  cases result with
  | error error => exact ⟨h.ended, nofun⟩
  | ok u =>
      refine ⟨h.ended.trans (h' sink').ended, fun hok => ?_⟩
      have hrest := (h' sink').shown hok
      rw [h.shown rfl, append_assoc, ← flatten_append] at hrest
      exact hrest

theorem TranscriptSink.lineBreak_goesOn (sink : TranscriptSink) :
    GoesOn sink sink.lineBreak [] := by
  unfold TranscriptSink.lineBreak
  split
  · exact ⟨prefix_refl _, nofun⟩
  · exact ⟨prefix_append _ _, fun _ => by simp [TranscriptSink.lines]⟩

theorem TranscriptSink.makeRoom_goesOn (sink : TranscriptSink) (columns : Nat) :
    GoesOn sink (sink.makeRoom columns) [] := by
  unfold TranscriptSink.makeRoom
  split
  · exact sink.lineBreak_goesOn
  · exact .refl sink

section View

variable [Segmentation]

namespace TranscriptSink

/-- `push`, with the clusters of the text. -/
def push (sink : TranscriptSink) : List (List Char) → Pushed
  | [] => (sink, .ok ())
  | g :: gs =>
    if 2 * 1024 * 1024 ≤ sink.bytes ∨ 50000 ≤ sink.lines.length then
      (sink, .error .bufferOverflow)
    else
      let sink := { sink with bytes := sink.bytes + Text.byteLength g }
      if g = ['\n'] then sink.lineBreak.andThen fun sink => sink.push gs
      else (sink.makeRoom (Graphemes.width g)).andThen fun sink =>
        TranscriptSink.push { sink with
          line := sink.line ++ g
          column := sink.column + Graphemes.width g } gs

/-- An operation of the sink. -/
def take (sink : TranscriptSink) : Call → Pushed
  | .run run => sink.push (graphemes run.text.toList)
  | .lineBreak => sink.lineBreak

/-- Operations of the sink up to the first that fails. -/
def takeAll (sink : TranscriptSink) : List Call → Pushed
  | [] => (sink, .ok ())
  | call :: calls => (sink.take call).andThen fun sink => sink.takeAll calls

end TranscriptSink

/-- The operations that show a component and end its last line. -/
def entryCalls (c : Component) : List Call :=
  c.calls 0 ++ [.lineBreak]

/-! ## What the lines show -/

/-- The clusters of an operation that stand in the lines. -/
def shownClusters : Call → List (List Char)
  | .run run => (graphemes run.text.toList).filter (· ≠ ['\n'])
  | .lineBreak => []

namespace TranscriptSink

theorem push_goesOn (sink : TranscriptSink) (gs : List (List Char)) :
    GoesOn sink (sink.push gs) (gs.filter (· ≠ ['\n'])) := by
  induction gs generalizing sink with
  | nil => exact .refl sink
  | cons g gs ih =>
      unfold push
      dsimp only
      split_ifs with hlimit hnewline
      · exact ⟨prefix_refl _, nofun⟩
      · rw [filter_cons_of_neg (by simpa using hnewline)]
        obtain ⟨hended, hshown⟩ := lineBreak_goesOn
          { sink with bytes := sink.bytes + Text.byteLength g }
        have hbroken : GoesOn sink _ [] := ⟨hended, hshown⟩
        exact hbroken.andThen ih
      · rw [filter_cons_of_pos (by simpa using hnewline)]
        obtain ⟨hended, hshown⟩ := makeRoom_goesOn
          { sink with bytes := sink.bytes + Text.byteLength g } (Graphemes.width g)
        have hroom : GoesOn sink _ [] := ⟨hended, hshown⟩
        refine hroom.andThen fun sink' => ?_
        obtain ⟨hended', hshown'⟩ := ih { sink' with
          line := sink'.line ++ g, column := sink'.column + Graphemes.width g }
        refine ⟨hended', fun hok => (hshown' hok).trans ?_⟩
        simp [lines]

theorem takeAll_goesOn (sink : TranscriptSink) (calls : List Call) :
    GoesOn sink (sink.takeAll calls) (calls.flatMap shownClusters) := by
  induction calls generalizing sink with
  | nil => exact .refl sink
  | cons call calls ih =>
      have hcall : GoesOn sink (sink.take call) (shownClusters call) := by
        cases call with
        | run run => exact sink.push_goesOn _
        | lineBreak => exact sink.lineBreak_goesOn
      rw [flatMap_cons]
      exact hcall.andThen ih

theorem takeAll_append (sink : TranscriptSink) (calls more : List Call) :
    sink.takeAll (calls ++ more) = (sink.takeAll calls).andThen fun sink => sink.takeAll more := by
  induction calls generalizing sink with
  | nil => rfl
  | cons call calls ih =>
      rw [cons_append, takeAll, takeAll]
      obtain ⟨sink', result⟩ := sink.take call
      cases result with
      | error error => rfl
      | ok u => exact ih sink'

end TranscriptSink

/-! ## Entries -/

variable [SerdeJson] [Text.Unicode] [Uppercase]

/-- The loop of `update` over the elements, and the lines that it leaves. -/
def entries (s : SessionSnapshot) (sink : TranscriptSink) :
    List ElementSnapshot → List (List Char)
  | [] => sink.lines
  | e :: es =>
    match SemanticRegistry.new.renderSessionElement s e.id with
    | .error error => sink.lines ++ [(OutError.write error).entry.toList]
    | .ok c =>
      match sink.takeAll (entryCalls c) with
      | (sink, .ok ()) => entries s sink es
      | (sink, .error error) => sink.lines ++ [error.entry.toList]

namespace Transcript

/-- The transcript is the one of a snapshot at a width. -/
def isCurrent (number : F64 → String) (t : Transcript) (s : SessionSnapshot)
    (width : UInt16) : Bool :=
  t.offset = s.offset && t.width = width && t.session = s.sessionId.value &&
    t.theme = setting number s "cl_theme"

/-- `update`, which answers how many lines have come. -/
def update (number : F64 → String) (t : Transcript) (s : SessionSnapshot) (width : UInt16) :
    Transcript × Nat :=
  if t.isCurrent number s width then (t, 0)
  else
    let before := if t.session = s.sessionId.value ∧ t.width = width then t.lines.length else 0
    let lines := entries s (.new width) s.getVisibleBody
    (⟨lines, s.offset, width, s.sessionId.value, setting number s "cl_theme"⟩,
      lines.length - before)

end Transcript

/-- The components of some elements. -/
def Rendered (s : SessionSnapshot) (es : List ElementSnapshot) (cs : List Component) : Prop :=
  List.Forall₂ (fun e c => SemanticRegistry.new.renderSessionElement s e.id = .ok c) es cs

/-- The loop goes on after elements that stay below the limits. -/
theorem entries_append {s : SessionSnapshot} {es : List ElementSnapshot} {cs : List Component}
    (hcs : Rendered s es cs) {sink sink' : TranscriptSink}
    (h : sink.takeAll (cs.flatMap entryCalls) = (sink', .ok ())) (rest : List ElementSnapshot) :
    entries s sink (es ++ rest) = entries s sink' rest := by
  induction hcs generalizing sink with
  | nil =>
      cases h
      rfl
  | @cons e c es cs hc _ ih =>
      rw [flatMap_cons, TranscriptSink.takeAll_append] at h
      rw [cons_append, entries, hc]
      rcases hfirst : sink.takeAll (entryCalls c) with ⟨sink₁, result⟩
      rw [hfirst] at h
      cases result with
      | error error => cases h
      | ok u =>
        simp only [hfirst]
        exact ih h

/-- The lines that have ended stay. -/
theorem prefix_entries (s : SessionSnapshot) (sink : TranscriptSink)
    (es : List ElementSnapshot) : sink.ended <+: entries s sink es := by
  induction es generalizing sink with
  | nil => exact prefix_append _ _
  | cons e es ih =>
      unfold entries
      split
      · exact (prefix_append _ _).trans (prefix_append _ _)
      · next c _ =>
        have hended := (sink.takeAll_goesOn (entryCalls c)).ended
        split
        · next _ sink' htake =>
          rw [htake] at hended
          exact hended.trans (ih sink')
        · next _ sink' error htake =>
          rw [htake] at hended
          exact hended.trans ((prefix_append _ _).trans (prefix_append _ _))

/-- Rendering a session, and the transcript of a snapshot that is not yet shown: it begins with all
lines of the elements before one that is not rendered, as long as they stay below the limits of the
display. -/
structure Rendering (s : SessionSnapshot) : Prop where
  session : SessionShown s
  transcript : ∀ (number : F64 → String) (t : Transcript) (width : UInt16),
    t.isCurrent number s width = false → ∀ es rest cs sink, s.getVisibleBody = es ++ rest →
      Rendered s es cs → (TranscriptSink.new width).takeAll (cs.flatMap entryCalls) =
        (sink, .ok ()) →
      (t.update number s width).1.lines = entries s sink rest ∧
        sink.ended <+: (t.update number s width).1.lines ∧
        sink.lines.flatten = ((cs.flatMap entryCalls).flatMap shownClusters).flatten

/-- In every session the elements that can be rendered are shown. -/
theorem rendering (sessionId : SessionId) (patches : List Patch) :
    Rendering (SessionSnapshot.afterPatches sessionId patches) := by
  have hwf := SessionSnapshot.afterPatches_wellFormed sessionId patches
  generalize SessionSnapshot.afterPatches sessionId patches = s at hwf
  refine ⟨sessionShown hwf, fun number t width hstale es rest cs sink hbody hcs htake => ?_⟩
  have hlines : (t.update number s width).1.lines = entries s sink rest := by
    unfold Transcript.update
    rw [hstale]
    exact (congrArg (entries s _) hbody).trans (entries_append hcs htake rest)
  have hgoes := (TranscriptSink.new width).takeAll_goesOn (cs.flatMap entryCalls)
  rw [htake] at hgoes
  exact ⟨hlines, hlines ▸ prefix_entries s sink rest, hgoes.shown rfl⟩

/-- The rendering of a session succeeds. -/
def Succeeds (s : SessionSnapshot) : Prop :=
  ∃ c, SemanticRegistry.new.renderSession s = .ok c

/-- The texts of the calls stand in the rendering as they are. -/
def ShowsTexts (texts : SessionSnapshot → ElementId → List String) (s : SessionSnapshot) : Prop :=
  ∀ c, SemanticRegistry.new.renderSession s = .ok c →
    ∀ e ∈ s.getVisibleBody, e.kind = "tool_call" → ∀ text ∈ texts s e.id,
      (sanitizeText text).toList <:+: (stringOutput (c.calls 0)).toList

/-- The transcript shows all elements that can be rendered and stay below its limits. -/
def HidesNothing (s : SessionSnapshot) : Prop :=
  ∀ (number : F64 → String) (t : Transcript) (width : UInt16), t.isCurrent number s width = false →
    ∀ es cs sink, es.Sublist s.getVisibleBody → Rendered s es cs →
      (TranscriptSink.new width).takeAll (cs.flatMap entryCalls) = (sink, .ok ()) →
      ∀ c ∈ cs, ((entryCalls c).flatMap shownClusters).flatten <:+:
        (t.update number s width).1.lines.flatten

end View

/-! ## What is not shown -/

/-- A first patch of some operations. -/
def firstPatch (ops : List PatchOp) : Patch where
  baseOffset := 0
  resultOffset := 1
  author := .actor ⟨"owner", Eq.refl true⟩
  reason := "invoke"
  ops := ops

/-- A call without the name of its tool, and a message after it. -/
def unnamedPatch : Patch :=
  firstPatch [
    .create (staticId "body") 0 (.new ⟨"call", Eq.refl true⟩ "tool_call"),
    .create (staticId "body") 1 { ElementSnapshot.new ⟨"message", Eq.refl true⟩ "user" with
      text := "hello" }]

/-- A report with a result, and with a diagnostic of two lines. -/
def reportPatch : Patch :=
  firstPatch [
    .create (staticId "body") 0 { ElementSnapshot.new ⟨"call", Eq.refl true⟩ "tool_call" with
      attributes := (∅ : Attributes).insert "tool" (.string "AutoQA") },
    .create ⟨"call", Eq.refl true⟩ 0 { ElementSnapshot.new ⟨"result", Eq.refl true⟩ "result" with
      text := "filed" },
    .create ⟨"call", Eq.refl true⟩ 1 { ElementSnapshot.new ⟨"diag", Eq.refl true⟩ "diag" with
      text := "one\ntwo" }]

namespace Ascii

/-- The mapping of ASCII letters. -/
scoped instance upperCase : Uppercase :=
  ⟨String.toUpper⟩

end Ascii

section

open scoped Json.Compact Text Accents Ascii

/-- The session after a first patch. -/
def viewed (patch : Patch) : SessionSnapshot :=
  SessionSnapshot.afterPatches ⟨"view", Eq.refl true⟩ [patch]

/-- A call without the name of its tool fails the session and hides the message behind it from the
transcript; the result of a report is not shown, nor a diagnostic of two lines as it is. -/
theorem not_rendering :
    (¬ ∀ sessionId patches, Succeeds (.afterPatches sessionId patches)) ∧
    (¬ ∀ sessionId patches, ShowsTexts (fun s id => ((resultOf s id).map (·.text)).toList)
      (.afterPatches sessionId patches)) ∧
    (¬ ∀ sessionId patches, ShowsTexts diagnosticsOf (.afterPatches sessionId patches)) ∧
    ¬ ∀ sessionId patches, HidesNothing (.afterPatches sessionId patches) := by
  have hok {result : Except String Component} {c : Component} (h : result.toOption = some c) :
      result = .ok c := by
    cases result with
    | error error => cases h
    | ok found => exact congrArg _ (Option.some.inj h)
  have hreport (texts : SessionSnapshot → ElementId → List String) (text : String)
      (hcall : ∃ e ∈ (viewed reportPatch).getVisibleBody, e.kind = "tool_call" ∧
        text ∈ texts (viewed reportPatch) e.id)
      (hhidden : (SemanticRegistry.new.renderSession (viewed reportPatch)).toOption.map
        (fun c => decide ((sanitizeText text).toList <:+: (stringOutput (c.calls 0)).toList)) =
          some false) :
      ¬ ∀ sessionId patches, ShowsTexts texts (.afterPatches sessionId patches) := by
    intro h
    obtain ⟨e, he, hkind, htext⟩ := hcall
    obtain ⟨c, hc, hfalse⟩ := Option.map_eq_some_iff.mp hhidden
    exact of_decide_eq_false hfalse (h _ _ c (hok hc) e he hkind text htext)
  refine ⟨fun h => ?_, hreport _ "filed" ?_ (by decide +kernel), hreport _ "one\ntwo" ?_
    (by decide +kernel), fun h => ?_⟩
  · obtain ⟨c, hc⟩ := h ⟨"view", Eq.refl true⟩ [unnamedPatch]
    have hfails : (SemanticRegistry.new.renderSession (viewed unnamedPatch)).isOk = false := by
      decide +kernel
    rw [viewed, hc] at hfails
    cases hfails
  · decide +kernel
  · decide +kernel
  · -- the message stays below the limits, and is not among the lines
    have hmessage : ((viewed unnamedPatch).getVisibleBody.filter fun e => e.kind = "user").map
        (fun e => (SemanticRegistry.new.renderSessionElement (viewed unnamedPatch)
            e.id).toOption.map
          fun c => (((TranscriptSink.new 80).takeAll ([c].flatMap entryCalls)).2.isOk,
            decide (((entryCalls c).flatMap shownClusters).flatten <:+:
              (Transcript.default.update (fun _ => "") (viewed unnamedPatch)
                80).1.lines.flatten))) = [some (true, false)] := by
      decide +kernel
    obtain ⟨e, hes, he⟩ := map_eq_singleton_iff.mp hmessage
    obtain ⟨c, hc, hfacts⟩ := Option.map_eq_some_iff.mp he
    obtain ⟨hfits, hhidden⟩ := Prod.mk.inj hfacts
    have hsublist : [e].Sublist (viewed unnamedPatch).getVisibleBody := by
      rw [← hes]
      exact filter_sublist
    rcases htake : (TranscriptSink.new 80).takeAll ([c].flatMap entryCalls) with ⟨sink, result⟩
    rw [htake] at hfits
    cases result with
    | error error => cases hfits
    | ok u =>
      exact of_decide_eq_false hhidden (h _ _ _ .default 80 (by decide +kernel) [e] [c] sink
        hsublist (.cons (hok hc) .nil) htake c (mem_singleton_self c))

end

end Omp2.Cli
