import Omp2.Control.Opened
import Omp2.Library.Placement
import Omp2.Library.Slices
import Omp2.Tools.SummaryRead

/-!
# Which originals can be read back

Every line of every element that a node covers has a line number of its own in the expansion of the
node exactly when the covered elements are in the transcript and their renderings fit together into
the bound of one expansion. A search numbers the lines of an element from one, where its expansion
has a line before the first element, so the numbers that it prints are right only where it has
nothing to search.
-/

namespace Omp2.Tools

open Omp2.Json Omp2.State SessionSnapshot List

variable [SerdeJson]

/-- The lines of the rendering of an element, none if it is not in the document. -/
def elementLines (s : SessionSnapshot) (x : ElementId) : List (List Char) :=
  ((s.element x).map fun e => Text.linesFrom [] (renderTranscriptElement s e)).getD []

/-- The lines of the expansion of a node. -/
def expansionLines (s : SessionSnapshot) (id : ElementId) : List (List Char) :=
  Text.linesFrom [] (renderSummaryExpansion s (nodesOf s) id)

/-- The covered elements of the transcript, in its order. -/
def coveredBody (s : SessionSnapshot) (id : ElementId) : List ElementSnapshot :=
  s.getVisibleBody.filter fun e => e.id ∈ expandCovered (nodesOf s) id

/-- Every line of every covered element has a line number of its own. -/
def Retrievable [Text.Unicode] (s : SessionSnapshot) (id : ElementId) : Prop :=
  ∃ place : ElementId → Nat → Nat,
    (∀ x ∈ expandCovered (nodesOf s) id, ∀ i line, (elementLines s x)[i]? = some line →
      ∃ start last shown,
        handleSummaryRead s (some id) (some (.inclusive start last)) none = .ok (.selected shown) ∧
          (place x i, line) ∈ shown.lines) ∧
    ∀ x ∈ expandCovered (nodesOf s) id, ∀ y ∈ expandCovered (nodesOf s) id, ∀ i j,
      i < (elementLines s x).length → j < (elementLines s y).length → place x i = place y j →
        x = y ∧ i = j

/-- The covered elements that are in the document are in the transcript, and their renderings fit
together into one expansion. -/
def Fits (s : SessionSnapshot) (id : ElementId) : Prop :=
  (∀ x ∈ expandCovered (nodesOf s) id, (s.element x).isSome →
      x ∈ (coveredBody s id).map ElementSnapshot.id) ∧
    (coveredBody s id = [] ∨ Text.byteLength (expansionHeader (nodesOf s) id) +
      ((coveredBody s id).map fun e =>
        Text.byteLength (renderTranscriptElement s e) + 1).sum ≤ maxSummaryBytes)

/-- Every hit of every search names the line number at which its line stands in the expansion of its
node. -/
def Addressed [Text.Unicode] (s : SessionSnapshot) (target : Option ElementId) : Prop :=
  ∀ pattern result, handleSummaryRead s target none (some pattern) = .ok (.search result) →
    ∀ hit ∈ result.hits, (expansionLines s hit.id)[hit.number - 1]? = some hit.line

/-- Nothing that the nodes cover is in the document. -/
def Gone (s : SessionSnapshot) (target : Option ElementId) : Prop :=
  ∀ id ∈ summaryScope s target, ∀ x ∈ expandCovered (nodesOf s) id, s.element x = none

variable {s : SessionSnapshot} {id x : ElementId} {e : ElementSnapshot} {covered : List ElementId}
  {out text line : List Char} {rendered size : Nat}

/-! ## Lines that start a rendering -/

/-- The line starts as the first line of a rendering does. -/
def opensElement (line : List Char) : Bool :=
  "--- ".toList.isPrefixOf line

omit [SerdeJson] in
theorem byteLength_dropLineEnd_le (line : List Char) :
    Text.byteLength (Text.dropLineEnd line) ≤ Text.byteLength line := by
  have hlast : ∀ cs : List Char, Text.byteLength cs.dropLast ≤ Text.byteLength cs := by
    intro cs
    rcases eq_nil_or_concat cs with rfl | ⟨front, c, rfl⟩
    · exact Nat.le_refl _
    · rw [concat_eq_append, dropLast_concat, Slices.byteLength_append]
      omega
  unfold Text.dropLineEnd Text.dropReturn
  split
  · split
    · exact Nat.le_trans (hlast _) (hlast _)
    · exact hlast _
  · exact Nat.le_refl _

omit [SerdeJson] in
/-- A line is no longer than its text. -/
theorem byteLength_line_le (h : line ∈ Text.linesFrom [] text) :
    Text.byteLength line ≤ Text.byteLength text := by
  rw [Text.linesFrom_nil_eq] at h
  obtain ⟨ended, hended, rfl⟩ := mem_map.mp h
  refine Nat.le_trans (byteLength_dropLineEnd_le ended) ?_
  obtain ⟨before, after, hsplit⟩ := append_of_mem hended
  have hflatten : (Text.endedLines '\n' text).flatten = text := Text.endedLines_flatten text
  rw [hsplit, flatten_append, flatten_cons] at hflatten
  rw [← hflatten, Slices.byteLength_append, Slices.byteLength_append]
  omega

omit [SerdeJson] in
theorem linesFrom_single (h : '\n' ∉ line) :
    Text.linesFrom [] (line ++ ['\n']) = [Text.dropReturn line] := by
  rw [Text.linesFrom_append h]
  rfl

omit [SerdeJson] in
theorem dropReturn_start (line : List Char) : Text.dropReturn line <+: line := by
  unfold Text.dropReturn
  split
  · exact dropLast_prefix line
  · exact prefix_rfl

omit [SerdeJson] in
theorem not_opensElement {c : Char} (hc : c ≠ '-') (line : List Char) :
    opensElement (Text.dropReturn (c :: line)) = false := by
  refine Bool.eq_false_iff.mpr fun h => ?_
  have hprefix := (List.isPrefixOf_iff_prefix.mp h).trans (dropReturn_start (c :: line))
  exact hc (cons_prefix_cons.mp hprefix).1.symm

/-- A rendering opens an element and ends its last line. -/
theorem renderTranscriptElement_shape (s : SessionSnapshot) (e : ElementSnapshot) :
    ∃ body, renderTranscriptElement s e = "--- ".toList ++ body ++ ['\n'] := by
  unfold renderTranscriptElement
  dsimp only
  split
  · exact ⟨"user ---\n".toList ++ e.text.toList, rfl⟩
  · exact ⟨"assistant ---\n".toList ++ e.text.toList, rfl⟩
  · next => exact ⟨_, by rw [append_cancel_right_eq]; simp only [append_assoc]; rfl⟩
  · exact ⟨e.kind.toList ++ " ---\n".toList ++ e.text.toList, by simp only [append_assoc]⟩

theorem renderTranscriptElement_ended (s : SessionSnapshot) (e : ElementSnapshot) :
    ∀ c ∈ (renderTranscriptElement s e).getLast?, c = '\n' := by
  obtain ⟨body, hbody⟩ := renderTranscriptElement_shape s e
  rw [hbody, getLast?_concat]
  rintro c ⟨⟩
  rfl

/-- The first line of a rendering opens the element. -/
theorem renderTranscriptElement_first (s : SessionSnapshot) (e : ElementSnapshot) :
    ∃ first rest, Text.linesFrom [] (renderTranscriptElement s e) = first :: rest ∧
      opensElement first = true := by
  obtain ⟨body, hbody⟩ := renderTranscriptElement_shape s e
  have hlines : Text.linesFrom [] (renderTranscriptElement s e) =
      Text.linesFrom "--- ".toList.reverse (body ++ ['\n']) := by
    rw [hbody, append_assoc]
    rfl
  rw [hlines, Text.linesFrom_eq, reverse_reverse]
  cases Text.endedLines '\n' (body ++ ['\n']) with
  | nil => exact ⟨"--- ".toList, [], rfl, by decide⟩
  | cons first rest =>
      refine ⟨_, _, rfl, isPrefixOf_iff_prefix.mpr ?_⟩
      rw [Text.prefix_dropLineEnd (by decide) (by decide)]
      exact prefix_append _ _

/-! ## What an expansion is made of -/

/-- The elements that are rendered before one does not fit. -/
def keptFrom (s : SessionSnapshot) (covered : List ElementId) :
    List ElementSnapshot → Nat → List ElementSnapshot
  | [], _ => []
  | e :: body, size =>
    if e.id ∉ covered then keptFrom s covered body size
    else if size + Text.byteLength (renderTranscriptElement s e) > maxSummaryBytes then []
    else e :: keptFrom s covered body (size + (Text.byteLength (renderTranscriptElement s e) + 1))

/-- A line of the expansion that belongs to no element. -/
def Note (lines : List Char) : Prop :=
  lines = [] ∨ ∃ note, lines = '[' :: note ++ ['\n'] ∧ '\n' ∉ note

omit [SerdeJson] in
theorem newline_not_mem_digits (n : Nat) : '\n' ∉ (toString n).toList := by
  intro hmem
  have hdigit : ('\n').isDigit = true := by
    refine Nat.isDigit_of_mem_toDigits (b := 10) (n := n) (by decide) (by decide) ?_
    rwa [show (toString n).toList = Nat.toDigits 10 n from Nat.toList_repr] at hmem
  exact absurd hdigit (by decide)

omit [SerdeJson] in
theorem newline_not_mem_id (id : ElementId) : '\n' ∉ id.value.toList := by
  intro hmem
  have hvalid := id.valid
  unfold validId at hvalid
  rw [Bool.and_eq_true] at hvalid
  exact absurd (all_eq_true.mp hvalid.2 _ hmem) (by decide)

omit [SerdeJson] in
theorem note_truncated (id : ElementId) (rendered covered : Nat) :
    Note (truncatedNote id rendered covered ++ ['\n']) := by
  refine .inr ⟨"...expansion truncated after ".toList ++ (toString rendered).toList ++
    " of ".toList ++ (toString covered).toList ++
    " elements; read a line range with summary://".toList ++ id.value.toList ++
    ":<from>-<to>]".toList, rfl, ?_⟩
  rw [mem_append, mem_append, mem_append, mem_append, mem_append,
    mem_append]
  simp only [newline_not_mem_digits, newline_not_mem_id, or_false]
  decide

omit [SerdeJson] in
theorem note_missing (missing : Nat) : Note (missingNote missing ++ ['\n']) := by
  refine .inr ⟨(toString missing).toList ++
    " covered elements are no longer in the transcript]".toList, rfl, ?_⟩
  rw [mem_append]
  simp only [newline_not_mem_digits, false_or]
  decide

omit [SerdeJson] in
theorem newline_not_mem_header (nodes : SummaryNodes) (id : ElementId) :
    '\n' ∉ expansionHeader nodes id := by
  unfold expansionHeader
  dsimp only
  rw [mem_append, mem_append, mem_append, mem_append, mem_append,
    mem_append]
  simp only [newline_not_mem_digits, newline_not_mem_id, or_false]
  decide

/-- The loop appends the renderings of the elements that fit, and at most one note. -/
theorem expandLoop_eq (s : SessionSnapshot) (id : ElementId) (covered : List ElementId)
    (body : List ElementSnapshot) (out : List Char) (rendered : Nat) :
    ∃ note, Note note ∧ expandLoop s id covered body out rendered =
      out ++ ((keptFrom s covered body (Text.byteLength out)).flatMap fun e =>
        renderTranscriptElement s e ++ ['\n']) ++ note := by
  induction body generalizing out rendered with
  | nil =>
      unfold expandLoop keptFrom
      split
      · exact ⟨missingNote (covered.length - rendered) ++ ['\n'], note_missing _, by simp⟩
      · exact ⟨[], .inl rfl, by simp⟩
  | cons e body ih =>
      unfold expandLoop keptFrom
      split
      · exact ih out rendered
      · dsimp only
        split
        · exact ⟨_, note_truncated id rendered covered.length, by simp⟩
        · obtain ⟨note, hnote, hloop⟩ :=
            ih (out ++ (renderTranscriptElement s e ++ ['\n'])) (rendered + 1)
          refine ⟨note, hnote, ?_⟩
          have hsize : Text.byteLength (out ++ (renderTranscriptElement s e ++ ['\n'])) =
              Text.byteLength out + (Text.byteLength (renderTranscriptElement s e) + 1) := by
            rw [Slices.byteLength_append, Slices.byteLength_append]
            rfl
          rw [hloop, hsize, flatMap_cons]
          simp only [append_assoc]

/-- The lines of what the loop appends for the elements. -/
theorem linesFrom_kept (kept : List ElementSnapshot) (note : List Char) :
    Text.linesFrom [] ((kept.flatMap fun e => renderTranscriptElement s e ++ ['\n']) ++ note) =
      (kept.flatMap fun e => Text.linesFrom [] (renderTranscriptElement s e) ++ [[]]) ++
        Text.linesFrom [] note := by
  induction kept with
  | nil => rfl
  | cons e kept ih =>
      rw [flatMap_cons, flatMap_cons, append_assoc, append_assoc,
        Text.linesFrom_ended (renderTranscriptElement_ended s e), append_assoc,
        append_assoc, ← ih]
      rfl

/-- An expansion that lists elements: its first line, each element and a blank line, and a note. -/
theorem expansionLines_eq (h : expandCovered (nodesOf s) id ≠ []) :
    ∃ note, (∀ line ∈ note, opensElement line = false) ∧
      expansionLines s id = Text.dropReturn (expansionHeader (nodesOf s) id) ::
        ((keptFrom s (expandCovered (nodesOf s) id) s.getVisibleBody
          (Text.byteLength (expansionHeader (nodesOf s) id) + 1)).flatMap fun e =>
            Text.linesFrom [] (renderTranscriptElement s e) ++ [[]]) ++ note := by
  obtain ⟨note, hnote, hloop⟩ := expandLoop_eq s id (expandCovered (nodesOf s) id)
    s.getVisibleBody (expansionHeader (nodesOf s) id ++ ['\n']) 0
  refine ⟨Text.linesFrom [] note, fun line hline => ?_, ?_⟩
  · rcases hnote with rfl | ⟨rest, rfl, hrest⟩
    · cases hline
    · rw [linesFrom_single (by simpa using hrest)] at hline
      rw [mem_singleton.mp hline]
      exact not_opensElement (by decide) rest
  · have hempty : (expandCovered (nodesOf s) id).isEmpty = false := by
      rwa [isEmpty_eq_false_iff]
    unfold expansionLines renderSummaryExpansion
    dsimp only
    rw [hempty, if_neg Bool.false_ne_true, hloop, Slices.byteLength_append, append_assoc,
      append_assoc, singleton_append,
      Text.linesFrom_append (newline_not_mem_header _ _), linesFrom_kept]
    rfl

/-! ## What is kept -/

/-- What is kept are the first of the covered elements. -/
theorem keptFrom_start (body : List ElementSnapshot) (size : Nat) :
    keptFrom s covered body size <+: body.filter fun e => e.id ∈ covered := by
  induction body generalizing size with
  | nil => exact prefix_rfl
  | cons e body ih =>
      unfold keptFrom
      split
      · next hout =>
        rw [filter_cons_of_neg (by simpa using hout)]
        exact ih size
      · next hin =>
        rw [filter_cons_of_pos (by simpa using hin)]
        split
        · exact nil_prefix
        · exact (prefix_cons_inj e).mpr (ih _)

/-- All of the covered elements are kept if they fit together. -/
theorem keptFrom_eq_iff (body : List ElementSnapshot) (size : Nat) :
    (keptFrom s covered body size = body.filter fun e => e.id ∈ covered) ↔
      (body.filter fun e => e.id ∈ covered) = [] ∨
        size + ((body.filter fun e => e.id ∈ covered).map fun e =>
          Text.byteLength (renderTranscriptElement s e) + 1).sum ≤ maxSummaryBytes + 1 := by
  induction body generalizing size with
  | nil => exact iff_of_true rfl (.inl rfl)
  | cons e body ih =>
      unfold keptFrom
      split
      · next hout =>
        rw [filter_cons_of_neg (by simpa using hout)]
        exact ih size
      · next hin =>
        rw [filter_cons_of_pos (by simpa using hin), map_cons, sum_cons]
        have hne := cons_ne_nil e (body.filter fun e => e.id ∈ covered)
        split
        · next hlarge => exact iff_of_false hne.symm (by simp only [hne, false_or]; omega)
        · next hfits =>
          rw [cons.injEq, ih, or_iff_right hne, eq_self, true_and]
          constructor
          · rintro (hnil | hle)
            · rw [hnil, map_nil, sum_nil]
              omega
            · omega
          · intro hle
            exact .inr (by omega)

omit [SerdeJson] in
theorem element_of_body (hwf : WellFormed s) (h : e ∈ s.getVisibleBody) :
    s.element e.id = some e := by
  obtain ⟨node, hnode, rfl, -⟩ := (mem_children_iff hwf).mp h
  unfold SessionSnapshot.element
  rw [hnode]
  rfl

theorem elementLines_of_body (hwf : WellFormed s) (h : e ∈ s.getVisibleBody) :
    elementLines s e.id = Text.linesFrom [] (renderTranscriptElement s e) := by
  unfold elementLines
  rw [element_of_body hwf h]
  rfl

/-- Exactly the elements of the document have a line that opens them. -/
theorem countP_elementLines (x : ElementId) :
    0 < (elementLines s x).countP opensElement ↔ (s.element x).isSome := by
  unfold elementLines
  cases s.element x with
  | none => exact iff_of_false (Nat.lt_irrefl 0) nofun
  | some e =>
      refine iff_of_true ?_ rfl
      obtain ⟨first, rest, hlines, hopens⟩ := renderTranscriptElement_first s e
      rw [Option.map_some, Option.getD_some, hlines, countP_cons_of_pos hopens]
      exact Nat.succ_pos _

/-- An expansion opens the elements that it keeps. -/
theorem countP_expansionLines (hwf : WellFormed s) (h : expandCovered (nodesOf s) id ≠ []) :
    (expansionLines s id).countP opensElement =
      ((keptFrom s (expandCovered (nodesOf s) id) s.getVisibleBody
        (Text.byteLength (expansionHeader (nodesOf s) id) + 1)).map fun e =>
          (elementLines s e.id).countP opensElement).sum := by
  obtain ⟨note, hnote, hlines⟩ := expansionLines_eq h
  have hheader : opensElement (Text.dropReturn (expansionHeader (nodesOf s) id)) = false :=
    not_opensElement (by decide) _
  have hnone : note.countP opensElement = 0 :=
    countP_eq_zero.mpr fun line hline => by simp [hnote line hline]
  rw [hlines, countP_append, countP_cons_of_neg (by simp [hheader]), hnone, Nat.add_zero,
    countP_flatMap]
  refine congrArg sum (map_congr_left fun e he => ?_)
  have hbody := mem_of_mem_filter ((keptFrom_start _ _).subset he)
  rw [Function.comp_apply, countP_append, elementLines_of_body hwf hbody]
  rfl

/-- Elements whose lines have places of their own in the expansion fit into it. -/
theorem fits_of_placed (place : ElementId → Nat → Nat) (hwf : WellFormed s)
    (h : Placement.Placed (expandCovered (nodesOf s) id) (elementLines s) (expansionLines s id)
      place) : Fits s id := by
  by_cases hempty : expandCovered (nodesOf s) id = []
  · unfold Fits coveredBody
    simp [hempty]
  · let kept := keptFrom s (expandCovered (nodesOf s) id) s.getVisibleBody
      (Text.byteLength (expansionHeader (nodesOf s) id) + 1)
    have hstart : kept <+: coveredBody s id := keptFrom_start _ _
    have hnodup : ((coveredBody s id).map ElementSnapshot.id).Nodup :=
      (Control.nodup_children hwf (staticId "body")).sublist (filter_sublist.map _)
    have hkept : kept.map ElementSnapshot.id ⊆ expandCovered (nodesOf s) id := by
      intro x hx
      obtain ⟨e, he, rfl⟩ := mem_map.mp hx
      exact of_decide_eq_true (mem_filter.mp (hstart.subset he)).2
    have hsum : ((expandCovered (nodesOf s) id).map fun x =>
        (elementLines s x).countP opensElement).sum ≤
          ((kept.map ElementSnapshot.id).map fun x =>
            (elementLines s x).countP opensElement).sum := by
      refine Nat.le_trans (h.sum_countP_le (nodup_expandCovered _ _) opensElement) (Nat.le_of_eq ?_)
      rw [countP_expansionLines hwf hempty, map_map]
      rfl
    have hall : ∀ x ∈ expandCovered (nodesOf s) id, (s.element x).isSome →
        x ∈ kept.map ElementSnapshot.id := fun x hx hpresent =>
      Placement.chosen_of_sum_le (hnodup.sublist (hstart.sublist.map _)) hkept hsum hx
        ((countP_elementLines x).mpr hpresent)
    have hids : (coveredBody s id).map ElementSnapshot.id ⊆ kept.map ElementSnapshot.id := by
      intro x hx
      obtain ⟨e, he, rfl⟩ := mem_map.mp hx
      obtain ⟨hbody, hcovered⟩ := mem_filter.mp he
      refine hall e.id (of_decide_eq_true hcovered) ?_
      rw [element_of_body hwf hbody]
      rfl
    have hwhole : kept = coveredBody s id := by
      have hle := (hnodup.subperm hids).length_le
      rw [length_map, length_map] at hle
      exact hstart.eq_of_length_le hle
    refine ⟨fun x hx hpresent => (hstart.sublist.map _).subset (hall x hx hpresent), ?_⟩
    · refine ((keptFrom_eq_iff _ _).mp hwhole).imp_right fun hle => ?_
      unfold coveredBody
      omega

/-- Where a line of an element stands in an expansion that keeps all elements. -/
def placeOf (s : SessionSnapshot) (id x : ElementId) (i : Nat) : Nat :=
  let ids := (coveredBody s id).map ElementSnapshot.id
  Placement.start (fun x => elementLines s x ++ [[]]) ids x + i + 1

theorem lt_of_getElem? {x : ElementId} {i : Nat} (h : (elementLines s x)[i]? = some line) :
    i < (elementLines s x).length ∧ (s.element x).isSome := by
  obtain ⟨hi, -⟩ := List.getElem?_eq_some_iff.mp h
  refine ⟨hi, Option.isSome_iff_ne_none.mpr fun hnone => ?_⟩
  unfold elementLines at hi
  rw [hnone] at hi
  exact Nat.not_lt_zero _ hi

/-- Elements that fit have places of their own in the expansion. -/
theorem placed_of_fits (hwf : WellFormed s) (h : Fits s id) :
    Placement.Placed (expandCovered (nodesOf s) id) (elementLines s) (expansionLines s id)
      (placeOf s id) := by
  obtain ⟨hpresent, hsize⟩ := h
  have hplaced := Placement.placed_flatMap ((coveredBody s id).map ElementSnapshot.id)
    fun x => elementLines s x ++ [[]]
  have hlonger : ∀ x i, i < (elementLines s x).length →
      i < (elementLines s x ++ [[]]).length := by
    intro x i hi
    rw [length_append]
    omega
  have hin : ∀ x ∈ expandCovered (nodesOf s) id, ∀ i, i < (elementLines s x).length →
      x ∈ (coveredBody s id).map ElementSnapshot.id := fun x hx i hi =>
    hpresent x hx (lt_of_getElem? (getElem?_eq_getElem hi)).2
  refine ⟨fun x hx i line hline => ?_, fun x hx y hy i j hi hj heq => ?_⟩
  · obtain ⟨hi, -⟩ := lt_of_getElem? hline
    have hfound := hplaced.found x (hin x hx i hi) i line
      (by rw [getElem?_append_left hi, hline])
    have hwhole : keptFrom s (expandCovered (nodesOf s) id) s.getVisibleBody
        (Text.byteLength (expansionHeader (nodesOf s) id) + 1) = coveredBody s id := by
      refine (keptFrom_eq_iff _ _).mpr (hsize.imp_right fun hle => ?_)
      unfold coveredBody at hle
      omega
    have hparts : ((coveredBody s id).map ElementSnapshot.id).flatMap
        (fun x => elementLines s x ++ [[]]) = (coveredBody s id).flatMap fun e =>
          Text.linesFrom [] (renderTranscriptElement s e) ++ [[]] := by
      rw [flatMap_map]
      refine flatMap_congr fun e he => ?_
      rw [elementLines_of_body hwf (mem_of_mem_filter he)]
    obtain ⟨note, -, hlines⟩ := expansionLines_eq (ne_nil_of_mem hx)
    rw [hparts] at hfound
    obtain ⟨hlt, -⟩ := List.getElem?_eq_some_iff.mp hfound
    rw [hlines, hwhole, placeOf, List.cons_append, List.getElem?_cons_succ,
      List.getElem?_append_left hlt]
    exact hfound
  · exact hplaced.apart x (hin x hx i hi) y (hin y hy j hj) i j (hlonger x i hi) (hlonger y j hj)
      (Nat.succ.inj heq)

/-! ## What a range of lines returns -/

omit [SerdeJson] in
/-- A line that is pushed is the line of its number. -/
theorem mem_pushLines {lines : List (List Char)} {maxLines maxBytes : Nat} {entry : Nat × List Char}
    {numbers : List Nat} {pushed totalBytes : Nat}
    (h : entry ∈ (Read.pushLines lines maxLines maxBytes pushed totalBytes numbers).lines) :
    entry.1 ∈ numbers ∧ entry.2 = lines.getD (entry.1 - 1) [] := by
  induction numbers generalizing pushed totalBytes with
  | nil => cases h
  | cons n numbers ih =>
      unfold Read.pushLines at h
      split at h
      · cases h
      · dsimp only at h
        split at h
        · cases h
        · rcases mem_cons.mp h with rfl | hlater
          · exact ⟨mem_cons_self, rfl⟩
          · obtain ⟨hmem, hline⟩ := ih hlater
            exact ⟨mem_cons_of_mem n hmem, hline⟩

omit [SerdeJson] in
/-- The range of one short line returns it. -/
theorem pushLines_line {lines : List (List Char)} {n : Nat} (hline : lines[n]? = some line)
    (hshort : Text.byteLength line < Read.maxReadBytes) :
    (Read.pushLines lines 4000 Read.maxReadBytes 0 0
      (Ranges.upTo (max (n + 1) 1) (min (n + 1) lines.length))).lines = [(n + 1, line)] := by
  obtain ⟨hlt, -⟩ := List.getElem?_eq_some_iff.mp hline
  have hnumbers : Ranges.upTo (max (n + 1) 1) (min (n + 1) lines.length) = [n + 1] := by
    rw [Nat.max_eq_left (by omega), Nat.min_eq_left (by omega)]
    unfold Ranges.upTo
    rw [show n + 1 + 1 - (n + 1) = 1 by omega]
    rfl
  have htext : lines.getD (n + 1 - 1) [] = line := by
    rw [Nat.add_sub_cancel, getD_eq_getElem?_getD, hline]
    rfl
  rw [hnumbers]
  unfold Read.pushLines
  dsimp only
  rw [htext, if_neg (by decide), if_neg (by omega)]
  rfl

/-- A line of an element that fits is short. -/
theorem byteLength_le_of_fits {i : Nat} (hwf : WellFormed s) (h : Fits s id)
    (hx : x ∈ expandCovered (nodesOf s) id) (hline : (elementLines s x)[i]? = some line) :
    Text.byteLength line ≤ maxSummaryBytes := by
  obtain ⟨hpresent, hsize⟩ := h
  obtain ⟨e, he, rfl⟩ := mem_map.mp (hpresent x hx (lt_of_getElem? hline).2)
  rw [elementLines_of_body hwf (mem_of_mem_filter he)] at hline
  have hshort := byteLength_line_le (mem_of_getElem? hline)
  obtain ⟨before, after, hsplit⟩ := append_of_mem he
  rcases hsize with hnil | hle
  · rw [hnil] at he
    cases he
  · rw [hsplit, map_append, map_cons, sum_append, sum_cons] at hle
    omega

omit [SerdeJson] in
theorem loadNodes_ne_nil (h : id ∈ nodesOf s) : (loadNodes s).isEmpty = false := by
  refine Bool.eq_false_iff.mpr fun hempty => ?_
  unfold nodesOf at h
  rw [isEmpty_iff.mp hempty] at h
  exact Std.ExtTreeMap.not_mem_empty h

/-- A node that is named has an expansion of which ranges of lines are read. -/
theorem handleSummaryRead_lines [Text.Unicode] (h : id ∈ nodesOf s) (start last : Nat) :
    handleSummaryRead s (some id) (some (.inclusive start last)) none =
      .ok (.selected (Read.pushLines (expansionLines s id) 4000 Read.maxReadBytes 0 0
        (Ranges.upTo (max start 1) (min last (expansionLines s id).length)))) := by
  have hsome : ((nodesOf s)[id]?).isNone = false := by
    rw [Option.isNone_eq_false_iff, Std.ExtTreeMap.isSome_getElem?_iff_mem]
    exact h
  unfold handleSummaryRead
  dsimp only
  rw [loadNodes_ne_nil h, if_neg Bool.false_ne_true, Option.any_some, hsome,
    if_neg Bool.false_ne_true]
  rfl

/-- The lines can be read exactly when they have places of their own in the expansion. -/
theorem retrievable_iff [Text.Unicode] (hwf : WellFormed s) (h : id ∈ nodesOf s) :
    Retrievable s id ↔ Fits s id := by
  constructor
  · rintro ⟨place, hread, hapart⟩
    have hfound : ∀ x ∈ expandCovered (nodesOf s) id, ∀ i line,
        (elementLines s x)[i]? = some line →
          1 ≤ place x i ∧ (expansionLines s id)[place x i - 1]? = some line := by
      intro x hx i line hline
      obtain ⟨start, last, shown, hshown, hmem⟩ := hread x hx i line hline
      rw [handleSummaryRead_lines h] at hshown
      cases hshown
      obtain ⟨hnumber, htext⟩ := mem_pushLines hmem
      dsimp only at hnumber htext
      have hbounds := Ranges.mem_upTo.mp hnumber
      have hlt : place x i - 1 < (expansionLines s id).length := by omega
      refine ⟨by omega, ?_⟩
      rw [htext, getD_eq_getElem?_getD, getElem?_eq_getElem hlt]
      rfl
    refine fits_of_placed (fun x i => place x i - 1) hwf
      ⟨fun x hx i line hline => (hfound x hx i line hline).2, fun x hx y hy i j hi hj heq => ?_⟩
    have hx' := (hfound x hx i _ (getElem?_eq_getElem hi)).1
    have hy' := (hfound y hy j _ (getElem?_eq_getElem hj)).1
    exact hapart x hx y hy i j hi hj (by omega)
  · intro hfits
    have hplaced := placed_of_fits hwf hfits
    refine ⟨fun x i => placeOf s id x i + 1, fun x hx i line hline => ?_,
      fun x hx y hy i j hi hj heq => hplaced.apart x hx y hy i j hi hj (Nat.succ.inj heq)⟩
    have hfound := hplaced.found x hx i line hline
    obtain ⟨hlt, -⟩ := List.getElem?_eq_some_iff.mp hfound
    refine ⟨placeOf s id x i + 1, placeOf s id x i + 1, _, handleSummaryRead_lines h _ _, ?_⟩
    rw [pushLines_line hfound (Nat.lt_of_le_of_lt (byteLength_le_of_fits hwf hfits hx hline)
      (by decide))]
    exact mem_singleton_self _

/-! ## What a search prints -/

/-- Before the first element an expansion has a line of its own. -/
theorem expansionLines_first (s : SessionSnapshot) (id : ElementId) :
    (expansionLines s id)[0]? = some (Text.dropReturn (expansionHeader (nodesOf s) id)) := by
  have hheader : ∃ rest, renderSummaryExpansion s (nodesOf s) id =
      expansionHeader (nodesOf s) id ++ '\n' :: rest := by
    unfold renderSummaryExpansion
    dsimp only
    split
    · exact ⟨_, by rw [append_assoc, singleton_append]⟩
    · obtain ⟨note, -, hloop⟩ := expandLoop_eq s id
        (expandCovered (nodesOf s) id) s.getVisibleBody
        (expansionHeader (nodesOf s) id ++ ['\n']) 0
      rw [hloop, append_assoc, append_assoc, singleton_append]
      exact ⟨_, rfl⟩
  obtain ⟨rest, hrest⟩ := hheader
  unfold expansionLines
  rw [hrest, Text.linesFrom_append (newline_not_mem_header _ _)]
  rfl

omit [SerdeJson] in
/-- A search goes through nothing if no candidate is in the document. -/
theorem searchElements_eq_nil {nodes : SummaryNodes} {candidates : List (ElementId × ElementId)}
    (h : ∀ candidate ∈ candidates, s.element candidate.2 = none) (seen : List ElementId) :
    searchElements s nodes seen candidates = [] := by
  induction candidates generalizing seen with
  | nil => rfl
  | cons candidate candidates ih =>
      have hrest := ih fun other hother => h other (mem_cons_of_mem _ hother)
      unfold searchElements
      split
      · exact hrest seen
      · rw [h candidate mem_cons_self]
        exact hrest _

omit [SerdeJson] in
/-- A search goes through some element if a candidate is in the document. -/
theorem searchElements_ne_nil {nodes : SummaryNodes} {candidates : List (ElementId × ElementId)}
    {candidate : ElementId × ElementId} (h : candidate ∈ candidates)
    (hpresent : (s.element candidate.2).isSome) {seen : List ElementId}
    (hnew : candidate.2 ∉ seen) : searchElements s nodes seen candidates ≠ [] := by
  induction candidates generalizing seen with
  | nil => cases h
  | cons first candidates ih =>
      unfold searchElements
      split
      · next hseen =>
        rcases mem_cons.mp h with rfl | hrest
        · exact absurd hseen hnew
        · exact ih hrest hnew
      · cases hfirst : s.element first.2 with
        | none =>
          have hne : candidate.2 ≠ first.2 := fun heq => by
            rw [heq, hfirst] at hpresent
            cases hpresent
          rcases mem_cons.mp h with rfl | hrest
          · exact absurd rfl hne
          · exact ih hrest (not_mem_cons_of_ne_of_not_mem hne hnew)
        | some found => exact cons_ne_nil _ _

omit [SerdeJson] in
theorem lineContains_self [Text.Unicode] (line : List Char) :
    lineContains (Text.Unicode.toLowercase (String.ofList line)).toList line = true := by
  unfold lineContains
  cases (Text.Unicode.toLowercase (String.ofList line)).toList with
  | nil => rfl
  | cons c needle =>
      rw [Text.splitOnce, if_pos (List.isPrefixOf_iff_prefix.mpr prefix_rfl)]
      rfl

/-- The line numbers that searches print are right exactly if there is nothing to search. -/
theorem addressed_iff [Text.Unicode] (target : Option ElementId) :
    Addressed s target ↔ Gone s target := by
  constructor
  · intro haddressed id hid x hx
    by_contra hpresent
    rw [← ne_eq, ← Option.isSome_iff_ne_none] at hpresent
    have hcandidate : (id, x) ∈ (summaryScope s target).flatMap fun id =>
        (expandCovered (nodesOf s) id).map fun element => (id, element) :=
      mem_flatMap.mpr ⟨id, hid, mem_map_of_mem hx⟩
    have hcandidates : searchElements s (nodesOf s) [] ((summaryScope s target).flatMap fun id =>
        (expandCovered (nodesOf s) id).map fun element => (id, element)) ≠ [] :=
      searchElements_ne_nil hcandidate hpresent not_mem_nil
    obtain ⟨⟨first, e⟩, more, hsearched⟩ := exists_cons_of_ne_nil hcandidates
    obtain ⟨line, rest, hlines, hopens⟩ := renderTranscriptElement_first s e
    have hread : handleSummaryRead s target none (some (String.ofList line)) =
        .ok (.search (renderSummarySearch s (nodesOf s) (summaryScope s target)
          (String.ofList line))) := by
      have hnode := mem_of_mem_expandCovered hx
      have htarget : (target.any fun id => ((nodesOf s)[id]?).isNone) = false := by
        cases target with
        | none => rfl
        | some named =>
          obtain rfl := mem_singleton.mp hid
          rw [Option.any_some, Option.isNone_eq_false_iff, Std.ExtTreeMap.isSome_getElem?_iff_mem]
          exact hnode
      have hpattern : (String.ofList line).isEmpty = false := by
        refine Bool.eq_false_iff.mpr fun hempty => ?_
        rw [String.isEmpty_iff, String.ofList_eq_empty_iff] at hempty
        rw [hempty] at hopens
        cases hopens
      unfold handleSummaryRead
      dsimp only
      rw [loadNodes_ne_nil hnode, if_neg Bool.false_ne_true, htarget, if_neg Bool.false_ne_true,
        Option.filter_some, if_pos (by rw [hpattern]; rfl)]
    have hhit : ⟨first, 1, line⟩ ∈ (renderSummarySearch s (nodesOf s) (summaryScope s target)
        (String.ofList line)).hits := by
      unfold renderSummarySearch searchLines
      dsimp only
      rw [hsearched, flatMap_cons, hlines, zipIdx_cons, map_cons, cons_append,
        searchLoop, if_neg (by decide), if_pos (lineContains_self line)]
      exact mem_cons_self
    have hplaced := haddressed _ _ hread _ hhit
    have hline : Text.dropReturn (expansionHeader (nodesOf s) first) = line :=
      Option.some.inj ((expansionLines_first s first).symm.trans hplaced)
    have hcloses : opensElement (Text.dropReturn (expansionHeader (nodesOf s) first)) = false :=
      not_opensElement (by decide) _
    rw [hline, hopens] at hcloses
    cases hcloses
  · intro hgone pattern result hread hit hhit
    have hnothing : renderSummarySearch s (nodesOf s) (summaryScope s target) pattern =
        ⟨[], false⟩ := by
      unfold renderSummarySearch
      dsimp only
      rw [searchElements_eq_nil fun candidate hcandidate => ?_]
      · rfl
      · obtain ⟨id, hid, hmem⟩ := mem_flatMap.mp hcandidate
        obtain ⟨x, hx, rfl⟩ := mem_map.mp hmem
        exact hgone id hid x hx
    have hresult : result = renderSummarySearch s (nodesOf s) (summaryScope s target) pattern := by
      unfold handleSummaryRead at hread
      dsimp only at hread
      split at hread
      · cases hread
      · split at hread
        · cases hread
        · split at hread
          · next found hfound =>
            obtain ⟨hpattern, -⟩ := Option.filter_eq_some_iff.mp hfound
            cases hpattern
            cases hread
            rfl
          · split at hread <;> cases hread
    rw [hresult, hnothing] at hhit
    cases hhit

/-- In every document that a journal reaches, a node gives back its originals exactly when they are
in the transcript and fit into one expansion, and a search prints right numbers only if it has
nothing to search. -/
theorem originals_iff [Text.Unicode] {j : Journal}
    (hstart : (∃ sessionId, Journal.create sessionId = .ok j) ∨
      ∃ file, Journal.openFile file = .ok j) (calls : List Journal.Call) :
    (∀ id ∈ nodesOf (j.after calls).snapshot,
      Retrievable (j.after calls).snapshot id ↔ Fits (j.after calls).snapshot id) ∧
    ∀ target, Addressed (j.after calls).snapshot target ↔ Gone (j.after calls).snapshot target := by
  have hcoherent : ∃ sessionId log, Journal.Coherent sessionId j log := by
    rcases hstart with ⟨sessionId, hcreate⟩ | ⟨file, hopen⟩
    · exact ⟨sessionId, [], Journal.create_coherent hcreate⟩
    · exact Journal.openFile_coherent hopen
  obtain ⟨sessionId, log, hcoherent⟩ := hcoherent
  obtain ⟨more, hafter⟩ := hcoherent.after calls
  have hwf := (hafter.at_version hafter.live).wellFormed
  exact ⟨fun id hid => retrievable_iff hwf hid, addressed_iff⟩

end Omp2.Tools

/-! ## A message behind a summary -/

namespace Omp2.Tools

open Omp2.Control Omp2.Json.Compact Omp2.State SessionSnapshot Journal
open scoped Omp2.Text

/-- A message and a node that covers it. -/
def foldedMessage : List PatchOp :=
  [.create (staticId "body") 0
      { ElementSnapshot.new ⟨"said", Eq.refl true⟩ "user" with text := "hello" },
    .create (staticId "summaries") 0
      (SummaryNode.toElement
        { covered := [⟨"said", Eq.refl true⟩], children := [], coveredTokens := 1,
          createdOffset := 0 } ⟨"fold", Eq.refl true⟩ .leaf "a greeting")]

/-- The document with the message and the node. -/
def foldedDocument : SessionSnapshot :=
  documentAfter (.empty exampleSession) "fold" foldedMessage

/-- A journal whose document this is. -/
theorem exists_folded : ∃ j calls, Journal.create exampleSession = .ok j ∧
    (j.after calls).snapshot = foldedDocument := by
  obtain ⟨j, hcreate, hopen⟩ := exists_open
  obtain ⟨j', r, happend, hopen'⟩ := hopen.append "fold" foldedMessage (by decide +kernel)
    (fits_of_draft (by decide +kernel))
  refine ⟨j, [.append (documentPatch (.empty exampleSession) "fold" foldedMessage) fineOutside],
    hcreate, ?_⟩
  show (j.appendPatch _ _).1.snapshot = _
  rw [happend]
  exact hopen'.snapshot

/-- A search for the message prints a line number at which the expansion has another line. -/
theorem not_originals : ¬ ∀ (sessionId : SessionId) (j : Journal) (calls : List Journal.Call),
    Journal.create sessionId = .ok j →
      (∀ id ∈ nodesOf (j.after calls).snapshot, Retrievable (j.after calls).snapshot id) ∧
        ∀ target, Addressed (j.after calls).snapshot target := by
  intro h
  obtain ⟨j, calls, hcreate, hsnapshot⟩ := exists_folded
  have haddressed := (h exampleSession j calls hcreate).2 none
  rw [hsnapshot, addressed_iff] at haddressed
  have hfolded : ∃ id ∈ summaryScope foldedDocument none,
      ∃ x ∈ expandCovered (nodesOf foldedDocument) id, (foldedDocument.element x).isSome := by
    decide +kernel
  obtain ⟨id, hid, x, hx, hpresent⟩ := hfolded
  rw [haddressed id hid x hx] at hpresent
  cases hpresent

/-- The message can be read back from the node. -/
theorem originals_folded : ∃ j calls, (∃ sessionId, Journal.create sessionId = .ok j) ∧
    (∀ id ∈ nodesOf (j.after calls).snapshot,
      Retrievable (j.after calls).snapshot id ↔ Fits (j.after calls).snapshot id) ∧
    ∀ target, Addressed (j.after calls).snapshot target ↔
      Gone (j.after calls).snapshot target := by
  obtain ⟨j, calls, hcreate, -⟩ := exists_folded
  exact ⟨j, calls, ⟨_, hcreate⟩, originals_iff (.inl ⟨_, hcreate⟩) calls⟩

end Omp2.Tools
