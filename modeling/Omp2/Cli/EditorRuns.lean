import Omp2.Cli.Motions
import Omp2.Library.Machine

/-!
# Runs of the editor

Every operation keeps the text, the draft and the history in order, and leaves the cursor at a
boundary unless a deletion joins what it leaves on its two sides. Whatever is recalled on the way,
the keys that move find the draft again.
-/

namespace Omp2.Cli

open Omp2.Text Omp2.Slices Omp2.Graphemes List

/-- The operations of the editor. -/
inductive EditorOp where
  | set (text : List Char)
  | insert (text : List Char)
  | clear
  | submit
  | key (key : KeyEvent)

namespace Editor

variable [Segmentation] {e e' : Editor}

/-- The editor after a key. -/
def press (e : Editor) (key : KeyEvent) : Editor :=
  (e.handleKey key).1

/-- The editor after an operation. -/
def step (e : Editor) : EditorOp → Editor
  | .set text => e.set text
  | .insert text => (e.insert text).1
  | .clear => e.clear
  | .submit => e.submit.1
  | .key key => e.press key

/-! ## What every operation keeps -/

omit [Segmentation] in
theorem kept_new : Kept new :=
  ⟨fits_nil, fits_nil, fun _ => nofun, Nat.zero_le _, fun _ => nofun⟩

theorem Navigated.kept (hnav : Navigated e e') (h : Kept e) : Kept e' := by
  have hentry : ∀ index, index < e.history.length → Fits ((e.history[index]?).getD []) := by
    intro index hindex
    rw [getElem?_eq_getElem hindex]
    exact h.entries _ (getElem_mem hindex)
  cases hnav with
  | same => exact h
  | moved cursor hboundary => exact ⟨h.text, h.draft, h.entries, h.limit, h.index⟩
  | drafted index hindex hnone =>
      refine ⟨hentry index hindex, h.text, h.entries, h.limit, fun other hother => ?_⟩
      cases hother
      exact hindex
  | recalled index hindex hsome =>
      refine ⟨hentry index hindex, h.draft, h.entries, h.limit, fun other hother => ?_⟩
      cases hother
      exact hindex
  | restored hsome => exact ⟨h.draft, fits_nil, h.entries, h.limit, fun _ => nofun⟩

theorem Navigated.boundary (hnav : Navigated e e') (h : IsBoundary e.text e.cursor) :
    IsBoundary e'.text e'.cursor := by
  cases hnav with
  | same => exact h
  | moved cursor hboundary => exact hboundary
  | drafted index hindex hnone => exact isBoundary_length _
  | recalled index hindex hsome => exact isBoundary_length _
  | restored hsome => exact isBoundary_length _

theorem kept_insert (h : Kept e) (input : List Char) : Kept (e.insert input).1 := by
  rcases e.insert_cases input with hsame | ⟨hfits, front, rest, cursor, htext, _, hinsert⟩
  · rw [hsame]
    exact h
  · rw [hinsert]
    refine ⟨⟨fun c hc => ?_, ?_⟩, h.draft, h.entries, h.limit, fun _ => nofun⟩
    · have hplain := h.text.plain
      rw [htext] at hplain
      rcases mem_append.mp hc with hc | hc
      · rcases mem_append.mp hc with hc | hc
        · exact hplain c (mem_append_left _ hc)
        · exact plain_of_mem_sanitized hc
      · exact hplain c (mem_append_right _ hc)
    · rw [htext, byteLength_append] at hfits
      show byteLength (front ++ sanitizeAndNormalize input ++ rest) ≤ maxBufferBytes
      rw [byteLength_append, byteLength_append]
      omega

theorem kept_deletion (h : Kept e) (d : Deletion) : Kept (d.run e).1 := by
  obtain ⟨cursor, hclamp, _⟩ := e.clampCursor_spec
  rw [d.run_eq]
  split
  · rw [hclamp]
    exact ⟨h.text, h.draft, h.entries, h.limit, h.index⟩
  · next first last hcut =>
    have hle := Deletion.cut_le hcut
    rw [hclamp]
    exact ⟨fits_drained (e := { e with cursor }) h.text hle, h.draft, h.entries, h.limit,
      fun _ => nofun⟩

theorem kept_set (h : Kept e) (text : List Char) : Kept (e.set text) := by
  have hfits : Fits (if maxBufferBytes < byteLength (sanitizeAndNormalize text) then
      truncateToGraphemeBudget (sanitizeAndNormalize text) maxBufferBytes
      else sanitizeAndNormalize text) := by
    have hplain : ∀ c ∈ sanitizeAndNormalize text, Plain c := fun c => plain_of_mem_sanitized
    split
    · next hlong =>
      unfold truncateToGraphemeBudget
      rw [if_neg (Nat.not_le.mpr hlong)]
      have hbudget := (budgetFrom_spec (reached_start (sanitizeAndNormalize text))
        (Nat.zero_le maxBufferBytes)).2
      exact ⟨fun c hc => hplain c ((upTo_start _ _).subset hc),
        (byteLength_upTo_le _ _).trans hbudget⟩
    · next hshort => exact ⟨hplain, Nat.le_of_not_lt hshort⟩
  unfold Editor.set
  dsimp only
  obtain ⟨cursor, hclamp, _⟩ := clampCursor_spec { e with
    text := if maxBufferBytes < byteLength (sanitizeAndNormalize text) then
      truncateToGraphemeBudget (sanitizeAndNormalize text) maxBufferBytes
      else sanitizeAndNormalize text
    cursor := byteLength (if maxBufferBytes < byteLength (sanitizeAndNormalize text) then
      truncateToGraphemeBudget (sanitizeAndNormalize text) maxBufferBytes
      else sanitizeAndNormalize text) }
  rw [hclamp]
  exact ⟨hfits, h.draft, h.entries, h.limit, fun _ => nofun⟩

omit [Segmentation] in
theorem kept_submit (h : Kept e) : Kept e.submit.1 := by
  unfold submit
  split
  · exact h
  · refine ⟨fits_nil, fits_nil, fun entry hentry => ?_, ?_, fun _ => nofun⟩
    · dsimp only at hentry
      split at hentry
      · exact h.entries entry hentry
      · rcases mem_append.mp hentry with hentry | hentry
        · split at hentry
          · exact h.entries entry (mem_of_mem_tail hentry)
          · exact h.entries entry hentry
        · rw [mem_singleton.mp hentry]
          exact h.text
    · have hlimit := h.limit
      dsimp only
      split
      · exact hlimit
      · rw [length_append, length_singleton]
        split
        · next hfull =>
          unfold maxHistoryEntries at *
          rw [length_tail]
          omega
        · next hroom => omega

/-- Every operation keeps the text, the draft and the history in order. -/
theorem kept_step (h : Kept e) (op : EditorOp) : Kept (e.step op) := by
  cases op with
  | set text => exact kept_set h text
  | insert text => exact kept_insert h text
  | clear => exact ⟨fits_nil, fits_nil, h.entries, h.limit, fun _ => nofun⟩
  | submit => exact kept_submit h
  | key key =>
      show Kept (e.handleKey key).1
      rcases handleKey_cases h key with ⟨_, hnav⟩ | ⟨_, ⟨d, _, hdelete⟩ | ⟨input, hinsert⟩⟩
      · exact hnav.kept h
      · rw [hdelete]
        exact kept_deletion h d
      · rw [hinsert]
        exact kept_insert h input

/-! ## The cursor -/

/-- What a deletion leaves on its two sides does not join to one cluster. -/
def Separate (e : Editor) : EditorOp → Prop
  | .key key => ∀ d, key.deletion = some d → ∀ first last,
    d.cut e.clampCursor = some (first, last) →
      IsBoundary (e.clampCursor.drained first last) first
  | _ => True

theorem boundary_insert (h : IsBoundary e.text e.cursor) (input : List Char) :
    IsBoundary (e.insert input).1.text (e.insert input).1.cursor := by
  rcases e.insert_cases input with hsame | ⟨_, front, rest, cursor, _, hboundary, hinsert⟩
  · rw [hsame]
    exact h
  · rw [hinsert]
    exact hboundary

/-- An operation leaves the cursor at a boundary when a deletion does not join its two sides. -/
theorem boundary_step (hkept : Kept e) (h : IsBoundary e.text e.cursor) (op : EditorOp)
    (hseparate : Separate e op) : IsBoundary (e.step op).text (e.step op).cursor := by
  cases op with
  | set text =>
      obtain ⟨cursor, hclamp, hboundary⟩ := clampCursor_spec { e with
        text := if maxBufferBytes < byteLength (sanitizeAndNormalize text) then
          truncateToGraphemeBudget (sanitizeAndNormalize text) maxBufferBytes
          else sanitizeAndNormalize text
        cursor := byteLength (if maxBufferBytes < byteLength (sanitizeAndNormalize text) then
          truncateToGraphemeBudget (sanitizeAndNormalize text) maxBufferBytes
          else sanitizeAndNormalize text) }
      show IsBoundary (e.set text).text (e.set text).cursor
      unfold Editor.set
      dsimp only
      rw [hclamp]
      exact hboundary
  | insert text => exact boundary_insert h text
  | clear => exact isBoundary_zero []
  | submit =>
      show IsBoundary e.submit.1.text e.submit.1.cursor
      unfold submit
      split
      · exact h
      · exact isBoundary_zero []
  | key key =>
      show IsBoundary (e.handleKey key).1.text (e.handleKey key).1.cursor
      rcases handleKey_cases hkept key with
        ⟨_, hnav⟩ | ⟨_, ⟨d, hd, hdelete⟩ | ⟨input, hinsert⟩⟩
      · exact hnav.boundary h
      · rw [hdelete, d.run_eq]
        split
        · rw [clampCursor_eq_self h]
          exact h
        · next first last hcut => exact hseparate d hd first last hcut
      · rw [hinsert]
        exact boundary_insert h input

/-! ## The draft -/

/-- The draft is what is shown, or is put aside while an entry is. -/
def Drafted (draft : List Char) (e : Editor) : Prop :=
  (e.historyIndex = none ∧ e.text = draft) ∨ (e.historyIndex ≠ none ∧ e.draft = draft)

theorem Navigated.drafted_of {draft : List Char} (hnav : Navigated e e') (h : Drafted draft e) :
    Drafted draft e' := by
  cases hnav with
  | same => exact h
  | moved cursor hboundary => exact h
  | drafted index hindex hnone =>
      rcases h with ⟨_, htext⟩ | ⟨hsome, _⟩
      · exact .inr ⟨nofun, htext⟩
      · exact absurd hnone hsome
  | recalled index hindex hsome =>
      rcases h with ⟨hnone, _⟩ | ⟨_, hdraft⟩
      · exact absurd hnone hsome
      · exact .inr ⟨nofun, hdraft⟩
  | restored hsome =>
      rcases h with ⟨hnone, _⟩ | ⟨_, hdraft⟩
      · exact absurd hnone hsome
      · exact .inl ⟨rfl, hdraft⟩

theorem navigated_press (h : Kept e) {key : KeyEvent} (hkey : key.navigates = true) :
    Navigated e (e.press key) := by
  rcases handleKey_cases h key with ⟨_, hnav⟩ | ⟨hnot, _⟩
  · exact hnav
  · rw [hkey] at hnot
    cases hnot

/-- The key that moves down. -/
def downKey : KeyEvent :=
  ⟨.down, false, false, false⟩

/-- Pressing down often enough comes back to the draft. -/
theorem exists_downs (e : Editor) (h : Kept e) :
    ∃ n, (Machine.run press e (List.replicate n downKey)).historyIndex = none := by
  by_cases hnone : e.historyIndex = none
  · exact ⟨0, hnone⟩
  · have hpress : e.press downKey = e.handleDown.1 := rfl
    have hkept : Kept (e.press downKey) := (navigated_press h rfl).kept h
    have hnext : ∀ n, (Machine.run press (e.press downKey)
        (replicate n downKey)).historyIndex = none → _ := fun n hn =>
      (⟨n + 1, hn⟩ : ∃ n, (Machine.run press e (replicate n downKey)).historyIndex = none)
    rcases handleDown_cases h.text with ⟨cursor, hdown, hboundary, hcount⟩ |
      ⟨index, hindex, hlt, hdown⟩ | ⟨index, hindex, _, hdown⟩ | ⟨hnone', _⟩
    · have hclamp : (e.press downKey).clampCursor = e.press downKey := by
        refine clampCursor_eq_self ?_
        rw [hpress, hdown]
        exact hboundary
      obtain ⟨n, hn⟩ := exists_downs (e.press downKey) hkept
      exact hnext n hn
    · obtain ⟨n, hn⟩ := exists_downs (e.press downKey) hkept
      exact hnext n hn
    · refine hnext 0 ?_
      show (e.press downKey).historyIndex = none
      rw [hpress, hdown]
    · exact absurd hnone' hnone
termination_by (e.history.length - e.historyIndex.getD 0,
  (after e.text e.clampCursor.cursor).count '\n')
decreasing_by
  · have hhistory : (e.press downKey).history = e.history := by rw [hpress, hdown]
    have hindex : (e.press downKey).historyIndex = e.historyIndex := by rw [hpress, hdown]
    have htext : (e.press downKey).text = e.text := by rw [hpress, hdown]
    have hcursor : (e.press downKey).cursor = cursor := by rw [hpress, hdown]
    rw [hhistory, hindex, hclamp, htext, hcursor]
    exact Prod.Lex.right _ (by omega)
  · have hhistory : (e.press downKey).history = e.history := by rw [hpress, hdown]; rfl
    have hindex' : (e.press downKey).historyIndex = some (index + 1) := by rw [hpress, hdown]; rfl
    rw [hhistory, hindex', hindex]
    refine Prod.Lex.left _ _ ?_
    show e.history.length - (index + 1) < e.history.length - index
    omega

/-- Recalling entries and coming back restores the unsent draft. -/
def Restores (e : Editor) : Prop :=
  ∀ keys : List KeyEvent, (∀ key ∈ keys, key.navigates = true) →
    ((Machine.run press e keys).historyIndex = none → (Machine.run press e keys).text = e.text) ∧
      ∃ n, (Machine.run press e (keys ++ List.replicate n downKey)).historyIndex = none ∧
        (Machine.run press e (keys ++ List.replicate n downKey)).text = e.text

theorem drafted_run {draft : List Char} {keys : List KeyEvent}
    (hkeys : ∀ key ∈ keys, key.navigates = true) (hkept : Kept e) (h : Drafted draft e) :
    Kept (Machine.run press e keys) ∧ Drafted draft (Machine.run press e keys) := by
  induction keys generalizing e with
  | nil => exact ⟨hkept, h⟩
  | cons key rest ih =>
      have hnav := navigated_press hkept (hkeys key mem_cons_self)
      exact ih (fun other hother => hkeys other (mem_cons_of_mem _ hother)) (hnav.kept hkept)
        (hnav.drafted_of h)

/-- What is shown when no entry is recalled is the draft. -/
theorem restores_of_kept (hkept : Kept e) (hnone : e.historyIndex = none) : Restores e := by
  intro keys hkeys
  have htext : ∀ keys : List KeyEvent, (∀ key ∈ keys, key.navigates = true) →
      (Machine.run press e keys).historyIndex = none →
        (Machine.run press e keys).text = e.text := by
    intro keys hkeys hindex
    rcases (drafted_run hkeys hkept (.inl ⟨hnone, rfl⟩)).2 with ⟨_, htext⟩ | ⟨hsome, _⟩
    · exact htext
    · exact absurd hindex hsome
  refine ⟨htext keys hkeys, ?_⟩
  obtain ⟨n, hn⟩ := exists_downs _ (drafted_run hkeys hkept (.inl ⟨hnone, rfl⟩)).1
  rw [← Machine.run_append] at hn
  refine ⟨n, hn, htext _ (fun key hkey => ?_) hn⟩
  rcases mem_append.mp hkey with hkey | hkey
  · exact hkeys key hkey
  · rw [eq_of_mem_replicate hkey]
    rfl

/-! ## Runs -/

theorem kept_run (ops : List EditorOp) : Kept (Machine.run step new ops) :=
  Machine.invariant_run (P := Kept) (fun _ op h => kept_step h op) ops kept_new

/-- The cursor of every state is at a boundary when no deletion joins its two sides. -/
theorem boundary_run {ops : List EditorOp} (h : Machine.Along step Separate new ops) :
    IsBoundary (Machine.run step new ops).text (Machine.run step new ops).cursor := by
  have hrun := Machine.invariant_along
    (fun e op (he : Kept e ∧ IsBoundary e.text e.cursor) hseparate =>
      (⟨kept_step he.1 op, boundary_step he.1 he.2 op hseparate⟩ : Kept (e.step op) ∧
        IsBoundary (e.step op).text (e.step op).cursor))
    ⟨kept_new, isBoundary_zero []⟩ h
  exact hrun.2

end Editor

end Omp2.Cli
