import Mathlib.Data.List.Flatten
import Omp2.Render.RichText

/-!
# Cutting a text to a width

A plain text that is cut to a width is no wider than it. The first clusters of a text, read again,
are the same clusters, so what the cut keeps is as wide as the sum that it counted; and text that
was sanitized once is not changed by the second time that the cut sanitizes it.
-/

namespace Omp2.Render

open List

/-! ## Sanitized text -/

/-- The scan keeps the character and stays in text. -/
def Clean (c : Char) : Prop :=
  EscapeState.scanText c = (.text, some c)

theorem scanText_some {c kept : Char} {state : EscapeState}
    (h : EscapeState.scanText c = (state, some kept)) : state = .text ∧ Clean kept := by
  have hkept : kept = c := by
    unfold EscapeState.scanText at h
    split_ifs at h <;> simp_all
  have hstate : state = .text := by
    unfold EscapeState.scanText at h
    split_ifs at h <;> simp_all
  subst hkept hstate
  exact ⟨rfl, h⟩

/-- What the scan keeps is clean. -/
theorem scan_some {c kept : Char} {state next : EscapeState}
    (h : state.scan c = (next, some kept)) : next = .text ∧ Clean kept := by
  cases state with
  | text => exact scanText_some h
  | stringEscape =>
      simp only [EscapeState.scan] at h
      split at h
      · simp at h
      · exact scanText_some h
  | escape =>
      simp only [EscapeState.scan] at h
      split_ifs at h <;> simp at h
  | csi =>
      simp only [EscapeState.scan] at h
      split_ifs at h <;> simp at h
  | string =>
      simp only [EscapeState.scan] at h
      split_ifs at h <;> simp at h

/-- Sanitized text is clean. -/
theorem clean_of_mem_sanitizeChars {state : EscapeState} {cs : List Char} {c : Char}
    (h : c ∈ sanitizeChars state cs) : Clean c := by
  induction cs generalizing state with
  | nil => simp [sanitizeChars] at h
  | cons first rest ih =>
      unfold sanitizeChars at h
      split at h
      · next next kept hscan =>
        rcases mem_cons.mp h with rfl | h
        · exact (scan_some hscan).2
        · exact ih h
      · exact ih h

theorem sanitizeChars_of_clean {cs : List Char} (h : ∀ c ∈ cs, Clean c) :
    sanitizeChars .text cs = cs := by
  induction cs with
  | nil => rfl
  | cons c rest ih =>
      have hscan : EscapeState.text.scan c = (.text, some c) := h c (mem_cons_self ..)
      simp only [sanitizeChars, hscan]
      rw [ih fun other hother => h other (mem_cons_of_mem _ hother)]

/-! ## Clusters -/

theorem clustersAfter_flatten (state : ClusterState) (cs : List Char) :
    (clustersAfter state cs).1 ++ (clustersAfter state cs).2.flatten = cs := by
  induction cs generalizing state with
  | nil => rfl
  | cons c rest ih =>
      unfold clustersAfter
      split
      · next next _ => exact congrArg (c :: ·) (ih next)
      · exact congrArg (c :: ·) (ih (.opening c))

theorem graphemeClusters_flatten (cs : List Char) : (graphemeClusters cs).flatten = cs := by
  cases cs with
  | nil => rfl
  | cons c rest => exact congrArg (c :: ·) (clustersAfter_flatten (.opening c) rest)

/-- A cluster and the first clusters after it, read again. -/
theorem clustersAfter_take (state : ClusterState) (cs : List Char) (k : Nat) :
    clustersAfter state
        ((clustersAfter state cs).1 ++ ((clustersAfter state cs).2.take k).flatten) =
      ((clustersAfter state cs).1, (clustersAfter state cs).2.take k) := by
  induction cs generalizing state k with
  | nil => simp [clustersAfter]
  | cons c rest ih =>
      cases hextend : state.extend c with
      | some next =>
        -- the character belongs to the current cluster
        have hstep (more : List Char) : clustersAfter state (c :: more) =
            (c :: (clustersAfter next more).1, (clustersAfter next more).2) := by
          simp only [clustersAfter, hextend]
        rw [hstep, cons_append, hstep, ih next k]
      | none =>
        -- the character opens the first of the clusters after it
        have hstep (more : List Char) : clustersAfter state (c :: more) =
            ([], (c :: (clustersAfter (.opening c) more).1) ::
              (clustersAfter (.opening c) more).2) := by
          simp only [clustersAfter, hextend]
        rw [hstep]
        cases k with
        | zero => rfl
        | succ k =>
          rw [take_succ_cons, flatten_cons, nil_append, cons_append, hstep,
            ih (.opening c) k]

/-- The first clusters of a text, read again, are the same. -/
theorem graphemeClusters_take (cs : List Char) (k : Nat) :
    graphemeClusters ((graphemeClusters cs).take k).flatten = (graphemeClusters cs).take k := by
  cases cs with
  | nil => simp [graphemeClusters]
  | cons c rest =>
      cases k with
      | zero => rfl
      | succ k =>
        have hstep (more : List Char) : graphemeClusters (c :: more) =
            (c :: (clustersAfter (.opening c) more).1) :: (clustersAfter (.opening c) more).2 :=
          rfl
        rw [hstep, take_succ_cons, flatten_cons, cons_append, hstep,
          clustersAfter_take]

theorem mem_of_mem_take_clusters {cs : List Char} {k : Nat} {c : Char}
    (h : c ∈ ((graphemeClusters cs).take k).flatten) : c ∈ cs := by
  rw [← graphemeClusters_flatten cs]
  obtain ⟨cluster, hcluster, hc⟩ := mem_flatten.mp h
  exact mem_flatten.mpr ⟨cluster, mem_of_mem_take hcluster, hc⟩

namespace RichText

/-- What fits are the first clusters, as many as the room is wide enough for. -/
theorem fitting_take (room : Nat) (clusters : List (List Char)) :
    ∃ k, (fitting room clusters).1 = (clusters.take k).flatten ∧
      ((clusters.take k).map graphemeClusterWidth).sum ≤ room := by
  induction clusters generalizing room with
  | nil => exact ⟨0, rfl, Nat.zero_le _⟩
  | cons cluster rest ih =>
      unfold fitting
      split
      · exact ⟨0, rfl, Nat.zero_le _⟩
      · next hroom =>
        obtain ⟨k, hkept, hsum⟩ := ih (room - graphemeClusterWidth cluster)
        refine ⟨k + 1, congrArg (cluster ++ ·) hkept, ?_⟩
        simp only [take_succ_cons, map_cons, sum_cons]
        omega

theorem fitting_width (room : Nat) (cs : List Char) :
    visibleWidth (fitting room (graphemeClusters cs)).1 ≤ room ∧
      ∀ c ∈ (fitting room (graphemeClusters cs)).1, c ∈ cs := by
  obtain ⟨k, hkept, hsum⟩ := fitting_take room (graphemeClusters cs)
  rw [hkept]
  refine ⟨?_, fun c => mem_of_mem_take_clusters⟩
  unfold visibleWidth
  rw [graphemeClusters_take]
  exact hsum

/-- The text of a first push, when it is clean. -/
theorem plainText_pushSome {style : Style} {cs : List Char} (h : ∀ c ∈ cs, Clean c) :
    (pushSome ⟨[]⟩ style (String.ofList cs)).plainText = String.ofList cs := by
  have hsanitize : sanitizeText (String.ofList cs) = String.ofList cs := by
    rw [sanitizeText, String.toList_ofList, sanitizeChars_of_clean h]
  unfold pushSome
  split
  · next hempty =>
    have : String.ofList cs = "" := by simpa using hempty
    rw [this]
    rfl
  · next hempty =>
    simp only [push, hsanitize, hempty]
    simp [plainText]

theorem pushSome_empty (rt : RichText) (style : Style) : rt.pushSome style "" = rt :=
  rfl

/-- A plain text that is cut to a width is no wider than it. -/
theorem truncateWidth_plain (text : String) (maxWidth : Nat) :
    strVisibleWidth (((fromPlain text).truncateWidth maxWidth none).plainText) ≤ maxWidth := by
  unfold truncateWidth
  split
  · -- the sanitized text fits
    next hfits =>
      unfold fromPlain push at hfits ⊢
      simp only [getLast?_nil] at hfits ⊢
      split
      · exact Nat.zero_le _
      · next hempty =>
        rw [if_neg hempty] at hfits
        simpa [width, plainText] using hfits
  · next hwide =>
    unfold fromPlain push at hwide ⊢
    simp only [getLast?_nil] at hwide ⊢
    split
    · next hempty => simp [hempty, width] at hwide
    · -- what fits of the sanitized text is pushed
      have hclean : ∀ c ∈ (sanitizeText text).toList, Clean c := by
        intro c hc
        rw [sanitizeText, String.toList_ofList] at hc
        exact clean_of_mem_sanitizeChars hc
      have hnothing : strVisibleWidth "" = 0 := rfl
      obtain ⟨hwidth, hmem⟩ := fitting_width maxWidth (sanitizeText text).toList
      simp only [truncateRuns, Option.getD_none, hnothing, Nat.sub_zero, nil_append]
      split
      · next kept _ hkept =>
        rw [hkept] at hwidth hmem
        rw [pushSome_empty, plainText_pushSome fun c hc => hclean c (hmem c hc)]
        rw [strVisibleWidth, String.toList_ofList]
        exact hwidth
      · next kept _ hkept =>
        rw [hkept] at hwidth hmem
        rw [pushSome_empty, plainText_pushSome fun c hc => hclean c (hmem c hc)]
        rw [strVisibleWidth, String.toList_ofList]
        exact hwidth

end RichText

end Omp2.Render
