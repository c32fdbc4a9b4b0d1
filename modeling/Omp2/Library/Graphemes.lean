import Omp2.Library.Slices

/-!
# Grapheme clusters

What a text editor shows as one character is a grapheme cluster. Where the clusters of a text end is
decided by tables that are not part of this development. Relied on is that the clusters make up the
text, that none is empty, and that a newline stands alone in a text without carriage returns. A
boundary is a byte position between two clusters, or at one of the ends.
-/

namespace Omp2.Graphemes

open Text Slices List

/-- The segmentation of texts into grapheme clusters, and the columns that they take. -/
class Segmentation where
  graphemes : List Char → List (List Char)
  width : List Char → Nat
  flatten_graphemes : ∀ text, (graphemes text).flatten = text
  ne_nil : ∀ text, ∀ g ∈ graphemes text, g ≠ []
  newline : ∀ before after, '\r' ∉ before →
    graphemes (before ++ '\n' :: after) = graphemes before ++ ['\n'] :: graphemes after

export Segmentation (graphemes width)

/-- The byte position of a text after its first characters. -/
def upTo (text : List Char) (position : Nat) : List Char :=
  (takeBytes text position).getD []

/-- The text from a byte position on. -/
def after (text : List Char) (position : Nat) : List Char :=
  (dropBytes text position).getD []

theorem upTo_append (front rest : List Char) : upTo (front ++ rest) (byteLength front) = front := by
  unfold upTo
  rw [takeBytes_append]
  rfl

theorem after_append (front rest : List Char) :
    after (front ++ rest) (byteLength front) = rest := by
  unfold after
  rw [dropBytes_append]
  rfl

section Segmentation

variable [Segmentation] {text front rest line : List Char} {position : Nat}

/-- The last clusters of the text start at this byte position. -/
def Reached (text : List Char) (position : Nat) (rest : List (List Char)) : Prop :=
  ∃ front, graphemes text = front ++ rest ∧ byteLength front.flatten = position

/-- The byte position stands between two clusters. -/
def IsBoundary (text : List Char) (position : Nat) : Prop :=
  ∃ rest, Reached text position rest

theorem Reached.isBoundary {gs : List (List Char)} (h : Reached text position gs) :
    IsBoundary text position :=
  ⟨gs, h⟩

theorem reached_start (text : List Char) : Reached text 0 (graphemes text) :=
  ⟨[], rfl, rfl⟩

theorem Reached.step {g : List Char} {gs : List (List Char)} (h : Reached text position (g :: gs)) :
    Reached text (position + byteLength g) gs := by
  obtain ⟨front, hsplit, hlength⟩ := h
  refine ⟨front ++ [g], by rw [hsplit, append_assoc, singleton_append], ?_⟩
  rw [flatten_append, flatten_singleton, byteLength_append, hlength]

theorem byteLength_pos {g : List Char} (h : g ∈ graphemes text) : 0 < byteLength g := by
  have hne := length_pos_of_ne_nil (Segmentation.ne_nil text g h)
  exact hne.trans_le (length_le_byteLength g)

theorem isBoundary_zero (text : List Char) : IsBoundary text 0 :=
  ⟨graphemes text, reached_start text⟩

theorem isBoundary_length (text : List Char) : IsBoundary text (byteLength text) :=
  ⟨[], graphemes text, (append_nil _).symm, by rw [Segmentation.flatten_graphemes]⟩

theorem IsBoundary.split (h : IsBoundary text position) :
    ∃ front rest, text = front ++ rest ∧ byteLength front = position := by
  obtain ⟨rest, front, hsplit, hlength⟩ := h
  refine ⟨front.flatten, rest.flatten, ?_, hlength⟩
  rw [← flatten_append, ← hsplit, Segmentation.flatten_graphemes]

theorem IsBoundary.le (h : IsBoundary text position) : position ≤ byteLength text := by
  obtain ⟨front, rest, rfl, rfl⟩ := h.split
  rw [byteLength_append]
  exact Nat.le_add_right _ _

theorem IsBoundary.before_newline (h : IsBoundary line position) (hreturn : '\r' ∉ line)
    (rest : List Char) : IsBoundary (line ++ '\n' :: rest) position := by
  obtain ⟨others, clusters, hsplit, hlength⟩ := h
  refine ⟨others ++ ['\n'] :: graphemes rest, clusters, ?_, hlength⟩
  rw [Segmentation.newline _ _ hreturn, hsplit, append_assoc]

/-- A boundary of what comes after a newline is one of the whole text. -/
theorem IsBoundary.after_newline (h : IsBoundary rest position) (hreturn : '\r' ∉ front) :
    IsBoundary (front ++ '\n' :: rest) (byteLength front + 1 + position) := by
  obtain ⟨others, clusters, hsplit, hlength⟩ := h
  refine ⟨others, graphemes front ++ ['\n'] :: clusters, ?_, ?_⟩
  · rw [Segmentation.newline _ _ hreturn, hsplit, append_assoc, cons_append]
  · rw [flatten_append, flatten_cons, Segmentation.flatten_graphemes, byteLength_append,
      byteLength_append, hlength]
    show byteLength front + (1 + position) = _
    omega

end Segmentation

/-! ## Segmentations by pairs -/

/-- The clusters when two neighbours decide whether they belong together. -/
def clusters (joins : Char → Char → Bool) : List Char → List (List Char)
  | [] => []
  | c :: cs =>
    match clusters joins cs with
    | (d :: g) :: gs => if joins c d then (c :: d :: g) :: gs else [c] :: (d :: g) :: gs
    | gs => [c] :: gs

variable {joins : Char → Char → Bool}

theorem clusters_flatten (cs : List Char) : (clusters joins cs).flatten = cs := by
  induction cs with
  | nil => rfl
  | cons c cs ih =>
      unfold clusters
      split
      · next d g gs hrest =>
        rw [hrest] at ih
        split
        · exact congrArg (c :: ·) ih
        · exact congrArg (c :: ·) ih
      · exact congrArg (c :: ·) ih

theorem clusters_ne_nil (cs : List Char) : ∀ g ∈ clusters joins cs, g ≠ [] := by
  induction cs with
  | nil => exact fun _ => nofun
  | cons c cs ih =>
      unfold clusters
      split
      · next d g gs hrest =>
        rw [hrest] at ih
        split
        · exact forall_mem_cons.mpr ⟨nofun, fun g' hg' => ih g' (mem_cons_of_mem _ hg')⟩
        · exact forall_mem_cons.mpr ⟨nofun, ih⟩
      · exact forall_mem_cons.mpr ⟨nofun, ih⟩

theorem clusters_cons (c : Char) (cs : List Char) :
    ∃ g gs, clusters joins (c :: cs) = (c :: g) :: gs := by
  unfold clusters
  split
  · next d g gs hrest =>
    split
    · exact ⟨_, _, rfl⟩
    · exact ⟨_, _, rfl⟩
  · exact ⟨_, _, rfl⟩

theorem clusters_step {c d : Char} {cs g : List Char} {gs : List (List Char)}
    (h : clusters joins cs = (d :: g) :: gs) :
    clusters joins (c :: cs) =
      if joins c d then (c :: d :: g) :: gs else [c] :: (d :: g) :: gs := by
  rw [clusters, h]

/-- Clusters end where two neighbours do not belong together. -/
theorem clusters_append (front : List Char) {c d : Char} (rest : List Char)
    (h : joins c d = false) :
    clusters joins (front ++ c :: d :: rest) =
      clusters joins (front ++ [c]) ++ clusters joins (d :: rest) := by
  induction front with
  | nil =>
      obtain ⟨g, gs, hrest⟩ : ∃ g gs, clusters joins (d :: rest) = (d :: g) :: gs :=
        clusters_cons d rest
      show clusters joins (c :: d :: rest) = [[c]] ++ clusters joins (d :: rest)
      rw [clusters_step hrest, h, hrest]
      rfl
  | cons b front ih =>
      obtain ⟨e, tail, htail⟩ : ∃ e tail, front ++ [c] = e :: tail := by
        cases front with
        | nil => exact ⟨c, [], rfl⟩
        | cons e front => exact ⟨e, front ++ [c], rfl⟩
      obtain ⟨g, gs, hfront⟩ : ∃ g gs, clusters joins (e :: tail) = (e :: g) :: gs :=
        clusters_cons e tail
      rw [← htail] at hfront
      rw [hfront, cons_append] at ih
      rw [cons_append, cons_append, clusters_step ih, clusters_step hfront]
      split <;> rfl

/-- Neighbours decide, and a newline belongs to nothing but a carriage return before it. -/
@[reducible]
def ofPairs (joins : Char → Char → Bool) (width : List Char → Nat)
    (hbefore : ∀ c, c ≠ '\r' → joins c '\n' = false) (hafter : ∀ d, joins '\n' d = false) :
    Segmentation where
  graphemes := clusters joins
  width
  flatten_graphemes := clusters_flatten
  ne_nil := clusters_ne_nil
  newline := by
    intro before rest hreturn
    have hrest : clusters joins ('\n' :: rest) = ['\n'] :: clusters joins rest := by
      cases rest with
      | nil => rfl
      | cons d rest => exact clusters_append [] rest (hafter d)
    rcases List.eq_nil_or_concat before with rfl | ⟨front, c, rfl⟩
    · exact hrest
    · have hc : c ≠ '\r' := by
        rintro rfl
        exact hreturn (by simp)
      rw [List.concat_eq_append, List.append_assoc, List.singleton_append,
        clusters_append front rest (hbefore c hc), hrest]

end Omp2.Graphemes
