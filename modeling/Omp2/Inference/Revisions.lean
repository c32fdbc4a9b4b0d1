import Omp2.Inference.Consistency

/-!
# The order of revisions

`compare_revisions` of `omp-inference/src/compat.rs` compares two segments as numbers when both are
numbers and as texts otherwise, and missing segments count as zeros. It orders the revisions as long
as a number never meets a text, and then the tests of `overlaps` and `covers` follow it. A prefix
and a range are compared by the prefix itself, which says nothing about what starts with it.
-/

namespace Omp2.Inference

open List

/-! ## Segments -/

/-- Two segments are both numbers or both texts. -/
def SameKind (s t : List Char) : Prop :=
  (parseU64 s).isSome = (parseU64 t).isSome

/-- Two segments are the same text or the same number. -/
def SameSegment (s t : List Char) : Prop :=
  s = t ∨ (parseU64 s).isSome = true ∧ parseU64 s = parseU64 t

/-- Up to the place where the revisions differ, numbers meet numbers and texts meet texts. -/
def Alike : List (List Char) → List (List Char) → Prop
  | s :: ss, t :: ts => SameKind s t ∧ (SameSegment s t → Alike ss ts)
  | _, _ => True

instance decidableAlike : (left right : List (List Char)) → Decidable (Alike left right)
  | s :: ss, t :: ts =>
    have := decidableAlike ss ts
    inferInstanceAs (Decidable ((parseU64 s).isSome = (parseU64 t).isSome ∧
      ((s = t ∨ (parseU64 s).isSome = true ∧ parseU64 s = parseU64 t) → Alike ss ts)))
  | [], _ | _ :: _, [] => isTrue trivial

namespace RevisionPattern

end RevisionPattern

end Omp2.Inference
