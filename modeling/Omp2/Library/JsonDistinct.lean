import Omp2.Library.JsonText

/-!
# Distinct texts of JSON trees

What the documentation of a serialiser promises of trees of any depth: the text of a tree stands
for that tree alone. A reader may refuse a text that nests too deeply, but no other tree has it.
-/

namespace Omp2.Json

/-- A serialiser that writes different trees differently. -/
class SerdeDistinct extends SerdeJson where
  /-- The text of a tree is the text of no other one. -/
  display_injective : ∀ v w : Value, v.display = w.display → v = w

namespace Compact

/-- The text of a tree as a string. -/
theorem display_eq (value : Value) : value.display = String.ofList (print value) := by
  have hbytes : (⟨(toVec value).toArray⟩ : ByteArray) =
      (String.ofList (print value)).toByteArray := by
    apply ByteArray.ext
    simp [toVec, List.utf8Encode]
  have htext : String.fromUTF8? (String.ofList (print value)).toByteArray =
      some (String.ofList (print value)) := by
    unfold String.fromUTF8?
    rw [dif_pos (String.ofList (print value)).isValidUTF8]
    rfl
  unfold Value.display
  show (String.fromUTF8? ⟨(toVec value).toArray⟩).getD "" = _
  rw [hbytes, htext]
  rfl

/-- The compact text is read back, however deep the tree. -/
theorem print_injective {v w : Value} (h : print v = print w) : v = w := by
  have hread (value : Value) (fuel : Nat) (hfuel : (print value).length < fuel) :
      parseValue fuel (print value) = some (value, []) := by
    have hparse := parseValue_print value [] (by simp [Stops]) fuel hfuel
    rwa [List.append_nil] at hparse
  have hv := hread v _ (Nat.lt_succ_self _)
  have hw := hread w ((print v).length + 1) (h ▸ Nat.lt_succ_self _)
  rw [← h, hv] at hw
  exact congrArg Prod.fst (Option.some.inj hw)

/-- The compact serialiser writes different trees differently. -/
scoped instance serdeDistinct : SerdeDistinct where
  toSerdeJson := serdeJson
  display_injective v w h := by
    rw [display_eq, display_eq] at h
    exact print_injective (String.ofList_injective h)

end Compact

end Omp2.Json
