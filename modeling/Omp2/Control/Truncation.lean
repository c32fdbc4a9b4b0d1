import Omp2.Control.Projection

/-!
# Cut texts

What `truncate_for_projection` leaves of a text: the text itself or its two ends around a marker
that says how much is missing. The planner charges the bound of the cut text for an element that it
caps.
-/

namespace Omp2.Control

/-- What a text becomes in a projection that caps it. -/
structure CutToEnds (text : String) : Prop where
  /-- A short text is kept. -/
  short : text.utf8ByteSize ≤ truncatedHeadChars + truncatedTailChars →
    truncateForProjection text = text
  /-- A long text is cut between characters, and the marker counts the bytes left out. -/
  long : truncatedHeadChars + truncatedTailChars < text.utf8ByteSize →
    ∃ head middle tail : String, text = head ++ middle ++ tail ∧
      head.utf8ByteSize ≤ truncatedHeadChars ∧ tail.utf8ByteSize ≤ truncatedTailChars ∧
      truncateForProjection text =
        head ++ "\n[…" ++ toString middle.utf8ByteSize ++
          " chars truncated to fit the context window; the journal keeps the full text]\n" ++ tail
  /-- The estimate is within the budget. -/
  tokens : estimateTokens (truncateForProjection text) ≤ truncatedBytes
  /-- An entry whose text the planner has capped costs no more than what the planner counts. -/
  charged : ∀ entries covered dag config fuel, ∀ entry ∈ entries,
    (entries.map BodyEntry.id).Nodup → entry.textTokens = estimateTokens text →
    let reductions := reduce entries covered dag config fuel ∅
    ∀ reduction, reductions[entry.id]? = some reduction → reduction.cappedText = true →
      estimateTokens (truncateForProjection text) +
        ((entry.tokens - entry.textTokens) -
          if reduction.omittedArguments then entry.argsTokens else 0) ≤
        entryCost reductions entry

/-- A start and an end that do not fill a list leave out what is between them. -/
theorem exists_middle {front back cs : List Char} (hfront : front <+: cs) (hback : back <:+ cs)
    (hroom : Text.byteLength front + Text.byteLength back < Text.byteLength cs) :
    ∃ middle, cs = front ++ middle ++ back := by
  obtain ⟨rest, rfl⟩ := hfront
  obtain ⟨before, heq⟩ := hback
  rcases List.append_eq_append_iff.mp heq with ⟨middle, rfl, rfl⟩ | ⟨middle, rfl, rfl⟩
  · simp only [Slices.byteLength_append] at hroom
    omega
  · exact ⟨middle, (List.append_assoc ..).symm⟩

/-- A long text is its two ends and what is left out. -/
theorem exists_ends {text : String}
    (hlong : truncatedHeadChars + truncatedTailChars < text.utf8ByteSize) :
    ∃ middle, text =
      textPrefix text truncatedHeadChars ++ middle ++ textSuffix text truncatedTailChars := by
  have hhead := textPrefix_size_le text truncatedHeadChars
  have htail := textSuffix_size_le text truncatedTailChars
  have hfront : (textPrefix text truncatedHeadChars).toList <+: text.toList := by
    unfold textPrefix Text.truncate
    rw [if_neg (by unfold truncatedTailChars at hlong; omega), String.toList_ofList]
    exact Slices.truncateChars_start ..
  have hback : (textSuffix text truncatedTailChars).toList <:+ text.toList := by
    unfold textSuffix Text.suffix
    rw [if_neg (by unfold truncatedHeadChars at hlong; omega), String.toList_ofList]
    exact List.reverse_prefix.mp (by
      rw [List.reverse_reverse]
      exact Slices.truncateChars_start ..)
  obtain ⟨middle, hmiddle⟩ := exists_middle hfront hback (by
    rw [← Text.utf8ByteSize_eq, ← Text.utf8ByteSize_eq, ← Text.utf8ByteSize_eq]
    omega)
  refine ⟨String.ofList middle, String.toList_inj.mp ?_⟩
  rw [String.toList_append, String.toList_append, String.toList_ofList]
  exact hmiddle

/-- For every text of a length that a machine holds, the cap of the projection keeps a short text
and cuts a long one between characters to its two ends around a marker that counts what is left out.
The estimate is within the budget, so a capped element never costs more than the planner counts. -/
theorem truncateForProjection_cutToEnds (text : String) (hlength : text.utf8ByteSize < 10 ^ 14) :
    CutToEnds text where
  short hshort := if_pos hshort
  long hlong := by
    obtain ⟨middle, hmiddle⟩ := exists_ends hlong
    refine ⟨_, middle, _, hmiddle, textPrefix_size_le .., textSuffix_size_le .., ?_⟩
    have hsize := congrArg String.utf8ByteSize hmiddle
    rw [String.utf8ByteSize_append, String.utf8ByteSize_append] at hsize
    have hdropped : text.utf8ByteSize - ((textPrefix text truncatedHeadChars).utf8ByteSize +
        (textSuffix text truncatedTailChars).utf8ByteSize) = middle.utf8ByteSize := by
      omega
    -- the count of the marker is a machine integer
    have hdigits : toString (UInt64.ofNat middle.utf8ByteSize) = toString middle.utf8ByteSize :=
      congrArg toString (UInt64.toNat_ofNat_of_lt
        (Nat.lt_of_le_of_lt (by omega) (by decide : 10 ^ 14 < 2 ^ 64)))
    unfold truncateForProjection
    rw [if_neg (Nat.not_le.mpr hlong)]
    dsimp only
    rw [hdropped, hdigits]
    simp only [toString, String.append_assoc]
    rfl
  tokens := estimateTokens_truncateForProjection_le text
  charged entries covered dag config fuel entry hentry hnodup htext := by
    intro reductions reduction hreduction hcapped
    have hcut := estimateTokens_truncateForProjection_le text
    have hmore := (reduce_fair hnodup fuel (fun _ _ _ hnone => by simp at hnone) entry hentry
      reduction hreduction).2 hcapped
    rw [entryCost_eq, hreduction, Option.any_some, Option.any_some, if_pos hcapped]
    have htokens : entry.tokens = entry.argsTokens + entry.textTokens + _ := rfl
    split <;> omega

/-- A text of a byte more than is kept. -/
theorem truncateForProjection_cutToEnds_long :
    CutToEnds (String.ofList (List.replicate 601 'a')) :=
  truncateForProjection_cutToEnds _ (by rw [Text.utf8ByteSize_ofList]; decide +kernel)

end Omp2.Control
