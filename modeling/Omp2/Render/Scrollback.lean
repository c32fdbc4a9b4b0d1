import Omp2.Render.Emission

/-!
# The native scrollback

The rows in the scrollback are the last lines of the history, and all of it while no row has been
evicted. Streaming and retiring push what they add to the history, the marker of a resize is a
summary, and a rebuild replays the history, so each route keeps the scrollback in step.
-/

namespace Omp2.Render.TranscriptScheduler

open Omp2.Slots

variable {s s' : TranscriptScheduler}

/-- The scrollback agrees with the history. -/
structure Agrees (s : TranscriptScheduler) : Prop where
  suffix : texts s.nativeScrollback <:+ s.history
  whole : s.scrollbackEvicted = 0 → texts s.nativeScrollback = s.history
  bounded : s.nativeScrollback.length ≤ maxScrollbackRows
  epochs : ∀ row ∈ s.nativeScrollback, row.epoch = s.displayEpoch

theorem texts_drop (n : Nat) (rows : List NativeRow) : texts (rows.drop n) <:+ texts rows :=
  ((List.drop_suffix n rows).filter _).map _

/-- Emitting rows keeps the scrollback in step. -/
theorem Emits.agrees {rows : List NativeRow} (h : Emits s rows s') (hexact : s.ledger.Exact)
    (hagrees : s.Agrees) : s'.Agrees := by
  obtain ⟨evicted, _, hscrollback, hcount⟩ := h.pushed.scrollback
  have hhistory : s'.history = s.history ++ texts rows := by
    rw [← ledger_history, ← ledger_history, h.steps.history hexact]
  refine ⟨?_, fun hzero => ?_, h.pushed.bounded hagrees.bounded, fun row hrow => ?_⟩
  · have hdrop := texts_drop evicted (s.nativeScrollback ++ rows)
    rw [← hscrollback, texts_append] at hdrop
    obtain ⟨gone, hgone⟩ := hagrees.suffix
    rw [hhistory]
    exact hdrop.trans ⟨gone, by rw [← List.append_assoc, hgone]⟩
  · -- nothing was evicted, neither before nor now
    obtain rfl : evicted = 0 := by omega
    rw [hscrollback, List.drop_zero, texts_append, hagrees.whole (by omega), hhistory]
  · rw [h.displayEpoch]
    rw [hscrollback] at hrow
    rcases List.mem_append.mp (List.mem_of_mem_drop hrow) with hrow | hrow
    · exact hagrees.epochs row hrow
    · exact h.epochs row hrow

/-- A rebuild brings the scrollback in step with the history. -/
theorem Rebuilds.agrees (h : Rebuilds s s') : s'.Agrees := by
  obtain ⟨rows, htexts, hepochs, hscrollback, hevicted⟩ := h.replayed
  have hhistory : s'.history = texts rows := by
    rw [htexts, ← ledger_history, ← ledger_history, h.ledger]
  refine ⟨?_, fun hzero => ?_, ?_, fun row hrow => ?_⟩
  · rw [hscrollback, hhistory]
    exact texts_drop ..
  · have hexcess : rows.length - maxScrollbackRows = 0 := by omega
    rw [hscrollback, hhistory, hexcess, List.drop_zero]
  · rw [hscrollback, List.length_drop]
    omega
  · exact hepochs row (List.mem_of_mem_drop (hscrollback ▸ hrow))

theorem Moves.agrees (h : Moves s s') (hexact : s.ledger.Exact) (hagrees : s.Agrees) :
    s'.Agrees := by
  cases h with
  | emits rows hemits => exact hemits.agrees hexact hagrees
  | rebuilds hrebuilds => exact hrebuilds.agrees

theorem new_agrees (viewportWidth viewportHeight : UInt16) :
    (new viewportWidth viewportHeight).Agrees :=
  ⟨List.nil_suffix, fun _ => rfl, Nat.zero_le _, by simp [new]⟩

/-- In every run the scrollback agrees with the history. -/
theorem run_agrees (viewportWidth viewportHeight : UInt16) (operations : List Operation) :
    (Machine.run after (new viewportWidth viewportHeight) operations).Agrees := by
  refine (Machine.invariant_run (P := fun s : TranscriptScheduler => s.ledger.Exact ∧ s.Agrees)
    (fun s operation h => ?_) operations
    ⟨Ledger.exact_nil, new_agrees viewportWidth viewportHeight⟩).2
  obtain ⟨_, _, _, _, hmoves⟩ := after_lawful h.1 operation
  exact ⟨(hmoves.exact h.1).1, hmoves.agrees h.1 h.2⟩

end Omp2.Render.TranscriptScheduler
