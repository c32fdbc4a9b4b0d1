import Omp2.Control.Elision

/-!
# Journals that stand at a known document

A journal that is open takes any patch that applies to its document and fits into a frame. So runs
on fixed inputs are followed through the documents, without the bytes of the file.
-/

namespace Omp2.Control

open Omp2.Json.Compact Omp2.State Journal

/-- The clock and the file obey. -/
def fineOutside : Outside :=
  ⟨.ok 7, .done⟩

/-- The patch of some operations on a document. -/
def documentPatch (s : SessionSnapshot) (reason : String) (ops : List PatchOp) : Patch where
  baseOffset := s.offset
  resultOffset := s.offset + 1
  author := .actor owner
  reason
  ops

/-- The document after some operations. -/
def documentAfter (s : SessionSnapshot) (reason : String) (ops : List PatchOp) : SessionSnapshot :=
  { (s.applyPatch (documentPatch s reason ops)).1 with selectedBranch := s.selectedBranch }

/-- A journal that is open and stands at a document. -/
structure Open (j : Journal) (log : List JournalRecord) (s : SessionSnapshot) : Prop where
  coherent : Coherent exampleSession j log
  snapshot : j.snapshot = s
  failed : j.failed = false
  recovery : j.recovery = none

theorem Open.nextOffset {j : Journal} {log : List JournalRecord} {s : SessionSnapshot}
    (h : Open j log s) : j.nextOffset = s.offset + 1 := by
  refine UInt64.toNat_inj.mp ?_
  have hlast := (h.coherent.at_version h.coherent.live).offset
  rw [h.snapshot] at hlast
  unfold Journal.nextOffset
  rw [UInt64.toNat_add, h.coherent.latestOffset, ← hlast, ← UInt64.toNat_add]

theorem exists_open : ∃ j₀, create exampleSession = .ok j₀ ∧
    Open j₀ [] (.empty exampleSession) := by
  obtain ⟨j₀, hcreate⟩ := exists_create_exampleSession
  refine ⟨j₀, hcreate, ?_⟩
  obtain ⟨rfl, _⟩ := create_eq_ok hcreate
  exact ⟨create_coherent hcreate, rfl, rfl, rfl⟩

/-- Appending operations that apply to the document. -/
theorem Open.append {j : Journal} {log : List JournalRecord} {s : SessionSnapshot} (h : Open j log s)
    (reason : String) (ops : List PatchOp)
    (happlies : (s.applyPatch (documentPatch s reason ops)).2.isOk = true)
    (hfits : (({ blank exampleSession [] with snapshot := s } : Journal).newRecord
      (documentPatch s reason ops) s.selectedBranch 7).payload.length ≤ maxWireBytes) :
    ∃ j' r, j.appendPatch (documentPatch s reason ops) fineOutside = (j', .ok r.offset) ∧
      Open j' (log ++ [r]) (documentAfter s reason ops) := by
  have hnext := h.nextOffset
  obtain ⟨hcoherent, rfl, hfailed, hrecovery⟩ := h
  have hrecord : j.newRecord (documentPatch j.snapshot reason ops) j.snapshot.selectedBranch 7 =
      ({ blank exampleSession [] with snapshot := j.snapshot } : Journal).newRecord
        (documentPatch j.snapshot reason ops) j.snapshot.selectedBranch 7 := rfl
  cases happly : j.snapshot.applyPatch (documentPatch j.snapshot reason ops) with
  | mk s' result =>
      rw [happly] at happlies
      cases result with
      | error e => cases happlies
      | ok _ =>
        rw [← hrecord] at hfits
        obtain ⟨j', r, happend, hr⟩ :=
          exists_appended hcoherent hfailed hrecovery hnext.symm happly hfits
        obtain ⟨s₁, hs₁, hsnapshot⟩ := hr.applied
        rw [happly] at hs₁
        cases hs₁
        refine ⟨j', r, happend, hr.coherent, ?_, hr.failed.trans hfailed,
          hr.recovery.trans hrecovery⟩
        rw [hsnapshot]
        unfold documentAfter
        rw [happly]

/-- Creating a node under a new identifier. -/
theorem Open.createNode {j : Journal} {log : List JournalRecord} {s : SessionSnapshot}
    (h : Open j log s) (node : SummaryNode) (kind : SummaryKind) (text : String)
    {minted id : ElementId} (hid : Id.new ("sum-" ++ minted.value) = .ok id) {reason : String}
    {ops : List PatchOp} (hreason : s!"compact context ({kind.asStr})" = reason)
    (hops : [.create (staticId "summaries")
      (UInt32.ofNat (s.children (staticId "summaries")).length) (node.toElement id kind text)] = ops)
    (happlies : (s.applyPatch (documentPatch s reason ops)).2.isOk = true)
    (hfits : (({ blank exampleSession [] with snapshot := s } : Journal).newRecord
      (documentPatch s reason ops) s.selectedBranch 7).payload.length ≤ maxWireBytes) :
    ∃ j' r, Control.createNode j owner node kind text ⟨minted, fineOutside⟩ = (j', .ok id) ∧
      Open j' (log ++ [r]) (documentAfter s reason ops) := by
  subst hreason hops
  obtain ⟨j', r, happend, hopen⟩ := h.append _ _ happlies hfits
  refine ⟨j', r, ?_, hopen⟩
  unfold Control.createNode
  rw [hid, h.nextOffset, h.snapshot]
  dsimp only
  unfold documentPatch at happend
  rw [happend]

end Omp2.Control
