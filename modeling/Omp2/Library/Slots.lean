import Mathlib.Data.List.Basic
import Mathlib.Order.Defs.Unbundled

/-!
# Slots that are committed in order

Slots are admitted one after the other, filled with lines, and committed in the order of their
admission. The first slot that is not committed is the head; if it is append-only, it may show a
first part of its lines before it is committed. The history is what has been committed and what
the head shows. It is never rewritten: every step extends it at the end.
-/

namespace Omp2.Slots

open List

/-- The life of a slot. -/
inductive Phase where
  | queued | active | finalized | committed
deriving DecidableEq

/-- A slot with its lines, of which the first `emitted` are shown while it is the head. -/
structure Slot (Id Line : Type*) where
  id : Id
  appendOnly : Bool
  phase : Phase
  lines : List Line
  emitted : Nat

/-- The slots in the order of their admission, and the lines of the committed ones. -/
structure Ledger (Id Line : Type*) where
  slots : List (Slot Id Line)
  committed : List (List Line)

variable {Id Line : Type*}

/-- A slot that may show lines: it is neither queued nor committed. -/
def Slot.Live (s : Slot Id Line) : Prop :=
  s.phase = .active ∨ s.phase = .finalized

instance (s : Slot Id Line) : Decidable s.Live :=
  inferInstanceAs (Decidable (_ ∨ _))

/-- The lines that the head shows. -/
def Slot.shown (s : Slot Id Line) : List Line :=
  if s.Live ∧ s.appendOnly = true then s.lines.take s.emitted else []

/-- The phase that follows a phase. -/
def Phase.next : Phase → Option Phase
  | .queued => some .active
  | .active => some .finalized
  | .finalized => some .committed
  | .committed => none

/-- How far a phase is in the life of a slot. -/
def Phase.rank : Phase → Nat
  | .queued => 0
  | .active => 1
  | .finalized => 2
  | .committed => 3

/-- What a slot becomes in one operation: it keeps its id and mode, moves on by at most one phase,
keeps its lines once it is finalized, and only adds lines if it is append-only. -/
structure Slot.Continues (s t : Slot Id Line) : Prop where
  id : t.id = s.id
  appendOnly : t.appendOnly = s.appendOnly
  phase : t.phase = s.phase ∨ s.phase.next = some t.phase
  frozen : s.phase = .finalized ∨ s.phase = .committed → t.lines = s.lines
  grows : s.appendOnly = true → s.lines <+: t.lines

/-- What a slot may be at any later time. -/
structure Slot.Later (s t : Slot Id Line) : Prop where
  id : t.id = s.id
  appendOnly : t.appendOnly = s.appendOnly
  phase : s.phase.rank ≤ t.phase.rank
  frozen : s.phase = .finalized ∨ s.phase = .committed → t.lines = s.lines
  grows : s.appendOnly = true → s.lines <+: t.lines

instance : Std.Refl (@Slot.Continues Id Line) :=
  ⟨fun _ => ⟨rfl, rfl, .inl rfl, fun _ => rfl, fun _ => List.prefix_rfl⟩⟩

theorem Phase.rank_iff (p : Phase) : p = .finalized ∨ p = .committed ↔ 2 ≤ p.rank := by
  cases p <;> simp [rank]

theorem Slot.Continues.later {s t : Slot Id Line} (h : s.Continues t) : s.Later t := by
  refine ⟨h.id, h.appendOnly, ?_, h.frozen, h.grows⟩
  rcases h.phase with heq | hnext
  · exact Nat.le_of_eq (congrArg Phase.rank heq.symm)
  · cases hs : s.phase <;> simp only [hs, Phase.next, Option.some.injEq, reduceCtorEq] at hnext
    all_goals simp [← hnext, Phase.rank]

instance : IsPreorder (Slot Id Line) Slot.Later where
  refl _ := ⟨rfl, rfl, Nat.le_refl _, fun _ => rfl, fun _ => List.prefix_rfl⟩
  trans s t u h h' := by
    refine ⟨h'.id.trans h.id, h'.appendOnly.trans h.appendOnly, Nat.le_trans h.phase h'.phase, ?_, ?_⟩
    · intro hfrozen
      have hfrozen' := (Phase.rank_iff _).mpr
        (Nat.le_trans ((Phase.rank_iff _).mp hfrozen) h.phase)
      rw [h'.frozen hfrozen', h.frozen hfrozen]
    · intro happend
      exact (h.grows happend).trans (h'.grows (h.appendOnly.trans happend))

namespace Ledger

/-- The number of committed slots, which is the position of the head. -/
def frontier (l : Ledger Id Line) : Nat :=
  l.committed.length

/-- The committed lines and what the head shows. -/
def history (l : Ledger Id Line) : List Line :=
  l.committed.flatten ++ (l.slots[l.frontier]?.map Slot.shown).getD []

/-- Replace the slot at a position. -/
def replace (l : Ledger Id Line) (i : Nat) (s : Slot Id Line) : Ledger Id Line :=
  { l with slots := l.slots.set i s }

/-- One step of the life of the slots, and the lines that it adds to the history. -/
inductive Step : Ledger Id Line → List Line → Ledger Id Line → Prop where
  | enter (l s) : s.phase = .queued → s.emitted = 0 → s.id ∉ l.slots.map Slot.id →
      Step l [] { l with slots := l.slots ++ [s] }
  | activate (l i s) : l.slots[i]? = some s → s.phase = .queued →
      Step l [] (l.replace i { s with phase := .active })
  | update (l i s lines) : l.slots[i]? = some s → s.phase = .queued ∨ s.phase = .active →
      (s.appendOnly = true → s.lines <+: lines) → Step l [] (l.replace i { s with lines })
  | stream (l s n) : l.slots[l.frontier]? = some s → s.Live → s.appendOnly = true →
      s.emitted ≤ n → n ≤ s.lines.length →
      Step l ((s.lines.take n).drop s.emitted) (l.replace l.frontier { s with emitted := n })
  | finalize (l i s) : l.slots[i]? = some s → s.phase = .active →
      Step l [] (l.replace i { s with phase := .finalized })
  | retire (l s) : l.slots[l.frontier]? = some s → s.phase = .finalized →
      Step l (s.lines.drop s.emitted)
        { l.replace l.frontier { s with phase := .committed, emitted := 0 } with
          committed := l.committed ++ [s.lines] }

/-- The ledger is exact: the committed lines are those of the first slots, which are the committed
ones, and only an append-only live head shows lines, of those that it has. -/
structure Exact (l : Ledger Id Line) : Prop where
  lines : l.committed = (l.slots.take l.frontier).map Slot.lines
  phase : ∀ (i : Nat) (s : Slot Id Line), l.slots[i]? = some s →
    (s.phase = .committed ↔ i < l.frontier)
  fits : ∀ (i : Nat) (s : Slot Id Line), l.slots[i]? = some s → s.emitted ≤ s.lines.length
  shows : ∀ (i : Nat) (s : Slot Id Line), l.slots[i]? = some s → 0 < s.emitted →
    i = l.frontier ∧ s.appendOnly = true ∧ s.Live
  ids : (l.slots.map Slot.id).Nodup

variable {l l' : Ledger Id Line} {out : List Line}

theorem Exact.frontier_le (h : l.Exact) : l.frontier ≤ l.slots.length := by
  have hlength := congrArg length h.lines
  simp only [length_map, length_take] at hlength
  have : l.committed.length = l.frontier := rfl
  omega

theorem exact_nil : Exact (⟨[], []⟩ : Ledger Id Line) :=
  ⟨rfl, by simp, by simp, by simp, nodup_nil⟩

theorem get_set {slots : List (Slot Id Line)} {i k : Nat} {t u : Slot Id Line}
    (hu : (slots.set i t)[k]? = some u) : (k = i ∧ u = t) ∨ (k ≠ i ∧ slots[k]? = some u) := by
  rw [getElem?_set] at hu
  by_cases hk : i = k
  · simp only [hk, if_true] at hu
    split at hu
    · exact .inl ⟨hk.symm, (Option.some.inj hu).symm⟩
    · cases hu
  · simp only [hk, if_false] at hu
    exact .inr ⟨Ne.symm hk, hu⟩

theorem ids_set {slots : List (Slot Id Line)} {i : Nat} {s t : Slot Id Line}
    (hs : slots[i]? = some s) (hid : t.id = s.id) :
    (slots.set i t).map Slot.id = slots.map Slot.id := by
  obtain ⟨hlt, rfl⟩ := List.getElem?_eq_some_iff.mp hs
  refine List.ext_getElem (by simp) fun k hk hk' => ?_
  simp only [List.getElem_map, List.getElem_set]
  split
  · next heq =>
    subst heq
    exact hid
  · rfl

/-- What a slot that is not committed may become without leaving an exact ledger. -/
theorem Exact.replace (h : l.Exact) {i : Nat} {s t : Slot Id Line} (hs : l.slots[i]? = some s)
    (hid : t.id = s.id) (hphase : s.phase ≠ .committed) (hphase' : t.phase ≠ .committed)
    (hfits : t.emitted ≤ t.lines.length)
    (hshows : 0 < t.emitted → i = l.frontier ∧ t.appendOnly = true ∧ t.Live) :
    (l.replace i t).Exact := by
  have hi : l.frontier ≤ i := by
    have hcommitted := h.phase i s hs
    by_contra hlt
    exact hphase (hcommitted.mpr (by omega))
  refine ⟨?_, fun k u hu => ?_, fun k u hu => ?_, fun k u hu hpos => ?_, ?_⟩
  · show l.committed = ((l.slots.set i t).take l.frontier).map Slot.lines
    rw [take_set_of_le hi]
    exact h.lines
  · show u.phase = .committed ↔ k < l.frontier
    rcases get_set hu with ⟨rfl, rfl⟩ | ⟨_, hu⟩
    · exact iff_of_false hphase' (by omega)
    · exact h.phase k u hu
  · rcases get_set hu with ⟨rfl, rfl⟩ | ⟨_, hu⟩
    · exact hfits
    · exact h.fits k u hu
  · rcases get_set hu with ⟨rfl, rfl⟩ | ⟨_, hu⟩
    · exact hshows hpos
    · exact h.shows k u hu hpos
  · show ((l.slots.set i t).map Slot.id).Nodup
    rw [ids_set hs hid]
    exact h.ids

/-- Admitting a slot. -/
theorem Exact.enter (h : l.Exact) {s : Slot Id Line} (hphase : s.phase = .queued)
    (hemitted : s.emitted = 0) (hid : s.id ∉ l.slots.map Slot.id) :
    Exact { l with slots := l.slots ++ [s] } := by
  have hle := h.frontier_le
  -- a slot of the longer ledger is an old one, or the new one at the end
  have hget : ∀ (k : Nat) (u : Slot Id Line), (l.slots ++ [s])[k]? = some u →
      l.slots[k]? = some u ∨ (k = l.slots.length ∧ u = s) := by
    intro k u hu
    by_cases hk : k < l.slots.length
    · rw [getElem?_append_left hk] at hu
      exact .inl hu
    · obtain ⟨hlt, _⟩ := List.getElem?_eq_some_iff.mp hu
      simp only [List.length_append, List.length_singleton] at hlt
      obtain rfl : k = l.slots.length := by omega
      simp at hu
      exact .inr ⟨rfl, hu.symm⟩
  refine ⟨?_, fun k u hu => ?_, fun k u hu => ?_, fun k u hu hpos => ?_, ?_⟩
  · show l.committed = ((l.slots ++ [s]).take l.frontier).map Slot.lines
    rw [take_append_of_le_length hle]
    exact h.lines
  · show u.phase = .committed ↔ k < l.frontier
    rcases hget k u hu with hu | ⟨rfl, rfl⟩
    · exact h.phase k u hu
    · exact iff_of_false (by simp [hphase]) (by omega)
  · rcases hget k u hu with hu | ⟨rfl, rfl⟩
    · exact h.fits k u hu
    · omega
  · rcases hget k u hu with hu | ⟨rfl, rfl⟩
    · exact h.shows k u hu hpos
    · omega
  · show ((l.slots ++ [s]).map Slot.id).Nodup
    rw [map_append]
    exact nodup_append.mpr ⟨h.ids, by simp, fun a ha b hb heq => by
      obtain rfl := mem_singleton.mp hb
      exact hid (heq ▸ ha)⟩

/-- Committing the head. -/
theorem Exact.retire (h : l.Exact) {s : Slot Id Line} (hs : l.slots[l.frontier]? = some s) :
    Exact { l.replace l.frontier { s with phase := .committed, emitted := 0 } with
      committed := l.committed ++ [s.lines] } := by
  obtain ⟨hlt, hget⟩ := List.getElem?_eq_some_iff.mp hs
  have hfrontier : (l.committed ++ [s.lines]).length = l.frontier + 1 := by
    simp [frontier]
  refine ⟨?_, fun k u hu => ?_, fun k u hu => ?_, fun k u hu hpos => ?_, ?_⟩
  · show l.committed ++ [s.lines] = ((l.slots.set l.frontier _).take
      (l.committed ++ [s.lines]).length).map Slot.lines
    have htake : (l.slots.set l.frontier { s with phase := .committed, emitted := 0 }).take
        (l.frontier + 1) = l.slots.take l.frontier ++
          [{ s with phase := .committed, emitted := 0 }] := by
      rw [take_add_one, take_set_of_le (Nat.le_refl _)]
      simp [hlt]
    rw [hfrontier, htake, map_append, ← h.lines]
    rfl
  · show u.phase = .committed ↔ k < (l.committed ++ [s.lines]).length
    rw [hfrontier]
    rcases get_set hu with ⟨rfl, rfl⟩ | ⟨hne, hu⟩
    · exact iff_of_true rfl (by omega)
    · rw [h.phase k u hu]
      omega
  · rcases get_set hu with ⟨rfl, rfl⟩ | ⟨_, hu⟩
    · exact Nat.zero_le _
    · exact h.fits k u hu
  · rcases get_set hu with ⟨rfl, rfl⟩ | ⟨hne, hu⟩
    · exact absurd hpos (Nat.lt_irrefl 0)
    · exact absurd (h.shows k u hu hpos).1 hne
  · show ((l.slots.set l.frontier _).map Slot.id).Nodup
    rw [ids_set hs (by rfl)]
    exact h.ids

/-- Every step keeps the ledger exact. -/
theorem Step.exact (hstep : Step l out l') (h : l.Exact) : l'.Exact := by
  cases hstep with
  | enter s hphase hemitted hid => exact h.enter hphase hemitted hid
  | activate i s hs hphase =>
      refine h.replace hs rfl (by simp [hphase]) (by simp) (h.fits i s hs) fun hpos => ?_
      obtain ⟨_, _, hlive⟩ := h.shows i s hs hpos
      simp [Slot.Live, hphase] at hlive
  | update i s lines hs hphase hinitial =>
      have hfits := h.fits i s hs
      refine h.replace hs rfl ?_ ?_ ?_ fun hpos => h.shows i s hs hpos
      · rcases hphase with hphase | hphase <;> simp [hphase]
      · rcases hphase with hphase | hphase <;> simp [hphase]
      · -- only an append-only slot has emitted lines, and it keeps them
        show s.emitted ≤ lines.length
        by_cases hpos : 0 < s.emitted
        · obtain ⟨_, happend, _⟩ := h.shows i s hs hpos
          have := (hinitial happend).length_le
          omega
        · omega
  | stream s n hs hlive happend hle hfits =>
      refine h.replace hs rfl ?_ ?_ hfits fun _ => ⟨rfl, happend, hlive⟩
      · rcases hlive with hphase | hphase <;> simp [hphase]
      · rcases hlive with hphase | hphase <;> simp [hphase]
  | finalize i s hs hphase =>
      refine h.replace hs rfl (by simp [hphase]) (by simp) (h.fits i s hs) fun hpos => ?_
      obtain ⟨hi, happend, _⟩ := h.shows i s hs hpos
      exact ⟨hi, happend, .inr rfl⟩
  | retire s hs _ => exact h.retire hs

/-! ## The history -/

/-- The history of an exact ledger is read off its slots. -/
theorem Exact.history (h : l.Exact) :
    l.history = (l.slots.take l.frontier).flatMap Slot.lines ++
      (l.slots[l.frontier]?.map Slot.shown).getD [] := by
  unfold Ledger.history
  rw [flatMap_def, ← h.lines]

/-- Replacing a slot extends the history by what the head shows in addition. -/
theorem history_replace {i : Nat} {s t : Slot Id Line} (hs : l.slots[i]? = some s)
    (hhead : i = l.frontier → t.shown = s.shown ++ out) (helse : i ≠ l.frontier → out = []) :
    (l.replace i t).history = l.history ++ out := by
  obtain ⟨hlt, _⟩ := List.getElem?_eq_some_iff.mp hs
  show l.committed.flatten ++ ((l.slots.set i t)[l.frontier]?.map Slot.shown).getD [] =
    (l.committed.flatten ++ _) ++ out
  rw [append_assoc]
  by_cases hi : i = l.frontier
  · subst hi
    rw [hs, getElem?_set_self hlt]
    simp [hhead rfl]
  · rw [getElem?_set_ne hi, helse hi, append_nil]

theorem shown_of_live {s : Slot Id Line} (h : s.Live) (happend : s.appendOnly = true) :
    s.shown = s.lines.take s.emitted := by
  simp [Slot.shown, h, happend]

theorem shown_of_not_live {s : Slot Id Line} (h : ¬ s.Live) : s.shown = [] := by
  simp [Slot.shown, h]

theorem shown_of_emitted {s : Slot Id Line} (h : s.emitted = 0) : s.shown = [] := by
  simp [Slot.shown, h]

theorem Exact.shown (h : l.Exact) {i : Nat} {s : Slot Id Line} (hs : l.slots[i]? = some s)
    (hlive : s.Live) : s.shown = s.lines.take s.emitted := by
  by_cases hpos : 0 < s.emitted
  · exact shown_of_live hlive (h.shows i s hs hpos).2.1
  · obtain hzero : s.emitted = 0 := by omega
    rw [shown_of_emitted hzero, hzero, take_zero]

/-- Every step extends the history by the lines that it adds. -/
theorem Step.history (hstep : Step l out l') (h : l.Exact) : l'.history = l.history ++ out := by
  cases hstep with
  | enter s hphase _ _ =>
      show l.committed.flatten ++ ((l.slots ++ [s])[l.frontier]?.map Slot.shown).getD [] =
        (l.committed.flatten ++ _) ++ []
      rw [append_nil]
      have hle := h.frontier_le
      -- a new head shows nothing yet
      by_cases hlt : l.frontier < l.slots.length
      · rw [getElem?_append_left hlt]
      · obtain hlength : l.slots.length = l.frontier := by omega
        have hshown : s.shown = [] := shown_of_not_live (by simp [Slot.Live, hphase])
        simp [← hlength, hshown]
  | activate i s hs hphase =>
      refine history_replace hs (fun _ => ?_) fun _ => rfl
      have hzero : s.emitted = 0 := by
        by_contra hpos
        obtain ⟨_, _, hlive⟩ := h.shows i s hs (by omega)
        simp [Slot.Live, hphase] at hlive
      rw [shown_of_emitted hzero, shown_of_emitted (by exact hzero), append_nil]
  | update i s lines hs hphase hinitial =>
      refine history_replace hs (fun _ => ?_) fun _ => rfl
      rw [append_nil]
      by_cases hlive : s.Live ∧ s.appendOnly = true
      · -- the lines that were shown are the first ones of the new snapshot, too
        obtain ⟨rest, rfl⟩ := hinitial hlive.2
        have hnew : Slot.shown { s with lines := s.lines ++ rest } =
            (s.lines ++ rest).take s.emitted := shown_of_live hlive.1 hlive.2
        rw [shown_of_live hlive.1 hlive.2, hnew, take_append_of_le_length (h.fits i s hs)]
      · have hlive' : ¬(Slot.Live { s with lines } ∧ s.appendOnly = true) := hlive
        simp only [Slot.shown, hlive, hlive', if_false]
  | stream s n hs hlive happend hle hfits =>
      refine history_replace hs (fun _ => ?_) fun hne => absurd rfl hne
      have hnew : Slot.shown { s with emitted := n } = s.lines.take n := shown_of_live hlive happend
      have hsplit := take_append_drop s.emitted (s.lines.take n)
      rw [take_take, Nat.min_eq_left hle] at hsplit
      rw [shown_of_live hlive happend, hnew, hsplit]
  | finalize i s hs hphase =>
      refine history_replace hs (fun _ => ?_) fun _ => rfl
      have hlive : s.Live := .inl hphase
      have hlive' : Slot.Live { s with phase := .finalized } := .inr rfl
      simp [Slot.shown, hlive, hlive']
  | retire s hs hphase =>
      have hshown := h.shown hs (.inr hphase)
      -- the next head has not emitted anything
      have hnext : ((l.slots.set l.frontier { s with phase := .committed, emitted := 0 })[
          (l.committed ++ [s.lines]).length]?.map Slot.shown).getD [] = [] := by
        have hne : l.frontier ≠ (l.committed ++ [s.lines]).length := by simp [frontier]
        rw [getElem?_set_ne hne]
        cases hget : l.slots[(l.committed ++ [s.lines]).length]? with
        | none => rfl
        | some u =>
          refine shown_of_emitted ?_
          by_contra hpos
          exact hne (h.shows _ u hget (by omega)).1.symm
      show (l.committed ++ [s.lines]).flatten ++ ((l.slots.set l.frontier _)[
        (l.committed ++ [s.lines]).length]?.map Slot.shown).getD [] =
          (l.committed.flatten ++ (l.slots[l.frontier]?.map Slot.shown).getD []) ++ _
      rw [hnext, hs]
      simp [hshown]

/-! ## The life of a slot -/

/-- Each slot is still there and stands in a relation to what it was. -/
def Each (R : Slot Id Line → Slot Id Line → Prop) (l l' : Ledger Id Line) : Prop :=
  ∀ (i : Nat) (s : Slot Id Line), l.slots[i]? = some s → ∃ t, l'.slots[i]? = some t ∧ R s t

variable {R : Slot Id Line → Slot Id Line → Prop}

theorem Each.trans [Trans R R R] {l₁ l₂ l₃ : Ledger Id Line} (h : Each R l₁ l₂)
    (h' : Each R l₂ l₃) : Each R l₁ l₃ := by
  intro i s hs
  obtain ⟨t, ht, hR⟩ := h i s hs
  obtain ⟨u, hu, hR'⟩ := h' i t ht
  exact ⟨u, hu, Trans.trans hR hR'⟩

theorem Each.imp {R' : Slot Id Line → Slot Id Line → Prop} (h : Each R l l')
    (himp : ∀ s t, R s t → R' s t) : Each R' l l' := by
  intro i s hs
  obtain ⟨t, ht, hR⟩ := h i s hs
  exact ⟨t, ht, himp s t hR⟩

/-- Replacing a slot, for a reflexive relation. -/
theorem each_replace [Std.Refl R] {i : Nat} {s t : Slot Id Line} (hs : l.slots[i]? = some s)
    (hR : R s t) : Each R l (l.replace i t) := by
  intro k u hu
  show ∃ v, (l.slots.set i t)[k]? = some v ∧ R u v
  by_cases hk : i = k
  · subst hk
    obtain ⟨hlt, _⟩ := List.getElem?_eq_some_iff.mp hs
    rw [hs] at hu
    cases hu
    exact ⟨t, getElem?_set_self hlt, hR⟩
  · exact ⟨u, by rw [getElem?_set_ne hk, hu], Std.Refl.refl u⟩

/-- A step leaves each slot to live on. -/
theorem Step.each (hstep : Step l out l') : Each Slot.Continues l l' := by
  cases hstep with
  | enter s _ _ _ =>
      intro i t ht
      obtain ⟨hlt, _⟩ := List.getElem?_eq_some_iff.mp ht
      exact ⟨t, by rw [List.getElem?_append_left hlt, ht], Std.Refl.refl t⟩
  | activate i s hs hphase =>
      exact each_replace hs ⟨rfl, rfl, .inr (by simp [hphase, Phase.next]), fun _ => rfl,
        fun _ => prefix_rfl⟩
  | update i s lines hs hphase hinitial =>
      refine each_replace hs ⟨rfl, rfl, .inl rfl, fun hfrozen => ?_, hinitial⟩
      rcases hphase with hphase | hphase <;> simp [hphase] at hfrozen
  | stream s n hs _ _ _ _ =>
      exact each_replace hs ⟨rfl, rfl, .inl rfl, fun _ => rfl, fun _ => prefix_rfl⟩
  | finalize i s hs hphase =>
      exact each_replace hs ⟨rfl, rfl, .inr (by simp [hphase, Phase.next]), fun _ => rfl,
        fun _ => prefix_rfl⟩
  | retire s hs hphase =>
      exact each_replace (l := l) hs ⟨rfl, rfl, .inr (by simp [hphase, Phase.next]),
        fun _ => rfl, fun _ => prefix_rfl⟩

/-! ## Runs -/

/-- Any number of steps, and the lines that they add to the history. -/
inductive Steps : Ledger Id Line → List Line → Ledger Id Line → Prop where
  | refl (l : Ledger Id Line) : Steps l [] l
  | tail {l m n : Ledger Id Line} {out more : List Line} :
      Steps l out m → Step m more n → Steps l (out ++ more) n

theorem Step.steps (hstep : Step l out l') : Steps l out l' :=
  .tail (.refl l) hstep

theorem Steps.trans {l'' : Ledger Id Line} {more : List Line} (h : Steps l out l')
    (h' : Steps l' more l'') : Steps l (out ++ more) l'' := by
  induction h' with
  | refl => simpa using h
  | tail _ hstep ih => simpa using ih.tail hstep

theorem Steps.exact (hsteps : Steps l out l') (h : l.Exact) : l'.Exact := by
  induction hsteps with
  | refl => exact h
  | tail _ hstep ih => exact hstep.exact ih

theorem Steps.history (hsteps : Steps l out l') (h : l.Exact) :
    l'.history = l.history ++ out := by
  induction hsteps with
  | refl => simp
  | tail hsteps hstep ih =>
      rw [hstep.history (hsteps.exact h), ih, append_assoc]

end Ledger

end Omp2.Slots
