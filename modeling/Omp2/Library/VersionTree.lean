import Mathlib.Data.List.Induction

/-!
# Version trees

A version tree is an append-only log of edits. The edit at index `i` makes version `i + 1` out of
an earlier version, its parent; version `0` is the start. `Chain` is the way from a version back
to the start and `At` says which state a version has: the replay of the edits of its chain.
Appending an edit never changes the state of an earlier version. An edit also carries a label,
and `tip` is the last version with a given label.
-/

namespace Omp2.VersionTree

open List

/-- What replays the edits of a tree. -/
structure Store (S E ε : Type*) where
  init : S
  parent : E → Nat
  apply : S → E → Except ε S

variable {S E ε : Type*}

/-- Apply edits one after the other. -/
def replay (apply : S → E → Except ε S) (s : S) : List E → Except ε S
  | [] => .ok s
  | edit :: rest =>
    match apply s edit with
    | .error e => .error e
    | .ok s => replay apply s rest

/-- Replaying more edits. -/
theorem replay_append {apply : S → E → Except ε S} {s s' : S} {edits more : List E}
    (h : replay apply s edits = .ok s') :
    replay apply s (edits ++ more) = replay apply s' more := by
  induction edits generalizing s with
  | nil =>
      cases h
      rfl
  | cons first rest ih =>
      simp only [replay] at h
      cases hfirst : apply s first with
      | error e => rw [hfirst] at h; cases h
      | ok s₁ =>
        rw [hfirst] at h
        simp only [cons_append, replay, hfirst]
        exact ih h

theorem replay_concat {apply : S → E → Except ε S} {s s' : S} {edits : List E} {edit : E}
    (h : replay apply s edits = .ok s') :
    replay apply s (edits ++ [edit]) = apply s' edit := by
  rw [replay_append h]
  simp only [replay]
  cases apply s' edit <;> rfl

/-- A replay that succeeds succeeds on every initial part. -/
theorem replay_of_concat {apply : S → E → Except ε S} {s s' : S} {edits : List E} {edit : E}
    (h : replay apply s (edits ++ [edit]) = .ok s') : ∃ s₁, replay apply s edits = .ok s₁ := by
  induction edits generalizing s with
  | nil => exact ⟨s, rfl⟩
  | cons first rest ih =>
      simp only [cons_append, replay] at h ⊢
      cases hfirst : apply s first with
      | error e => rw [hfirst] at h; cases h
      | ok s₁ =>
        rw [hfirst] at h
        exact ih h

/-- `Chain st log v edits` says that `edits` lead from version `v` back to the start, the newest
first. -/
inductive Chain (st : Store S E ε) (log : List E) : Nat → List E → Prop where
  | start : Chain st log 0 []
  | climb (i edit rest) : log[i]? = some edit → Chain st log (st.parent edit) rest →
      Chain st log (i + 1) (edit :: rest)

namespace Chain

variable {st : Store S E ε} {log : List E} {v : Nat} {edits : List E}

theorem unique {others : List E} (h : Chain st log v edits) (hother : Chain st log v others) :
    edits = others := by
  induction h generalizing others with
  | start => cases hother; rfl
  | climb i edit rest hedit _ ih =>
      cases hother with
      | climb _ edit' rest' hedit' hrest' =>
        rw [hedit] at hedit'
        cases hedit'
        rw [ih hrest']

theorem append (h : Chain st log v edits) (more : List E) : Chain st (log ++ more) v edits := by
  induction h with
  | start => exact .start
  | climb i edit rest hedit _ ih =>
      refine .climb i edit rest ?_ ih
      obtain ⟨hlt, _⟩ := List.getElem?_eq_some_iff.mp hedit
      rw [List.getElem?_append_left hlt, hedit]

end Chain

/-- The parents of all edits come before them. -/
def Ordered (st : Store S E ε) (log : List E) : Prop :=
  ∀ i edit, log[i]? = some edit → st.parent edit ≤ i

/-- In an ordered log every version has a chain. -/
theorem exists_chain {st : Store S E ε} {log : List E} (h : Ordered st log) {v : Nat}
    (hv : v ≤ log.length) : ∃ edits, Chain st log v edits := by
  induction v using Nat.strongRecOn with
  | ind v ih =>
      cases v with
      | zero => exact ⟨[], .start⟩
      | succ i =>
        have hedit := getElem?_eq_getElem (Nat.lt_of_succ_le hv)
        have hparent := h i _ hedit
        obtain ⟨rest, hrest⟩ := ih _ (Nat.lt_succ_of_le hparent) (by omega)
        exact ⟨_, .climb i _ rest hedit hrest⟩

/-- In an ordered log the chain of an early version needs the early edits only. -/
theorem Chain.restrict {st : Store S E ε} {log more : List E} {v : Nat} {edits : List E}
    (hordered : Ordered st (log ++ more)) (h : Chain st (log ++ more) v edits)
    (hv : v ≤ log.length) : Chain st log v edits := by
  induction h with
  | start => exact .start
  | climb i edit rest hedit _ ih =>
      have hparent := hordered i edit hedit
      rw [getElem?_append_left (Nat.lt_of_succ_le hv)] at hedit
      exact .climb i edit rest hedit (ih (by omega))

/-- The state of a version. -/
def At (st : Store S E ε) (log : List E) (v : Nat) (s : S) : Prop :=
  ∃ edits, Chain st log v edits ∧ replay st.apply st.init edits.reverse = .ok s

namespace At

variable {st : Store S E ε} {log : List E} {v : Nat} {s s' : S}

theorem start : At st log 0 st.init := ⟨[], .start, rfl⟩

theorem unique (h : At st log v s) (h' : At st log v s') : s = s' := by
  obtain ⟨edits, hchain, hreplay⟩ := h
  obtain ⟨others, hchain', hreplay'⟩ := h'
  rw [hchain.unique hchain', hreplay'] at hreplay
  exact (Except.ok.inj hreplay).symm

theorem append (h : At st log v s) (more : List E) : At st (log ++ more) v s := by
  obtain ⟨edits, hchain, hreplay⟩ := h
  exact ⟨edits, hchain.append more, hreplay⟩

theorem restrict {more : List E} (hordered : Ordered st (log ++ more))
    (h : At st (log ++ more) v s) (hv : v ≤ log.length) : At st log v s := by
  obtain ⟨edits, hchain, hreplay⟩ := h
  exact ⟨edits, hchain.restrict hordered hv, hreplay⟩

theorem edit {i : Nat} {edit : E} (hedit : log[i]? = some edit)
    (hparent : At st log (st.parent edit) s) (happly : st.apply s edit = .ok s') :
    At st log (i + 1) s' := by
  obtain ⟨edits, hchain, hreplay⟩ := hparent
  refine ⟨edit :: edits, .climb i edit edits hedit hchain, ?_⟩
  rw [reverse_cons, replay_concat hreplay, happly]

/-- Every state but the start is made by the edit of its version. -/
theorem of_succ {i : Nat} (h : At st log (i + 1) s') :
    ∃ edit s, log[i]? = some edit ∧ At st log (st.parent edit) s ∧ st.apply s edit = .ok s' := by
  obtain ⟨edits, hchain, hreplay⟩ := h
  cases hchain with
  | climb _ edit rest hedit hrest =>
      rw [reverse_cons] at hreplay
      obtain ⟨s, hs⟩ := replay_of_concat hreplay
      rw [replay_concat hs] at hreplay
      exact ⟨edit, s, hedit, ⟨rest, hrest, hs⟩, hreplay⟩

/-- In an ordered log a property that edits preserve holds of every state. -/
theorem induct {P : Nat → S → Prop} (hordered : Ordered st log) (hinit : P 0 st.init)
    (hstep : ∀ i edit s s', log[i]? = some edit → P (st.parent edit) s →
      st.apply s edit = .ok s' → P (i + 1) s') (h : At st log v s) : P v s := by
  induction v using Nat.strongRecOn generalizing s with
  | ind v ih =>
      cases v with
      | zero => exact h.unique start ▸ hinit
      | succ i =>
        obtain ⟨edit, s₀, hedit, hparent, happly⟩ := h.of_succ
        have hlt : st.parent edit < i + 1 := Nat.lt_succ_of_le (hordered i edit hedit)
        exact hstep i edit s₀ s hedit (ih _ hlt hparent) happly

end At

/-- Every version of a complete log has a state. -/
structure Complete (st : Store S E ε) (log : List E) : Prop where
  ordered : Ordered st log
  states : ∀ v ≤ log.length, ∃ s, At st log v s

namespace Complete

variable {st : Store S E ε} {log : List E}

theorem nil : Complete st [] := by
  refine ⟨fun i edit h => by simp at h, fun v hv => ⟨st.init, ?_⟩⟩
  obtain rfl := Nat.le_zero.mp hv
  exact .start

theorem restrict {more : List E} (h : Complete st (log ++ more)) : Complete st log := by
  refine ⟨fun i edit hi => h.ordered i edit ?_, fun v hv => ?_⟩
  · obtain ⟨hlt, _⟩ := List.getElem?_eq_some_iff.mp hi
    rw [List.getElem?_append_left hlt, hi]
  · obtain ⟨s, hs⟩ := h.states v (by rw [List.length_append]; omega)
    exact ⟨s, hs.restrict h.ordered hv⟩

/-- Appending an edit that applies to the state of its parent. -/
theorem concat {edit : E} {s s' : S} (h : Complete st log) (hparent : At st log (st.parent edit) s)
    (hle : st.parent edit ≤ log.length) (happly : st.apply s edit = .ok s') :
    Complete st (log ++ [edit]) ∧ At st (log ++ [edit]) (log.length + 1) s' := by
  have hlast : (log ++ [edit])[log.length]? = some edit := by simp
  have hnew : At st (log ++ [edit]) (log.length + 1) s' := .edit hlast (hparent.append _) happly
  refine ⟨⟨?_, ?_⟩, hnew⟩
  · intro i e hi
    by_cases hlt : i < log.length
    · rw [getElem?_append_left hlt] at hi
      exact h.ordered i e hi
    · obtain ⟨hlen, _⟩ := List.getElem?_eq_some_iff.mp hi
      rw [List.length_append, List.length_singleton] at hlen
      obtain rfl : i = log.length := by omega
      rw [hlast] at hi
      cases hi
      exact hle
  · intro v hv
    rw [length_append, length_singleton] at hv
    by_cases hle' : v ≤ log.length
    · obtain ⟨s₀, hs₀⟩ := h.states v hle'
      exact ⟨s₀, hs₀.append _⟩
    · obtain rfl : v = log.length + 1 := by omega
      exact ⟨s', hnew⟩

end Complete

/-- Edits whose parents are the versions before them lead from their first version to the last. -/
theorem At.replay_drop {st : Store S E ε} {log : List E} {v : Nat} {s : S}
    (hcomplete : Complete st log)
    (hlinear : ∀ i edit, v ≤ i → log[i]? = some edit → st.parent edit = i)
    (hv : v ≤ log.length) (h : At st log v s) :
    ∃ s', At st log log.length s' ∧ replay st.apply s (log.drop v) = .ok s' := by
  obtain ⟨rest, hrest⟩ := Nat.exists_eq_add_of_le hv
  induction rest generalizing v s with
  | zero =>
      rw [Nat.add_zero] at hrest
      exact ⟨s, hrest ▸ h, by rw [drop_eq_nil_of_le (Nat.le_of_eq hrest)]; rfl⟩
  | succ rest ih =>
      have hlt : v < log.length := by omega
      have hedit := getElem?_eq_getElem hlt
      obtain ⟨s₁, hs₁⟩ := hcomplete.states (v + 1) hlt
      -- the edit of the next version is made from this one
      obtain ⟨edit, s₀, hedit', hparent, happly⟩ := hs₁.of_succ
      rw [hlinear v edit (Nat.le_refl v) hedit'] at hparent
      obtain rfl := hparent.unique h
      rw [hedit] at hedit'
      cases hedit'
      obtain ⟨s', hs', hreplay⟩ := ih (fun i e hi => hlinear i e (by omega)) hlt hs₁ (by omega)
      refine ⟨s', hs', ?_⟩
      rw [drop_eq_getElem_cons hlt]
      simp only [replay, happly]
      exact hreplay

/-! ## Labels -/

section Labels

variable {L : Type*} [DecidableEq L] (label : E → L)

/-- The last version with a label, in a log that is held newest first. -/
def tipOf (l : L) : List E → Option Nat
  | [] => none
  | edit :: older => if label edit = l then some (older.length + 1) else tipOf l older

/-- The last version with a label. -/
def tip (log : List E) (l : L) : Option Nat :=
  tipOf label l log.reverse

variable {label}

@[simp] theorem tip_nil (l : L) : tip label [] l = none := rfl

theorem tip_concat (log : List E) (edit : E) (l : L) :
    tip label (log ++ [edit]) l = if label edit = l then some (log.length + 1) else tip label log l := by
  unfold tip
  rw [reverse_append, reverse_singleton, singleton_append, tipOf,
    length_reverse]

/-- A tip is a version of the log and carries its label. -/
theorem tip_eq_some {log : List E} {l : L} {v : Nat} (h : tip label log l = some v) :
    ∃ i edit, v = i + 1 ∧ log[i]? = some edit ∧ label edit = l := by
  induction log using reverseRecOn with
  | nil => cases h
  | append_singleton log edit ih =>
      rw [tip_concat] at h
      split at h
      · next heq =>
        cases h
        exact ⟨log.length, edit, rfl, by simp, heq⟩
      · obtain ⟨i, e, hv, he, hl⟩ := ih h
        obtain ⟨hlt, _⟩ := List.getElem?_eq_some_iff.mp he
        exact ⟨i, e, hv, by rw [List.getElem?_append_left hlt, he], hl⟩

end Labels

end Omp2.VersionTree
