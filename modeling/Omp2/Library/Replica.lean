import Mathlib.Data.List.Forall2
import Omp2.Library.VersionTree

/-!
# Copies that follow a leader through a queue

A follower holds a copy of the leader's state and a queue of messages that it has not handled
yet. It is in step when handling the queue would take its copy to a state that shows the same as
the leader's. The rules say what keeps a follower in step: the leader's own change when it is
pushed into the queue, and handling the next message.
-/

namespace Omp2.Replica

open VersionTree

variable {S M ε : Type*}

/-- Handling the pending messages takes the copy to a state that is the `same` as the leader's. -/
def InStep (receive : S → M → Except ε S) (same : S → S → Prop) (leader copy : S)
    (pending : List M) : Prop :=
  ∃ s, replay receive copy pending = .ok s ∧ same leader s

variable {receive : S → M → Except ε S} {same : S → S → Prop} {leader leader' copy : S}

theorem inStep_nil : InStep receive same leader copy [] ↔ same leader copy := by
  constructor
  · rintro ⟨s, hreplay, hsame⟩
    cases hreplay
    exact hsame
  · exact fun hsame => ⟨copy, rfl, hsame⟩

/-- The next message can be handled and keeps the follower in step. -/
theorem InStep.next {message : M} {rest : List M}
    (h : InStep receive same leader copy (message :: rest)) :
    ∃ copy', receive copy message = .ok copy' ∧ InStep receive same leader copy' rest := by
  obtain ⟨s, hreplay, hsame⟩ := h
  simp only [replay] at hreplay
  cases hmessage : receive copy message with
  | error e =>
      rw [hmessage] at hreplay
      cases hreplay
  | ok copy' =>
      rw [hmessage] at hreplay
      exact ⟨copy', rfl, s, hreplay, hsame⟩

theorem InStep.push {pending : List M} {message : M}
    (h : InStep receive same leader copy pending)
    (hchange : ∀ s, same leader s → ∃ s', receive s message = .ok s' ∧ same leader' s') :
    InStep receive same leader' copy (pending ++ [message]) := by
  obtain ⟨s, hreplay, hsame⟩ := h
  obtain ⟨s', hmessage, hsame'⟩ := hchange s hsame
  exact ⟨s', by rw [replay_concat hreplay, hmessage], hsame'⟩

theorem replay_congr {pending pending' : List M}
    (h : List.Forall₂ (fun m m' => ∀ s, receive s m = receive s m') pending pending') (s : S) :
    replay receive s pending = replay receive s pending' := by
  induction h generalizing s with
  | nil => rfl
  | cons hmessage _ ih =>
      unfold replay
      rw [hmessage s]
      split
      · rfl
      · exact ih _

theorem replay_inert {pending : List M} (h : ∀ m ∈ pending, ∀ s, receive s m = .ok s) (s : S) :
    replay receive s pending = .ok s := by
  induction pending with
  | nil => rfl
  | cons message rest ih =>
      obtain ⟨hmessage, hrest⟩ := List.forall_mem_cons.mp h
      simp only [replay, hmessage s]
      exact ih hrest

theorem InStep.of_inert {pending : List M} (hsame : same leader copy)
    (h : ∀ m ∈ pending, ∀ s, receive s m = .ok s) : InStep receive same leader copy pending :=
  ⟨copy, replay_inert h copy, hsame⟩

end Omp2.Replica
