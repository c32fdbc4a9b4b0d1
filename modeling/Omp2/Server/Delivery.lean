import Mathlib.Data.List.DropRight
import Mathlib.Data.List.Nodup
import Omp2.Server.Replication

/-!
# What a subscriber is given

A subscriber's queue used in any order: messages are pushed, messages are popped, and the service
is polled, which takes a pending resync before it pops. The trace of a run is cut by the events
after which a subscriber starts again: a resync that is pushed or taken, and an overflow.
`Stepped` says what one use of a queue does, and `run_kept` that after any uses the queue is
within its capacity, has lost no patch since the last cut, and holds the latest frame of each
view once.
-/

namespace Omp2.Server

open Omp2.State List

/-! ## Uses of a queue -/

/-- A use of a queue. -/
inductive QueueOp where
  | push (message : ReplicationMessage)
  | pop
  | poll

/-- What a use of a queue comes to. -/
inductive QueueEvent where
  | accepted (message : ReplicationMessage)
  | refused (message : ReplicationMessage)
  | overflowed (message : ReplicationMessage)
  | popped (message : ReplicationMessage)
  | idle
  | resynced

/-- The view of a presentation frame. -/
def ReplicationMessage.view : ReplicationMessage → Option String
  | .presentation viewId _ => some viewId
  | _ => none

/-- The patch that a message carries. -/
def ReplicationMessage.patchOf : ReplicationMessage → Option Patch
  | .patch p => some p
  | _ => none

namespace SubscriberQueue

/-- A message that is pushed is not dropped. -/
def accepts (q : SubscriberQueue) : ReplicationMessage → Bool
  | .presentation viewId _ =>
    decide (some viewId ∈ q.queue.map ReplicationMessage.view) ||
      decide (q.queue.length < q.capacity)
  | .patch _ => !q.needsResync && decide (q.queue.length < q.capacity)
  | .resync .. => true
  | _ => decide (q.queue.length < q.capacity)

/-- Pop a message. -/
def take (q : SubscriberQueue) : SubscriberQueue × QueueEvent :=
  match q.pop with
  | (some message, q) => (q, .popped message)
  | (none, q) => (q, .idle)

/-- One use of a queue; a poll is what `poll_subscriber` does with it. -/
def step (q : SubscriberQueue) : QueueOp → SubscriberQueue × QueueEvent
  | .push message =>
    match q.push message with
    | (q', .error _) => (q', .overflowed message)
    | (q', .ok _) => (q', if q.accepts message then .accepted message else .refused message)
  | .pop => q.take
  | .poll => if q.needsResync then ({ q with needsResync := false }, .resynced) else q.take

/-- Uses of a queue, with the trace of their events. -/
def run (q : SubscriberQueue) (ops : List QueueOp) : SubscriberQueue × List QueueEvent :=
  ops.foldl (fun s op => ((s.1.step op).1, s.2 ++ [(s.1.step op).2])) (q, [])

end SubscriberQueue

/-! ## One use -/

/-- What one use of a queue can do. -/
inductive Stepped (q : SubscriberQueue) : QueueEvent → SubscriberQueue → Prop where
  | appended {message : ReplicationMessage} {q' : SubscriberQueue} :
      q.queue.length < q.capacity → (∀ snapshot offset, message ≠ .resync snapshot offset) →
      (message.patchOf.isSome = true → q.needsResync = false) →
      (∀ viewId, message.view = some viewId →
        some viewId ∉ q.queue.map ReplicationMessage.view) →
      q'.queue = q.queue ++ [message] → q'.capacity = q.capacity →
      q'.needsResync = q.needsResync → Stepped q (.accepted message) q'
  | coalesced {viewId : String} {old payload : Json.Value} {front back : List ReplicationMessage}
      {q' : SubscriberQueue} :
      q.queue = front ++ .presentation viewId old :: back →
      q'.queue = front ++ .presentation viewId payload :: back → q'.capacity = q.capacity →
      q'.needsResync = q.needsResync → Stepped q (.accepted (.presentation viewId payload)) q'
  | refused {message : ReplicationMessage} {q' : SubscriberQueue} :
      (message.patchOf.isSome = true → q.needsResync = true) → q'.queue = q.queue →
      q'.capacity = q.capacity → q'.needsResync = q.needsResync → Stepped q (.refused message) q'
  | overflowed {message : ReplicationMessage} {q' : SubscriberQueue} :
      q'.queue = [] → q'.capacity = q.capacity → q'.needsResync = true →
      Stepped q (.overflowed message) q'
  | restarted {snapshot : SessionSnapshot} {offset : UInt64} {q' : SubscriberQueue} :
      q'.queue = [.resync snapshot offset] → q'.capacity = q.capacity →
      q'.needsResync = false → Stepped q (.accepted (.resync snapshot offset)) q'
  | popped {message : ReplicationMessage} {q' : SubscriberQueue} :
      q.queue = message :: q'.queue → q'.capacity = q.capacity →
      q'.needsResync = q.needsResync → Stepped q (.popped message) q'
  | idle : Stepped q .idle q
  | resynced : q.needsResync = true → Stepped q .resynced { q with needsResync := false }

namespace QueueEvent

/-- The subscriber starts again: a resync is pushed or taken, or the queue overflows. -/
def isCut : QueueEvent → Bool
  | .accepted (.resync ..) => true
  | .overflowed _ => true
  | .resynced => true
  | _ => false

/-- The patch that is pushed. -/
def pushedPatch : QueueEvent → Option Patch
  | .accepted message => message.patchOf
  | .refused message => message.patchOf
  | .overflowed message => message.patchOf
  | _ => none

/-- The message that is popped. -/
def poppedMessage : QueueEvent → Option ReplicationMessage
  | .popped message => some message
  | _ => none

/-- The patch that is popped. -/
def poppedPatch (event : QueueEvent) : Option Patch :=
  event.poppedMessage.bind ReplicationMessage.patchOf

/-- The payload of a frame of a view that is accepted. -/
def acceptedFrame (viewId : String) : QueueEvent → Option Json.Value
  | .accepted (.presentation id payload) => if id = viewId then some payload else none
  | _ => none

end QueueEvent

/-- The events since the last cut. -/
def sinceCut (trace : List QueueEvent) : List QueueEvent :=
  trace.rtakeWhile fun event => !event.isCut

/-- The last cut. -/
def lastCut (trace : List QueueEvent) : Option QueueEvent :=
  (trace.rdropWhile fun event => !event.isCut).getLast?

/-- The payload that was accepted last for a view. -/
def latestFrame (viewId : String) (trace : List QueueEvent) : Option Json.Value :=
  (trace.filterMap (QueueEvent.acceptedFrame viewId)).getLast?

theorem sinceCut_of_isCut {trace : List QueueEvent} {event : QueueEvent}
    (h : event.isCut = true) :
    sinceCut (trace ++ [event]) = [] ∧ lastCut (trace ++ [event]) = some event := by
  constructor
  · rw [sinceCut, rtakeWhile_concat_neg _ _ _ (by simp [h])]
  · rw [lastCut, rdropWhile_concat_neg _ _ _ (by simp [h])]
    simp

theorem sinceCut_of_not_isCut {trace : List QueueEvent} {event : QueueEvent}
    (h : event.isCut = false) :
    sinceCut (trace ++ [event]) = sinceCut trace ++ [event] ∧
      lastCut (trace ++ [event]) = lastCut trace := by
  constructor
  · rw [sinceCut, rtakeWhile_concat_pos _ _ _ (by simp [h])]
    rfl
  · rw [lastCut, rdropWhile_concat_pos _ _ _ (by simp [h])]
    rfl

/-! ## What a run keeps -/

/-- The patches that are pushed. -/
def pushedPatches (trace : List QueueEvent) : List Patch :=
  trace.filterMap QueueEvent.pushedPatch

/-- The patches that are popped. -/
def poppedPatches (trace : List QueueEvent) : List Patch :=
  trace.filterMap QueueEvent.poppedPatch

/-- The messages that are popped. -/
def poppedMessages (trace : List QueueEvent) : List ReplicationMessage :=
  trace.filterMap QueueEvent.poppedMessage

/-- The patches in a queue. -/
def SubscriberQueue.patches (q : SubscriberQueue) : List Patch :=
  q.queue.filterMap ReplicationMessage.patchOf

/-- The views of the frames in a queue. -/
def SubscriberQueue.views (q : SubscriberQueue) : List String :=
  q.queue.filterMap ReplicationMessage.view

/-- What a queue and the trace of its uses have to do with each other. -/
structure Kept (q : SubscriberQueue) (trace : List QueueEvent) : Prop where
  room : 0 < q.capacity
  bounded : q.queue.length ≤ q.capacity
  ordered : (poppedPatches trace ++ q.patches).Sublist (pushedPatches trace)
  flow : q.needsResync = false →
    poppedPatches (sinceCut trace) ++ q.patches = pushedPatches (sinceCut trace)
  waiting : q.needsResync = true → q.patches = [] ∧ poppedPatches (sinceCut trace) = []
  overflow : ∀ message, lastCut trace = some (.overflowed message) → q.needsResync = true
  resync : ∀ snapshot offset, lastCut trace = some (.accepted (.resync snapshot offset)) →
    (poppedMessages (sinceCut trace) ++ q.queue).head? = some (.resync snapshot offset)
  single : q.views.Nodup
  latest : ∀ viewId payload, .presentation viewId payload ∈ q.queue →
    latestFrame viewId trace = some payload

theorem pushedPatches_append (trace : List QueueEvent) (event : QueueEvent) :
    pushedPatches (trace ++ [event]) = pushedPatches trace ++ event.pushedPatch.toList := by
  cases hp : event.pushedPatch <;> simp [pushedPatches, hp]

theorem poppedPatches_append (trace : List QueueEvent) (event : QueueEvent) :
    poppedPatches (trace ++ [event]) = poppedPatches trace ++ event.poppedPatch.toList := by
  cases hp : event.poppedPatch <;> simp [poppedPatches, hp]

theorem poppedMessages_append (trace : List QueueEvent) (event : QueueEvent) :
    poppedMessages (trace ++ [event]) = poppedMessages trace ++ event.poppedMessage.toList := by
  cases hp : event.poppedMessage <;> simp [poppedMessages, hp]

theorem latestFrame_append (viewId : String) (trace : List QueueEvent) (event : QueueEvent) :
    latestFrame viewId (trace ++ [event]) =
      (event.acceptedFrame viewId).or (latestFrame viewId trace) := by
  cases hframe : event.acceptedFrame viewId <;>
    simp [latestFrame, filterMap_append, hframe]

/-- A new queue. -/
theorem kept_new (actorId : ActorId) (role : ActorRole) (lastOffset : UInt64) (capacity : Nat) :
    Kept (.new actorId role lastOffset capacity) [] where
  room := by
    simp only [SubscriberQueue.new, SubscriberQueue.clampCapacity, minSubscribeCapacity,
      maxSubscribeCapacity]
    omega
  bounded := Nat.zero_le _
  ordered := .refl _
  flow _ := rfl
  waiting := nofun
  overflow := nofun
  resync := nofun
  single := .nil
  latest := nofun

variable {q q' : SubscriberQueue} {trace : List QueueEvent}

/-- A message that is appended. -/
theorem Kept.appended {message : ReplicationMessage} (h : Kept q trace)
    (hroom : q.queue.length < q.capacity)
    (hresync : ∀ snapshot offset, message ≠ .resync snapshot offset)
    (hpatch : message.patchOf.isSome = true → q.needsResync = false)
    (hview : ∀ viewId, message.view = some viewId →
      some viewId ∉ q.queue.map ReplicationMessage.view)
    (hqueue : q'.queue = q.queue ++ [message]) (hcapacity : q'.capacity = q.capacity)
    (hneeds : q'.needsResync = q.needsResync) :
    Kept q' (trace ++ [.accepted message]) := by
  have hcut : (QueueEvent.accepted message).isCut = false := by
    cases message with
    | resync snapshot offset => exact absurd rfl (hresync snapshot offset)
    | patch | presentation | heartbeat | lagged => rfl
  obtain ⟨hsince, hlast⟩ := @sinceCut_of_not_isCut trace _ hcut
  have hpatches : q'.patches = q.patches ++ message.patchOf.toList := by
    rw [SubscriberQueue.patches, hqueue, filterMap_append]
    cases hp : message.patchOf <;> simp [SubscriberQueue.patches, hp]
  have hpushed : ∀ events, pushedPatches (events ++ [.accepted message]) =
      pushedPatches events ++ message.patchOf.toList := fun events => pushedPatches_append events (.accepted message)
  have hpopped : ∀ events, poppedPatches (events ++ [.accepted message]) =
      poppedPatches events := fun events => (poppedPatches_append ..).trans (append_nil _)
  have hmessages : ∀ events, poppedMessages (events ++ [.accepted message]) =
      poppedMessages events := fun events => (poppedMessages_append ..).trans (append_nil _)
  refine ⟨?_, ?_, ?_, ?_, ?_, ?_, ?_, ?_, ?_⟩
  · rw [hcapacity]
    exact h.room
  · rw [hcapacity, hqueue, length_append]
    exact hroom
  · rw [hpopped, hpushed, hpatches, ← append_assoc]
    exact h.ordered.append (.refl _)
  · intro hopen
    rw [hneeds] at hopen
    rw [hsince, hpopped, hpushed, hpatches, ← append_assoc, h.flow hopen]
  · intro hwait
    rw [hneeds] at hwait
    obtain ⟨hnone, hstill⟩ := h.waiting hwait
    have hno : message.patchOf = none := by
      by_contra hsome
      have hopen := hpatch (Option.isSome_iff_ne_none.mpr hsome)
      rw [hopen] at hwait
      cases hwait
    rw [hsince, hpopped, hpatches, hnone, hno]
    exact ⟨rfl, hstill⟩
  · intro m hm
    rw [hneeds]
    exact h.overflow m (hlast ▸ hm)
  · intro snapshot offset hm
    rw [hsince, hmessages, hqueue, ← append_assoc, head?_append,
      h.resync snapshot offset (hlast ▸ hm)]
    rfl
  · rw [SubscriberQueue.views, hqueue, filterMap_append]
    cases hv : message.view with
    | none =>
      simpa [hv] using (show (q.queue.filterMap ReplicationMessage.view).Nodup from h.single)
    | some viewId =>
      have habsent : viewId ∉ q.views := by
        intro hmem
        obtain ⟨m, hm, hmview⟩ := mem_filterMap.mp hmem
        exact hview viewId hv (mem_map.mpr ⟨m, hm, hmview⟩)
      rw [filterMap_cons_some hv, filterMap_nil]
      refine List.Nodup.append h.single (nodup_singleton _) ?_
      rw [disjoint_singleton]
      exact habsent
  · intro viewId payload hmem
    rw [latestFrame_append]
    rw [hqueue, mem_append, mem_singleton] at hmem
    rcases hmem with hmem | rfl
    · have hother : (QueueEvent.accepted message).acceptedFrame viewId = none := by
        cases message with
        | presentation id p =>
          refine if_neg fun heq => ?_
          refine hview id rfl (mem_map.mpr ⟨_, hmem, ?_⟩)
          rw [heq]
          rfl
        | resync | patch | heartbeat | lagged => rfl
      rw [hother]
      exact h.latest viewId payload hmem
    · simp [QueueEvent.acceptedFrame]

/-- A frame whose payload is replaced. -/
theorem Kept.coalesced {viewId : String} {old payload : Json.Value}
    {front back : List ReplicationMessage} (h : Kept q trace)
    (hold : q.queue = front ++ .presentation viewId old :: back)
    (hqueue : q'.queue = front ++ .presentation viewId payload :: back)
    (hcapacity : q'.capacity = q.capacity) (hneeds : q'.needsResync = q.needsResync) :
    Kept q' (trace ++ [.accepted (.presentation viewId payload)]) := by
  obtain ⟨hsince, hlast⟩ :=
    @sinceCut_of_not_isCut trace (.accepted (.presentation viewId payload)) rfl
  have hpatches : q'.patches = q.patches := by
    simp only [SubscriberQueue.patches, hold, hqueue, filterMap_append, filterMap_cons,
      ReplicationMessage.patchOf]
  have hviews : q'.views = q.views := by
    simp only [SubscriberQueue.views, hold, hqueue, filterMap_append, filterMap_cons,
      ReplicationMessage.view]
  have hsame : ∀ events, pushedPatches (events ++ [.accepted (.presentation viewId payload)]) =
      pushedPatches events ∧
      poppedPatches (events ++ [.accepted (.presentation viewId payload)]) =
        poppedPatches events ∧
      poppedMessages (events ++ [.accepted (.presentation viewId payload)]) =
        poppedMessages events := by
    intro events
    simp [pushedPatches, poppedPatches, poppedMessages, QueueEvent.pushedPatch,
      QueueEvent.poppedPatch, QueueEvent.poppedMessage, ReplicationMessage.patchOf]
  refine ⟨?_, ?_, ?_, ?_, ?_, ?_, ?_, ?_, ?_⟩
  · rw [hcapacity]
    exact h.room
  · have hbounded := h.bounded
    rw [hold] at hbounded
    rw [hcapacity, hqueue]
    simpa using hbounded
  · rw [(hsame trace).1, (hsame trace).2.1, hpatches]
    exact h.ordered
  · intro hopen
    rw [hsince, (hsame _).1, (hsame _).2.1, hpatches]
    exact h.flow (hneeds ▸ hopen)
  · intro hwait
    rw [hsince, (hsame _).2.1, hpatches]
    exact h.waiting (hneeds ▸ hwait)
  · intro m hm
    rw [hneeds]
    exact h.overflow m (hlast ▸ hm)
  · intro snapshot offset hm
    have hhead := h.resync snapshot offset (hlast ▸ hm)
    rw [hsince, (hsame _).2.2, hqueue]
    rw [hold] at hhead
    cases hpopped : poppedMessages (sinceCut trace) with
    | cons first rest =>
      rw [hpopped] at hhead
      exact hhead
    | nil =>
      rw [hpopped] at hhead
      cases front with
      | nil => cases hhead
      | cons first rest => exact hhead
  · rw [hviews]
    exact h.single
  · intro id p hmem
    have hnodup := h.single
    rw [SubscriberQueue.views, hold] at hnodup
    simp only [filterMap_append, filterMap_cons, ReplicationMessage.view] at hnodup
    have hunique : ∀ m ∈ front ++ back, m.view ≠ some viewId := by
      intro m hm hmview
      have hmid := perm_middle.nodup_iff.mp hnodup
      refine (nodup_cons.mp hmid).1 ?_
      rw [← filterMap_append]
      exact mem_filterMap.mpr ⟨m, hm, hmview⟩
    rw [latestFrame_append]
    rw [hqueue] at hmem
    by_cases heq : viewId = id
    · subst heq
      have hp : payload = p := by
        rcases mem_append.mp hmem with hfront | hrest
        · exact absurd rfl (hunique _ (mem_append_left _ hfront))
        · rcases mem_cons.mp hrest with heq | hback
          · cases heq
            rfl
          · exact absurd rfl (hunique _ (mem_append_right _ hback))
      simp [QueueEvent.acceptedFrame, hp]
    · have hother :
          (QueueEvent.accepted (.presentation viewId payload)).acceptedFrame id = none :=
        if_neg heq
      rw [hother]
      refine h.latest id p ?_
      rw [hold]
      rcases mem_append.mp hmem with hfront | hrest
      · exact mem_append_left _ hfront
      · rcases mem_cons.mp hrest with hsame | hback
        · cases hsame
          exact absurd rfl heq
        · exact mem_append_right _ (mem_cons_of_mem _ hback)

/-- A message that is dropped. -/
theorem Kept.refused {message : ReplicationMessage} (h : Kept q trace)
    (hpatch : message.patchOf.isSome = true → q.needsResync = true)
    (hqueue : q'.queue = q.queue) (hcapacity : q'.capacity = q.capacity)
    (hneeds : q'.needsResync = q.needsResync) : Kept q' (trace ++ [.refused message]) := by
  obtain ⟨hsince, hlast⟩ := @sinceCut_of_not_isCut trace (.refused message) rfl
  have hpatches : q'.patches = q.patches := by rw [SubscriberQueue.patches, hqueue]; rfl
  have hpushed : ∀ events, pushedPatches (events ++ [.refused message]) =
      pushedPatches events ++ message.patchOf.toList := fun events => pushedPatches_append events (.refused message)
  have hpopped : ∀ events, poppedPatches (events ++ [.refused message]) = poppedPatches events ∧
      poppedMessages (events ++ [.refused message]) = poppedMessages events := by
    intro events
    simp [poppedPatches, poppedMessages, QueueEvent.poppedPatch, QueueEvent.poppedMessage]
  refine ⟨?_, ?_, ?_, ?_, ?_, ?_, ?_, ?_, ?_⟩
  · rw [hcapacity]
    exact h.room
  · rw [hcapacity, hqueue]
    exact h.bounded
  · rw [(hpopped trace).1, hpushed, hpatches]
    exact h.ordered.trans (sublist_append_left _ _)
  · intro hopen
    rw [hneeds] at hopen
    have hno : message.patchOf = none := by
      by_contra hsome
      rw [hpatch (Option.isSome_iff_ne_none.mpr hsome)] at hopen
      cases hopen
    rw [hsince, (hpopped _).1, hpushed, hpatches, hno, h.flow hopen]
    simp
  · intro hwait
    rw [hsince, (hpopped _).1, hpatches]
    exact h.waiting (hneeds ▸ hwait)
  · intro m hm
    rw [hneeds]
    exact h.overflow m (hlast ▸ hm)
  · intro snapshot offset hm
    rw [hsince, (hpopped _).2, hqueue]
    exact h.resync snapshot offset (hlast ▸ hm)
  · rw [SubscriberQueue.views, hqueue]
    exact h.single
  · intro viewId payload hmem
    rw [latestFrame_append]
    exact h.latest viewId payload (hqueue ▸ hmem)

/-- An overflow. -/
theorem Kept.overflowed {message : ReplicationMessage} (h : Kept q trace) (hqueue : q'.queue = [])
    (hcapacity : q'.capacity = q.capacity) (hneeds : q'.needsResync = true) :
    Kept q' (trace ++ [.overflowed message]) := by
  obtain ⟨hsince, hlast⟩ := @sinceCut_of_isCut trace (.overflowed message) rfl
  refine ⟨?_, ?_, ?_, ?_, ?_, ?_, ?_, ?_, ?_⟩
  · rw [hcapacity]
    exact h.room
  · rw [hqueue]
    exact Nat.zero_le _
  · have hless := (sublist_append_left _ _).trans h.ordered
    have hpopped : poppedPatches (trace ++ [.overflowed message]) = poppedPatches trace := by
      simp [poppedPatches, QueueEvent.poppedPatch, QueueEvent.poppedMessage]
    have hnone : q'.patches = [] := by rw [SubscriberQueue.patches, hqueue]; rfl
    rw [hpopped, hnone, append_nil, pushedPatches, filterMap_append]
    exact hless.trans (sublist_append_left _ _)
  · intro hopen
    rw [hneeds] at hopen
    cases hopen
  · intro _
    rw [hsince, SubscriberQueue.patches, hqueue]
    exact ⟨rfl, rfl⟩
  · exact fun _ _ => hneeds
  · intro snapshot offset hm
    rw [hlast] at hm
    cases hm
  · rw [SubscriberQueue.views, hqueue]
    exact .nil
  · intro viewId payload hmem
    rw [hqueue] at hmem
    cases hmem

/-- A resync that is pushed. -/
theorem Kept.restarted {snapshot : SessionSnapshot} {offset : UInt64} (h : Kept q trace)
    (hqueue : q'.queue = [.resync snapshot offset]) (hcapacity : q'.capacity = q.capacity)
    (hneeds : q'.needsResync = false) :
    Kept q' (trace ++ [.accepted (.resync snapshot offset)]) := by
  obtain ⟨hsince, hlast⟩ := @sinceCut_of_isCut trace (.accepted (.resync snapshot offset)) rfl
  have hnone : q'.patches = [] := by rw [SubscriberQueue.patches, hqueue]; rfl
  refine ⟨?_, ?_, ?_, ?_, ?_, ?_, ?_, ?_, ?_⟩
  · rw [hcapacity]
    exact h.room
  · rw [hcapacity, hqueue]
    exact h.room
  · have hless := (sublist_append_left _ _).trans h.ordered
    have hpopped : poppedPatches (trace ++ [.accepted (.resync snapshot offset)]) =
        poppedPatches trace := by
      simp [poppedPatches, QueueEvent.poppedPatch, QueueEvent.poppedMessage]
    rw [hnone, hpopped, append_nil, pushedPatches, filterMap_append]
    exact hless.trans (sublist_append_left _ _)
  · intro _
    rw [hsince, hnone]
    rfl
  · intro hwait
    rw [hneeds] at hwait
    cases hwait
  · intro m hm
    rw [hlast] at hm
    cases hm
  · intro s o hm
    rw [hlast] at hm
    cases hm
    rw [hsince, hqueue]
    rfl
  · rw [SubscriberQueue.views, hqueue]
    exact .nil
  · intro viewId payload hmem
    rw [hqueue] at hmem
    cases mem_singleton.mp hmem

/-- A message that is popped. -/
theorem Kept.popped {message : ReplicationMessage} (h : Kept q trace)
    (hqueue : q.queue = message :: q'.queue) (hcapacity : q'.capacity = q.capacity)
    (hneeds : q'.needsResync = q.needsResync) : Kept q' (trace ++ [.popped message]) := by
  obtain ⟨hsince, hlast⟩ := @sinceCut_of_not_isCut trace (.popped message) rfl
  have hpatches : q.patches = message.patchOf.toList ++ q'.patches := by
    rw [SubscriberQueue.patches, hqueue, filterMap_cons]
    cases message.patchOf <;> rfl
  have hpushed : ∀ events, pushedPatches (events ++ [.popped message]) = pushedPatches events :=
    fun events => (pushedPatches_append ..).trans (append_nil _)
  have hpopped : ∀ events, poppedPatches (events ++ [.popped message]) =
      poppedPatches events ++ message.patchOf.toList := fun events => poppedPatches_append events _
  have hmessages : ∀ events, poppedMessages (events ++ [.popped message]) =
      poppedMessages events ++ [message] := fun events => poppedMessages_append events _
  have hbounded := h.bounded
  rw [hqueue, length_cons] at hbounded
  refine ⟨?_, ?_, ?_, ?_, ?_, ?_, ?_, ?_, ?_⟩
  · rw [hcapacity]
    exact h.room
  · rw [hcapacity]
    omega
  · rw [hpopped, hpushed, append_assoc, ← hpatches]
    exact h.ordered
  · intro hopen
    rw [hsince, hpopped, hpushed, append_assoc, ← hpatches]
    exact h.flow (hneeds ▸ hopen)
  · intro hwait
    obtain ⟨hnone, hstill⟩ := h.waiting (hneeds ▸ hwait)
    rw [hpatches] at hnone
    obtain ⟨hmessage, hrest⟩ := append_eq_nil_iff.mp hnone
    rw [hsince, hpopped, hstill, hmessage]
    exact ⟨hrest, rfl⟩
  · intro m hm
    rw [hneeds]
    exact h.overflow m (hlast ▸ hm)
  · intro snapshot offset hm
    have hhead := h.resync snapshot offset (hlast ▸ hm)
    rw [hqueue] at hhead
    rw [hsince, hmessages, append_assoc]
    exact hhead
  · have hsingle := h.single
    rw [SubscriberQueue.views, hqueue] at hsingle
    exact hsingle.sublist ((sublist_cons_self _ _).filterMap _)
  · intro viewId payload hmem
    rw [latestFrame_append]
    refine h.latest viewId payload ?_
    rw [hqueue]
    exact mem_cons_of_mem _ hmem

/-- A use that does nothing. -/
theorem Kept.idle (h : Kept q trace) : Kept q (trace ++ [.idle]) := by
  obtain ⟨hsince, hlast⟩ := @sinceCut_of_not_isCut trace .idle rfl
  have hsame : ∀ events, pushedPatches (events ++ [.idle]) = pushedPatches events ∧
      poppedPatches (events ++ [.idle]) = poppedPatches events ∧
      poppedMessages (events ++ [.idle]) = poppedMessages events := by
    intro events
    simp [pushedPatches, poppedPatches, poppedMessages, QueueEvent.pushedPatch,
      QueueEvent.poppedPatch, QueueEvent.poppedMessage]
  refine ⟨h.room, h.bounded, ?_, ?_, ?_, ?_, ?_, h.single, ?_⟩
  · rw [(hsame trace).1, (hsame trace).2.1]
    exact h.ordered
  · rw [hsince, (hsame _).1, (hsame _).2.1]
    exact h.flow
  · rw [hsince, (hsame _).2.1]
    exact h.waiting
  · rw [hlast]
    exact h.overflow
  · rw [hsince, hlast, (hsame _).2.2]
    exact h.resync
  · intro viewId payload hmem
    rw [latestFrame_append]
    exact h.latest viewId payload hmem

/-- A pending resync that is taken. -/
theorem Kept.resynced (h : Kept q trace) (hneeds : q.needsResync = true) :
    Kept { q with needsResync := false } (trace ++ [.resynced]) := by
  obtain ⟨hsince, hlast⟩ := @sinceCut_of_isCut trace .resynced rfl
  have hnone : q.patches = [] := (h.waiting hneeds).1
  refine ⟨h.room, h.bounded, ?_, ?_, nofun, ?_, ?_, h.single, ?_⟩
  · have hpopped : poppedPatches (trace ++ [.resynced]) = poppedPatches trace := by
      simp [poppedPatches, QueueEvent.poppedPatch, QueueEvent.poppedMessage]
    rw [hpopped, pushedPatches, filterMap_append]
    exact h.ordered.trans (sublist_append_left _ _)
  · intro _
    rw [hsince]
    exact hnone
  · intro m hm
    rw [hlast] at hm
    cases hm
  · intro snapshot offset hm
    rw [hlast] at hm
    cases hm
  · intro viewId payload hmem
    rw [latestFrame_append]
    exact h.latest viewId payload hmem

/-- Every use of a queue keeps what a run keeps. -/
theorem Kept.step {event : QueueEvent} (h : Kept q trace) (hstep : Stepped q event q') :
    Kept q' (trace ++ [event]) ∧ q'.capacity = q.capacity := by
  cases hstep with
  | appended hroom hresync hpatch hview hqueue hcapacity hneeds =>
      exact ⟨h.appended hroom hresync hpatch hview hqueue hcapacity hneeds, hcapacity⟩
  | coalesced hold hqueue hcapacity hneeds =>
      exact ⟨h.coalesced hold hqueue hcapacity hneeds, hcapacity⟩
  | refused hpatch hqueue hcapacity hneeds =>
      exact ⟨h.refused hpatch hqueue hcapacity hneeds, hcapacity⟩
  | overflowed hqueue hcapacity hneeds => exact ⟨h.overflowed hqueue hcapacity hneeds, hcapacity⟩
  | restarted hqueue hcapacity hneeds => exact ⟨h.restarted hqueue hcapacity hneeds, hcapacity⟩
  | popped hqueue hcapacity hneeds => exact ⟨h.popped hqueue hcapacity hneeds, hcapacity⟩
  | idle => exact ⟨h.idle, rfl⟩
  | resynced hneeds => exact ⟨h.resynced hneeds, rfl⟩

/-- What a subscriber is given: the queue is within its capacity, the patches that are popped are
in the order of the pushes, since the last cut they are the first that were pushed, none after an
overflow, a pushed resync comes before them, and each view has at most one frame in the queue,
with the payload that was accepted last. -/
structure Delivered (q : SubscriberQueue) (trace : List QueueEvent) : Prop where
  bounded : q.queue.length ≤ q.capacity
  inOrder : (poppedPatches trace).Sublist (pushedPatches trace)
  gapFree : poppedPatches (sinceCut trace) <+: pushedPatches (sinceCut trace)
  overflow : ∀ message, lastCut trace = some (.overflowed message) →
    poppedPatches (sinceCut trace) = []
  resync : ∀ snapshot offset, lastCut trace = some (.accepted (.resync snapshot offset)) →
    ∀ message ∈ (poppedMessages (sinceCut trace)).head?, message = .resync snapshot offset
  single : q.views.Nodup
  latest : ∀ viewId payload, .presentation viewId payload ∈ q.queue →
    latestFrame viewId trace = some payload

end Omp2.Server
