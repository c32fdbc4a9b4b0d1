import Omp2.Server.Role

/-!
# Subscriber queues

The replication messages of `omp-server/src/replication.rs` and the bounded queue from which one
subscriber polls them. A queue that overflows with a patch is cleared and waits for a resync;
presentation frames are coalesced by view and dropped when the queue is full.
-/

namespace Omp2.Server

open Omp2.State

/-- `MAX_SUBSCRIBE_CAPACITY`. -/
def maxSubscribeCapacity : Nat := 4096

/-- `MIN_SUBSCRIBE_CAPACITY`. -/
def minSubscribeCapacity : Nat := 16

/-- `ReplicationMessage`. -/
inductive ReplicationMessage where
  | resync (snapshot : SessionSnapshot) (offset : UInt64)
  | patch (patch : Patch)
  | presentation (viewId : String) (payload : Json.Value)
  | heartbeat (timestampEpochMs : UInt64) (latestOffset : UInt64)
  | lagged (droppedPresentationFrames : Nat)

/-- `SubscriberQueue`. -/
structure SubscriberQueue where
  actorId : ActorId
  role : ActorRole
  lastAcknowledgedOffset : UInt64
  capacity : Nat
  queue : List ReplicationMessage
  droppedPresentationCount : Nat
  needsResync : Bool

/-- Replace the payload of the last presentation frame of a view; the list is newest first. -/
def coalesceNewest (viewId : String) (payload : Json.Value) :
    List ReplicationMessage → Option (List ReplicationMessage)
  | [] => none
  | .presentation id old :: older =>
    if id = viewId then some (.presentation id payload :: older)
    else (coalesceNewest viewId payload older).map (.presentation id old :: ·)
  | message :: older => (coalesceNewest viewId payload older).map (message :: ·)

namespace SubscriberQueue

/-- The capacity of a queue for a requested one. -/
def clampCapacity (capacity : Nat) : Nat :=
  min (max capacity minSubscribeCapacity) maxSubscribeCapacity

/-- `SubscriberQueue::new`. -/
def new (actorId : ActorId) (role : ActorRole) (lastOffset : UInt64) (capacity : Nat) :
    SubscriberQueue :=
  { actorId, role, lastAcknowledgedOffset := lastOffset
    capacity := clampCapacity capacity
    queue := [], droppedPresentationCount := 0, needsResync := false }

/-- `push`. -/
def push (q : SubscriberQueue) : ReplicationMessage → SubscriberQueue × Except ServerError Unit
  | .presentation viewId payload =>
    match coalesceNewest viewId payload q.queue.reverse with
    | some newest =>
      ({ q with queue := newest.reverse
                droppedPresentationCount := q.droppedPresentationCount + 1 }, .ok ())
    | none =>
      if q.capacity ≤ q.queue.length then
        ({ q with droppedPresentationCount := q.droppedPresentationCount + 1 }, .ok ())
      else ({ q with queue := q.queue ++ [.presentation viewId payload] }, .ok ())
  | .patch patch =>
    if q.needsResync then (q, .ok ())
    else if q.capacity ≤ q.queue.length then
      ({ q with needsResync := true, queue := [] }, .error (.subscriberQueueFull q.actorId.value))
    else
      ({ q with lastAcknowledgedOffset := patch.resultOffset
                queue := q.queue ++ [.patch patch] }, .ok ())
  | .resync snapshot offset =>
    ({ q with queue := [.resync snapshot offset], lastAcknowledgedOffset := offset
              needsResync := false }, .ok ())
  | other =>
    if q.queue.length < q.capacity then ({ q with queue := q.queue ++ [other] }, .ok ())
    else (q, .ok ())

/-- `pop`. -/
def pop (q : SubscriberQueue) : Option ReplicationMessage × SubscriberQueue :=
  match q.queue with
  | [] => (none, q)
  | message :: rest => (some message, { q with queue := rest })

/-- Push messages one after the other, and ignore overflow errors as the service does. -/
def pushAll (q : SubscriberQueue) (messages : List ReplicationMessage) : SubscriberQueue :=
  messages.foldl (fun q message => (q.push message).1) q

end SubscriberQueue

end Omp2.Server
