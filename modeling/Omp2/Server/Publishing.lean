import Omp2.Library.Replica
import Omp2.Server.Service
import Omp2.State.Branches

/-!
# Publishing to the subscribers

A subscriber keeps a copy of the document and folds what it polls into it: a resync replaces the
copy and a patch is applied to it. `Tracked` says of the service and these copies that every queue
either waits for a resync, or handling it leads its copy to the live document. Each operation of
the service keeps this, by whichever route its records reach the queues, as long as it publishes
what it adds and no catch-up crosses branches.
-/

namespace Omp2.Server

open Omp2.Json Omp2.State Omp2.Replica Omp2.VersionTree List

variable [SerdeJson]

/-! ## What a subscriber does -/

/-- What a subscriber makes of a message that it polls. -/
def receive (s : SessionSnapshot) : ReplicationMessage → Except StateError SessionSnapshot
  | .resync snapshot _ => .ok snapshot
  | .patch patch =>
    match s.applyPatch patch with
    | (_, .error e) => .error e
    | (s, .ok ()) => .ok s
  | .presentation .. | .heartbeat .. | .lagged _ => .ok s

/-- A message that no copy reacts to. -/
def Inert (message : ReplicationMessage) : Prop :=
  ∀ s, receive s message = .ok s

/-- A queue waits for a resync, or it leads the copy of its subscriber to the live document. -/
inductive Follows (live copy : SessionSnapshot) (q : SubscriberQueue) : Prop where
  | waiting : q.needsResync = true → (∀ m ∈ q.queue, Inert m) → Follows live copy q
  | inStep : q.needsResync = false → InStep receive SessionSnapshot.SameTree live copy q.queue →
      Follows live copy q

/-! ## Pushing into a queue -/

/-- The patch of a record, as it is published. -/
def patchMessage (r : JournalRecord) : ReplicationMessage :=
  .patch r.patch

/-- Coalescing replaces one presentation frame by another one. -/
theorem coalesceNewest_forall₂ {viewId : String} {payload : Value}
    {newest coalesced : List ReplicationMessage}
    (h : coalesceNewest viewId payload newest = some coalesced) :
    List.Forall₂ (fun m m' => m = m' ∨ Inert m ∧ Inert m') newest coalesced := by
  have hrefl : ∀ l, List.Forall₂ (fun m m' => m = m' ∨ Inert m ∧ Inert m') l l :=
    fun l => forall₂_same.mpr fun m _ => .inl rfl
  induction newest generalizing coalesced with
  | nil => cases h
  | cons message older ih =>
      unfold coalesceNewest at h
      split at h
      · cases h
      · next heq =>
        cases heq
        split at h
        · cases h
          exact .cons (.inr ⟨fun _ => rfl, fun _ => rfl⟩) (hrefl _)
        · obtain ⟨rest, hrest, rfl⟩ := Option.map_eq_some_iff.mp h
          exact .cons (.inl rfl) (ih hrest)
      · next heq =>
        cases heq
        obtain ⟨rest, hrest, rfl⟩ := Option.map_eq_some_iff.mp h
        exact .cons (.inl rfl) (ih hrest)

/-- A presentation frame leaves a queue leading where it led. -/
theorem Follows.push_presentation {live copy : SessionSnapshot} {q : SubscriberQueue}
    (h : Follows live copy q) (viewId : String) (payload : Value) :
    Follows live copy (q.push (.presentation viewId payload)).1 := by
  unfold SubscriberQueue.push
  dsimp only
  split
  · next newest hnewest =>
    have hqueue := rel_reverse (coalesceNewest_forall₂ hnewest)
    rw [reverse_reverse] at hqueue
    cases h with
    | waiting hneeds hinert =>
      refine .waiting hneeds fun m hm => ?_
      -- each message of the new queue stands for an inert one of the old queue
      obtain ⟨i, hi, rfl⟩ := getElem_of_mem (show m ∈ newest.reverse from hm)
      have hlength := hqueue.length_eq
      rcases hqueue.get (by omega) hi with heq | ⟨_, hinert'⟩
      · rw [get_eq_getElem, get_eq_getElem] at heq
        exact heq ▸ hinert _ (getElem_mem _)
      · exact hinert'
    | inStep hneeds hstep =>
      obtain ⟨s, hreplay, hsame⟩ := hstep
      refine .inStep hneeds ⟨s, ?_, hsame⟩
      rw [← hreplay]
      refine (replay_congr (hqueue.imp fun m m' hm s => ?_) copy).symm
      rcases hm with rfl | ⟨hm, hm'⟩
      · rfl
      · rw [hm s, hm' s]
  · split
    · cases h with
      | waiting hneeds hinert => exact .waiting hneeds hinert
      | inStep hneeds hstep => exact .inStep hneeds hstep
    · cases h with
      | waiting hneeds hinert =>
        refine .waiting hneeds fun m hm => ?_
        rcases mem_append.mp hm with hm | hm
        · exact hinert m hm
        · rw [mem_singleton.mp hm]
          exact fun _ => rfl
      | inStep hneeds hstep =>
        exact .inStep hneeds (hstep.push fun s hs => ⟨s, rfl, hs⟩)

/-- Publishing the patch of the live document's own change keeps every queue following. -/
theorem Follows.push_patch {live live' copy : SessionSnapshot} {q : SubscriberQueue}
    {r : JournalRecord} (h : Follows live copy q) (hchange : replayRecord live r = .ok live') :
    Follows live' copy (q.push (patchMessage r)).1 := by
  unfold patchMessage SubscriberQueue.push
  dsimp only
  cases h with
  | waiting hneeds hinert =>
      rw [if_pos hneeds]
      exact .waiting hneeds hinert
  | inStep hneeds hstep =>
      rw [if_neg (by rw [hneeds]; exact Bool.false_ne_true)]
      by_cases hfull : q.capacity ≤ q.queue.length
      · rw [if_pos hfull]
        exact .waiting rfl fun m hm => absurd hm not_mem_nil
      · rw [if_neg hfull]
        refine .inStep hneeds (hstep.push fun s hs => ?_)
        obtain ⟨s₁, hpatch, rfl⟩ := replayRecord_ok hchange
        obtain ⟨s', hs', hsame⟩ := hs.applyPatch hpatch
        refine ⟨s', ?_, hsame.nodes, hsame.usedIds, hsame.offset⟩
        simp only [receive, hs']

/-- Publishing all records that lead from one live document to another. -/
theorem Follows.pushAll {live live' copy : SessionSnapshot} {q : SubscriberQueue}
    {more : List JournalRecord} (h : Follows live copy q)
    (hreplay : replay replayRecord live more = .ok live') :
    Follows live' copy (q.pushAll (more.map patchMessage)) := by
  induction more generalizing live q with
  | nil =>
      cases hreplay
      exact h
  | cons r more ih =>
      unfold replay at hreplay
      split at hreplay
      · cases hreplay
      · next s hchange => exact ih (h.push_patch hchange) hreplay

omit [SerdeJson] in
theorem pushAll_waiting {q : SubscriberQueue} (more : List JournalRecord)
    (hneeds : q.needsResync = true) : q.pushAll (more.map patchMessage) = q := by
  induction more with
  | nil => rfl
  | cons r more ih =>
      show ((q.push (.patch r.patch)).1.pushAll _) = q
      unfold SubscriberQueue.push
      dsimp only
      rw [if_pos hneeds]
      exact ih

/-- A queue waits for a resync once more records are published than it has room for. -/
theorem Follows.pushAll_overflow {live copy : SessionSnapshot} {q : SubscriberQueue}
    {more : List JournalRecord} (hneeds : q.needsResync = false)
    (hfew : q.queue.length ≤ q.capacity)
    (hmany : q.capacity < q.queue.length + more.length) :
    Follows live copy (q.pushAll (more.map patchMessage)) := by
  induction more generalizing q with
  | nil =>
      rw [length_nil] at hmany
      omega
  | cons r more ih =>
      have hopen : ¬ q.needsResync = true := by
        rw [hneeds]
        exact Bool.false_ne_true
      rw [length_cons] at hmany
      show Follows live copy ((q.push (.patch r.patch)).1.pushAll _)
      unfold SubscriberQueue.push
      dsimp only
      rw [if_neg hopen]
      by_cases hfull : q.capacity ≤ q.queue.length
      · rw [if_pos hfull, pushAll_waiting more rfl]
        exact .waiting rfl fun m hm => absurd hm not_mem_nil
      · rw [if_neg hfull]
        have hlength : (q.queue ++ [patchMessage r]).length = q.queue.length + 1 :=
          length_append
        refine ih hneeds ?_ ?_
        · show (q.queue ++ [patchMessage r]).length ≤ q.capacity
          omega
        · show q.capacity < (q.queue ++ [patchMessage r]).length + more.length
          omega

/-! ## The journal behind the queues -/

namespace ServerSessionService

/-- No subscriber reads its queue before a resync. -/
def Unwatched (s : ServerSessionService) : Prop :=
  ∀ (id : ActorId) (q : SubscriberQueue), s.subscribers[id]? = some q → q.needsResync = true

end ServerSessionService

/-- The journal has gone on from its live snapshot: the records `more` lead to the new one. -/
structure Continued (sessionId : SessionId) (j : Journal) (log : List JournalRecord) (j' : Journal)
    (more : List JournalRecord) : Prop where
  coherent : Journal.Coherent sessionId j' (log ++ more)
  replay : replay replayRecord j.snapshot more = .ok j'.snapshot

section Journals

variable {sessionId : SessionId} {j j' j'' : Journal} {log more rest : List JournalRecord}

/-- An accepted append continues the journal by its record. -/
theorem Journal.Appended.continued {patch : Patch} {branch : BranchId} {world : Journal.Outside}
    {r : JournalRecord} (h : Journal.Appended sessionId j log patch branch world j' r) :
    r.patch = patch ∧ Continued sessionId j log j' [r] := by
  obtain ⟨now, _, hr⟩ := h.record
  obtain ⟨s, hpatch, hsnapshot⟩ := h.applied
  have hrecord : r.patch = patch := by
    rw [hr]
    rfl
  refine ⟨hrecord, h.coherent, ?_⟩
  have hbranch : r.branchId = branch := by
    rw [hr]
    rfl
  simp only [VersionTree.replay, replayRecord, hrecord, hpatch, hbranch, hsnapshot]

theorem Continued.trans (h : Continued sessionId j log j' more)
    (h' : Continued sessionId j' (log ++ more) j'' rest) :
    Continued sessionId j log j'' (more ++ rest) := by
  refine ⟨?_, ?_⟩
  · rw [← append_assoc]
    exact h'.coherent
  · rw [replay_append h.replay]
    exact h'.replay

/-- The appends of the host continue the journal by the accepted ones. -/
theorem exists_continued_hostAppends (h : Journal.Coherent sessionId j log)
    (attempts : List (Patch × Journal.Outside)) :
    ∃ more, Continued sessionId j log (ServerSessionService.hostAppends j attempts) more := by
  induction attempts generalizing j log with
  | nil => exact ⟨[], by rw [append_nil]; exact h, rfl⟩
  | cons attempt attempts ih =>
      rcases h.appendOn_cases (Prod.mk.eta (p := j.appendPatch attempt.1 attempt.2)).symm with
        ⟨r, _, hr⟩ | ⟨_, hrefused⟩
      · obtain ⟨_, hfirst⟩ := Journal.Appended.continued hr
        obtain ⟨more, hmore⟩ := ih hfirst.coherent
        exact ⟨r :: more, hfirst.trans hmore⟩
      · obtain ⟨more, hmore⟩ := ih (h.congr hrefused.records hrefused.snapshot)
        exact ⟨more, hmore.coherent, by rw [← hrefused.snapshot]; exact hmore.replay⟩

/-- The records after an offset. -/
theorem filter_recordList {v : Nat} (h : Journal.Based sessionId j log v) (offset : UInt64) :
    (j.recordList.filter fun r => offset < r.offset) = log.drop offset.toNat := by
  rw [h.recordList]
  conv_lhs => rw [← take_append_drop offset.toNat log]
  rw [filter_append, filter_eq_nil_iff.mpr, filter_eq_self.mpr, nil_append]
  · intro r hr
    obtain ⟨i, hi⟩ := getElem?_of_mem hr
    rw [getElem?_drop] at hi
    have hoffset := (h.linked _ r hi).offset
    rw [decide_eq_true_iff, UInt64.lt_iff_toNat_lt]
    omega
  · intro r hr
    obtain ⟨i, hi⟩ := List.getElem?_of_mem hr
    obtain ⟨hlt, _⟩ := List.getElem?_eq_some_iff.mp hi
    rw [List.length_take] at hlt
    rw [List.getElem?_take_of_lt (by omega)] at hi
    have hoffset := (h.linked _ r hi).offset
    rw [decide_eq_true_iff, UInt64.lt_iff_toNat_lt]
    omega

theorem offset_of_coherent (h : Journal.Coherent sessionId j log) :
    j.snapshot.offset.toNat = log.length :=
  (h.at_version h.live).offset

end Journals

/-! ## Publishing -/

/-- The journal is coherent and every subscriber holds a copy that its queue keeps following. -/
structure Tracked (sessionId : SessionId) (s : ServerSessionService)
    (copies : Std.ExtTreeMap ActorId SessionSnapshot) : Prop where
  coherent : ∃ log, Journal.Coherent sessionId s.journal log
  follows : ∀ (id : ActorId) (q : SubscriberQueue), s.subscribers[id]? = some q →
    ∃ copy, copies[id]? = some copy ∧ Follows s.journal.snapshot copy q

section Publishing

open ServerSessionService

variable {sessionId : SessionId} {s : ServerSessionService}
  {copies : Std.ExtTreeMap ActorId SessionSnapshot} {log more : List JournalRecord}

/-- A service with the same records, live document and queues. -/
theorem Tracked.congr {s' : ServerSessionService} (h : Tracked sessionId s copies)
    (hrecords : s'.journal.records = s.journal.records)
    (hsnapshot : s'.journal.snapshot = s.journal.snapshot)
    (hsubscribers : s'.subscribers = s.subscribers) : Tracked sessionId s' copies := by
  obtain ⟨log, hlog⟩ := h.coherent
  refine ⟨⟨log, hlog.congr hrecords hsnapshot⟩, fun id q hq => ?_⟩
  rw [hsubscribers] at hq
  rw [hsnapshot]
  exact h.follows id q hq

/-- While no subscriber reads its queue before a resync, the document may change in any way. -/
theorem Tracked.unwatched {j : Journal} (h : Tracked sessionId s copies)
    (hlog : Journal.Coherent sessionId j log) (hunwatched : s.Unwatched) :
    Tracked sessionId { s with journal := j } copies := by
  refine ⟨⟨log, hlog⟩, fun id q hq => ?_⟩
  have hneeds := hunwatched id q hq
  obtain ⟨copy, hcopy, hfollows⟩ := h.follows id q hq
  refine ⟨copy, hcopy, ?_⟩
  cases hfollows with
  | waiting _ hinert => exact .waiting hneeds hinert
  | inStep hno _ =>
      rw [hneeds] at hno
      cases hno

omit [SerdeJson] in
/-- Publishing records touches the queues only. -/
theorem foldl_broadcast (s : ServerSessionService) (more : List JournalRecord) :
    more.foldl (fun s r => s.broadcast (.patch r.patch)) s =
      { s with subscribers := s.subscribers.map fun _ q => q.pushAll (more.map patchMessage) } := by
  induction more generalizing s with
  | nil =>
      have hmap : (s.subscribers.map fun _ q => q.pushAll []) = s.subscribers :=
        Std.ExtTreeMap.map_id
      show s = { s with subscribers := s.subscribers.map fun _ q => q.pushAll [] }
      rw [hmap]
  | cons r more ih =>
      rw [foldl_cons, ih]
      unfold ServerSessionService.broadcast
      dsimp only
      rw [Std.ExtTreeMap.map_map]
      rfl

/-- A service that continues its journal and publishes the new records stays tracked. -/
theorem Tracked.publish {j : Journal} (h : Tracked sessionId s copies)
    (hcontinued : Continued sessionId s.journal log j more) :
    Tracked sessionId
      (more.foldl (fun s r => s.broadcast (.patch r.patch)) { s with journal := j }) copies := by
  rw [foldl_broadcast]
  refine ⟨⟨_, hcontinued.coherent⟩, fun id q' hq' => ?_⟩
  dsimp only at hq'
  rw [Std.ExtTreeMap.getElem?_map, Option.map_eq_some_iff] at hq'
  obtain ⟨q, hq, rfl⟩ := hq'
  obtain ⟨copy, hcopy, hfollows⟩ := h.follows id q hq
  exact ⟨copy, hcopy, hfollows.pushAll hcontinued.replay⟩

/-- `replicate` publishes what has been appended since the old live offset. -/
theorem Tracked.replicate {j : Journal} (h : Tracked sessionId s copies)
    (hlog : Journal.Coherent sessionId s.journal log)
    (hcontinued : Continued sessionId s.journal log j more) :
    Tracked sessionId (({ s with journal := j } : ServerSessionService).replicate s.currentOffset)
      copies := by
  have hnew : (j.recordList.filter fun r => s.currentOffset < r.offset) = more := by
    rw [filter_recordList hcontinued.coherent,
      show s.currentOffset.toNat = log.length from offset_of_coherent hlog, drop_left]
  unfold ServerSessionService.replicate
  dsimp only
  rw [hnew]
  exact h.publish hcontinued

/-- `submit_patch_internal` publishes the patch that it appends. -/
theorem Tracked.submitPatchInternal (h : Tracked sessionId s copies) (patch : Patch)
    (world : Journal.Outside) : Tracked sessionId (s.submitPatchInternal patch world).1 copies := by
  obtain ⟨log, hlog⟩ := h.coherent
  unfold ServerSessionService.submitPatchInternal
  split
  · next j e happend =>
    rcases hlog.appendOn_cases happend with ⟨_, herror, _⟩ | ⟨_, hrefused⟩
    · cases herror
    · exact h.congr hrefused.records hrefused.snapshot rfl
  · next j offset happend =>
    rcases hlog.appendOn_cases happend with ⟨r, _, hr⟩ | ⟨⟨_, herror⟩, _⟩
    · obtain ⟨rfl, hcontinued⟩ := Journal.Appended.continued hr
      exact h.publish hcontinued
    · cases herror

/-- `append_patch` with `replicate` after it does the same. -/
theorem Tracked.appendAndReplicate (h : Tracked sessionId s copies) (patch : Patch)
    (world : Journal.Outside) : Tracked sessionId (s.appendAndReplicate patch world).1 copies := by
  obtain ⟨log, hlog⟩ := h.coherent
  unfold ServerSessionService.appendAndReplicate
  split
  · next j e happend =>
    rcases hlog.appendOn_cases happend with ⟨_, herror, _⟩ | ⟨_, hrefused⟩
    · cases herror
    · exact h.congr hrefused.records hrefused.snapshot rfl
  · next j offset happend =>
    rcases hlog.appendOn_cases happend with ⟨r, _, hr⟩ | ⟨⟨_, herror⟩, _⟩
    · exact h.replicate hlog (Journal.Appended.continued hr).2
    · cases herror

namespace ServerSessionService

/-- What the host appends is published, or there is nothing to publish or nobody to read it. -/
def HostPublished {α : Type} (s : ServerSessionService) (run : HostRun α) : Prop :=
  run.result.isOk = true ∨ (hostAppends s.journal run.attempts).recordList = s.journal.recordList ∨
    s.Unwatched

end ServerSessionService

/-- A request that runs the host keeps the subscribers tracked when what it appends is published. -/
theorem Tracked.runHost {α : Type} {run : HostRun α} (h : Tracked sessionId s copies)
    (hpublished : s.HostPublished run) : Tracked sessionId (s.runHost run).1 copies := by
  obtain ⟨log, hlog⟩ := h.coherent
  obtain ⟨more, hmore⟩ := exists_continued_hostAppends hlog run.attempts
  unfold ServerSessionService.runHost
  dsimp only
  split
  · next e hresult =>
    rcases hpublished with hok | hsame | hunwatched
    · rw [hresult] at hok
      cases hok
    · rw [hmore.coherent.recordList, hlog.recordList] at hsame
      obtain rfl := append_right_eq_self.mp hsame
      exact h.publish hmore
    · exact h.unwatched hmore.coherent hunwatched
  · exact h.replicate hlog hmore

/-! ## Requests -/

theorem Tracked.submitPatch (h : Tracked sessionId s copies) (actorId : ActorId) (patch : Patch)
    (world : Journal.Outside) :
    Tracked sessionId (s.submitPatch actorId patch world).1 copies := by
  unfold ServerSessionService.submitPatch
  split
  · exact h
  · split
    · exact h
    · split
      · exact h
      · exact h.submitPatchInternal _ _

theorem Tracked.submitCommand (h : Tracked sessionId s copies) (actorId : ActorId)
    (commandId : String) (minted : ElementId) (world : Journal.Outside) :
    Tracked sessionId (s.submitCommand actorId commandId minted world).1 copies := by
  unfold ServerSessionService.submitCommand
  split
  · exact h
  · dsimp only
    split
    · exact h
    · split
      · exact h
      · have hpublished := h.submitPatchInternal (s.nextPatch actorId "accept command"
          [s.createLast (staticId "meta") (receiptElement (Text.trim commandId) minted)]) world
        split
        · next heq =>
          rw [heq] at hpublished
          exact hpublished
        · next heq =>
          rw [heq] at hpublished
          exact hpublished.congr rfl rfl rfl

theorem Tracked.executeCommand (h : Tracked sessionId s copies) (actorId : ActorId)
    (commandId : String) (minted : ElementId) (world : Journal.Outside) (run : HostRun Unit)
    (hpublished : ∀ s', s.submitCommand actorId commandId minted world = (s', .ok ()) →
      s'.HostPublished run) :
    Tracked sessionId (s.executeCommand actorId commandId minted world run).1 copies := by
  have hsubmit := h.submitCommand actorId commandId minted world
  unfold ServerSessionService.executeCommand
  split
  · next heq =>
    rw [heq] at hsubmit
    exact hsubmit
  · next heq =>
    rw [heq] at hsubmit
    exact hsubmit.runHost (hpublished _ heq)

theorem Tracked.changeConvar (h : Tracked sessionId s copies) (actorId : ActorId) (name : String)
    (value : TypedValue) (world : Journal.Outside) :
    Tracked sessionId (s.changeConvar actorId name value world).1 copies := by
  unfold ServerSessionService.changeConvar
  split
  · exact h
  · dsimp only
    split
    · exact h
    · exact h.submitPatchInternal _ _

theorem Tracked.requestApproval (h : Tracked sessionId s copies) (requester : ActorId)
    (requestId description : String) (world : Journal.Outside) :
    Tracked sessionId (s.requestApproval requester requestId description world).1 copies := by
  unfold ServerSessionService.requestApproval
  split
  · exact h
  · dsimp only
    split
    · exact h
    · split
      · exact h
      · exact h.appendAndReplicate _ _

theorem Tracked.resolveApproval (h : Tracked sessionId s copies) (actorId : ActorId)
    (requestId : String) (decision : Bool) (world : Journal.Outside) :
    Tracked sessionId (s.resolveApproval actorId requestId decision world).1 copies := by
  unfold ServerSessionService.resolveApproval
  split
  · exact h
  · split
    · exact h
    · split
      · exact h
      · split
        · exact h
        · exact h.appendAndReplicate _ _

theorem Tracked.signalJob (h : Tracked sessionId s copies) (actorId : ActorId) (jobId : JobId)
    (signal : String) (world : Journal.Outside) :
    Tracked sessionId (s.signalJob actorId jobId signal world).1 copies := by
  unfold ServerSessionService.signalJob
  split
  · exact h
  · split
    · exact h
    · split
      · exact h
      · split
        · exact h.appendAndReplicate _ _
        · exact h

theorem Tracked.registerArtifact (h : Tracked sessionId s copies) (actorId : ActorId)
    (artifact : ArtifactRecord) (minted : ElementId) (world : Journal.Outside) :
    Tracked sessionId (s.registerArtifact actorId artifact minted world).1 copies := by
  unfold ServerSessionService.registerArtifact
  split
  · exact h
  · exact h.submitPatchInternal _ _

theorem Tracked.writeWorkspace (h : Tracked sessionId s copies) (actorId : ActorId) (path : String)
    {run : HostRun ToolCallId}
    (hpublished : (s.authorizeChange actorId .writeWorkspace).isOk = true →
      (Text.trim path).isEmpty = false → s.HostPublished run) :
    Tracked sessionId (s.writeWorkspace actorId path run).1 copies := by
  unfold ServerSessionService.writeWorkspace
  split
  · exact h
  · next hadmitted =>
    rw [hadmitted] at hpublished
    split
    · exact h
    · next hpath =>
      have hrun := h.runHost (hpublished rfl (Bool.eq_false_iff.mpr hpath))
      split
      · next heq =>
        rw [heq] at hrun
        exact hrun
      · next heq =>
        rw [heq] at hrun
        dsimp only
        split <;> exact hrun

theorem Tracked.attachActor (h : Tracked sessionId s copies) (actor : ActorSession)
    (minted : ElementId) (world : Journal.Outside) :
    Tracked sessionId (s.attachActor actor minted world).1 copies := by
  unfold ServerSessionService.attachActor
  split
  · exact h
  · dsimp only
    split
    · exact h.congr rfl rfl rfl
    · have hpublished := h.submitPatchInternal (s.nextPatch actor.actorId "attach actor"
        [s.createLast (staticId "actors") (actorElement actor minted)]) world
      split
      · next heq =>
        rw [heq] at hpublished
        exact hpublished
      · next heq =>
        rw [heq] at hpublished
        exact hpublished.congr rfl rfl rfl

theorem Tracked.handshake (h : Tracked sessionId s copies) (req : HandshakeRequest)
    (minted : ElementId) (world : Journal.Outside) :
    Tracked sessionId (s.handshake req minted world).1 copies := by
  have hattach := h.attachActor (.new req.actorId req.requestedRole req.capabilities) minted world
  unfold ServerSessionService.handshake
  split
  · exact h
  · dsimp only
    split
    · next heq =>
      rw [heq] at hattach
      exact hattach
    · next heq =>
      rw [heq] at hattach
      exact hattach

theorem Tracked.detachActor (h : Tracked sessionId s copies) (callerId targetActor : ActorId) :
    Tracked sessionId (s.detachActor callerId targetActor).1 copies := by
  unfold ServerSessionService.detachActor
  dsimp only
  split
  · exact h
  · refine ⟨h.coherent, fun id q hq => h.follows id q ?_⟩
    dsimp only at hq
    rw [Std.ExtTreeMap.getElem?_erase] at hq
    split at hq
    · cases hq
    · exact hq

/-- A fork, a rewind or a selection of a branch is refused, or nobody reads its queue. -/
theorem Tracked.branches (h : Tracked sessionId s copies) (call : Journal.Call)
    (hcall : s.journal.accepts call = true → s.Unwatched) :
    Tracked sessionId { s with journal := s.journal.step call } copies := by
  obtain ⟨log, hlog⟩ := h.coherent
  cases hlog.step_cases call with
  | appended _ _ r haccepts _ hr => exact h.unwatched hr.coherent (hcall haccepts)
  | refused _ hrefused => exact h.congr hrefused.records hrefused.snapshot rfl

theorem Tracked.forkSession (h : Tracked sessionId s copies) (actorId : ActorId)
    (offset : UInt64) (branch : BranchId) (element : ElementId) (world : Journal.Outside)
    (hcall : (s.authorizeChange actorId .manageSession).isOk = true →
      s.journal.accepts (.fork offset branch element world) = true → s.Unwatched) :
    Tracked sessionId (s.forkSession actorId offset branch element world).1 copies := by
  unfold ServerSessionService.forkSession
  split
  · exact h
  · next hadmitted =>
    rw [hadmitted] at hcall
    have hforked := h.branches (.fork offset branch element world) (hcall rfl)
    unfold Journal.step at hforked
    dsimp only at hforked
    split
    · next hfork =>
      rw [hfork] at hforked
      exact hforked
    · next hfork =>
      rw [hfork] at hforked
      exact hforked

theorem Tracked.rewindSession (h : Tracked sessionId s copies) (actorId : ActorId)
    (offset : UInt64) (branch : BranchId) (element : ElementId) (world : Journal.Outside)
    (hcall : (s.authorizeChange actorId .manageSession).isOk = true →
      s.journal.accepts (.rewind offset branch element world) = true → s.Unwatched) :
    Tracked sessionId (s.rewindSession actorId offset branch element world).1 copies :=
  h.forkSession actorId offset branch element world hcall

theorem Tracked.selectBranch (h : Tracked sessionId s copies) (actorId : ActorId)
    (branch : BranchId) (world : Journal.Outside)
    (hcall : (s.authorizeChange actorId .manageSession).isOk = true →
      s.journal.accepts (.select branch world) = true → s.Unwatched) :
    Tracked sessionId (s.selectBranch actorId branch world).1 copies := by
  unfold ServerSessionService.selectBranch
  split
  · exact h
  · next hadmitted =>
    rw [hadmitted] at hcall
    have hselected := h.branches (.select branch world) (hcall rfl)
    unfold Journal.step at hselected
    dsimp only at hselected
    split
    · next hselect =>
      rw [hselect] at hselected
      exact hselected
    · next hselect =>
      rw [hselect] at hselected
      exact hselected

theorem Tracked.publishPresentation (h : Tracked sessionId s copies) (viewId : String)
    (payload : Value) : Tracked sessionId (s.publishPresentation viewId payload) copies := by
  refine ⟨h.coherent, fun id q' hq' => ?_⟩
  unfold ServerSessionService.publishPresentation ServerSessionService.broadcast at hq'
  dsimp only at hq'
  rw [Std.ExtTreeMap.getElem?_map, Option.map_eq_some_iff] at hq'
  obtain ⟨q, hq, rfl⟩ := hq'
  obtain ⟨copy, hcopy, hfollows⟩ := h.follows id q hq
  exact ⟨copy, hcopy, hfollows.push_presentation viewId payload⟩

theorem Tracked.terminateSession (h : Tracked sessionId s copies) (actorId : ActorId) :
    Tracked sessionId (s.terminateSession actorId).1 copies := by
  unfold ServerSessionService.terminateSession
  split
  · exact h
  · exact h.congr rfl rfl rfl

/-! ## Subscribing and polling -/

/-- A subscriber may be given any queue that its new copy follows. -/
theorem Tracked.register {copy : SessionSnapshot} {q : SubscriberQueue}
    (h : Tracked sessionId s copies) (id : ActorId)
    (hfollows : Follows s.journal.snapshot copy q) :
    Tracked sessionId { s with subscribers := s.subscribers.insert id q }
      (copies.insert id copy) := by
  refine ⟨h.coherent, fun id' q' hq' => ?_⟩
  dsimp only at hq'
  rw [Std.ExtTreeMap.getElem?_insert] at hq' ⊢
  split at hq'
  · next heq =>
    cases hq'
    exact ⟨copy, by rw [if_pos heq], hfollows⟩
  · next hne =>
    rw [if_neg hne]
    exact h.follows id' q' hq'

namespace ServerSessionService

/-- The records after an offset are on one branch, or too many for the queue. -/
def CatchesUp (s : ServerSessionService) (offset : UInt64) (capacityOverride : Option Nat) : Prop :=
  (∀ r ∈ s.journal.recordList, offset < r.offset →
    r.parentOffset.toNat + 1 = r.offset.toNat) ∨
  SubscriberQueue.clampCapacity (capacityOverride.getD s.defaultQueueCapacity) <
    (s.journal.recordList.filter fun r => offset < r.offset).length

/-- The copy with which a subscriber starts. -/
def startCopy (s : ServerSessionService) (lastOffset : Option UInt64) :
    ReplicationMessage → Except StateError SessionSnapshot
  | .resync snapshot _ => .ok snapshot
  | _ => s.journal.materialize (lastOffset.getD 0)

end ServerSessionService

omit [SerdeJson] in
/-- Subscribing fails for the lack of a permission only, and changes nothing then. -/
theorem ServerSessionService.subscribe_cases {s' : ServerSessionService} {actorId : ActorId}
    {lastOffset : Option UInt64} {capacityOverride : Option Nat}
    {result : Except ServerError ReplicationMessage}
    (h : s.subscribe actorId lastOffset capacityOverride = (s', result)) :
    (s' = s ∧ ∃ e, result = .error e) ∨
      (s.authorize actorId .subscribePatches).isOk = true ∧ ∃ message, result = .ok message := by
  unfold ServerSessionService.subscribe at h
  split at h
  · cases h
    exact .inl ⟨rfl, _, rfl⟩
  · next actor hactor =>
    refine .inr ⟨by rw [hactor]; rfl, ?_⟩
    dsimp only at h
    split at h
    · cases h
      exact ⟨_, rfl⟩
    · split at h
      · cases h
        exact ⟨_, rfl⟩
      · split at h
        · cases h
          exact ⟨_, rfl⟩
        · cases h
          exact ⟨_, rfl⟩

/-- A new queue is filled up with the records after an offset. -/
theorem Tracked.catchUp (h : Tracked sessionId s copies) {copy : SessionSnapshot}
    {offset : UInt64} (hcopy : s.journal.materialize offset = .ok copy)
    (capacityOverride : Option Nat) (hcatches : s.CatchesUp offset capacityOverride)
    {q : SubscriberQueue} (hqueue : q.queue = []) (hneeds : q.needsResync = false)
    (hcapacity : q.capacity =
      SubscriberQueue.clampCapacity (capacityOverride.getD s.defaultQueueCapacity)) :
    Follows s.journal.snapshot copy (q.pushAll
      ((s.journal.recordList.filter fun r => offset < r.offset).map patchMessage)) := by
  obtain ⟨log, hlog⟩ := h.coherent
  have hat := hlog.materialize_iff.mp hcopy
  rcases hcatches with hlinear | hmany
  · rw [hlog.recordList] at hlinear
    rw [filter_recordList hlog]
    -- the records that are missing lead from the copy to the live document
    have hparents : ∀ i r, offset.toNat ≤ i → log[i]? = some r →
        (recordStore sessionId).parent r = i := by
      intro i r hi hr
      have hoffset := (hlog.linked i r hr).offset
      have hparent := hlinear r (mem_of_getElem? hr)
        (UInt64.lt_iff_toNat_lt.mpr (by omega))
      show r.parentOffset.toNat = i
      omega
    obtain ⟨live, hlive, hreplay⟩ := hat.replay_drop hlog.complete hparents
      (hlog.materialize_le hcopy)
    obtain rfl := hlive.unique hlog.live
    refine Follows.pushAll (.inStep hneeds ?_) hreplay
    rw [hqueue]
    exact inStep_nil.mpr ⟨rfl, rfl, rfl⟩
  · refine Follows.pushAll_overflow hneeds ?_ ?_
    · rw [hqueue]
      exact Nat.zero_le _
    · rw [hqueue, hcapacity, length_nil, Nat.zero_add]
      exact hmany

/-- A subscription starts with a copy that its queue follows. -/
theorem Tracked.subscribe (h : Tracked sessionId s copies) (actorId : ActorId)
    (lastOffset : Option UInt64) (capacityOverride : Option Nat)
    (hcatches : ∀ offset, lastOffset = some offset → offset ≤ s.currentOffset →
      s.CatchesUp offset capacityOverride) {s' : ServerSessionService}
    {message : ReplicationMessage}
    (hsubscribe : s.subscribe actorId lastOffset capacityOverride = (s', .ok message)) :
    ∃ copy, s.startCopy lastOffset message = .ok copy ∧
      Tracked sessionId s' (copies.insert actorId copy) := by
  have hresync : ∀ q : SubscriberQueue, q.needsResync = false → q.queue = [] →
      Tracked sessionId { s with subscribers := s.subscribers.insert actorId q }
        (copies.insert actorId s.journal.snapshot) := by
    intro q hneeds hqueue
    refine h.register actorId (.inStep hneeds ?_)
    rw [hqueue]
    exact inStep_nil.mpr ⟨rfl, rfl, rfl⟩
  unfold ServerSessionService.subscribe at hsubscribe
  split at hsubscribe
  · cases hsubscribe
  · dsimp only at hsubscribe
    split at hsubscribe
    · cases hsubscribe
      exact ⟨_, rfl, hresync _ rfl rfl⟩
    · next offset =>
      by_cases hfuture : s.currentOffset < offset
      · rw [if_pos hfuture] at hsubscribe
        cases hsubscribe
        exact ⟨_, rfl, hresync _ rfl rfl⟩
      · rw [if_neg hfuture] at hsubscribe
        split at hsubscribe
        · cases hsubscribe
          exact ⟨_, rfl, hresync _ rfl rfl⟩
        · cases hsubscribe
          -- the offset is recorded, so its document can be materialised
          have hle : offset ≤ s.currentOffset := UInt64.not_lt.mp hfuture
          obtain ⟨log, hlog⟩ := h.coherent
          obtain ⟨copy, hcopy⟩ := hlog.complete.states offset.toNat (by
            rw [← offset_of_coherent hlog]
            exact UInt64.le_iff_toNat_le.mp hle)
          have hcopy := hlog.materialize_iff.mpr hcopy
          exact ⟨copy, hcopy, h.register actorId
            (h.catchUp hcopy capacityOverride (hcatches offset rfl hle) rfl rfl rfl)⟩

/-- What polling does for a tracked subscriber. -/
inductive Polled (sessionId : SessionId) (s : ServerSessionService)
    (copies : Std.ExtTreeMap ActorId SessionSnapshot) (actorId : ActorId) :
    ServerSessionService × Option ReplicationMessage → Prop where
  | message (s' message copy copy') : copies[actorId]? = some copy →
      receive copy message = .ok copy' → Tracked sessionId s' (copies.insert actorId copy') →
      Polled sessionId s copies actorId (s', some message)
  | caughtUp (s' copy) : copies[actorId]? = some copy → s.journal.snapshot.SameTree copy →
      Tracked sessionId s' copies → Polled sessionId s copies actorId (s', none)
  | unsubscribed : s.subscribers[actorId]? = none →
      Polled sessionId s copies actorId (s, none)

/-- Every poll of a tracked service. -/
theorem Tracked.pollSubscriber (h : Tracked sessionId s copies) (actorId : ActorId) :
    Polled sessionId s copies actorId (s.pollSubscriber actorId) := by
  unfold ServerSessionService.pollSubscriber
  split
  · next hnone => exact .unsubscribed hnone
  · next q hq =>
    obtain ⟨copy, hcopy, hfollows⟩ := h.follows actorId q hq
    cases hfollows with
    | waiting hneeds hinert =>
      rw [if_pos hneeds]
      refine .message _ _ copy _ hcopy rfl (h.register actorId (.inStep rfl ?_))
      exact .of_inert ⟨rfl, rfl, rfl⟩ hinert
    | inStep hneeds hstep =>
      rw [if_neg (by rw [hneeds]; exact Bool.false_ne_true)]
      unfold SubscriberQueue.pop
      cases hqueue : q.queue with
      | nil =>
        rw [hqueue] at hstep
        refine .caughtUp _ copy hcopy (inStep_nil.mp hstep) ⟨h.coherent, fun id q' hq' => ?_⟩
        dsimp only at hq'
        rw [Std.ExtTreeMap.getElem?_insert] at hq'
        split at hq'
        · next heq =>
          obtain rfl : actorId = id := Std.compare_eq_iff_eq.mp heq
          cases hq'
          exact h.follows actorId q hq
        · exact h.follows id q' hq'
      | cons message rest =>
        rw [hqueue] at hstep
        obtain ⟨copy', hmessage, hrest⟩ := hstep.next
        exact .message _ message copy copy' hcopy hmessage
          (h.register actorId (.inStep hneeds hrest))

end Publishing

end Omp2.Server
