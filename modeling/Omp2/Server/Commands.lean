import Omp2.Server.Requests
import Omp2.State.Restart

/-!
# Replay protection of commands

`Intake` is the service together with the ids of the commands that it has accepted since the
session began. A run attaches and detaches actors, submits commands and patches, moves between
branches, and restarts the service on the journal that its file opens to. When every accepted patch
is storable, no id is accepted twice and an accepted one is refused as replayed ever after.
-/

namespace Omp2.Server

open Omp2.Json Omp2.State List

variable [SerdeJson]

/-- What reaches the session, with the identifiers that are minted and what the outside world
decides about it. A restart may repair the journal that it opens. -/
inductive CommandEvent where
  | attachActor (actor : ActorSession) (minted : ElementId) (world : Journal.Outside)
  | detachActor (callerId targetActor : ActorId)
  | terminateSession (actorId : ActorId)
  | submitCommand (actorId : ActorId) (commandId : String) (minted : ElementId)
      (world : Journal.Outside)
  | submitPatch (actorId : ActorId) (patch : Patch) (world : Journal.Outside)
  | forkSession (actorId : ActorId) (offset : UInt64) (branch : BranchId) (element : ElementId)
      (world : Journal.Outside)
  | rewindSession (actorId : ActorId) (offset : UInt64) (branch : BranchId) (element : ElementId)
      (world : Journal.Outside)
  | selectBranch (actorId : ActorId) (branch : BranchId) (world : Journal.Outside)
  | restart (repair : Option Journal.RepairOutcome)

/-- The service and the ids of the commands that it has accepted, the last one first. -/
structure Intake where
  service : ServerSessionService
  accepted : List String

namespace Intake

/-- The service that a journal starts. -/
def start (j : Journal) : Intake :=
  ⟨.new j, []⟩

/-- The journal that a restart uses, repaired if the operator asks for it. -/
def reopened (j : Journal) : Option Journal.RepairOutcome → Journal
  | none => j
  | some outcome => (j.repairSuffix outcome).1

/-- One event. The service stays down if its file cannot be opened, which leaves it as it was. -/
def step (w : Intake) : CommandEvent → Intake
  | .attachActor actor minted world =>
    { w with service := (w.service.attachActor actor minted world).1 }
  | .detachActor callerId targetActor =>
    { w with service := (w.service.detachActor callerId targetActor).1 }
  | .terminateSession actorId => { w with service := (w.service.terminateSession actorId).1 }
  | .submitCommand actorId commandId minted world =>
    match w.service.submitCommand actorId commandId minted world with
    | (service, .error _) => { w with service }
    | (service, .ok ()) => ⟨service, Text.trim commandId :: w.accepted⟩
  | .submitPatch actorId patch world =>
    { w with service := (w.service.submitPatch actorId patch world).1 }
  | .forkSession actorId offset branch element world =>
    { w with service := (w.service.forkSession actorId offset branch element world).1 }
  | .rewindSession actorId offset branch element world =>
    { w with service := (w.service.rewindSession actorId offset branch element world).1 }
  | .selectBranch actorId branch world =>
    { w with service := (w.service.selectBranch actorId branch world).1 }
  | .restart repair =>
    match Journal.openFile w.service.journal.file with
    | .error _ => w
    | .ok j => { w with service := .new (reopened j repair) }

/-- No command was accepted twice, and whoever may submit commands is told that an accepted one is
replayed. -/
structure Protected (w : Intake) : Prop where
  once : w.accepted.Nodup
  replayed : ∀ actorId commandId minted world, Text.trim commandId ∈ w.accepted →
    (w.service.submitCommand actorId commandId minted world).2 =
      (w.service.authorizeChange actorId .submitCommand).bind
        fun _ => .error (.commandReplayed (Text.trim commandId))

/-- A patch that is accepted is storable. -/
def Stores (w : Intake) : CommandEvent → Prop
  | .submitPatch actorId patch world =>
    (w.service.submitPatch actorId patch world).2.isOk = true → patch.Storable
  | _ => True

end Intake

namespace ServerSessionService

variable {s s' : ServerSessionService} {sessionId : SessionId} {log : List JournalRecord}

/-! ## Receipts -/

/-- Some record holds a receipt of the command. -/
def Recorded (log : List JournalRecord) (commandId : String) : Prop :=
  ∃ r ∈ log, commandId ∈ r.patch.ops.filterMap receiptId

omit [SerdeJson] in
theorem Recorded.append {id : String} (h : Recorded log id) (more : List JournalRecord) :
    Recorded (log ++ more) id := by
  obtain ⟨r, hr, hid⟩ := h
  exact ⟨r, mem_append_left _ hr, hid⟩

omit [SerdeJson] in
theorem mem_foldl_insert {id : String} {ids : List String} {seen : Std.ExtTreeSet String} :
    id ∈ ids.foldl (fun ids id => ids.insert id) seen ↔ id ∈ ids ∨ id ∈ seen := by
  induction ids generalizing seen with
  | nil => simp
  | cons first rest ih =>
      rw [foldl_cons, ih, Std.ExtTreeSet.mem_insert, mem_cons, Std.compare_eq_iff_eq]
      constructor
      · rintro (h | rfl | h)
        · exact .inl (.inr h)
        · exact .inl (.inl rfl)
        · exact .inr h
      · rintro ((rfl | h) | h)
        · exact .inr (.inl rfl)
        · exact .inl h
        · exact .inr (.inr h)

omit [SerdeJson] in
theorem mem_seen_new {j : Journal} {id : String} :
    id ∈ (ServerSessionService.new j).seenCommandIds ↔ Recorded j.recordList id := by
  unfold ServerSessionService.new Recorded
  dsimp only
  rw [mem_foldl_insert, mem_flatMap]
  simp

omit [SerdeJson] in
theorem receiptId_receipt (parent : ElementId) (index : UInt32) (id : String)
    (minted : ElementId) : receiptId (.create parent index (receiptElement id minted)) = some id := by
  have hid : (receiptElement id minted).attributes["command_id"]? = some (.string id) :=
    Std.ExtTreeMap.getElem?_insert_self
  unfold receiptId
  dsimp only
  rw [hid]
  rfl

/-! ## What the operations do to the journal -/

/-- What an operation leaves that accepts no command. -/
structure Keeps (sessionId : SessionId) (s : ServerSessionService) (log : List JournalRecord)
    (s' : ServerSessionService) : Prop where
  journal : ∃ more, Journal.Lasting sessionId s'.journal (log ++ more)
  seen : s'.seenCommandIds = s.seenCommandIds

theorem Keeps.same (h : Journal.Lasting sessionId s.journal log) (hjournal : s'.journal = s.journal)
    (hseen : s'.seenCommandIds = s.seenCommandIds) : Keeps sessionId s log s' :=
  ⟨⟨[], by rw [hjournal, append_nil]; exact h⟩, hseen⟩

/-- A storable call to the journal. -/
theorem Keeps.call (h : Journal.Lasting sessionId s.journal log) (call : Journal.Call)
    (hstorable : s.journal.accepts call = true → call.Storable)
    (hjournal : s'.journal = s.journal.step call) (hseen : s'.seenCommandIds = s.seenCommandIds) :
    Keeps sessionId s log s' := by
  refine ⟨?_, hseen⟩
  rw [hjournal]
  rcases h.step_cases call hstorable with ⟨r, _, _, hnext⟩ | ⟨_, hnext⟩
  · exact ⟨[r], hnext⟩
  · exact ⟨[], by rw [append_nil]; exact hnext⟩

theorem Keeps.submitPatchInternal (h : Journal.Lasting sessionId s.journal log) (patch : Patch)
    (world : Journal.Outside)
    (hstorable : (s.submitPatchInternal patch world).2.isOk = true → patch.Storable) :
    Keeps sessionId s log (s.submitPatchInternal patch world).1 := by
  obtain ⟨hjournal, hseen, hok⟩ := submitPatchInternal_journal s patch world
  rw [hok] at hstorable
  exact .call h _ hstorable hjournal hseen

/-- The patch that records an actor is storable. -/
theorem storable_attach (patch : Patch) (index : UInt32) (actor : ActorSession)
    (minted : ElementId)
    (hops : patch.ops = [.create (staticId "actors") index (actorElement actor minted)]) :
    patch.Storable := by
  refine Journal.storable_create hops rfl fun name value hvalue => ?_
  unfold actorElement at hvalue
  dsimp only at hvalue
  simp only [Std.ExtTreeMap.getElem?_insert] at hvalue
  split at hvalue
  · cases hvalue
    exact ⟨trivial, Nat.le_refl 1⟩
  · split at hvalue
    · cases hvalue
      exact ⟨trivial, Nat.le_refl 1⟩
    · split at hvalue
      · cases hvalue
        exact ⟨trivial, Nat.le_refl 1⟩
      · rw [ElementSnapshot.new, Std.ExtTreeMap.getElem?_empty] at hvalue
        cases hvalue

/-- The patch that records a receipt is storable. -/
theorem storable_receipt (patch : Patch) (index : UInt32) (id : String) (minted : ElementId)
    (hops : patch.ops = [.create (staticId "meta") index (receiptElement id minted)]) :
    patch.Storable := by
  refine Journal.storable_create hops rfl fun name value hvalue => ?_
  unfold receiptElement at hvalue
  dsimp only at hvalue
  rw [Std.ExtTreeMap.getElem?_insert] at hvalue
  split at hvalue
  · cases hvalue
    exact ⟨trivial, Nat.le_refl 1⟩
  · rw [ElementSnapshot.new, Std.ExtTreeMap.getElem?_empty] at hvalue
    cases hvalue

/-! ## The operations -/

theorem Keeps.attachActor (h : Journal.Lasting sessionId s.journal log) (actor : ActorSession)
    (minted : ElementId) (world : Journal.Outside) :
    Keeps sessionId s log (s.attachActor actor minted world).1 := by
  unfold ServerSessionService.attachActor
  split
  · exact .same h rfl rfl
  · dsimp only
    split
    · exact .same h rfl rfl
    · have hkeeps := Keeps.submitPatchInternal h (s.nextPatch actor.actorId "attach actor"
        [s.createLast (staticId "actors") (actorElement actor minted)]) world
        fun _ => storable_attach _ _ actor minted rfl
      split
      · next heq =>
        rw [heq] at hkeeps
        exact hkeeps
      · next heq =>
        rw [heq] at hkeeps
        exact ⟨hkeeps.journal, hkeeps.seen⟩

theorem Keeps.detachActor (h : Journal.Lasting sessionId s.journal log)
    (callerId targetActor : ActorId) :
    Keeps sessionId s log (s.detachActor callerId targetActor).1 := by
  unfold ServerSessionService.detachActor
  dsimp only
  split <;> exact .same h rfl rfl

theorem Keeps.terminateSession (h : Journal.Lasting sessionId s.journal log) (actorId : ActorId) :
    Keeps sessionId s log (s.terminateSession actorId).1 := by
  unfold ServerSessionService.terminateSession
  split <;> exact .same h rfl rfl

theorem Keeps.submitPatch (h : Journal.Lasting sessionId s.journal log) (actorId : ActorId)
    (patch : Patch) (world : Journal.Outside)
    (hstorable : (s.submitPatch actorId patch world).2.isOk = true → patch.Storable) :
    Keeps sessionId s log (s.submitPatch actorId patch world).1 := by
  unfold ServerSessionService.submitPatch at hstorable ⊢
  split
  · exact .same h rfl rfl
  · next hallowed =>
    rw [hallowed] at hstorable
    dsimp only at hstorable
    split
    · exact .same h rfl rfl
    · next hbase =>
      rw [if_neg hbase] at hstorable
      split
      · exact .same h rfl rfl
      · next hvalid =>
        rw [hvalid] at hstorable
        exact .submitPatchInternal h _ _ fun hok => (hstorable hok).author _

theorem Keeps.forkSession (h : Journal.Lasting sessionId s.journal log) (actorId : ActorId)
    (offset : UInt64) (branch : BranchId) (element : ElementId) (world : Journal.Outside) :
    Keeps sessionId s log (s.forkSession actorId offset branch element world).1 := by
  unfold ServerSessionService.forkSession
  split
  · exact .same h rfl rfl
  · split
    · next hfork =>
      exact .call h (.fork offset branch element world) (fun _ => trivial)
        (congrArg Prod.fst hfork).symm rfl
    · next hfork =>
      exact .call h (.fork offset branch element world) (fun _ => trivial)
        (congrArg Prod.fst hfork).symm rfl

theorem Keeps.selectBranch (h : Journal.Lasting sessionId s.journal log) (actorId : ActorId)
    (branch : BranchId) (world : Journal.Outside) :
    Keeps sessionId s log (s.selectBranch actorId branch world).1 := by
  unfold ServerSessionService.selectBranch
  split
  · exact .same h rfl rfl
  · split
    · next hselect =>
      exact .call h (.select branch world) (fun _ => trivial)
        (congrArg Prod.fst hselect).symm rfl
    · next hselect =>
      exact .call h (.select branch world) (fun _ => trivial)
        (congrArg Prod.fst hselect).symm rfl

/-- Whether a text can be the id of a command. -/
def ValidId (commandId : String) : Prop :=
  ¬ (commandId.isEmpty = true ∨ 128 < commandId.utf8ByteSize)

/-- An accepted command leaves its receipt, and its id among those that were seen. -/
structure Admits (sessionId : SessionId) (s : ServerSessionService) (log : List JournalRecord)
    (commandId : String) (s' : ServerSessionService) : Prop where
  valid : ValidId commandId
  fresh : commandId ∉ s.seenCommandIds
  journal : ∃ more, Journal.Lasting sessionId s'.journal (log ++ more) ∧ Recorded more commandId
  seen : s'.seenCommandIds = s.seenCommandIds.insert commandId

/-- A command is accepted with its receipt, or nothing is kept of it. -/
theorem submitCommand_cases (h : Journal.Lasting sessionId s.journal log) (actorId : ActorId)
    (commandId : String) (minted : ElementId) (world : Journal.Outside) :
    (∃ s', s.submitCommand actorId commandId minted world = (s', .ok ()) ∧
      Admits sessionId s log (Text.trim commandId) s') ∨
      ∃ s' e, s.submitCommand actorId commandId minted world = (s', .error e) ∧
        Keeps sessionId s log s' := by
  unfold submitCommand
  split
  · exact .inr ⟨_, _, rfl, .same h rfl rfl⟩
  · dsimp only
    split
    · exact .inr ⟨_, _, rfl, .same h rfl rfl⟩
    · next hvalid =>
      split
      · exact .inr ⟨_, _, rfl, .same h rfl rfl⟩
      · next hfresh =>
        rw [Std.ExtTreeSet.contains_iff_mem] at hfresh
        obtain ⟨patch, hpatch⟩ : ∃ patch, s.nextPatch actorId "accept command"
          [s.createLast (staticId "meta") (receiptElement (Text.trim commandId) minted)] =
            patch := ⟨_, rfl⟩
        have hops : patch.ops = [s.createLast (staticId "meta")
            (receiptElement (Text.trim commandId) minted)] := by
          rw [← hpatch]
          rfl
        have hstorable := storable_receipt patch _ _ minted hops
        obtain ⟨hjournal, hseen, hok⟩ := submitPatchInternal_journal s patch world
        rw [hpatch]
        cases hsubmit : s.submitPatchInternal patch world with
        | mk s' result =>
          rw [hsubmit] at hjournal hseen hok
          rcases h.step_cases (.append patch world) (fun _ => hstorable) with
            ⟨r, haccepts, hwrites, hnext⟩ | ⟨hrefused, hnext⟩
          · cases result with
            | error e =>
              rw [haccepts] at hok
              cases hok
            | ok offset =>
              refine .inl ⟨_, rfl, hvalid, hfresh, ⟨[r], ?_, r, mem_singleton_self r, ?_⟩,
                ?_⟩
              · rw [← hjournal] at hnext
                exact hnext
              · rw [show r.patch = patch from hwrites, hops]
                simp [createLast, receiptId_receipt]
              · rw [← hseen]
          · cases result with
            | ok offset =>
              rw [hrefused] at hok
              cases hok
            | error e =>
              refine .inr ⟨_, _, rfl, ⟨[], ?_⟩, hseen⟩
              rw [← hjournal] at hnext
              rw [append_nil]
              exact hnext

end ServerSessionService

/-! ## Runs -/

namespace Intake

open ServerSessionService

variable {w : Intake}

/-- The file of the journal keeps a receipt of every accepted command, and the service has seen
it. -/
structure Remembers (w : Intake) : Prop where
  once : w.accepted.Nodup
  receipts : ∃ sessionId log, Journal.Lasting sessionId w.service.journal log ∧
    ∀ id ∈ w.accepted, Recorded log id
  seen : ∀ id ∈ w.accepted, id ∈ w.service.seenCommandIds
  valid : ∀ id ∈ w.accepted, ValidId id

theorem remembers_start {sessionId : SessionId} {log : List JournalRecord} {j : Journal}
    (h : Journal.Lasting sessionId j log) : (start j).Remembers :=
  ⟨nodup_nil, ⟨sessionId, log, h, nofun⟩, nofun, nofun⟩

/-- An operation that accepts no command. -/
theorem Remembers.keeps (h : w.Remembers) {s : ServerSessionService}
    (hkeeps : ∀ sessionId log, Journal.Lasting sessionId w.service.journal log →
      Keeps sessionId w.service log s) : Remembers { w with service := s } := by
  obtain ⟨sessionId, log, hlasting, hreceipts⟩ := h.receipts
  obtain ⟨⟨more, hmore⟩, hseen⟩ := hkeeps sessionId log hlasting
  exact ⟨h.once, ⟨sessionId, _, hmore, fun id hid => (hreceipts id hid).append more⟩,
    fun id hid => by rw [hseen]; exact h.seen id hid, h.valid⟩

/-- Restarting on the journal that the file opens to. -/
theorem Remembers.restart (h : w.Remembers) (repair : Option Journal.RepairOutcome) :
    (w.step (.restart repair)).Remembers := by
  obtain ⟨sessionId, log, hlasting, hreceipts⟩ := h.receipts
  obtain ⟨j, more, hopen, hj⟩ := hlasting.openFile
  have hreopened : Journal.Lasting sessionId (reopened j repair) (log ++ more) := by
    cases repair with
    | none => exact hj
    | some outcome => exact hj.repairSuffix outcome
  have hall : ∀ id ∈ w.accepted, Recorded (log ++ more) id :=
    fun id hid => (hreceipts id hid).append more
  unfold step
  dsimp only
  rw [hopen]
  refine ⟨h.once, ⟨sessionId, log ++ more, hreopened, hall⟩, fun id hid => ?_, h.valid⟩
  dsimp only
  rw [mem_seen_new, hreopened.coherent.recordList]
  exact hall id hid

/-- A command is accepted only if its id is new. -/
theorem Remembers.submitCommand (h : w.Remembers) (actorId : ActorId) (commandId : String)
    (minted : ElementId) (world : Journal.Outside) :
    (w.step (.submitCommand actorId commandId minted world)).Remembers := by
  obtain ⟨sessionId, log, hlasting, hreceipts⟩ := h.receipts
  rcases submitCommand_cases hlasting actorId commandId minted world with
    ⟨s', hsubmit, hadmits⟩ | ⟨s', e, hsubmit, hkeeps⟩
  · unfold step
    dsimp only
    rw [hsubmit]
    obtain ⟨more, hmore, hnew⟩ := hadmits.journal
    refine ⟨nodup_cons.mpr ⟨fun hold => hadmits.fresh (h.seen _ hold), h.once⟩,
      ⟨sessionId, _, hmore, ?_⟩, ?_, ?_⟩
    · rw [forall_mem_cons]
      obtain ⟨r, hr, hid⟩ := hnew
      exact ⟨⟨r, mem_append_right _ hr, hid⟩, fun id hid => (hreceipts id hid).append more⟩
    · dsimp only
      rw [forall_mem_cons, hadmits.seen]
      exact ⟨Std.ExtTreeSet.mem_insert_self, fun id hid =>
        Std.ExtTreeSet.mem_insert.mpr (.inr (h.seen id hid))⟩
    · rw [forall_mem_cons]
      exact ⟨hadmits.valid, h.valid⟩
  · unfold step
    dsimp only
    rw [hsubmit]
    obtain ⟨⟨more, hmore⟩, hseen⟩ := hkeeps
    exact ⟨h.once, ⟨sessionId, _, hmore, fun id hid => (hreceipts id hid).append more⟩,
      fun id hid => by dsimp only; rw [hseen]; exact h.seen id hid, h.valid⟩

/-- Every event whose patch is storable if it is accepted. -/
theorem Remembers.step (h : w.Remembers) {event : CommandEvent} (hstores : w.Stores event) :
    (w.step event).Remembers := by
  cases event with
  | attachActor actor minted world => exact h.keeps fun _ _ hj => .attachActor hj actor minted world
  | detachActor callerId targetActor =>
      exact h.keeps fun _ _ hj => .detachActor hj callerId targetActor
  | terminateSession actorId => exact h.keeps fun _ _ hj => .terminateSession hj actorId
  | submitCommand actorId commandId minted world =>
      exact h.submitCommand actorId commandId minted world
  | submitPatch actorId patch world =>
      exact h.keeps fun _ _ hj => .submitPatch hj actorId patch world hstores
  | forkSession actorId offset branch element world =>
      exact h.keeps fun _ _ hj => .forkSession hj actorId offset branch element world
  | rewindSession actorId offset branch element world =>
      exact h.keeps fun _ _ hj => .forkSession hj actorId offset branch element world
  | selectBranch actorId branch world =>
      exact h.keeps fun _ _ hj => .selectBranch hj actorId branch world
  | restart repair => exact h.restart repair

/-- What is remembered is protected. -/
theorem Remembers.protected (h : w.Remembers) : w.Protected := by
  refine ⟨h.once, fun actorId commandId minted world hid => ?_⟩
  have hvalid := h.valid _ hid
  have hseen := Std.ExtTreeSet.contains_iff_mem.mpr (h.seen _ hid)
  unfold ValidId at hvalid
  unfold ServerSessionService.submitCommand
  cases w.service.authorizeChange actorId .submitCommand with
  | error e => rfl
  | ok actor =>
      dsimp only
      rw [if_neg hvalid, if_pos hseen]
      rfl

/-- Commands are protected in every run from a new or opened journal whose accepted patches are
storable. -/
theorem run_protected {j : Journal}
    (hj : (∃ sessionId, Journal.create sessionId = .ok j) ∨ ∃ file, Journal.openFile file = .ok j)
    {events : List CommandEvent} (hstores : Machine.Along step Stores (start j) events) :
    (Machine.run step (start j) events).Protected := by
  have hstart : (start j).Remembers := by
    rcases hj with ⟨sessionId, hcreate⟩ | ⟨file, hopen⟩
    · exact remembers_start (Journal.create_lasting hcreate)
    · obtain ⟨sessionId, log, hlasting⟩ := Journal.openFile_lasting hopen
      exact remembers_start hlasting
  exact (Machine.invariant_along (P := Remembers) (fun _ _ h hok => h.step hok) hstart
    hstores).protected

end Intake

end Omp2.Server

namespace Omp2.Server.Intake

open Omp2.Json Omp2.Json.Compact Omp2.State Journal ServerSessionService

/-- The actor again, with a role that may submit commands. -/
def driver : ActorSession :=
  .new ada.actorId .interactiveDriver [journalFormat]

/-- A patch without operations. -/
def emptyPatch : Patch where
  baseOffset := 1
  resultOffset := 2
  author := hostAuthor
  reason := "nothing"
  ops := []

/-- A patch and a command, a restart, and the command again. -/
def resubmission : List CommandEvent :=
  [.attachActor driver ⟨"minted", Eq.refl true⟩ ⟨.ok 7, .done⟩,
    .submitPatch ada.actorId emptyPatch ⟨.ok 8, .done⟩,
    .submitCommand ada.actorId " run " ⟨"receipt", Eq.refl true⟩ ⟨.ok 9, .done⟩,
    .restart none, .attachActor driver ⟨"minted", Eq.refl true⟩ ⟨.ok 10, .done⟩,
    .submitCommand ada.actorId "run" ⟨"again", Eq.refl true⟩ ⟨.ok 11, .done⟩]

/-- Its command is protected. -/
theorem protected_resubmission : ∃ j₀, Journal.create exampleSession = .ok j₀ ∧
    (Machine.run step (start j₀) resubmission).Protected := by
  obtain ⟨j₀, hcreate⟩ := exists_create_exampleSession
  exact ⟨j₀, hcreate, run_protected (.inl ⟨_, hcreate⟩)
    ⟨trivial, fun _ => storable_of_nil rfl, trivial, trivial, trivial, trivial, trivial⟩⟩

/-- The patch that adds a note with a number that JSON cannot carry. -/
def notePatch : Patch where
  baseOffset := 1
  resultOffset := 2
  author := .actor ada.actorId
  reason := "note"
  ops := [.create (staticId "body") 0 nanNote]

/-- The patch that records the receipt of the command. -/
def receiptPatch : Patch where
  baseOffset := 2
  resultOffset := 3
  author := .actor ada.actorId
  reason := "accept command"
  ops := [.create (staticId "meta") 11 (receiptElement "run" ⟨"receipt", Eq.refl true⟩)]

/-- The note is submitted before the command, and the service restarts. -/
def lostReceipt : List CommandEvent :=
  [.attachActor ada ⟨"minted", Eq.refl true⟩ ⟨.ok 7, .done⟩,
    .detachActor ada.actorId ada.actorId,
    .attachActor driver ⟨"minted", Eq.refl true⟩ ⟨.ok 7, .done⟩,
    .submitPatch ada.actorId notePatch ⟨.ok 8, .done⟩,
    .submitCommand ada.actorId "run" ⟨"receipt", Eq.refl true⟩ ⟨.ok 9, .done⟩,
    .restart none, .attachActor driver ⟨"minted", Eq.refl true⟩ ⟨.ok 10, .done⟩]

theorem fromValue_notePatch : ∃ e, fromValue (α := Patch) (toValue notePatch) = .error e := by
  have hrefused : (fromValue (α := Patch) (toValue notePatch)).isOk = false := by
    decide +kernel
  cases hvalue : fromValue (α := Patch) (toValue notePatch) with
  | error e => exact ⟨e, rfl⟩
  | ok patch =>
      rw [hvalue] at hrefused
      cases hrefused

/-- The document with the actor and the note. -/
def withNote : SessionSnapshot :=
  { (withActor.applyPatch notePatch).1 with selectedBranch := mainBranch }

/-- The three records that the run appends before it restarts. -/
theorem exists_lostReceipt {j₀ : Journal} (hcreate : Journal.create exampleSession = .ok j₀) :
    ∃ j₁ j₂ j₃ r₁ r₂ r₃,
      j₀.appendPatch attachPatch ⟨.ok 7, .done⟩ = (j₁, .ok r₁.offset) ∧
      Appended exampleSession j₀ [] attachPatch mainBranch ⟨.ok 7, .done⟩ j₁ r₁ ∧
      j₁.appendPatch notePatch ⟨.ok 8, .done⟩ = (j₂, .ok r₂.offset) ∧
      Appended exampleSession j₁ [r₁] notePatch mainBranch ⟨.ok 8, .done⟩ j₂ r₂ ∧
      j₂.appendPatch receiptPatch ⟨.ok 9, .done⟩ = (j₃, .ok r₃.offset) ∧
      Appended exampleSession j₂ [r₁, r₂] receiptPatch mainBranch ⟨.ok 9, .done⟩ j₃ r₃ ∧
      j₁.snapshot = withActor ∧ j₂.snapshot = withNote := by
  obtain ⟨j₁, r₁, happend₁, hr₁⟩ := exists_attached hcreate
  have hj₀ := (create_eq_ok hcreate).1
  have hsnapshot₁ := snapshot_attached hcreate hr₁
  have happlies₁ : (withActor.applyPatch notePatch).2.isOk = true := by
    decide +kernel
  have hfits₁ : (({ blank exampleSession [] with
      snapshot := { SessionSnapshot.empty exampleSession with offset := 1 } } : Journal).newRecord
        notePatch mainBranch 8).payload.length ≤ maxWireBytes := by
    exact fits_of_draft (by decide +kernel)
  obtain ⟨j₂, r₂, happend₂, hr₂⟩ := exists_appended_next hr₁.coherent _ _ 1
    (by rw [hr₁.failed, hj₀]; rfl) (by rw [hr₁.recovery, hj₀]; rfl) rfl rfl
    (by rw [hsnapshot₁]; exact happlies₁) (by rw [hsnapshot₁]; exact hfits₁)
  rw [hsnapshot₁] at hr₂
  have hsnapshot₂ : j₂.snapshot = withNote := by
    rw [snapshot_appended hr₂, hsnapshot₁]
    rfl
  have happlies₂ : (withNote.applyPatch receiptPatch).2.isOk = true := by
    decide +kernel
  have hfits₂ : (({ blank exampleSession [] with
      snapshot := { SessionSnapshot.empty exampleSession with offset := 2 } } : Journal).newRecord
        receiptPatch mainBranch 9).payload.length ≤ maxWireBytes := by
    exact fits_of_draft (by decide +kernel)
  obtain ⟨j₃, r₃, happend₃, hr₃⟩ := exists_appended_next hr₂.coherent _ _ 2
    (by rw [hr₂.failed, hr₁.failed, hj₀]; rfl) (by rw [hr₂.recovery, hr₁.recovery, hj₀]; rfl) rfl rfl
    (by rw [hsnapshot₂]; exact happlies₂) (by rw [hsnapshot₂]; exact hfits₂)
  rw [hsnapshot₂] at hr₃
  exact ⟨j₁, j₂, j₃, r₁, r₂, r₃, happend₁, hr₁, happend₂, hr₂, happend₃, hr₃, hsnapshot₁, hsnapshot₂⟩

/-- Opening the file stops at the note, which leaves the document with the actor. -/
theorem openFile_lostReceipt {j₀ j₁ j₂ j₃ : Journal} {r₁ r₂ r₃ : JournalRecord}
    (hcreate : Journal.create exampleSession = .ok j₀)
    (hr₁ : Appended exampleSession j₀ [] attachPatch mainBranch ⟨.ok 7, .done⟩ j₁ r₁)
    (hr₂ : Appended exampleSession j₁ [r₁] notePatch mainBranch ⟨.ok 8, .done⟩ j₂ r₂)
    (hr₃ : Appended exampleSession j₂ [r₁, r₂] receiptPatch mainBranch ⟨.ok 9, .done⟩ j₃ r₃) :
    ∃ j, Journal.openFile j₃.file = .ok j ∧ j.records = j₁.records ∧ j.snapshot = j₁.snapshot ∧
      j.recovery.isSome = true := by
  obtain ⟨_, _, hrecord₁⟩ := hr₁.record
  obtain ⟨_, _, hrecord₂⟩ := hr₂.record
  have hpatch₁ : r₁.patch = attachPatch := by rw [hrecord₁]; rfl
  have hpatch₂ : r₂.patch = notePatch := by rw [hrecord₂]; rfl
  have hstored : Stored exampleSession j₁ [r₁] := (create_stored hcreate).appended hr₁
  have hstorable : ∀ r ∈ [r₁], r.patch.Storable := by
    rw [List.forall_mem_singleton, hpatch₁]
    exact storable_attach _ _ _ _ rfl
  obtain ⟨e, hvalue⟩ := fromValue_notePatch
  rw [← hpatch₂] at hvalue
  obtain ⟨e, hslice⟩ := fromSlice_payload_error hvalue
  have hrefused : ∀ j : Journal, j.openFrame r₂.payload = (j, some e) := by
    intro j
    unfold Journal.openFrame
    rw [hslice]
  have hfile : j₃.file = j₁.file ++ (frameFormat.frame r₂.payload ++ frameFormat.frame r₃.payload) := by
    rw [hr₃.file, hr₂.file, List.append_assoc]
    rfl
  obtain ⟨fuel, hopen⟩ := hstored.openFile_tail hstorable
    (frameFormat.frame r₂.payload ++ frameFormat.frame r₃.payload)
  rw [Frames.Format.scan_refused _ hr₂.short (hrefused _), ← hfile] at hopen
  exact ⟨_, hopen, rfl, rfl, rfl⟩

/-- The actor is attached as a driver to a running session that has not seen the command. -/
structure Waits (w : Intake) (j : Journal) (accepted : List String) : Prop where
  journal : w.service.journal = j
  actor : w.service.actors[ada.actorId]? = some driver
  running : w.service.terminated = false
  fresh : "run" ∉ w.service.seenCommandIds
  accepted : w.accepted = accepted

/-- Attaching as a driver to a document that records the actor. -/
theorem waits_attach {w : Intake} {j : Journal} {accepted : List String}
    (hjournal : w.service.journal = j) (hsnapshot : j.snapshot = withActor)
    (habsent : ada.actorId ∉ w.service.actors) (hrunning : w.service.terminated = false)
    (hfresh : "run" ∉ w.service.seenCommandIds) (haccepted : w.accepted = accepted)
    (minted : ElementId) (world : Outside) :
    Waits (w.step (.attachActor driver minted world)) j accepted := by
  have hrecorded : (withActor.children (staticId "actors")).any (recordsActor ada.actorId) = true := by
    decide +kernel
  have hattach := attachActor_recorded (s := w.service) driver minted world habsent
    (by rw [hjournal, hsnapshot]; exact hrecorded)
  unfold step
  dsimp only
  rw [hattach]
  exact ⟨hjournal, Std.ExtTreeMap.getElem?_insert_self, hrunning, hfresh, haccepted⟩

/-- The note is accepted. -/
theorem Waits.note {w : Intake} {j j' : Journal} {accepted : List String} {offset : UInt64}
    (h : Waits w j accepted) (hoffset : j.snapshot.offset = 1)
    (happend : j.appendPatch notePatch ⟨.ok 8, .done⟩ = (j', .ok offset)) :
    Waits (w.step (.submitPatch ada.actorId notePatch ⟨.ok 8, .done⟩)) j' accepted := by
  have hallowed := authorizeChange_ok .submitPatch h.running h.actor rfl
  have hsubmit : w.service.submitPatch ada.actorId notePatch ⟨.ok 8, .done⟩ =
      (({ w.service with journal := j' } : ServerSessionService).broadcast (.patch notePatch),
        .ok offset) := by
    unfold submitPatch
    rw [hallowed]
    dsimp only
    rw [if_neg (by rw [currentOffset, h.journal, hoffset]; decide),
      show notePatch.validate = .ok () from rfl]
    dsimp only
    unfold submitPatchInternal
    rw [h.journal, show ({ notePatch with author := .actor ada.actorId } : Patch) = notePatch from rfl,
      happend]
  unfold step
  dsimp only
  rw [hsubmit]
  exact ⟨rfl, h.actor, h.running, h.fresh, h.accepted⟩

/-- The command is accepted after the note. -/
theorem Waits.command {w : Intake} {j j' : Journal} {accepted : List String} {offset : UInt64}
    (h : Waits w j accepted) (hsnapshot : j.snapshot = withNote) (hnext : j.nextOffset = 3)
    (happend : j.appendPatch receiptPatch ⟨.ok 9, .done⟩ = (j', .ok offset)) :
    ∃ s, w.step (.submitCommand ada.actorId "run" ⟨"receipt", Eq.refl true⟩ ⟨.ok 9, .done⟩) =
      ⟨s, "run" :: accepted⟩ ∧ s.journal = j' := by
  have hallowed := authorizeChange_ok .submitCommand h.running h.actor rfl
  have hunseen : ¬ w.service.seenCommandIds.contains "run" = true := by
    rw [Std.ExtTreeSet.contains_iff_mem]
    exact h.fresh
  have hpatch : w.service.nextPatch ada.actorId "accept command"
      [w.service.createLast (staticId "meta") (receiptElement "run" ⟨"receipt", Eq.refl true⟩)] =
        receiptPatch := by
    have hcount : (withNote.children (staticId "meta")).length = 11 := by
      decide +kernel
    have hoffset : withNote.offset = 2 := by
      decide +kernel
    unfold nextPatch createLast currentOffset
    rw [h.journal, hsnapshot, hnext, hcount, hoffset]
    rfl
  unfold step submitCommand
  dsimp only
  rw [hallowed, show Text.trim "run" = "run" by decide]
  dsimp only
  rw [if_neg (by decide), if_neg hunseen, hpatch]
  unfold submitPatchInternal
  rw [h.journal, happend, h.accepted]
  exact ⟨_, rfl, rfl⟩

/-- A damaged journal accepts nothing, so the command is refused for another reason. -/
theorem Waits.not_protected {w : Intake} {j : Journal} {accepted : List String}
    (h : Waits w j ("run" :: accepted)) (hdamaged : j.recovery.isSome = true) : ¬ w.Protected := by
  intro hprotected
  have hallowed := authorizeChange_ok .submitCommand h.running h.actor rfl
  have hunseen : ¬ w.service.seenCommandIds.contains "run" = true := by
    rw [Std.ExtTreeSet.contains_iff_mem]
    exact h.fresh
  have hreplayed := hprotected.replayed ada.actorId "run" ⟨"again", Eq.refl true⟩ ⟨.ok 11, .done⟩
    (by rw [h.accepted]; exact List.mem_cons_self)
  rw [hallowed] at hreplayed
  have hrefused : ∀ patch world, j.appendPatch patch world = (j, .error .writeFailure) := by
    intro patch world
    unfold appendPatch appendOn
    rw [if_pos (.inr hdamaged)]
  unfold submitCommand submitPatchInternal at hreplayed
  rw [hallowed, show Text.trim "run" = "run" by decide] at hreplayed
  dsimp only at hreplayed
  rw [if_neg (by decide), if_neg hunseen, h.journal, hrefused] at hreplayed
  cases hreplayed

/-- The receipt is lost, and the command is not refused as replayed. -/
theorem not_protected_lostReceipt : ∃ j₀, Journal.create exampleSession = .ok j₀ ∧
    ¬ (Machine.run step (start j₀) lostReceipt).Protected := by
  obtain ⟨j₀, hcreate⟩ := exists_create_exampleSession
  refine ⟨j₀, hcreate, ?_⟩
  obtain ⟨j₁, j₂, j₃, r₁, r₂, r₃, happend₁, hr₁, happend₂, hr₂, happend₃, hr₃, hsnapshot₁,
    hsnapshot₂⟩ := exists_lostReceipt hcreate
  obtain ⟨j, hopen, hrecords, hsnapshot, hdamaged⟩ := openFile_lostReceipt hcreate hr₁ hr₂ hr₃
  have hj₀ := (create_eq_ok hcreate).1
  -- the actor attaches, and it attaches again as a driver
  have hattached := attachActor_ada (s := .new j₀) (by rw [hj₀]; rfl) (nextOffset_created hcreate)
    rfl rfl happend₁
  obtain ⟨s₁, hs₁, hjournal₁, hrunning₁, hseen₁⟩ : ∃ s₁ : ServerSessionService,
      (ServerSessionService.new j₀).attachActor ada ⟨"minted", Eq.refl true⟩ ⟨.ok 7, .done⟩ =
        (s₁, .ok ()) ∧ s₁.journal = j₁ ∧ s₁.terminated = false ∧
        s₁.seenCommandIds = (ServerSessionService.new j₀).seenCommandIds :=
    ⟨_, hattached, rfl, rfl, rfl⟩
  have hunseen : ∀ j : Journal, j.records = j₀.records ∨ j.records = j₁.records →
      "run" ∉ (ServerSessionService.new j).seenCommandIds := by
    intro j hrecords
    rw [mem_seen_new]
    unfold recordList
    obtain ⟨_, _, hrecord₁⟩ := hr₁.record
    rcases hrecords with hsame | hsame
    · rw [hsame, show j₀.records.toList.map Prod.snd = [] from
        (create_coherent hcreate).recordList]
      rintro ⟨r, hr, _⟩
      cases hr
    · rw [hsame, show j₁.records.toList.map Prod.snd = [r₁] from hr₁.coherent.recordList]
      rintro ⟨r, hr, hid⟩
      rw [List.mem_singleton.mp hr, hrecord₁] at hid
      cases hid
  have hdetached : (s₁.detachActor ada.actorId ada.actorId).1 =
      { s₁ with actors := s₁.actors.erase ada.actorId
                subscribers := s₁.subscribers.erase ada.actorId } := by
    unfold detachActor
    dsimp only
    rw [if_pos rfl]
  have hdriver := waits_attach
    (w := ⟨(s₁.detachActor ada.actorId ada.actorId).1, []⟩) (by rw [hdetached]; exact hjournal₁)
    hsnapshot₁ (by rw [hdetached]; simp) (by rw [hdetached]; exact hrunning₁)
    (by rw [hdetached, hseen₁]; exact hunseen j₀ (.inl rfl)) rfl ⟨"minted", Eq.refl true⟩ ⟨.ok 7, .done⟩
  -- it submits the note and the command
  have hnote := hdriver.note (UInt64.toNat_inj.mp (offset_of_coherent hr₁.coherent)) happend₂
  have hnext : j₂.nextOffset = 3 := by
    unfold nextOffset
    rw [UInt64.toNat_inj.mp (show _ = (2 : UInt64).toNat from hr₂.coherent.latestOffset)]
    rfl
  obtain ⟨s₂, hcommand, hjournal₂⟩ := hnote.command hsnapshot₂ hnext happend₃
  -- after the restart the receipt is gone
  have hrestart : step ⟨s₂, ["run"]⟩ (.restart none) = ⟨.new j, ["run"]⟩ := by
    unfold step
    dsimp only
    rw [hjournal₂, hopen]
    rfl
  have hagain := waits_attach (w := ⟨.new j, ["run"]⟩) rfl (hsnapshot.trans hsnapshot₁)
    (by simp [ServerSessionService.new]) rfl (hunseen j (.inr hrecords)) rfl ⟨"minted", Eq.refl true⟩
    ⟨.ok 10, .done⟩
  have hrun : Machine.run step (start j₀) lostReceipt =
      step (step (step (step (step (step ⟨((ServerSessionService.new j₀).attachActor ada
        ⟨"minted", Eq.refl true⟩ ⟨.ok 7, .done⟩).1, []⟩ (.detachActor ada.actorId ada.actorId))
        (.attachActor driver ⟨"minted", Eq.refl true⟩ ⟨.ok 7, .done⟩))
        (.submitPatch ada.actorId notePatch ⟨.ok 8, .done⟩))
        (.submitCommand ada.actorId "run" ⟨"receipt", Eq.refl true⟩ ⟨.ok 9, .done⟩)) (.restart none))
        (.attachActor driver ⟨"minted", Eq.refl true⟩ ⟨.ok 10, .done⟩) := rfl
  rw [hrun, hs₁, show step ⟨s₁, []⟩ (.detachActor ada.actorId ada.actorId) =
    ⟨(s₁.detachActor ada.actorId ada.actorId).1, []⟩ from rfl, hcommand, hrestart]
  exact hagain.not_protected hdamaged

end Omp2.Server.Intake
