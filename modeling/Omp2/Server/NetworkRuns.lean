import Omp2.Server.Identity
import Omp2.Server.Requests

/-!
# Runs of the network

Whatever arrives on the connections reaches the service as requests, so every run of the network is
a run of the service, and the journal behind it is coherent.
-/

namespace Omp2.Server

open Omp2.Json Omp2.State

variable [SerdeJson] {s s' : ServerSessionService}

/-- Requests lead from one service to the other. -/
def Serves (s s' : ServerSessionService) : Prop :=
  ∀ copies, ∃ requests : List Request,
    (Machine.run Replicas.step ⟨s, copies⟩ requests).service = s'

theorem Serves.refl (s : ServerSessionService) : Serves s s :=
  fun _ => ⟨[], rfl⟩

theorem Serves.request (s : ServerSessionService) (r : Request) :
    Serves s (Replicas.serve ⟨s, ∅⟩ r) :=
  fun _ => ⟨[r], rfl⟩

theorem Serves.trans {s'' : ServerSessionService} (h : Serves s s') (h' : Serves s' s'') :
    Serves s s'' := by
  intro copies
  obtain ⟨requests, rfl⟩ := h copies
  obtain ⟨more, hmore⟩ := h' (Machine.run Replicas.step ⟨s, copies⟩ requests).copies
  exact ⟨requests ++ more, by rw [Machine.run_append]; exact hmore⟩

/-- Requests only add to the history of a coherent journal. -/
theorem Serves.coherent {sessionId : SessionId} {log : List JournalRecord} (h : Serves s s')
    (hlog : Journal.Coherent sessionId s.journal log) :
    ∃ rest, Journal.Coherent sessionId s'.journal (log ++ rest) := by
  obtain ⟨requests, rfl⟩ := h ∅
  refine Machine.invariant_run (P := fun w : Replicas =>
    ∃ rest, Journal.Coherent sessionId w.service.journal (log ++ rest)) ?_ requests
    ⟨[], by rwa [List.append_nil]⟩
  rintro w request ⟨rest, hrest⟩
  obtain ⟨calls, hcalls⟩ := w.serve_reaches request
  obtain ⟨more, hmore⟩ := hrest.after calls
  exact ⟨rest ++ more, by rw [← List.append_assoc]; exact hcalls ▸ hmore⟩

/-- A line of an authenticated connection is at most one request. -/
theorem dispatch_serves (s : ServerSessionService) (actorId : ActorId) (role : ActorRole)
    (request : Value) (env : Environment) :
    Serves s (dispatch s actorId role request env).1 := by
  have hone := Serves.request s
  unfold dispatch
  cases Action.ofName (requestAction request) <;> dsimp only
  case subscribe => exact hone (.subscribe actorId ..)
  case poll => exact hone (.poll actorId)
  case changeConvar => exact hone (.changeConvar actorId ..)
  case writeWorkspace => exact hone (.writeWorkspace actorId ..)
  case requestApproval => exact hone (.requestApproval actorId ..)
  case resolveApproval => exact hone (.resolveApproval actorId ..)
  case forkSession => exact hone (.forkSession actorId ..)
  case rewindSession => exact hone (.rewindSession actorId ..)
  case submitPatch =>
      split
      · exact .refl s
      · split
        · exact .refl s
        · exact hone (.submitPatch actorId ..)
  case submitCommand =>
      split
      · exact .refl s
      · have h := hone (.executeCommand actorId (Text.trim ((textField request "command_id").getD ""))
          env.minted env.world env.turn)
        dsimp only [Replicas.serve] at h
        split <;> next heq =>
          rw [heq] at h
          exact h
  case runTurn =>
      split
      · exact .refl s
      · exact hone (.runTurn env.turn)
  case executeTool =>
      split
      · exact .refl s
      · exact hone (.executeTool env.tool)
  case registerArtifact =>
      split
      · exact .refl s
      · exact hone (.registerArtifact actorId ..)
  case signalJob =>
      split
      · exact .refl s
      · exact hone (.signalJob actorId ..)
  case detach =>
      split
      · exact .refl s
      · exact hone (.detachActor actorId ..)
  case selectBranch =>
      split
      · exact .refl s
      · exact hone (.selectBranch actorId ..)
  case shutdown =>
      split
      · exact .refl s
      · exact hone (.terminateSession actorId)
  case getArtifact => (repeat' split) <;> exact .refl s
  case inspectActor => (repeat' split) <;> exact .refl s
  case inspectXml => split <;> exact .refl s
  all_goals exact .refl s

theorem handshakeRequest_serves (auth : AuthConfig) (s : ServerSessionService) (request : Value)
    (env : Environment) : Serves s (handshakeRequest auth s request env).1 := by
  unfold handshakeRequest
  split
  · exact .refl s
  · dsimp only
    split
    · exact .refl s
    · split
      · exact .refl s
      · split <;> next heq =>
          rw [← congrArg Prod.fst heq]
          exact .request s (.handshake ..)

namespace Network

theorem step_serves (n : Network) (event : Event) : Serves n.service (n.step event).service := by
  have hclose (m : Network) (c : Nat) : Serves m.service (m.close c).service := by
    unfold Network.close
    split
    · exact .request m.service (.detachActor ..)
    · exact .refl _
  cases event with
  | connect => exact .refl _
  | background run => exact .request n.service (.runTurn run)
  | close c => exact hclose n c
  | line c request env =>
      show Serves n.service (n.line c request env).service
      unfold Network.line
      split
      · exact .refl _
      · have h := handshakeRequest_serves n.auth n.service request env
        split <;> next heq =>
          rw [heq] at h
          exact h
      · next actorId role _ =>
        have h := dispatch_serves n.service actorId role request env
        split
        · next service heq =>
          rw [heq] at h
          exact h.trans (hclose { n with service } c)
        · next heq =>
          rw [heq] at h
          exact h

theorem run_serves (n : Network) (events : List Event) :
    Serves n.service (Machine.run step n events).service :=
  Machine.invariant_run (P := fun m : Network => Serves n.service m.service)
    (fun m event h => h.trans (m.step_serves event)) events (.refl _)

/-- A run of the network is a run of the service, and what follows only adds to its history. -/
theorem run_refines {j : Journal}
    (hj : (∃ sessionId, Journal.create sessionId = .ok j) ∨ ∃ file, Journal.openFile file = .ok j)
    (auth : AuthConfig) (events more : List Event) :
    let n := Machine.run step (start j auth) events
    let n' := Machine.run step n more
    (∃ requests, (Machine.run Replicas.step (.start j) requests).service = n'.service) ∧
      ∃ sessionId log rest, Journal.Coherent sessionId n.service.journal log ∧
        Journal.Coherent sessionId n'.service.journal (log ++ rest) := by
  intro n n'
  have hstart : ∃ sessionId log, Journal.Coherent sessionId j log := by
    rcases hj with ⟨sessionId, hcreate⟩ | ⟨file, hopen⟩
    · exact ⟨sessionId, [], Journal.create_coherent hcreate⟩
    · exact Journal.openFile_coherent hopen
  obtain ⟨sessionId, log, hlog⟩ := hstart
  have hn := run_serves (start j auth) events
  have hn' := run_serves n more
  obtain ⟨mid, hmid⟩ := hn.coherent hlog
  obtain ⟨rest, hrest⟩ := hn'.coherent hmid
  exact ⟨hn.trans hn' ∅, sessionId, log ++ mid, rest, hmid, hrest⟩

end Network

end Omp2.Server

namespace Omp2.Server.Network

open Omp2.Json.Compact Omp2.State Journal

/-- Two connections come and go on a new session, and a third one comes. -/
theorem run_refines_twoConnections : ∃ j₀, create exampleSession = .ok j₀ ∧
    let n := Machine.run step (start j₀ tokens) twoConnections
    let n' := Machine.run step n [.connect]
    (∃ requests, (Machine.run Replicas.step (.start j₀) requests).service = n'.service) ∧
      ∃ sessionId log rest, Coherent sessionId n.service.journal log ∧
        Coherent sessionId n'.service.journal (log ++ rest) := by
  obtain ⟨j₀, hcreate⟩ := exists_create_exampleSession
  exact ⟨j₀, hcreate, run_refines (.inl ⟨_, hcreate⟩) tokens twoConnections [.connect]⟩

end Omp2.Server.Network
