import Omp2.Control.Projection
import Omp2.Server.Actors

/-!
# Who is given an artifact

A record of an artifact names a scope and may list the actors that it is for. The server checks the
list and a scope that is an actor, and lets every scope that is a job pass. Where the payload of the
element is no record, the attributes are read instead, which hold the scope and no list.
-/

namespace Omp2.Server

open Omp2.Json Omp2.State

/-! ## Restrictions -/

section Restrictions

variable (ofJob : JobId → ActorId → Prop)

/-- A scope admits an actor, where `ofJob` says which actors a job is of. -/
def ArtifactScopeSpec.Admits (actor : ActorId) : ArtifactScopeSpec → Prop
  | .session | .global => True
  | .actor id => id = actor
  | .job id => ofJob id actor

end Restrictions

/-! ## Elements and records -/

section Elements

end Elements

section Requests

variable [SerdeJson] (s : ServerSessionService) (actorId : ActorId) (artifactId : ArtifactId)

end Requests

end Omp2.Server

/-! ## An artifact of a job -/

namespace Omp2.Server

open Omp2.Control Omp2.Json.Compact Omp2.State Journal ServerSessionService

end Omp2.Server
