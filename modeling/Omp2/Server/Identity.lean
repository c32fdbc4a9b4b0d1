import Omp2.Server.Actors

/-!
# Identity of the connections

The connections of the server and the service that they share. The token is checked once for each
connection, while later checks look the actor up in the table of attached actors. `Bound` says that
the entry against which the requests of a connection are checked is the one that this connection
has attached, with the role of its token. It holds in every run in which no handshake is accepted
under an actor id to which another open connection is still bound.
-/

namespace Omp2.Server

open Omp2.Json Omp2.State

/-- What is bound to a connection once it is authenticated: `ConnectionState`. -/
abbrev ConnectionState := Option (ActorId × ActorRole)

/-- The server: the shared service and the open connections by their number. `attachers` is not
part of the source; it remembers which connection attached an actor. -/
structure Network where
  service : ServerSessionService
  auth : AuthConfig
  connections : Std.ExtTreeMap Nat ConnectionState
  accepted : Nat
  attachers : Std.ExtTreeMap ActorId Nat

/-- What happens next: a client connects, a line arrives on a connection, a connection ends, or the
host does something in the background. -/
inductive Event where
  | connect
  | line (c : Nat) (request : Value) (env : Environment)
  | close (c : Nat)
  | background (run : HostRun Unit)

variable [SerdeJson]

namespace Network

/-- The server before the first connection. -/
def start (j : Journal) (auth : AuthConfig) : Network :=
  { service := .new j, auth, connections := ∅, accepted := 0, attachers := ∅ }

/-- The end of a connection, which detaches its actor. -/
def close (n : Network) (c : Nat) : Network :=
  match n.connections[c]? with
  | some (some (actorId, _)) =>
    { n with
      service := (n.service.detachActor actorId actorId).1
      connections := n.connections.erase c }
  | _ => { n with connections := n.connections.erase c }

/-- A line on a connection. -/
def line (n : Network) (c : Nat) (request : Value) (env : Environment) : Network :=
  match n.connections[c]? with
  | none => n
  | some none =>
    match handshakeRequest n.auth n.service request env with
    | (service, none, _) => { n with service }
    | (service, some (actorId, role), _) =>
      { n with
        service
        connections := n.connections.insert c (some (actorId, role))
        attachers := n.attachers.insert actorId c }
  | some (some (actorId, role)) =>
    match dispatch n.service actorId role request env with
    | (service, .shuttingDown) => { n with service }.close c
    | (service, _) => { n with service }

/-- The server after an event. -/
def step (n : Network) : Event → Network
  | .connect =>
    { n with connections := n.connections.insert n.accepted none, accepted := n.accepted + 1 }
  | .line c request env => n.line c request env
  | .close c => n.close c
  | .background run => { n with service := (n.service.runHost run).1 }

/-- No connection acts with more than the role of its own token. -/
structure Confined (n : Network) : Prop where
  /-- A request that requires a permission which the role of the connection lacks is refused. -/
  requests : ∀ (c : Nat) (actorId : ActorId) (role : ActorRole),
    n.connections[c]? = some (some (actorId, role)) →
      ∀ request env perm, requiredPermission actorId request = some perm →
        role.hasPermission perm = false →
          Refuses n.service (dispatch n.service actorId role request env)
  /-- The entry against which a connection is checked is its own. -/
  ownRole : ∀ (c : Nat) (actorId : ActorId) (role : ActorRole) (a : ActorSession),
    n.connections[c]? = some (some (actorId, role)) → n.service.actors[actorId]? = some a →
      a.role = role ∧ n.attachers[actorId]? = some c
  /-- Closing a connection does not detach an actor that another one has attached. -/
  closing : ∀ (c c' : Nat) (actorId : ActorId), n.attachers[actorId]? = some c' → c' ≠ c →
    actorId ∈ n.service.actors → actorId ∈ (n.close c).service.actors

/-- No handshake is accepted under an actor id to which another open connection is still bound. -/
def Exclusive (n : Network) : Event → Prop
  | .line c request env =>
    n.connections[c]? = some none →
      ∀ actorId role, (handshakeRequest n.auth n.service request env).2.1 = some (actorId, role) →
        ∀ (c' : Nat) (role' : ActorRole), n.connections[c']? ≠ some (some (actorId, role'))
  | _ => True

/-- Every connection is alone with its actor id, and the entry of this id is its own. -/
structure Bound (n : Network) : Prop where
  fresh : ∀ c ∈ n.connections, c < n.accepted
  unique : ∀ (c c' : Nat) (actorId : ActorId) (role role' : ActorRole),
    n.connections[c]? = some (some (actorId, role)) →
      n.connections[c']? = some (some (actorId, role')) → c = c'
  own : ∀ (c : Nat) (actorId : ActorId) (role : ActorRole) (a : ActorSession),
    n.connections[c]? = some (some (actorId, role)) → n.service.actors[actorId]? = some a →
      a.role = role ∧ n.attachers[actorId]? = some c

variable {n : Network}

omit [SerdeJson] in
theorem Bound.shrink (h : n.Bound) {service : ServerSessionService}
    (hkept : ∀ (id : ActorId) (a : ActorSession), service.actors[id]? = some a →
      n.service.actors[id]? = some a) : Bound { n with service } :=
  ⟨h.fresh, h.unique, fun c actorId role a hc ha => h.own c actorId role a hc (hkept actorId a ha)⟩

omit [SerdeJson] in
/-- Fewer connections. -/
theorem Bound.drop (h : n.Bound) (c : Nat) :
    Bound { n with connections := n.connections.erase c } := by
  have hkept : ∀ (c' : Nat) (state : ConnectionState),
      (n.connections.erase c)[c']? = some state → n.connections[c']? = some state := by
    intro c' state hc'
    rw [Std.ExtTreeMap.getElem?_erase] at hc'
    split at hc'
    · cases hc'
    · exact hc'
  refine ⟨fun c' hc' => ?_, fun c₁ c₂ actorId role role' h₁ h₂ => ?_,
    fun c' actorId role a hc' ha => ?_⟩
  · rw [Std.ExtTreeMap.mem_iff_isSome_getElem?, Option.isSome_iff_exists] at hc'
    obtain ⟨state, hstate⟩ := hc'
    refine h.fresh c' ?_
    rw [Std.ExtTreeMap.mem_iff_isSome_getElem?, hkept c' state hstate]
    rfl
  · exact h.unique c₁ c₂ actorId role role' (hkept c₁ _ h₁) (hkept c₂ _ h₂)
  · exact h.own c' actorId role a (hkept c' _ hc') ha

omit [SerdeJson] in
theorem Bound.close (h : n.Bound) (c : Nat) : (n.close c).Bound := by
  unfold Network.close
  split
  · next actorId role hc =>
    exact (h.shrink fun id a ha => ServerSessionService.detachActor_actors ha).drop c
  · exact h.drop c

/-- A handshake binds an actor with a role that its token allows, and attaches it so. -/
theorem handshakeRequest_cases {auth : AuthConfig} {s s' : ServerSessionService} {request : Value}
    {env : Environment} {state : ConnectionState} {reply : Reply}
    (h : handshakeRequest auth s request env = (s', state, reply)) :
    (state = none ∧ s'.actors = s.actors) ∨
      ∃ actor : ActorSession, state = some (actor.actorId, actor.role) ∧
        auth.validate actor.role ((textField request "auth_token").map Text.trim) = true ∧
        s'.actors = s.actors.insert actor.actorId actor := by
  unfold handshakeRequest at h
  split at h
  · cases h
    exact .inl ⟨rfl, rfl⟩
  · dsimp only at h
    split at h
    · cases h
      exact .inl ⟨rfl, rfl⟩
    · split at h
      · cases h
        exact .inl ⟨rfl, rfl⟩
      · next hvalid =>
        unfold ServerSessionService.handshake at h
        dsimp only at h
        split at h
        · next hshake =>
          cases h
          split at hshake
          · cases hshake
            exact .inl ⟨rfl, rfl⟩
          · split at hshake
            · next hattach =>
              cases hshake
              rcases ServerSessionService.attachActor_actors hattach with ⟨hok, _⟩ | ⟨_, hkept⟩
              · cases hok
              · exact .inl ⟨rfl, hkept⟩
            · cases hshake
        · next hshake =>
          cases h
          split at hshake
          · cases hshake
          · split at hshake
            · cases hshake
            · next hattach =>
              cases hshake
              rcases ServerSessionService.attachActor_actors hattach with
                ⟨_, hinsert⟩ | ⟨⟨_, herror⟩, _⟩
              · exact .inr ⟨_, rfl, not_not.mp hvalid, hinsert⟩
              · cases herror

omit [SerdeJson] in
/-- A handshake that binds an actor to a connection, where no other connection is bound to it. -/
theorem Bound.bind (h : n.Bound) {c : Nat} (hc : c ∈ n.connections) {service : ServerSessionService}
    {actor : ActorSession}
    (hactors : service.actors = n.service.actors.insert actor.actorId actor)
    (halone : ∀ (c' : Nat) (role' : ActorRole),
      n.connections[c']? ≠ some (some (actor.actorId, role'))) :
    Bound { n with
      service
      connections := n.connections.insert c (some (actor.actorId, actor.role))
      attachers := n.attachers.insert actor.actorId c } := by
  -- a connection is the new one with the new actor, or it is bound as before to another actor
  have hcases : ∀ (c' : Nat) (id : ActorId) (role : ActorRole),
      (n.connections.insert c (some (actor.actorId, actor.role)))[c']? = some (some (id, role)) →
        (c' = c ∧ id = actor.actorId ∧ role = actor.role) ∨
          (n.connections[c']? = some (some (id, role)) ∧ id ≠ actor.actorId) := by
    intro c' id role hc'
    rw [Std.ExtTreeMap.getElem?_insert] at hc'
    split at hc'
    · next heq =>
      cases hc'
      exact .inl ⟨(Std.compare_eq_iff_eq.mp heq).symm, rfl, rfl⟩
    · refine .inr ⟨hc', fun hid => halone c' role ?_⟩
      rw [← hid]
      exact hc'
  refine ⟨fun c' hc' => ?_, fun c₁ c₂ id role role' h₁ h₂ => ?_, fun c' id role a hc' ha => ?_⟩
  · rw [Std.ExtTreeMap.mem_insert] at hc'
    rcases hc' with heq | hc'
    · obtain rfl : c = c' := Std.compare_eq_iff_eq.mp heq
      exact h.fresh c hc
    · exact h.fresh c' hc'
  · rcases hcases c₁ id role h₁ with ⟨rfl, rfl, rfl⟩ | ⟨h₁, hne⟩
    · rcases hcases c₂ _ role' h₂ with ⟨rfl, _, _⟩ | ⟨_, hne⟩
      · rfl
      · exact absurd rfl hne
    · rcases hcases c₂ id role' h₂ with ⟨_, hid, _⟩ | ⟨h₂, _⟩
      · exact absurd hid hne
      · exact h.unique c₁ c₂ id role role' h₁ h₂
  · dsimp only at ha ⊢
    rw [hactors] at ha
    rcases hcases c' id role hc' with ⟨rfl, rfl, rfl⟩ | ⟨hc', hne⟩
    · rw [Std.ExtTreeMap.getElem?_insert_self] at ha ⊢
      cases ha
      exact ⟨rfl, rfl⟩
    · have hother : compare actor.actorId id ≠ .eq :=
        fun heq => hne (Std.compare_eq_iff_eq.mp heq).symm
      rw [Std.ExtTreeMap.getElem?_insert, if_neg hother] at ha
      rw [Std.ExtTreeMap.getElem?_insert, if_neg hother]
      exact h.own c' id role a hc' ha

/-- A line on a connection. -/
theorem Bound.line (h : n.Bound) {c : Nat} {request : Value} {env : Environment}
    (hexclusive : n.Exclusive (.line c request env)) : (n.line c request env).Bound := by
  unfold Network.line
  split
  · exact h
  · next hc =>
    cases hshake : handshakeRequest n.auth n.service request env with
    | mk service rest =>
      obtain ⟨state, reply⟩ := rest
      rcases handshakeRequest_cases hshake with
        ⟨rfl, hkept⟩ | ⟨actor, rfl, _, hactors⟩
      · refine h.shrink fun id a ha => ?_
        rw [hkept] at ha
        exact ha
      · refine h.bind ?_ hactors (hexclusive hc actor.actorId actor.role (by rw [hshake]))
        rw [Std.ExtTreeMap.mem_iff_isSome_getElem?, hc]
        rfl
  · next actorId role hc =>
    have hkept : ∀ (id : ActorId) (a : ActorSession),
        (dispatch n.service actorId role request env).1.actors[id]? = some a →
          n.service.actors[id]? = some a := fun id a ha => dispatch_actors ha
    split
    · next heq =>
      rw [heq] at hkept
      exact (h.shrink hkept).close c
    · next heq =>
      rw [heq] at hkept
      exact h.shrink hkept

/-- Every event that binds no id twice keeps the connections bound to their own entries. -/
theorem step_bound (n : Network) (event : Event) (h : n.Bound) (hexclusive : n.Exclusive event) :
    (n.step event).Bound := by
  cases event with
  | connect =>
      -- the number of a new connection is no other's
      have hkept : ∀ (c : Nat) (id : ActorId) (role : ActorRole),
          (n.connections.insert n.accepted none)[c]? = some (some (id, role)) →
            n.connections[c]? = some (some (id, role)) := by
        intro c id role hc
        rw [Std.ExtTreeMap.getElem?_insert] at hc
        split at hc
        · cases hc
        · exact hc
      refine ⟨fun c hc => ?_, fun c₁ c₂ id role role' h₁ h₂ => ?_, fun c id role a hc ha => ?_⟩
      · unfold step at hc ⊢
        dsimp only at hc ⊢
        rw [Std.ExtTreeMap.mem_insert] at hc
        rcases hc with heq | hc
        · obtain rfl := Std.compare_eq_iff_eq.mp heq
          exact Nat.lt_succ_self _
        · exact Nat.lt_succ_of_lt (h.fresh c hc)
      · exact h.unique c₁ c₂ id role role' (hkept c₁ id role h₁) (hkept c₂ id role' h₂)
      · exact h.own c id role a (hkept c id role hc) ha
  | line c request env => exact h.line hexclusive
  | close c => exact h.close c
  | background run =>
      refine h.shrink fun id a ha => ?_
      rw [ServerSessionService.runHost_actors] at ha
      exact ha

/-- Bound connections are confined to the roles of their own tokens. -/
theorem Bound.confined (h : n.Bound) : n.Confined := by
  refine ⟨fun c actorId role hc request env perm hrequired hlacks => ?_, h.own,
    fun c c' actorId hattacher hne hmem => ?_⟩
  · exact dispatch_refused hrequired hlacks fun a ha => (h.own c actorId role a hc ha).1
  · unfold Network.close
    split
    · next id role hc =>
      have hother : id ≠ actorId := by
        rintro rfl
        rw [Std.ExtTreeMap.mem_iff_isSome_getElem?, Option.isSome_iff_exists] at hmem
        obtain ⟨a, ha⟩ := hmem
        obtain ⟨_, hown⟩ := h.own c id role a hc ha
        rw [hattacher] at hown
        exact hne (Option.some.inj hown)
      unfold ServerSessionService.detachActor
      dsimp only
      rw [if_pos rfl]
      exact Std.ExtTreeMap.mem_erase.mpr ⟨fun heq => hother (Std.compare_eq_iff_eq.mp heq), hmem⟩
    · exact hmem

/-- A second binding of an id leaves the other connection with an entry not its own. -/
theorem exclusive_of_confined (n : Network) (event : Event) (h : (n.step event).Confined) :
    n.Exclusive event := by
  cases event with
  | line c request env =>
      intro hc actorId role hbound c' role' hc'
      cases hshake : handshakeRequest n.auth n.service request env with
      | mk service rest =>
        obtain ⟨state, reply⟩ := rest
        rw [hshake] at hbound
        cases hbound
        rcases handshakeRequest_cases hshake with ⟨hnone, _⟩ | ⟨actor, hactor, _, hactors⟩
        · cases hnone
        · cases hactor
          have hne : c ≠ c' := by
            rintro rfl
            rw [hc] at hc'
            cases hc'
          have hown := h.ownRole c' actor.actorId role' actor
          unfold step Network.line at hown
          dsimp only at hown
          rw [hc] at hown
          dsimp only at hown
          rw [hshake] at hown
          dsimp only at hown
          rw [hactors, Std.ExtTreeMap.getElem?_insert_self,
            Std.ExtTreeMap.getElem?_insert_self, Std.ExtTreeMap.getElem?_insert,
            if_neg (fun heq => hne (Std.compare_eq_iff_eq.mp heq))] at hown
          exact hne (Option.some.inj (hown hc' rfl).2)
  | connect | close c | background run => exact trivial

omit [SerdeJson] in
theorem start_bound (j : Journal) (auth : AuthConfig) : (start j auth).Bound := by
  refine ⟨fun c hc => ?_, fun c c' id role role' hc _ => ?_, fun c id role a hc _ => ?_⟩
  · exact absurd hc Std.ExtTreeMap.not_mem_empty
  · simp [start] at hc
  · simp [start] at hc

/-- Connections stay confined exactly when no handshake binds an id twice. -/
theorem Bound.confined_iff (h : n.Bound) (events : List Event) :
    (∀ first, first <+: events → (Machine.run step n first).Confined) ↔
      Machine.Along step Exclusive n events := by
  induction events generalizing n with
  | nil =>
      refine iff_of_true (fun first hfirst => ?_) trivial
      rw [List.prefix_nil.mp hfirst]
      exact h.confined
  | cons event events ih =>
      refine ⟨fun hconfined => ?_, fun halong first hfirst => ?_⟩
      · have hexclusive := exclusive_of_confined n event
          (hconfined [event] (List.prefix_append [event] events))
        refine ⟨hexclusive, (ih (step_bound n event h hexclusive)).mp fun first hfirst => ?_⟩
        exact hconfined (event :: first) ((List.prefix_cons_inj event).mpr hfirst)
      · rcases List.prefix_cons_iff.mp hfirst with rfl | ⟨rest, rfl, hrest⟩
        · exact h.confined
        · exact (ih (step_bound n event h halong.1)).mpr halong.2 rest hrest

/-- In every run of the server, every connection is always confined to the role of its own token
exactly when no handshake is accepted under an actor id to which another open connection is still
bound. -/
theorem run_confined_iff (j : Journal) (auth : AuthConfig) (events : List Event) :
    (∀ first, first <+: events → (Machine.run step (start j auth) first).Confined) ↔
      Machine.Along step Exclusive (start j auth) events :=
  (start_bound j auth).confined_iff events

end Network

end Omp2.Server

/-! ## Two connections under one actor id -/

namespace Omp2.Server.Network

open Omp2.Json Omp2.Json.Compact Omp2.State Journal ServerSessionService

/-- A handshake that the service accepts. -/
theorem line_handshake (n : Network) (c : Nat) (request : Value) (env : Environment)
    (actorId : ActorId) (role : ActorRole) {service : ServerSessionService}
    (hc : n.connections[c]? = some none) (haction : requestAction request = "handshake")
    (hversion : request.get "protocol_version" = none)
    (hid : Id.new ((textField request "actor_id").getD "client") = .ok actorId)
    (hrole : requestedRole request = role)
    (hvalid : n.auth.validate role ((textField request "auth_token").map Text.trim) = true)
    (hattach : n.service.attachActor (.new actorId role [journalFormat]) env.minted env.world =
      (service, .ok ())) :
    n.line c request env = { n with
      service
      connections := n.connections.insert c (some (actorId, role))
      attachers := n.attachers.insert actorId c } := by
  have hnegotiate : negotiate .current .current [journalFormat] [journalFormat] = .ok () := by
    rfl
  unfold Network.line
  rw [hc]
  dsimp only
  unfold handshakeRequest ServerSessionService.handshake
  rw [if_neg (not_not.mpr haction), hversion, hid, hrole]
  dsimp only
  rw [if_neg (not_not.mpr hvalid), hnegotiate]
  dsimp only
  rw [hattach]
  rfl

/-- The tokens of the server. -/
def tokens : AuthConfig :=
  ⟨"owner", "driver", "spectator", "subagent", "worker"⟩

/-- What the outside world decides. -/
def calm : Environment where
  minted := ⟨"minted", Eq.refl true⟩
  branch := mainBranch
  world := ⟨.ok 7, .done⟩
  turn := ⟨[], .ok ()⟩
  tool := ⟨[], .ok ⟨"call", Eq.refl true⟩⟩

/-- A handshake as the actor `ada`. -/
def handshakeAs (role token : String) : Value :=
  .object [("action", .string "handshake"), ("actor_id", .string "ada"), ("role", .string role),
    ("auth_token", .string token)]

/-- A request to detach itself. -/
def detachSelf : Value :=
  .object [("action", .string "detach")]

/-- A request to detach another actor, for which spectators lack the permission. -/
def detachBob : Value :=
  .object [("action", .string "detach_actor"), ("target_actor", .string "bob")]

/-- A spectator attaches and detaches itself, and a controller attaches under the same id. -/
def twoConnections : List Event :=
  [.connect, .connect, .line 0 (handshakeAs "spectator" "spectator") calm,
    .line 0 detachSelf calm, .line 1 (handshakeAs "controller" "owner") calm]

/-- The server with two open connections. -/
def opened (j : Journal) : Network :=
  { start j tokens with
    connections := ((∅ : Std.ExtTreeMap Nat ConnectionState).insert 0 none).insert 1 none
    accepted := 2 }

/-- A request that detaches an actor. -/
theorem line_detach {n : Network} {c : Nat} (request : Value) (env : Environment)
    {actorId : ActorId} {role : ActorRole} (hc : n.connections[c]? = some (some (actorId, role)))
    (haction : requestAction request = "detach")
    (htarget : targetActor actorId request "target_actor" = .ok actorId) :
    n.line c request env = { n with service := (n.service.detachActor actorId actorId).1 } := by
  have hdetach : dispatch n.service actorId role request env =
      ((n.service.detachActor actorId actorId).1, .done) := by
    unfold dispatch
    rw [haction, show Action.ofName "detach" = .detach from rfl]
    dsimp only
    rw [htarget]
    unfold detachActor
    dsimp only
    rw [if_pos rfl]
    rfl
  unfold Network.line
  rw [hc]
  dsimp only
  rw [hdetach]

/-- An actor that the table lists as a controller may detach another one. -/
theorem dispatch_detachBob {s : ServerSessionService} {role : ActorRole} {env : Environment}
    {a : ActorSession} (ha : s.actors[ada.actorId]? = some a) (hrole : a.role = .controller) :
    (dispatch s ada.actorId role detachBob env).2 = .done := by
  have hbob : targetActor ada.actorId detachBob "target_actor" = .ok ⟨"bob", Eq.refl true⟩ := rfl
  have hallowed : s.authorize ada.actorId .manageSession = .ok a := by
    unfold authorize getActor
    rw [ha]
    show (a.checkPermission .manageSession >>= fun _ => pure a) = _
    rw [ActorSession.checkPermission_ok.mpr (by rw [hrole]; rfl)]
    rfl
  unfold dispatch
  rw [show Action.ofName (requestAction detachBob) = .detach from rfl]
  dsimp only
  rw [hbob]
  unfold detachActor
  dsimp only
  rw [if_neg (by decide), hallowed]
  rfl

/-- Two open connections, and the actor with the role of the second one. -/
theorem exists_twoConnections : ∃ (j₀ j₁ : Journal) (r : JournalRecord) (n : Network),
    Journal.create exampleSession = .ok j₀ ∧
      Machine.run step (start j₀ tokens) twoConnections = n ∧
      Appended exampleSession j₀ [] attachPatch mainBranch ⟨.ok 7, .done⟩ j₁ r ∧
      n.service.journal = j₁ ∧
      n.service.actors[ada.actorId]? = some (.new ada.actorId .controller [journalFormat]) ∧
      n.connections[0]? = some (some (ada.actorId, .spectator)) ∧
      n.connections[1]? = some (some (ada.actorId, .controller)) := by
  obtain ⟨j₀, hcreate⟩ := exists_create_exampleSession
  obtain ⟨j₁, r, happend, hr⟩ := exists_attached hcreate
  have hnext := nextOffset_created hcreate
  have hrecorded := recordsActor_attached hcreate hr
  obtain ⟨hj₀, _⟩ := create_eq_ok hcreate
  have hattached := attachActor_ada (s := .new j₀) (by rw [hj₀]; rfl) hnext rfl rfl happend
  obtain ⟨s₁, hs₁, hjournal₁, hactors₁⟩ : ∃ s₁ : ServerSessionService,
      (ServerSessionService.new j₀).attachActor ada calm.minted calm.world = (s₁, .ok ()) ∧
        s₁.journal = j₁ ∧
        s₁.actors = (∅ : Std.ExtTreeMap ActorId ActorSession).insert ada.actorId ada :=
    ⟨_, hattached, rfl, rfl⟩
  -- the service after the spectator has detached itself, and after the controller has attached
  obtain ⟨s₂, hs₂⟩ : ∃ s₂, (s₁.detachActor ada.actorId ada.actorId).1 = s₂ := ⟨_, rfl⟩
  have hdetached : s₂.journal = j₁ ∧ ada.actorId ∉ s₂.actors := by
    rw [← hs₂]
    unfold detachActor
    dsimp only
    rw [if_pos rfl]
    exact ⟨hjournal₁, by simp⟩
  have hagain := attachActor_recorded (s := s₂)
    (.new ada.actorId .controller [journalFormat]) calm.minted calm.world hdetached.2
    (by rw [hdetached.1]; exact hrecorded)
  -- the connections one event after the other
  have hspectator : tokens.validate .spectator
      ((textField (handshakeAs "spectator" "spectator") "auth_token").map Text.trim) = true := by
    decide
  have howner : tokens.validate .controller
      ((textField (handshakeAs "controller" "owner") "auth_token").map Text.trim) = true := by
    decide
  have hfirst := line_handshake (opened j₀) 0 (handshakeAs "spectator" "spectator") calm ada.actorId
    .spectator rfl rfl rfl rfl rfl hspectator hs₁
  obtain ⟨n₁, hn₁⟩ : ∃ n₁, (opened j₀).line 0 (handshakeAs "spectator" "spectator") calm = n₁ :=
    ⟨_, rfl⟩
  rw [hn₁] at hfirst
  have hconnection₁ : n₁.connections[0]? = some (some (ada.actorId, .spectator)) := by
    rw [hfirst]
    exact Std.ExtTreeMap.getElem?_insert_self
  have hsecond := line_detach detachSelf calm hconnection₁ rfl rfl
  have hthird := line_handshake { n₁ with service := s₂ } 1 (handshakeAs "controller" "owner") calm
    ada.actorId .controller (by rw [hfirst]; rfl) rfl rfl rfl rfl
    (by rw [hfirst]; exact howner) hagain
  have hservice : n₁.service = s₁ := by rw [hfirst]
  rw [hservice, hs₂] at hsecond
  have hrun : Machine.run step (start j₀ tokens) twoConnections =
      ((((opened j₀).line 0 (handshakeAs "spectator" "spectator") calm).line 0 detachSelf calm).line
        1 (handshakeAs "controller" "owner") calm) := rfl
  rw [hn₁, hsecond, hthird] at hrun
  refine ⟨j₀, j₁, r, _, hcreate, hrun, hr, hdetached.1, Std.ExtTreeMap.getElem?_insert_self, ?_,
    Std.ExtTreeMap.getElem?_insert_self⟩
  dsimp only
  rw [Std.ExtTreeMap.getElem?_insert, if_neg (by decide)]
  exact hconnection₁

/-- The connection of the spectator then acts as a controller. -/
theorem not_confined_twoConnections : ∃ j₀, Journal.create exampleSession = .ok j₀ ∧
    ¬ (Machine.run step (start j₀ tokens) twoConnections).Confined := by
  obtain ⟨j₀, _, _, n, hcreate, hrun, _, _, hactor, hconnection, _⟩ := exists_twoConnections
  refine ⟨j₀, hcreate, fun hconfined => ?_⟩
  rw [hrun] at hconfined
  obtain ⟨code, message, hrefused⟩ := hconfined.requests 0 ada.actorId .spectator hconnection
    detachBob calm .manageSession (by decide +kernel) rfl
  have hdone := congrArg Prod.snd hrefused
  rw [dispatch_detachBob hactor rfl] at hdone
  cases hdone

end Omp2.Server.Network
