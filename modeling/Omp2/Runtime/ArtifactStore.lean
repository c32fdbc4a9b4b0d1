import Mathlib.Logic.Function.Basic
import Omp2.State.Journal

/-!
# The artifact store

`ArtifactStore` of `omp-runtime/src/artifact.rs`: blobs that are named by the digest of what they
hold. How the disk answers each call that can fail is an argument, as is what the clock says. A
path stands for the file that it leads to.
-/

namespace Omp2.Runtime

open Omp2.State

/-! ## Credentials and metadata -/

/-- `ArtifactOrigin`. -/
inductive ArtifactOrigin where
  | job (id : JobId)
  | toolCall (id : ToolCallId)
  | subagent (id : ActorId)
  | user
  | system
deriving DecidableEq

/-- `ArtifactRetention`. -/
inductive ArtifactRetention where
  | transient | session | persistent | pinned
deriving DecidableEq

/-- `ArtifactScope`. -/
inductive ArtifactScope where
  | session
  | job (id : JobId)
  | actor (id : ActorId)
  | global
deriving DecidableEq

/-- `ScopeCredential`. -/
structure ScopeCredential where
  sessionId : Option SessionId
  actorId : Option ActorId
  jobId : Option JobId
  isHost : Bool
deriving DecidableEq

/-- `allows_store`. -/
def ScopeCredential.allowsStore (credential : ScopeCredential) (scope : ArtifactScope)
    (sessionId : Option SessionId) : Bool :=
  credential.isHost ||
    match scope with
    | .global => false
    | .session => credential.sessionId.isSome && credential.sessionId = sessionId
    | .actor id => credential.actorId = some id
    | .job id => credential.jobId = some id

/-- `ArtifactMetadata`. -/
structure ArtifactMetadata where
  id : ArtifactId
  contentHash : String
  mediaType : String
  byteLength : Nat
  origin : ArtifactOrigin
  retention : ArtifactRetention
  scope : ArtifactScope
  createdAtMs : Nat
  sessionId : Option SessionId
deriving DecidableEq

/-- `ArtifactError`, with what the texts are made of. -/
inductive ArtifactError where
  | accessDenied (scope : ArtifactScope)
  | limitExceeded (maxBytes read : Nat)
  | io (e : String)
  | corrupted (expected actual : String)
  | invalid (hash : String)
deriving DecidableEq

/-- What a caller says about the artifact that it stores. -/
structure Request where
  id : ArtifactId
  mediaType : String
  origin : ArtifactOrigin
  retention : ArtifactRetention
  scope : ArtifactScope
  credential : ScopeCredential

/-- The check that each call makes of the credential. -/
def Request.allowed (r : Request) : Bool :=
  r.credential.allowsStore r.scope r.credential.sessionId

/-- The metadata of a stored artifact. -/
def Request.metadata (r : Request) (contentHash : String) (byteLength now : Nat) :
    ArtifactMetadata where
  id := r.id
  contentHash := contentHash
  mediaType := r.mediaType
  byteLength := byteLength
  origin := r.origin
  retention := r.retention
  scope := r.scope
  createdAtMs := now
  sessionId := r.credential.sessionId

/-! ## The disk -/

/-- The files of a disk, by path. -/
abbrev Disk := String → Option (List UInt8)

/-- The disk with another content at a path, or with none. -/
def Disk.set (disk : Disk) (path : String) (content : Option (List UInt8)) : Disk :=
  Function.update disk path content

/-- `remove_file` where a failure is ignored. -/
def discard (disk : Disk) (path : String) (removed : Bool) : Disk :=
  if removed then disk.set path none else disk

/-- How `fs::copy` ends: a copy that fails may leave the first bytes in a new file. -/
inductive Copied where
  | done
  | failed (left : Option Nat) (e : String)

/-- How the disk answers when a file is moved: to `rename`, to `copy`, and to the removal of the
source of a copy. -/
structure Moving where
  renamed : Bool
  copied : Copied
  removed : Bool
  missing : String

/-- Rename a file, or copy it and remove it. -/
def move (disk : Disk) (source target : String) (w : Moving) : Disk × Except String Unit :=
  match disk source with
  | none => (disk, .error w.missing)
  | some bytes =>
    if w.renamed then ((disk.set source none).set target (some bytes), .ok ())
    else
      match w.copied with
      | .done => (discard (disk.set target (some bytes)) source w.removed, .ok ())
      | .failed none e => (disk, .error e)
      | .failed (some left) e => (disk.set target (some (bytes.take left)), .error e)

/-- The digest of a content, as its blob is named. -/
def contentHash (bytes : List UInt8) : String :=
  hex (Sha256.digest bytes)

/-- `hash_file`, which fails when the file cannot be read. -/
def hashFile (disk : Disk) (path : String) (failure : Option String) : Except String String :=
  match failure, disk path with
  | some e, _ => .error e
  | none, none => .error "No such file or directory (os error 2)"
  | none, some bytes => .ok (contentHash bytes)

/-! ## The store -/

/-- A character of a digest. -/
def isLowerHex (c : Char) : Bool :=
  ('0' ≤ c && c ≤ '9') || ('a' ≤ c && c ≤ 'f')

/-- `validate_content_hash`. -/
def validateContentHash (hash : String) : Except ArtifactError Unit :=
  if hash.toList.length ≠ 64 ∨ ¬ hash.toList.all isLowerHex then .error (.invalid hash)
  else .ok ()

/-- `ArtifactStore`. -/
structure ArtifactStore where
  root : String

namespace ArtifactStore

/-- The file of the blob with a hash. -/
def blobFile (store : ArtifactStore) (hash : String) : String :=
  store.root ++ "/blobs/" ++ hash ++ ".blob"

/-- `blob_path`. -/
def blobPath (store : ArtifactStore) (hash : String) : Except ArtifactError String := do
  validateContentHash hash
  return store.blobFile hash

/-- The file that a stream is written to before its digest is known. -/
def spoolFile (store : ArtifactStore) (id : ArtifactId) (nanos : Nat) : String :=
  store.root ++ "/tmp/spool_" ++ id.value ++ "_" ++ toString nanos ++ ".tmp"

end ArtifactStore

/-- One round of the loop of `store_stream`: what the reader gives, and how writing it ends. -/
inductive Round where
  | read (bytes : List UInt8) (written : Option String)
  | interrupted
  | failed (e : String)

/-- What a reader delivers until its end. -/
def delivered : List Round → List UInt8
  | [] => []
  | .read bytes _ :: rest => if bytes = [] then [] else bytes ++ delivered rest
  | .interrupted :: rest => delivered rest
  | .failed _ :: _ => []

/-- The loop of `store_stream`, with what is written so far. -/
def spoolRounds (maxBytes : Nat) : List Round → List UInt8 → Except ArtifactError (List UInt8)
  | [], done => .ok done
  | .interrupted :: rest, done => spoolRounds maxBytes rest done
  | .failed e :: _, _ => .error (.io e)
  | .read bytes written :: rest, done =>
    if bytes = [] then .ok done
    else if maxBytes < done.length + bytes.length then
      .error (.limitExceeded maxBytes (done.length + bytes.length))
    else
      match written with
      | some e => .error (.io e)
      | none => spoolRounds maxBytes rest (done ++ bytes)

/-- How the disk and the clock answer to one `store_stream`. `left` is what stays in the spool file
of a stream that is given up, and `seen` is whether the lookup of a blob finds one that is there. -/
structure StreamWorld where
  nanos : Nat
  created : Option String
  flushed : Option String
  left : Option (List UInt8)
  seen : Bool
  discarded : Bool
  moving : Moving
  now : Nat

/-- How the disk and the clock answer to one `ingest_spooled_file`. -/
structure IngestWorld where
  seen : Bool
  sourceRemoved : Bool
  moving : Moving
  hashed : Option String
  targetRemoved : Bool
  now : Nat

/-- The length of the slices that a reader of bytes in memory gives. -/
def chunkBytes : Nat := 64 * 1024

/-- The rounds of a reader of bytes in memory, with how each write ends. -/
def sliceRounds : List UInt8 → List (Option String) → List Round
  | [], _ => []
  | data@(_ :: rest), writes =>
    .read (data.take chunkBytes) (writes.head?.getD none) ::
      sliceRounds (rest.drop (chunkBytes - 1)) writes.tail
termination_by data => data.length
decreasing_by
  simp only [List.length_drop, List.length_cons]
  omega

namespace ArtifactStore

/-- `store_stream`. -/
def storeStream (store : ArtifactStore) (disk : Disk) (r : Request) (maxBytes : Nat)
    (rounds : List Round) (w : StreamWorld) : Disk × Except ArtifactError ArtifactMetadata :=
  if ¬ r.allowed then (disk, .error (.accessDenied r.scope))
  else
    let spool := store.spoolFile r.id w.nanos
    match w.created with
    | some e => (disk, .error (.io e))
    | none =>
      match spoolRounds maxBytes rounds [] with
      | .error e => (disk.set spool w.left, .error e)
      | .ok bytes =>
        match w.flushed with
        | some e => (disk.set spool w.left, .error (.io e))
        | none =>
          let disk := disk.set spool (some bytes)
          match store.blobPath (contentHash bytes) with
          | .error e => (disk, .error e)
          | .ok target =>
            let metadata := r.metadata (contentHash bytes) bytes.length w.now
            if w.seen ∧ (disk target).isSome then (discard disk spool w.discarded, .ok metadata)
            else
              match move disk spool target w.moving with
              | (disk, .error e) => (disk, .error (.io e))
              | (disk, .ok ()) => (disk, .ok metadata)

/-- `store_bytes`. -/
def storeBytes (store : ArtifactStore) (disk : Disk) (r : Request) (data : List UInt8)
    (maxBytes : Nat) (writes : List (Option String)) (w : StreamWorld) :
    Disk × Except ArtifactError ArtifactMetadata :=
  if maxBytes < data.length then (disk, .error (.limitExceeded maxBytes data.length))
  else store.storeStream disk r maxBytes (sliceRounds data writes) w

/-- `ingest_spooled_file`. -/
def ingestSpooledFile (store : ArtifactStore) (disk : Disk) (r : Request)
    (sourcePath expectedHash : String) (byteLength : Nat) (w : IngestWorld) :
    Disk × Except ArtifactError ArtifactMetadata :=
  if ¬ r.allowed then (disk, .error (.accessDenied r.scope))
  else
    match store.blobPath expectedHash with
    | .error e => (disk, .error e)
    | .ok target =>
      let metadata := r.metadata expectedHash byteLength w.now
      if w.seen ∧ (disk target).isSome then (discard disk sourcePath w.sourceRemoved, .ok metadata)
      else
        match move disk sourcePath target w.moving with
        | (disk, .error e) => (disk, .error (.io e))
        | (disk, .ok ()) =>
          match hashFile disk target w.hashed with
          | .error e => (disk, .error (.io e))
          | .ok actual =>
            if actual ≠ expectedHash then
              (discard disk target w.targetRemoved, .error (.corrupted expectedHash actual))
            else (disk, .ok metadata)

end ArtifactStore

/-! ## Runs of a store -/

/-- A call of the store, or a write of another program to a file of its own. -/
inductive StoreCall where
  | storeStream (r : Request) (maxBytes : Nat) (rounds : List Round) (w : StreamWorld)
  | storeBytes (r : Request) (data : List UInt8) (maxBytes : Nat) (writes : List (Option String))
      (w : StreamWorld)
  | ingestSpooledFile (r : Request) (sourcePath expectedHash : String) (byteLength : Nat)
      (w : IngestWorld)
  | written (path : String) (content : Option (List UInt8))

/-- Metadata that a call has returned, with the bytes and the limit that were given for it. -/
structure Returned where
  metadata : ArtifactMetadata
  given : Option (List UInt8)
  limit : Option Nat

/-- The disk of a store, and what its calls have returned. -/
structure StoreState where
  disk : Disk
  returned : List Returned

/-- What a call that succeeds adds to what is returned. -/
def StoreState.after (s : StoreState) (given : Option (List UInt8)) (limit : Option Nat) :
    Disk × Except ArtifactError ArtifactMetadata → StoreState
  | (disk, .error _) => ⟨disk, s.returned⟩
  | (disk, .ok metadata) => ⟨disk, ⟨metadata, given, limit⟩ :: s.returned⟩

namespace ArtifactStore

/-- One call. -/
def step (store : ArtifactStore) (s : StoreState) : StoreCall → StoreState
  | .storeStream r maxBytes rounds w =>
      s.after (some (delivered rounds)) (some maxBytes)
        (store.storeStream s.disk r maxBytes rounds w)
  | .storeBytes r data maxBytes writes w =>
      s.after (some data) (some maxBytes) (store.storeBytes s.disk r data maxBytes writes w)
  | .ingestSpooledFile r sourcePath expectedHash byteLength w =>
      s.after (s.disk sourcePath) none
        (store.ingestSpooledFile s.disk r sourcePath expectedHash byteLength w)
  | .written path content => { s with disk := s.disk.set path content }

end ArtifactStore

end Omp2.Runtime
