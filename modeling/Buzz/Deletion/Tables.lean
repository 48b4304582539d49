import Buzz.Deletion.Manifest
import Buzz.Lib.Keyed
import Buzz.Lib.Locking

/-!
# The deletion tables

The control plane of `buzz-db/src/deletion.rs` with the constraints of migrations 0029 and 0030:
communities with their write fence, deletion requests with their lease, approvals, checkpoints,
key chunks, and the serving write leases. `postgres` executes the statements.

An instant is counted in microseconds. A plain `SELECT` sees what is committed and takes no lock;
an `UPDATE`, a `DELETE` and a `SELECT … FOR UPDATE` wait for the rows that they match and look at
their conditions once they have them. The GUCs that `set_executor_gucs` sets make the tombstone
trigger let its transaction pass; they are left out with the trigger.
-/
namespace Deletion

open Lib Nostr Relay Locking

inductive DeletionStage where
  | submitted
  | inventoried
  | approved
  | fenced
  | drained
  | bindingsRemoved
  | postgresPurged
  | cachePurged
  | logicallyVerified
  | retentionPending
  | aborted
deriving DecidableEq

namespace DeletionStage

/-- Next legal stage, if this is not terminal. -/
def next : DeletionStage → Option DeletionStage
  | submitted => some inventoried
  | inventoried => some approved
  | approved => some fenced
  | fenced => some drained
  | drained => some bindingsRemoved
  | bindingsRemoved => some postgresPurged
  | postgresPurged => some cachePurged
  | cachePurged => some logicallyVerified
  | logicallyVerified => some retentionPending
  | retentionPending | aborted => none

/-- Whether execution may claim this stage. -/
def runnable : DeletionStage → Bool
  | approved | fenced | drained | bindingsRemoved | postgresPurged | cachePurged
  | logicallyVerified => true
  | _ => false

protected def toString : DeletionStage → String
  | submitted => "submitted"
  | inventoried => "inventoried"
  | approved => "approved"
  | fenced => "fenced"
  | drained => "drained"
  | bindingsRemoved => "bindings_removed"
  | postgresPurged => "postgres_purged"
  | cachePurged => "cache_purged"
  | logicallyVerified => "logically_verified"
  | retentionPending => "retention_pending"
  | aborted => "aborted"

end DeletionStage

/-- `communities.deletion_state`. -/
inductive DeletionState where
  | active
  | quiescing
  | fenced
  | tombstone
deriving DecidableEq

def DeletionState.toString : DeletionState → String
  | active => "active"
  | quiescing => "quiescing"
  | fenced => "fenced"
  | tombstone => "tombstone"

structure Community where
  id : CommunityId
  host : String
  deletionState : DeletionState := .active
  deletionFenceGeneration : Nat := 0
  archivedAt : Option Int := none
  deletedAt : Option Int := none
deriving DecidableEq

structure DeletionRequest where
  id : Uuid
  communityId : CommunityId
  requestedBy : String
  stage : DeletionStage := .submitted
  inventoryManifest : Option FrozenInventory := none
  inventoryDigest : Option (List UInt8) := none
  destructiveStorageManifest : Option StorageManifest := none
  destructiveStorageFrozenAt : Option Int := none
  fenceGeneration : Option Nat := none
  leaseOwner : Option String := none
  /-- A `BIGINT` that each claim raises by one; that it overflows is left out. -/
  leaseGeneration : Nat := 0
  leaseUntil : Option Int := none
  retryCount : Nat := 0
  retryStage : Option DeletionStage := none
  nextAttemptAt : Int
  blockedAt : Option Int := none
  quiescingStartedAt : Option Int := none
  preQuiesceArchivedAt : Option Int := none
deriving DecidableEq

/-- `community_deletion_requests_active_community` leaves aborted requests out. -/
def DeletionRequest.isOpen (request : DeletionRequest) : Prop := request.stage ≠ .aborted

instance (request : DeletionRequest) : Decidable request.isOpen :=
  inferInstanceAs (Decidable (request.stage ≠ .aborted))

structure DeletionApproval where
  requestId : Uuid
  communityId : CommunityId
  inventoryDigest : List UInt8
  approvedBy : String
deriving DecidableEq

/-- Monotonic lease token required by every execution mutation. -/
structure LeaseToken where
  requestId : Uuid
  owner : String
  generation : Nat
  communityId : CommunityId
  fenceGeneration : Option Nat
deriving DecidableEq

/-- A serving write lease, as a row and as its holder has it. -/
structure ServingWriteLease where
  id : Uuid
  communityId : CommunityId
  operation : String
  owner : String
  generation : Nat := 1
  fenceGeneration : Nat
  leaseUntil : Int
deriving DecidableEq

inductive CheckpointStatus where
  | completed
  | failed (error : String)
deriving DecidableEq

structure DeletionCheckpoint where
  requestId : Uuid
  stage : DeletionStage
  unitKey : String
  status : CheckpointStatus
  leaseGeneration : Nat
  attempts : Nat := 1
deriving DecidableEq

def DeletionCheckpoint.key (checkpoint : DeletionCheckpoint) : Uuid × DeletionStage × String :=
  (checkpoint.requestId, checkpoint.stage, checkpoint.unitKey)

def ManifestKeyChunk.key (chunk : ManifestKeyChunk) : Uuid × Int := (chunk.requestId, chunk.chunkNo)

structure Tables where
  communities : Keyed Community.id := .empty
  requests : Keyed DeletionRequest.id := .empty
  approvals : Keyed DeletionApproval.requestId := .empty
  servingLeases : Keyed ServingWriteLease.id := .empty
  checkpoints : Keyed DeletionCheckpoint.key := .empty
  chunks : Keyed ManifestKeyChunk.key := .empty

/-- The texts as the source formats them, but for `stale_lease_error`, which quotes the owner. -/
inductive DbError where
  | deletionSafety (text : String)
  | accessDenied (text : String)
  | notFound (text : String)
  | invalidData (text : String)
  | staleLease (token : LeaseToken)
  | servingWritesNotDrained (communityId : CommunityId) (activeCount : Nat)
  /-- What the database itself refuses. -/
  | sqlx
deriving DecidableEq

/-! ### Conditions -/

namespace Tables

/-- The approval of exactly the frozen inventory of the request. -/
def approved (t : Tables) (request : DeletionRequest) : Bool :=
  (t.approvals.get request.id).any fun approval =>
    approval.communityId = request.communityId ∧
      request.inventoryDigest = some approval.inventoryDigest

/-- An open request of the community. -/
def openRequest (t : Tables) (communityId : CommunityId) : Bool :=
  t.requests.rows.any fun request => request.communityId = communityId ∧ request.isOpen

/-- The unexpired serving leases of the community. -/
def activeServingLeases (t : Tables) (communityId : CommunityId) (now : Int) :
    List ServingWriteLease :=
  t.servingLeases.rows.filter fun lease => lease.communityId = communityId ∧ now ≤ lease.leaseUntil

end Tables

namespace LeaseToken

/-- The query of `verify_lease` for one row. -/
def matchesRow (token : LeaseToken) (stage : DeletionStage) (now : Int)
    (request : DeletionRequest) : Bool :=
  request.communityId = token.communityId ∧ request.stage = stage ∧
    request.leaseOwner = some token.owner ∧ request.leaseGeneration = token.generation ∧
    request.leaseUntil.any (now ≤ ·) = true ∧ request.blockedAt = none

/-- What `verify_lease_and_fence` asks for in addition. -/
def fences (t : Tables) (generation : Nat) (request : DeletionRequest) : Bool :=
  request.fenceGeneration = some generation ∧
    (t.communities.get request.communityId).any fun community =>
      (community.deletionState = .fenced ∨ community.deletionState = .tombstone) ∧
        community.deletionFenceGeneration = generation

def valid (token : LeaseToken) (stage : DeletionStage) (fence : Option Nat) (now : Int)
    (t : Tables) : Bool :=
  (t.requests.get token.requestId).any fun request =>
    token.matchesRow stage now request ∧ t.approved request = true ∧
      fence.all (fences t · request) = true

end LeaseToken

namespace ServingWriteLease

/-- The row has the identity of the lease. -/
def sameLease (lease row : ServingWriteLease) : Prop :=
  row.id = lease.id ∧ row.communityId = lease.communityId ∧ row.owner = lease.owner ∧
    row.generation = lease.generation ∧ row.fenceGeneration = lease.fenceGeneration

instance (lease row : ServingWriteLease) : Decidable (lease.sameLease row) :=
  inferInstanceAs (Decidable (_ ∧ _))

/-- The lease is unexpired and its community still is in the generation of the lease. -/
def current (lease : ServingWriteLease) (now : Int) (t : Tables) : Bool :=
  (t.servingLeases.get lease.id).any (fun row => lease.sameLease row ∧ now ≤ row.leaseUntil) &&
    (t.communities.get lease.communityId).any fun community =>
      community.deletedAt = none ∧
        (community.deletionState = .active ∨ community.deletionState = .quiescing) ∧
        community.deletionFenceGeneration = lease.fenceGeneration

end ServingWriteLease

/-! ### Statements -/

inductive Lock where
  /-- `community_deletion_lock_key`. -/
  | advisory (communityId : CommunityId)
  | community (id : CommunityId)
  | request (id : Uuid)
  /-- The entry of the unique index on open requests. -/
  | activeRequest (communityId : CommunityId)
  | servingLease (id : Uuid)
  | chunk (requestId : Uuid) (chunkNo : Int)
deriving DecidableEq

inductive Change where
  | community (row : Community)
  | request (row : DeletionRequest)
  | approval (row : DeletionApproval)
  | servingLease (row : ServingWriteLease)
  | dropServingLease (id : Uuid)
  | checkpoint (row : DeletionCheckpoint)
  | chunk (row : ManifestKeyChunk)
  | stampChunk (requestId : Uuid) (chunkNo : Int) (at_ : Int)
  | dropChunks (requestId : Uuid)

inductive Stmt where
  | advisoryLock (communityId : CommunityId) (mode : Mode)
  | insertRequest (communityHost requestedBy : String) (id : Uuid) (now : Int)
  | selectRequest (id : Uuid)
  /-- `SELECT … FOR UPDATE`. -/
  | lockRequest (id : Uuid) (cond : Tables → DeletionRequest → Bool)
  /-- `UPDATE … RETURNING`. -/
  | updateRequest (id : Uuid) (cond : Tables → DeletionRequest → Bool)
      (set : DeletionRequest → DeletionRequest)
  | selectCommunity (id : CommunityId)
  | lockCommunity (id : CommunityId)
  | updateCommunity (id : CommunityId) (cond : Community → Bool) (set : Community → Community)
  | insertApproval (row : DeletionApproval)
  /-- `verify_lease`, or `verify_lease_and_fence` with a fence generation. -/
  | verifyLease (token : LeaseToken) (stage : DeletionStage) (fence : Option Nat) (now : Int)
  | countServingLeases (communityId : CommunityId) (now : Int)
  | insertServingLease (communityId : CommunityId) (id : Uuid) (operation owner : String)
      (leaseUntil : Int)
  | servingLeaseCurrent (lease : ServingWriteLease) (now : Int)
  | renewServingLease (lease : ServingWriteLease) (now leaseUntil : Int)
  | deleteServingLease (lease : ServingWriteLease)
  | putCheckpoint (row : DeletionCheckpoint)
  | selectChunks (requestId : Uuid)
  | insertChunk (row : ManifestKeyChunk)
  | stampChunk (requestId : Uuid) (chunkNo : Int) (now : Int)
  | deleteChunks (requestId : Uuid)

def Reply : Stmt → Type
  | .advisoryLock _ _ => Unit
  | .insertRequest _ _ _ _ => Except DbError (Option DeletionRequest)
  | .selectRequest _ => Option DeletionRequest
  | .lockRequest _ _ => Option DeletionRequest
  | .updateRequest _ _ _ => Option DeletionRequest
  | .selectCommunity _ => Option Community
  | .lockCommunity _ => Option Community
  | .updateCommunity _ _ _ => Bool
  | .insertApproval _ => Except DbError Unit
  | .verifyLease _ _ _ _ => Bool
  | .countServingLeases _ _ => Nat
  | .insertServingLease _ _ _ _ _ => Except DbError (Option ServingWriteLease)
  | .servingLeaseCurrent _ _ => Bool
  | .renewServingLease _ _ _ => Option Int
  | .deleteServingLease _ => Bool
  | .putCheckpoint _ => Unit
  | .selectChunks _ => List ManifestKeyChunk
  | .insertChunk _ => Except DbError Unit
  | .stampChunk _ _ _ => Bool
  | .deleteChunks _ => Except DbError Unit

def apply (t : Tables) : Change → Tables
  | .community row => { t with communities := t.communities.put row }
  | .request row => { t with requests := t.requests.put row }
  | .approval row => { t with approvals := t.approvals.put row }
  | .servingLease row => { t with servingLeases := t.servingLeases.put row }
  | .dropServingLease id => { t with servingLeases := t.servingLeases.drop (·.id = id) }
  | .checkpoint row =>
    -- `ON CONFLICT … DO UPDATE` counts one more attempt
    let attempts := ((t.checkpoints.get row.key).map fun old => old.attempts + 1).getD row.attempts
    { t with checkpoints := t.checkpoints.put { row with attempts } }
  | .chunk row => { t with chunks := t.chunks.put row }
  | .stampChunk requestId chunkNo at_ =>
    match t.chunks.get (requestId, chunkNo) with
    | some row => { t with chunks := t.chunks.put { row with deletedAt := some at_ } }
    | none => t
  | .dropChunks requestId => { t with chunks := t.chunks.drop (·.requestId = requestId) }

/-- The community of the host, if it may be submitted. -/
def submittable (t : Tables) (communityHost : String) : Option Community :=
  t.communities.rows.find? fun community =>
    community.host.toLower = communityHost.toLower ∧ community.deletionState = .active ∧
      community.deletedAt = none

/-- `protect_community_deletion_manifest_keys` for an insert. -/
def admitsChunks (t : Tables) (requestId : Uuid) : Bool :=
  (t.requests.get requestId).any fun request =>
    request.destructiveStorageFrozenAt = none ∧ request.stage = .fenced

/-- `protect_community_deletion_manifest_keys` for a delete. -/
def releasesChunks (t : Tables) (requestId : Uuid) : Bool :=
  (t.requests.get requestId).all fun request =>
    request.destructiveStorageFrozenAt = none ∨ request.stage = .logicallyVerified ∨
      request.stage = .retentionPending

def hasChunks (t : Tables) (requestId : Uuid) : Bool := t.chunks.rows.any (·.requestId = requestId)

def exec : (stmt : Stmt) → Tables → Reply stmt × List Change
  | .advisoryLock _ _, _ => ((), [])
  | .insertRequest communityHost requestedBy id now, t =>
    match submittable t communityHost with
    | none => (.ok none, [])
    | some community =>
      if t.openRequest community.id then
        (.ok (t.requests.rows.find? fun request => request.communityId = community.id ∧
          request.stage = .submitted ∧ request.requestedBy = requestedBy), [])
      else if (t.requests.get id).isSome then (.error .sqlx, [])
      else
        let row : DeletionRequest := { id, communityId := community.id, requestedBy, nextAttemptAt := now }
        (.ok (some row), [.request row])
  | .selectRequest id, t => (t.requests.get id, [])
  | .lockRequest id cond, t => ((t.requests.get id).filter (cond t), [])
  | .updateRequest id cond set, t =>
    match (t.requests.get id).filter (cond t) with
    | some request => (some (set request), [.request (set request)])
    | none => (none, [])
  | .selectCommunity id, t => (t.communities.get id, [])
  | .lockCommunity id, t => (t.communities.get id, [])
  | .updateCommunity id cond set, t =>
    match (t.communities.get id).filter cond with
    | some community => (true, [.community (set community)])
    | none => (false, [])
  | .insertApproval row, t =>
    if (t.approvals.get row.requestId).isSome then (.error .sqlx, []) else (.ok (), [.approval row])
  | .verifyLease token stage fence now, t => (token.valid stage fence now t, [])
  | .countServingLeases communityId now, t => ((t.activeServingLeases communityId now).length, [])
  | .insertServingLease communityId id operation owner leaseUntil, t =>
    match (t.communities.get communityId).filter fun community =>
        community.deletionState = .active ∧ community.deletedAt = none with
    | none => (.ok none, [])
    | some community =>
      if (t.servingLeases.get id).isSome then (.error .sqlx, [])
      else
        let row : ServingWriteLease :=
          { id, communityId, operation, owner
            fenceGeneration := community.deletionFenceGeneration, leaseUntil }
        (.ok (some row), [.servingLease row])
  | .servingLeaseCurrent lease now, t => (lease.current now t, [])
  | .renewServingLease lease now leaseUntil, t =>
    match (t.servingLeases.get lease.id).filter fun _ => lease.current now t with
    | some row => (some leaseUntil, [.servingLease { row with leaseUntil }])
    | none => (none, [])
  | .deleteServingLease lease, t =>
    match (t.servingLeases.get lease.id).filter fun row => lease.sameLease row with
    | some row => (true, [.dropServingLease row.id])
    | none => (false, [])
  | .putCheckpoint row, _ => ((), [.checkpoint row])
  | .selectChunks requestId, t =>
    ((t.chunks.rows.filter (·.requestId = requestId)).mergeSort (·.chunkNo ≤ ·.chunkNo), [])
  | .insertChunk row, t =>
    if admitsChunks t row.requestId ∧ (t.chunks.get row.key).isNone then (.ok (), [.chunk row])
    else (.error .sqlx, [])
  | .stampChunk requestId chunkNo now, t =>
    match (t.chunks.get (requestId, chunkNo)).filter (·.deletedAt = none) with
    | some _ => (true, [.stampChunk requestId chunkNo now])
    | none => (false, [])
  | .deleteChunks requestId, t =>
    if hasChunks t requestId then
      if releasesChunks t requestId then (.ok (), [.dropChunks requestId]) else (.error .sqlx, [])
    else (.ok (), [])

/-- Locks of rows that the statement reads or writes. The waits for a chunk that is being stamped
and for a checkpoint that is being written are left out: they only take interleavings away. -/
def locks : Stmt → Tables → List (Lock × Mode)
  | .advisoryLock communityId mode, _ => [(.advisory communityId, mode)]
  | .insertRequest communityHost _ id _, t =>
    match submittable t communityHost with
    | none => []
    | some community =>
      if t.openRequest community.id then []
      else [(.activeRequest community.id, .exclusive), (.request id, .exclusive)]
  | .lockRequest id cond, t =>
    if ((t.requests.get id).filter (cond t)).isSome then [(.request id, .exclusive)] else []
  | .updateRequest id cond _, t =>
    if ((t.requests.get id).filter (cond t)).isSome then [(.request id, .exclusive)] else []
  | .lockCommunity id, t =>
    if (t.communities.get id).isSome then [(.community id, .exclusive)] else []
  | .updateCommunity id cond _, t =>
    if ((t.communities.get id).filter cond).isSome then [(.community id, .exclusive)] else []
  | .insertServingLease _ id _ _ _, _ => [(.servingLease id, .exclusive)]
  | .renewServingLease lease now _, t =>
    if lease.current now t then [(.servingLease lease.id, .exclusive)] else []
  | .deleteServingLease lease, t =>
    if ((t.servingLeases.get lease.id).filter fun row => lease.sameLease row).isSome then
      [(.servingLease lease.id, .exclusive)]
    else []
  | .insertChunk row, _ => [(.request row.requestId, .exclusive)]
  | .stampChunk requestId chunkNo _, t =>
    if ((t.chunks.get (requestId, chunkNo)).filter (·.deletedAt = none)).isSome then
      [(.chunk requestId chunkNo, .exclusive)]
    else []
  | .deleteChunks requestId, t =>
    if hasChunks t requestId then [(.request requestId, .exclusive)] else []
  | _, _ => []

def postgres : Database Stmt Reply Lock Change Tables where
  locks := locks
  exec := exec
  apply := apply

end Deletion
