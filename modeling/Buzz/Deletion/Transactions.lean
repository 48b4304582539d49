import Buzz.Deletion.Tables
import Buzz.Lib.Text

/-!
# The transactions of the deletion store

Every method of `DeletionStore` that writes, one transaction each. The rows of tenant tables that
`purge_postgres` deletes, the details of checkpoints and the executors' own heartbeats are left
out. What a transaction gets from elsewhere is an argument: new row ids, the clock of the client,
and the answer of `validate_catalog_on`. `claim` gets the row that its `SKIP LOCKED` query picks.
-/
namespace Deletion

open Lib Nostr Relay Locking

abbrev Tx := Task Stmt Reply DbError

def ask (stmt : Stmt) : Tx (Reply stmt) := Task.ask stmt

/-- `ok_or_else(..)?`. -/
def found {α : Type} (row : Option α) (e : DbError) : Tx α :=
  match row with
  | some a => pure a
  | none => throw e

/-- `?`. -/
def accepted {α : Type} (result : Except DbError α) : Tx α :=
  match result with
  | .ok a => pure a
  | .error e => throw e

/-- A check of the manifests. -/
def safely {α : Type} (result : Except String α) : Tx α :=
  match result with
  | .ok a => pure a
  | .error text => throw (.deletionSafety text)

/-- `now() + make_interval(secs => ..)`. -/
def after (now : Int) (secs : Nat) : Int := now + 1000000 * min secs (2 ^ 63 - 1)

def requireFenceGeneration (token : LeaseToken) : Tx Nat :=
  found token.fenceGeneration
    (.deletionSafety ("deletion " ++ token.requestId.toString ++ " has no durable fence generation"))

/-- `checked_add(1)` on an `i64`. -/
def nextGeneration (generation : Nat) : Option Nat :=
  if generation + 1 < 2 ^ 63 then some (generation + 1) else none

/-! ### Shared steps -/

def verifyLease (now : Int) (token : LeaseToken) (stage : DeletionStage) : Tx Unit := do
  let valid : Bool ← ask (.verifyLease token stage none now)
  Task.guard (valid = true) (.staleLease token)

def verifyLeaseAndFence (now : Int) (token : LeaseToken) (stage : DeletionStage)
    (fenceGeneration : Nat) : Tx Unit := do
  let valid : Bool ← ask (.verifyLease token stage (some fenceGeneration) now)
  Task.guard (valid = true) (.accessDenied
    ("stale lease or fencing generation for deletion " ++ token.requestId.toString))

def advanceRequestTx (now : Int) (token : LeaseToken) (source target : DeletionStage)
    (fenceGeneration : Option Nat) : Tx Unit := do
  Task.guard (source.next = some target) (.deletionSafety
    ("illegal deletion transition " ++ source.toString ++ " -> " ++ target.toString))
  let row : Option DeletionRequest ← ask (.updateRequest token.requestId
    (fun _ request => request.stage = source ∧ request.leaseOwner = some token.owner ∧
      request.leaseGeneration = token.generation ∧ request.leaseUntil.any (now ≤ ·) = true ∧
      request.blockedAt = none)
    (fun request => { request with
      stage := target
      fenceGeneration := fenceGeneration.or request.fenceGeneration
      retryCount := 0
      retryStage := none }))
  Task.guard (row.isSome = true) (.staleLease token)

def checkpointCompletedTx (token : LeaseToken) (stage : DeletionStage) (unitKey : String) :
    Tx Unit :=
  ask (.putCheckpoint ⟨token.requestId, stage, unitKey, .completed, token.generation, 1⟩)

def checkpointFailedTx (token : LeaseToken) (stage : DeletionStage) (unitKey error : String) :
    Tx Unit :=
  ask (.putCheckpoint ⟨token.requestId, stage, unitKey, .failed error, token.generation, 1⟩)

/-- `bound_text`: the longest beginning of at most `max` bytes. -/
def boundText (input : String) (max : Nat) : String :=
  String.ofList ((input.toList.inits.filter fun start =>
    (start.map Char.utf8Size).sum ≤ max).getLastD [])

/-! ### Operators -/

def submit (now : Int) (communityHost requestedBy : String) (id : Uuid) : Tx DeletionRequest := do
  let row : Except DbError (Option DeletionRequest) ←
    ask (.insertRequest communityHost requestedBy id now)
  let row ← accepted row
  found row (.deletionSafety
    ("community \"" ++ communityHost ++ "\" is missing, already requested, fenced, or tombstoned"))

def freezeInventory (hashes : Hashes) (requestId : Uuid) (inventory : FrozenInventory) :
    Tx DeletionRequest := do
  safely (validateStorageManifest inventory.storage)
  let row : Option DeletionRequest ← ask (.updateRequest requestId
    (fun _ request => request.stage = .submitted ∧ request.blockedAt = none)
    (fun request => { request with
      stage := .inventoried
      inventoryManifest := some inventory
      inventoryDigest := some (hashes.inventory inventory) }))
  found row (.deletionSafety
    ("deletion " ++ requestId.toString ++ " is not an unblocked submitted request"))

def approve (hashes : Hashes) (now : Int) (requestId : Uuid) (approvedBy : String) :
    Tx DeletionRequest := do
  let row : Option DeletionRequest ← ask (.lockRequest requestId fun _ request =>
    request.stage = .inventoried ∧ request.blockedAt = none)
  let request ← found row (.deletionSafety
    ("deletion " ++ requestId.toString ++ " is not an unblocked inventoried request"))
  let inventory ← found request.inventoryManifest .sqlx
  let digest ← found request.inventoryDigest .sqlx
  Task.guard (digest = hashes.inventory inventory) (.deletionSafety
    ("deletion " ++ requestId.toString ++ " frozen inventory digest does not match its manifest"))
  let inserted : Except DbError Unit ←
    ask (.insertApproval ⟨requestId, request.communityId, digest, approvedBy⟩)
  accepted inserted
  let row : Option DeletionRequest ← ask (.updateRequest requestId
    (fun _ request => request.stage = .inventoried ∧ request.blockedAt = none)
    (fun request => { request with stage := .approved, nextAttemptAt := now }))
  found row (.deletionSafety
    ("deletion " ++ requestId.toString ++ " changed before approval could be recorded"))

def abort (now : Int) (requestId : Uuid) (abortedBy reason : String) (unit : Uuid) :
    Tx DeletionRequest := do
  Task.guard (trim abortedBy ≠ "" ∧ trim reason ≠ "") (.deletionSafety
    "abort requires non-empty operator identity and reason")
  let row : Option DeletionRequest ← ask (.selectRequest requestId)
  let seen ← found row (.notFound ("community deletion " ++ requestId.toString))
  -- the community lock comes before any row lock
  ask (.advisoryLock seen.communityId .exclusive)
  let row : Option DeletionRequest ← ask (.lockRequest requestId fun _ _ => true)
  let request ← found row (.notFound ("community deletion " ++ requestId.toString))
  Task.guard (request.communityId = seen.communityId) (.deletionSafety ("deletion " ++
    requestId.toString ++ " changed community while abort waited for the community lock"))
  Task.guard (request.stage = .approved ∨ request.stage = .fenced) (.deletionSafety ("deletion " ++
    requestId.toString ++ " at stage " ++ request.stage.toString ++ " cannot be aborted"))
  let activeWrites : Nat ← ask (.countServingLeases request.communityId now)
  Task.guard (activeWrites = 0) (.deletionSafety ("deletion " ++ requestId.toString ++
    " cannot abort while " ++ toString activeWrites ++ " serving write lease(s) remain active"))
  let row : Option Community ← ask (.lockCommunity request.communityId)
  let community ← found row .sqlx
  let newGeneration ← found (nextGeneration community.deletionFenceGeneration)
    (.deletionSafety "community deletion fence generation overflow")
  let restoredArchivedAt :=
    if request.quiescingStartedAt.isSome then request.preQuiesceArchivedAt
    else community.archivedAt
  let restored : Bool ← ask (.updateCommunity request.communityId
    (fun community => community.deletionState ≠ .tombstone ∧ community.deletedAt = none)
    (fun community => { community with
      deletionState := .active
      deletionFenceGeneration := newGeneration
      archivedAt := restoredArchivedAt }))
  Task.guard (restored = true) (.deletionSafety ("community " ++ request.communityId.uuid.toString ++
    " cannot be restored during abort"))
  ask (.putCheckpoint ⟨request.id, request.stage, "operator_abort:" ++ unit.toString, .completed,
    max request.leaseGeneration 1, 1⟩)
  let row : Option DeletionRequest ← ask (.updateRequest request.id (fun _ _ => true)
    (fun request => { request with
      stage := .aborted
      fenceGeneration := some newGeneration
      leaseOwner := none
      leaseUntil := none
      leaseGeneration := request.leaseGeneration + 1
      blockedAt := none
      retryCount := 0
      retryStage := none
      nextAttemptAt := now }))
  found row .sqlx

/-- The checks of `unblock` and `block_preclaim_setup` on the locked row. -/
def idle (utcNow : Int) (request : DeletionRequest) : Bool :=
  ¬ (request.leaseOwner.isSome = true ∧ request.leaseUntil.any (utcNow ≤ ·) = true)

def terminal (stage : DeletionStage) : Bool := stage = .retentionPending ∨ stage = .aborted

def unblock (now utcNow : Int) (requestId : Uuid) (unblockedBy reason : String) (unit : Uuid) :
    Tx DeletionRequest := do
  Task.guard (trim unblockedBy ≠ "" ∧ trim reason ≠ "") (.invalidData
    "unblock requires non-empty operator identity and remediation reason")
  let row : Option DeletionRequest ←
    ask (.lockRequest requestId fun _ request => request.blockedAt.isSome)
  let request ← found row (.deletionSafety
    ("deletion " ++ requestId.toString ++ " is missing or is not blocked"))
  Task.guard (¬ terminal request.stage) (.deletionSafety ("blocked deletion " ++
    requestId.toString ++ " at terminal stage " ++ request.stage.toString ++ " cannot resume"))
  Task.guard (idle utcNow request) (.deletionSafety ("blocked deletion " ++ requestId.toString ++
    " still has a live executor lease"))
  ask (.putCheckpoint ⟨request.id, request.stage, "operator_unblock:" ++ unit.toString, .completed,
    max request.leaseGeneration 1, 1⟩)
  let row : Option DeletionRequest ← ask (.updateRequest requestId
    (fun _ request => request.blockedAt.isSome)
    (fun request => { request with
      blockedAt := none
      retryCount := 0
      retryStage := none
      nextAttemptAt := now
      leaseOwner := none
      leaseUntil := none }))
  found row .sqlx

def blockPreclaimSetup (now utcNow : Int) (requestId : Uuid) (unitKey error : String) :
    Tx DeletionRequest := do
  let row : Option DeletionRequest ← ask (.lockRequest requestId fun _ _ => true)
  let request ← found row (.notFound ("community deletion " ++ requestId.toString))
  Task.guard (¬ terminal request.stage) (.deletionSafety ("deletion " ++ requestId.toString ++
    " at terminal stage " ++ request.stage.toString ++ " cannot record a setup failure"))
  Task.guard (idle utcNow request) (.deletionSafety ("deletion " ++ requestId.toString ++
    " is leased by another executor"))
  ask (.putCheckpoint ⟨request.id, request.stage, unitKey, .failed (boundText error 4096),
    max request.leaseGeneration 1, 1⟩)
  let row : Option DeletionRequest ← ask (.updateRequest requestId (fun _ _ => true)
    (fun request => { request with blockedAt := some now }))
  found row .sqlx

/-! ### Claims -/

/-- What the candidate query of `claim` asks for. -/
def claimable (now : Int) (t : Tables) (request : DeletionRequest) : Bool :=
  t.approved request = true ∧ request.stage.runnable = true ∧ request.blockedAt = none ∧
    request.nextAttemptAt ≤ now ∧ request.leaseUntil.all (· < now) = true

/-- The catalog does not pass: the request is blocked. -/
def blockCandidate (now : Int) (candidate : DeletionRequest) (text : String) :
    Tx (Option LeaseToken) := do
  ask (.putCheckpoint ⟨candidate.id, candidate.stage, "claim:catalog_validation",
    .failed (boundText text 4096), max candidate.leaseGeneration 1, 1⟩)
  let _ ← ask (.updateRequest candidate.id (fun _ _ => true)
    (fun request => { request with
      blockedAt := some now
      leaseOwner := none
      leaseUntil := none }))
  return none

def takeLease (now : Int) (candidate : DeletionRequest) (owner : String) (leaseSeconds : Nat) :
    Tx (Option LeaseToken) := do
  let row : Option DeletionRequest ← ask (.updateRequest candidate.id (fun _ _ => true)
    (fun request => { request with
      leaseOwner := some owner
      leaseGeneration := request.leaseGeneration + 1
      leaseUntil := some (after now leaseSeconds) }))
  let request ← found row .sqlx
  return some
    { requestId := request.id, owner, generation := request.leaseGeneration
      communityId := request.communityId, fenceGeneration := request.fenceGeneration }

def claim (now : Int) (requestId : Uuid) (owner : String) (leaseSeconds : Nat)
    (catalog : Except String Unit) : Tx (Option LeaseToken) := do
  let row : Option DeletionRequest ← ask (.lockRequest requestId (claimable now))
  match row with
  | none => return none
  | some candidate =>
    match catalog with
    | .error text => blockCandidate now candidate text
    | .ok () => takeLease now candidate owner leaseSeconds

def verifyExecutionToken (now : Int) (token : LeaseToken) (stage : DeletionStage) : Tx Unit :=
  match token.fenceGeneration with
  | some generation => verifyLeaseAndFence now token stage generation
  | none => verifyLease now token stage

def heartbeat (now : Int) (token : LeaseToken) (leaseSeconds : Nat) : Tx Unit := do
  let row : Option DeletionRequest ← ask (.updateRequest token.requestId
    (fun t request => request.leaseOwner = some token.owner ∧
      request.leaseGeneration = token.generation ∧ request.leaseUntil.any (now ≤ ·) = true ∧
      request.blockedAt = none ∧ request.stage.runnable = true ∧ t.approved request = true)
    (fun request => { request with leaseUntil := some (after now leaseSeconds) }))
  Task.guard (row.isSome = true) (.staleLease token)

def stopExecutor (token : Option LeaseToken) : Tx Unit :=
  match token with
  | none => pure ()
  | some token => do
    let _ ← ask (.updateRequest token.requestId
      (fun _ request => request.leaseOwner = some token.owner ∧
        request.leaseGeneration = token.generation)
      (fun request => { request with leaseOwner := none, leaseUntil := none }))

/-! ### Quiescing and fencing -/

def beginQuiescing (now : Int) (token : LeaseToken) : Tx Unit := do
  verifyLease now token .approved
  ask (.advisoryLock token.communityId .exclusive)
  verifyLease now token .approved
  let row : Option Community ← ask (.lockCommunity token.communityId)
  let community ← found row .sqlx
  let _ ← ask (.updateRequest token.requestId
    (fun _ request => request.quiescingStartedAt = none)
    (fun request => { request with
      preQuiesceArchivedAt := community.archivedAt
      quiescingStartedAt := some now }))
  let entered : Bool ← ask (.updateCommunity token.communityId
    (fun community => (community.deletionState = .active ∨ community.deletionState = .quiescing) ∧
      community.deletedAt = none)
    (fun community => { community with
      deletionState := .quiescing
      archivedAt := community.archivedAt.or (some now) }))
  Task.guard (entered = true) (.deletionSafety
    ("community " ++ token.communityId.uuid.toString ++ " cannot enter quiescing"))
  checkpointCompletedTx token .approved "quiesce_serving_writes"

def fence (now : Int) (token : LeaseToken) : Tx Nat := do
  verifyLease now token .approved
  ask (.advisoryLock token.communityId .exclusive)
  verifyLease now token .approved
  let activeCount : Nat ← ask (.countServingLeases token.communityId now)
  Task.guard (activeCount = 0) (.servingWritesNotDrained token.communityId activeCount)
  let row : Option Community ← ask (.lockCommunity token.communityId)
  let community ← found row .sqlx
  let generation ← found (nextGeneration community.deletionFenceGeneration)
    (.deletionSafety "community deletion fence generation overflow")
  let fenced : Bool ← ask (.updateCommunity token.communityId
    (fun community => community.deletionState = .quiescing)
    (fun community => { community with
      deletionState := .fenced
      deletionFenceGeneration := generation
      archivedAt := community.archivedAt.or (some now) }))
  Task.guard (fenced = true) (.deletionSafety
    ("community " ++ token.communityId.uuid.toString ++ " is no longer quiescing while fencing"))
  advanceRequestTx now token .approved .fenced (some generation)
  checkpointCompletedTx token .approved "activate_fence"
  return generation

/-! ### Storage -/

def freezeDestructiveStorageManifest (hashes : Hashes) (now : Int) (token : LeaseToken)
    (manifest : StorageManifest) : Tx Unit := do
  let generation ← requireFenceGeneration token
  let row : Option DeletionRequest ← ask (.lockRequest token.requestId fun _ _ => true)
  let _ ← found row (.deletionSafety
    ("deletion request " ++ token.requestId.toString ++ " disappeared before manifest freeze"))
  verifyLeaseAndFence now token .fenced generation
  safely (validateStorageManifest manifest)
  let chunks : List ManifestKeyChunk ← ask (.selectChunks token.requestId)
  safely (validateManifestKeyChunks hashes manifest chunks)
  let row : Option DeletionRequest ← ask (.updateRequest token.requestId
    (fun _ request => request.leaseOwner = some token.owner ∧
      request.leaseGeneration = token.generation ∧ request.stage = .fenced ∧
      request.destructiveStorageManifest.all (· = manifest) = true)
    (fun request => { request with
      destructiveStorageManifest := request.destructiveStorageManifest.or (some manifest)
      destructiveStorageFrozenAt := request.destructiveStorageFrozenAt.or (some now) }))
  Task.guard (row.isSome = true) (.deletionSafety
    ("destructive storage manifest changed or deletion lease is stale for request " ++
      token.requestId.toString))

def clearManifestKeyChunks (now : Int) (token : LeaseToken) : Tx Unit := do
  let generation ← requireFenceGeneration token
  verifyLeaseAndFence now token .fenced generation
  let cleared : Except DbError Unit ← ask (.deleteChunks token.requestId)
  accepted cleared

def appendManifestKeyChunk (now : Int) (token : LeaseToken) (chunkNo : Int)
    (pathPrefix : String) (keys : List String) : Tx Unit := do
  Task.guard (keys ≠ []) (.deletionSafety "refusing to persist an empty manifest key chunk")
  let generation ← requireFenceGeneration token
  verifyLeaseAndFence now token .fenced generation
  let inserted : Except DbError Unit ←
    ask (.insertChunk ⟨token.requestId, chunkNo, pathPrefix, keys, none⟩)
  accepted inserted

def markManifestChunkDeleted (now : Int) (token : LeaseToken) (chunkNo : Int) : Tx Unit := do
  let generation ← requireFenceGeneration token
  verifyLeaseAndFence now token .drained generation
  let stamped : Bool ← ask (.stampChunk token.requestId chunkNo now)
  Task.guard (stamped = true) (.deletionSafety ("manifest key chunk " ++ toString chunkNo ++
    " is missing or already stamped for request " ++ token.requestId.toString))
  checkpointCompletedTx token .drained ("chunk:" ++ toString chunkNo)

/-! ### The later stages -/

def markDrained (now : Int) (token : LeaseToken) : Tx Unit := do
  let generation ← requireFenceGeneration token
  verifyLeaseAndFence now token .fenced generation
  let activeCount : Nat ← ask (.countServingLeases token.communityId now)
  Task.guard (activeCount = 0) (.deletionSafety "serving writes have not drained")
  advanceRequestTx now token .fenced .drained (some generation)
  checkpointCompletedTx token .fenced "serving_writes_drained"

def advanceWithCheckpoint (now : Int) (token : LeaseToken) (source target : DeletionStage)
    (unitKey : String) : Tx Unit := do
  let generation ← requireFenceGeneration token
  verifyLeaseAndFence now token source generation
  advanceRequestTx now token source target (some generation)
  checkpointCompletedTx token source unitKey

def markBindingsRemoved (now : Int) (token : LeaseToken) : Tx Unit :=
  advanceWithCheckpoint now token .drained .bindingsRemoved "remove_storage_bindings"

def purgePostgres (now : Int) (token : LeaseToken) (catalog : Except String Unit) : Tx Unit := do
  let generation ← requireFenceGeneration token
  safely catalog
  verifyLeaseAndFence now token .bindingsRemoved generation
  let purged : Bool ← ask (.updateCommunity token.communityId
    (fun community => community.deletionState = .fenced ∧
      community.deletionFenceGeneration = generation)
    (fun community => { community with
      deletionState := .tombstone
      deletedAt := community.deletedAt.or (some now)
      archivedAt := community.archivedAt.or (some now) }))
  Task.guard (purged = true) (.deletionSafety
    ("community " ++ token.communityId.uuid.toString ++ " tombstone update affected 0 rows"))
  advanceRequestTx now token .bindingsRemoved .postgresPurged (some generation)
  checkpointCompletedTx token .bindingsRemoved "postgres_tombstone_committed"

def markCachePurged (now : Int) (token : LeaseToken) : Tx Unit :=
  advanceWithCheckpoint now token .postgresPurged .cachePurged "purge_cache_namespace"

def markLogicallyVerified (now : Int) (token : LeaseToken) : Tx Unit := do
  let generation ← requireFenceGeneration token
  verifyLeaseAndFence now token .cachePurged generation
  advanceRequestTx now token .cachePurged .logicallyVerified (some generation)
  checkpointCompletedTx token .cachePurged "verify_cross_store_absence"
  let cleared : Except DbError Unit ← ask (.deleteChunks token.requestId)
  accepted cleared

def markRetentionPending (now : Int) (token : LeaseToken) : Tx Unit := do
  let generation ← requireFenceGeneration token
  verifyLeaseAndFence now token .logicallyVerified generation
  checkpointCompletedTx token .logicallyVerified "retention_physical_expiry_pending"
  let row : Option DeletionRequest ← ask (.updateRequest token.requestId
    (fun _ request => request.stage = .logicallyVerified ∧ request.leaseOwner = some token.owner ∧
      request.leaseGeneration = token.generation ∧ request.leaseUntil.any (now ≤ ·) = true ∧
      request.fenceGeneration = some generation)
    (fun request => { request with
      stage := .retentionPending
      leaseOwner := none
      leaseUntil := none
      retryCount := 0
      retryStage := none }))
  Task.guard (row.isSome = true) (.staleLease token)

/-! ### Failures of an executor -/

/-- The row gives its lease back, if the token still has it. -/
def ownedBy (token : LeaseToken) (_ : Tables) (request : DeletionRequest) : Bool :=
  request.leaseOwner = some token.owner ∧ request.leaseGeneration = token.generation

def recordRetry (now : Int) (token : LeaseToken) (stage : DeletionStage) (unitKey error : String)
    (retrySeconds : Nat) : Tx Unit := do
  verifyLease now token stage
  let row : Option DeletionRequest ← ask (.lockRequest token.requestId fun _ _ => true)
  let request ← found row .sqlx
  let consecutiveRetries := if request.retryStage = some stage then request.retryCount + 1 else 1
  let exhausted : Bool := 8 ≤ consecutiveRetries
  checkpointFailedTx token stage unitKey (boundText error 4096)
  let _ ← ask (.updateRequest token.requestId (ownedBy token)
    (fun request => { request with
      retryCount := consecutiveRetries
      retryStage := some stage
      nextAttemptAt := if exhausted then request.nextAttemptAt else after now retrySeconds
      blockedAt := if exhausted then some now else request.blockedAt
      leaseOwner := none
      leaseUntil := none }))

def block (now : Int) (token : LeaseToken) (stage : DeletionStage) (unitKey error : String) :
    Tx Unit := do
  verifyLease now token stage
  checkpointFailedTx token stage unitKey (boundText error 4096)
  let _ ← ask (.updateRequest token.requestId (ownedBy token)
    (fun request => { request with
      blockedAt := some now
      leaseOwner := none
      leaseUntil := none }))

/-! ### Serving write leases -/

def writeFenced (community : CommunityId) : DbError :=
  .accessDenied ("community " ++ community.uuid.toString ++ " is write-fenced or missing")

def staleServingLease (lease : ServingWriteLease) : DbError :=
  .accessDenied ("stale serving write lease " ++ lease.id.toString)

/-- `assert_community_write_allowed` in a transaction without GUCs. -/
def assertCommunityWriteAllowed (community : CommunityId) : Tx Unit := do
  ask (.advisoryLock community .shared)
  let row : Option Community ← ask (.selectCommunity community)
  let row ← found row (writeFenced community)
  Task.guard (row.deletionState = .active) (writeFenced community)

/-- The transaction goes on with its own work on tenant rows. -/
def guardTransaction (community : CommunityId) : Tx Unit := do
  ask (.advisoryLock community .shared)
  let row : Option Community ← ask (.selectCommunity community)
  let row ← found (row.filter (·.deletedAt = none)) (.accessDenied
    ("community " ++ community.uuid.toString ++ " is missing or tombstoned"))
  Task.guard (row.deletionState = .active) (.accessDenied
    ("community " ++ community.uuid.toString ++ " is write-fenced (" ++
      row.deletionState.toString ++ ")"))

def guardTransactionWithServingLease (now : Int) (lease : ServingWriteLease) : Tx Unit := do
  ask (.advisoryLock lease.communityId .shared)
  let valid : Bool ← ask (.servingLeaseCurrent lease now)
  Task.guard (valid = true) (staleServingLease lease)

def acquireServingWriteLease (now : Int) (community : CommunityId) (operation owner : String)
    (leaseSeconds : Nat) (id : Uuid) : Tx ServingWriteLease := do
  assertCommunityWriteAllowed community
  let row : Except DbError (Option ServingWriteLease) ←
    ask (.insertServingLease community id operation owner (after now leaseSeconds))
  let row ← accepted row
  found row (writeFenced community)

def renewServingWriteLease (now : Int) (lease : ServingWriteLease) (leaseSeconds : Nat) :
    Tx ServingWriteLease := do
  ask (.advisoryLock lease.communityId .shared)
  let leaseUntil : Option Int ← ask (.renewServingLease lease now (after now leaseSeconds))
  let leaseUntil ← found leaseUntil (staleServingLease lease)
  return { lease with leaseUntil }

def releaseServingWriteLease (lease : ServingWriteLease) : Tx Bool :=
  ask (.deleteServingLease lease)

def verifyServingWriteLease (now : Int) (lease : ServingWriteLease) : Tx Unit := do
  ask (.advisoryLock lease.communityId .shared)
  let valid : Bool ← ask (.servingLeaseCurrent lease now)
  Task.guard (valid = true) (staleServingLease lease)

/-! ### Calls -/

inductive Call where
  | submit (communityHost requestedBy : String) (id : Uuid)
  | freezeInventory (requestId : Uuid) (inventory : FrozenInventory)
  | approve (requestId : Uuid) (approvedBy : String)
  | abort (requestId : Uuid) (abortedBy reason : String) (unit : Uuid)
  | unblock (requestId : Uuid) (unblockedBy reason : String) (unit : Uuid) (utcNow : Int)
  | blockPreclaimSetup (requestId : Uuid) (unitKey error : String) (utcNow : Int)
  | claim (requestId : Uuid) (owner : String) (leaseSeconds : Nat) (catalog : Except String Unit)
  | verifyExecutionToken (token : LeaseToken) (stage : DeletionStage)
  | heartbeat (token : LeaseToken) (leaseSeconds : Nat)
  | stopExecutor (token : Option LeaseToken)
  | beginQuiescing (token : LeaseToken)
  | fence (token : LeaseToken)
  | freezeDestructiveStorageManifest (token : LeaseToken) (manifest : StorageManifest)
  | clearManifestKeyChunks (token : LeaseToken)
  | appendManifestKeyChunk (token : LeaseToken) (chunkNo : Int) (pathPrefix : String)
      (keys : List String)
  | markManifestChunkDeleted (token : LeaseToken) (chunkNo : Int)
  | markDrained (token : LeaseToken)
  | markBindingsRemoved (token : LeaseToken)
  | purgePostgres (token : LeaseToken) (catalog : Except String Unit)
  | markCachePurged (token : LeaseToken)
  | markLogicallyVerified (token : LeaseToken)
  | markRetentionPending (token : LeaseToken)
  | recordRetry (token : LeaseToken) (stage : DeletionStage) (unitKey error : String)
      (retrySeconds : Nat)
  | block (token : LeaseToken) (stage : DeletionStage) (unitKey error : String)
  | guardTransaction (community : CommunityId)
  | guardTransactionWithServingLease (lease : ServingWriteLease)
  | acquireServingWriteLease (community : CommunityId) (operation owner : String)
      (leaseSeconds : Nat) (id : Uuid)
  | renewServingWriteLease (lease : ServingWriteLease) (leaseSeconds : Nat)
  | releaseServingWriteLease (lease : ServingWriteLease)
  | verifyServingWriteLease (lease : ServingWriteLease)

inductive Answer where
  | unit
  | request (request : DeletionRequest)
  | claimed (lease : Option LeaseToken)
  | generation (generation : Nat)
  | serving (lease : ServingWriteLease)
  | released (deleted : Bool)
deriving DecidableEq

namespace Call

def tx (hashes : Hashes) (now : Int) : Call → Tx Answer
  | submit communityHost requestedBy id => .request <$> Deletion.submit now communityHost requestedBy id
  | freezeInventory requestId inventory =>
    .request <$> Deletion.freezeInventory hashes requestId inventory
  | approve requestId approvedBy => .request <$> Deletion.approve hashes now requestId approvedBy
  | abort requestId abortedBy reason unit =>
    .request <$> Deletion.abort now requestId abortedBy reason unit
  | unblock requestId unblockedBy reason unit utcNow =>
    .request <$> Deletion.unblock now utcNow requestId unblockedBy reason unit
  | blockPreclaimSetup requestId unitKey error utcNow =>
    .request <$> Deletion.blockPreclaimSetup now utcNow requestId unitKey error
  | claim requestId owner leaseSeconds catalog =>
    .claimed <$> Deletion.claim now requestId owner leaseSeconds catalog
  | verifyExecutionToken token stage => (fun _ => .unit) <$> Deletion.verifyExecutionToken now token stage
  | heartbeat token leaseSeconds => (fun _ => .unit) <$> Deletion.heartbeat now token leaseSeconds
  | stopExecutor token => (fun _ => .unit) <$> Deletion.stopExecutor token
  | beginQuiescing token => (fun _ => .unit) <$> Deletion.beginQuiescing now token
  | fence token => .generation <$> Deletion.fence now token
  | freezeDestructiveStorageManifest token manifest =>
    (fun _ => .unit) <$> Deletion.freezeDestructiveStorageManifest hashes now token manifest
  | clearManifestKeyChunks token => (fun _ => .unit) <$> Deletion.clearManifestKeyChunks now token
  | appendManifestKeyChunk token chunkNo pathPrefix keys =>
    (fun _ => .unit) <$> Deletion.appendManifestKeyChunk now token chunkNo pathPrefix keys
  | markManifestChunkDeleted token chunkNo =>
    (fun _ => .unit) <$> Deletion.markManifestChunkDeleted now token chunkNo
  | markDrained token => (fun _ => .unit) <$> Deletion.markDrained now token
  | markBindingsRemoved token => (fun _ => .unit) <$> Deletion.markBindingsRemoved now token
  | purgePostgres token catalog => (fun _ => .unit) <$> Deletion.purgePostgres now token catalog
  | markCachePurged token => (fun _ => .unit) <$> Deletion.markCachePurged now token
  | markLogicallyVerified token => (fun _ => .unit) <$> Deletion.markLogicallyVerified now token
  | markRetentionPending token => (fun _ => .unit) <$> Deletion.markRetentionPending now token
  | recordRetry token stage unitKey error retrySeconds =>
    (fun _ => .unit) <$> Deletion.recordRetry now token stage unitKey error retrySeconds
  | block token stage unitKey error =>
    (fun _ => .unit) <$> Deletion.block now token stage unitKey error
  | guardTransaction community => (fun _ => .unit) <$> Deletion.guardTransaction community
  | guardTransactionWithServingLease lease =>
    (fun _ => .unit) <$> Deletion.guardTransactionWithServingLease now lease
  | acquireServingWriteLease community operation owner leaseSeconds id =>
    .serving <$> Deletion.acquireServingWriteLease now community operation owner leaseSeconds id
  | renewServingWriteLease lease leaseSeconds =>
    .serving <$> Deletion.renewServingWriteLease now lease leaseSeconds
  | releaseServingWriteLease lease => .released <$> Deletion.releaseServingWriteLease lease
  | verifyServingWriteLease lease => (fun _ => .unit) <$> Deletion.verifyServingWriteLease now lease

end Call

abbrev Program := Prog Stmt Reply (Ending (Except DbError Answer))

/-- A transaction that is dropped with an error is rolled back. -/
def finish (tx : Tx Answer) : Program := do
  match ← tx.run with
  | .ok answer => return .commit (.ok answer)
  | .error e => return .rollback (.error e)

def Call.body (hashes : Hashes) (call : Call) (now : Int) : Program := finish (call.tx hashes now)

end Deletion
