import Buzz.Db.Replace
import Buzz.Lib.Json
import Buzz.Lib.Table

/-!
# Push leases

`accept_lease_event` of `buzz-db/src/push.rs`: a signed kind-30350 event and the lease that it
makes effective are stored in one transaction, under the advisory locks of the lease address and
of its author. The tables have the constraints of migrations 0012, 0013 and 0018.

An instant is counted in microseconds; `now()` is that of the start of the transaction. What the
two hash functions make of a lock's name is given by `LockHash`.
-/
namespace Push

open Lib Nostr Relay Db

def kindPushLease : Kind := 30350

/-- The kinds for which `push_match_queue` gets a job. -/
def pushKinds : List Kind := [7, 9, 1059, 40007, 46010, 50001]

def pushGateBackfillSecs : Int := 120

/-- `EXTRACT(EPOCH FROM now())::bigint`, which rounds. -/
def epoch (now : Int) : Int := (now + 500000) / 1000000

/-! ### The tables -/

/-- The primary key of a lease. -/
structure Address where
  communityId : CommunityId
  author : PublicKey
  installationId : String
deriving DecidableEq

structure LeaseVersion where
  sourceEventId : EventId
  sourceCreatedAt : Int
  generation : Int
  expiresAt : Int

structure ActiveLease where
  appProfile : String
  endpointHash : List UInt8
  endpointGrant : String
  maxClass : String
  subscriptions : Json

/-- A row of `push_leases`. The columns of an active lease are null together. -/
structure Lease where
  address : Address
  sourceEventId : EventId
  sourceCreatedAt : Int
  generation : Int
  active : Bool
  endpointEnabled : Bool := true
  columns : Option ActiveLease
  expiresAt : Int

namespace Lease

def stamp (row : Lease) : Stamp := ⟨row.sourceCreatedAt, row.sourceEventId⟩

/-- `(app_profile, endpoint_hash)`. -/
def endpoint (row : Lease) : Option (String × List UInt8) :=
  row.columns.map fun columns => (columns.appProfile, columns.endpointHash)

/-- The row is one of the author's in the community. -/
def belongsTo (row : Lease) (communityId : CommunityId) (author : PublicKey) : Bool :=
  row.address.communityId = communityId ∧ row.address.author = author

/-- The `CHECK` constraints. -/
def checked (row : Lease) : Bool :=
  1 ≤ byteLen row.address.installationId && byteLen row.address.installationId ≤ 64 &&
  0 < row.generation &&
  row.columns.all (fun columns => columns.endpointHash.length == 32 &&
    columns.maxClass ∈ ["silent", "default", "time_sensitive", "urgent"]) &&
  row.active == row.columns.isSome

end Lease

/-- A row of `events`. -/
structure EventRow where
  communityId : CommunityId
  id : EventId
  pubkey : PublicKey
  createdAt : Int
  kind : Kind
  dTag : Option String
  channelId : Option Uuid := none
  receivedAt : Int
  /-- `deleted_at IS NOT NULL`. -/
  deleted : Bool := false
deriving DecidableEq

namespace EventRow

def stamp (row : EventRow) : Stamp := ⟨row.createdAt, row.id⟩

/-- The primary key. -/
def key (row : EventRow) : CommunityId × Stamp := (row.communityId, row.stamp)

/-- A live lease event of the address. -/
def isSourceOf (row : EventRow) (address : Address) : Bool :=
  row.communityId = address.communityId ∧ row.kind = kindPushLease ∧
    row.pubkey = address.author ∧ row.dTag = some address.installationId ∧ row.deleted = false

end EventRow

structure Tables where
  leases : List Lease := []
  events : List EventRow := []
  matchQueue : List (CommunityId × EventId) := []

inductive Change where
  | putLease (row : Lease)
  | putEvent (row : EventRow)
  | enqueue (job : CommunityId × EventId)

namespace Tables

def apply (t : Tables) : Change → Tables
  | .putLease row => { t with leases := Table.put Lease.address t.leases row }
  | .putEvent row => { t with events := Table.put EventRow.key t.events row }
  | .enqueue job =>
    { t with matchQueue := if job ∈ t.matchQueue then t.matchQueue else t.matchQueue ++ [job] }

/-- The live lease events of the address. -/
def sources (t : Tables) (address : Address) : List EventRow :=
  t.events.filter (·.isSourceOf address)

/-- The rows of the address: none or one. -/
def leasesAt (t : Tables) (address : Address) : List Lease :=
  t.leases.filter (·.address = address)

/-- The author's active leases in the community. -/
def activeLeases (t : Tables) (communityId : CommunityId) (author : PublicKey) : List Lease :=
  t.leases.filter fun row => row.active && row.belongsTo communityId author

end Tables

/-! ### Statements -/

/-- What the server reports: the code and the constraint. -/
structure SqlError where
  code : String
  constraint : String
deriving DecidableEq

def uniqueViolation (constraint : String) : SqlError := ⟨"23505", constraint⟩
def checkViolation : SqlError := ⟨"23514", "push_leases_check"⟩

inductive Stmt where
  | advisoryXactLock (key : Int64)
  /-- The address that the source event is bound to. -/
  | selectSource (communityId : CommunityId) (sourceEventId : EventId)
  /-- `… FOR UPDATE`. -/
  | selectCurrent (address : Address)
  | deactivateExpired (communityId : CommunityId) (author : PublicKey) (now : Int)
  | countActive (address : Address)
  | existsEndpoint (address : Address) (appProfile : String) (endpointHash : List UInt8)
  | retireSource (address : Address)
  | insertEvent (row : EventRow)
  | upsertLease (row : Lease)
  | backfillPushMatchJobs (communityId : CommunityId) (now : Int)

abbrev Reply : Stmt → Type
  | .selectSource _ _ => Option Address
  | .selectCurrent _ => Option (Stamp × Int)
  | .countActive _ => Nat
  | .existsEndpoint _ _ _ => Bool
  | .deactivateExpired _ _ _ | .insertEvent _ | .upsertLease _ => Except SqlError Unit
  | _ => Unit

namespace Tables

/-- `active=false, endpoint_enabled=false` for the author's expired active leases. -/
def deactivateExpired (t : Tables) (communityId : CommunityId) (author : PublicKey) (now : Int) :
    Except SqlError Unit × List Change :=
  let rows := ((t.activeLeases communityId author).filter (·.expiresAt ≤ epoch now)).map
    fun row => { row with active := false, endpointEnabled := false }
  if rows.all Lease.checked then (.ok (), rows.map .putLease) else (.error checkViolation, [])

/-- The primary key of a partition must be new. -/
def insertEvent (t : Tables) (row : EventRow) : Except SqlError Unit × List Change :=
  if t.events.any (·.key = row.key) then (.error (uniqueViolation "events_pkey"), [])
  else (.ok (), [.putEvent row])

/-- `INSERT … ON CONFLICT (community_id,author,installation_id) DO UPDATE`. -/
def upsertLease (t : Tables) (row : Lease) : Except SqlError Unit × List Change :=
  let others := t.leases.filter (·.address ≠ row.address)
  if !row.checked then (.error checkViolation, [])
  else if others.any fun other => other.address.communityId = row.address.communityId ∧
      other.sourceEventId = row.sourceEventId then
    (.error (uniqueViolation "push_leases_community_id_source_event_id_key"), [])
  else if row.active && others.any fun other => other.active &&
      other.belongsTo row.address.communityId row.address.author &&
      other.endpoint.isSome && other.endpoint == row.endpoint then
    (.error (uniqueViolation "push_leases_endpoint_unique"), [])
  else (.ok (), [.putLease row])

/-- The recent events that no job was queued for. -/
def backfillPushMatchJobs (t : Tables) (communityId : CommunityId) (now : Int) : List Change :=
  (t.events.filter fun row => row.communityId = communityId ∧ row.kind ∈ pushKinds ∧
    row.deleted = false ∧ now - pushGateBackfillSecs * 1000000 < row.receivedAt).map
      fun row => .enqueue (row.communityId, row.id)

def exec : (stmt : Stmt) → Tables → Reply stmt × List Change
  | .advisoryXactLock _, _ => ((), [])
  | .selectSource communityId id, t =>
    ((t.leases.find? fun row => row.address.communityId = communityId ∧
      row.sourceEventId = id).map Lease.address, [])
  | .selectCurrent address, t =>
    ((t.leasesAt address).head?.map fun row => (row.stamp, row.generation), [])
  | .deactivateExpired communityId author now, t => t.deactivateExpired communityId author now
  | .countActive address, t =>
    (((t.activeLeases address.communityId address.author).filter
      (·.address.installationId ≠ address.installationId)).length, [])
  | .existsEndpoint address appProfile endpointHash, t =>
    ((t.activeLeases address.communityId address.author).any fun row =>
      row.address.installationId ≠ address.installationId ∧
        row.endpoint = some (appProfile, endpointHash), [])
  | .retireSource address, t =>
    ((), (t.sources address).map fun row => .putEvent { row with deleted := true })
  | .insertEvent row, t => t.insertEvent row
  | .upsertLease row, t => t.upsertLease row
  | .backfillPushMatchJobs communityId now, t => ((), t.backfillPushMatchJobs communityId now)

end Tables

/-- The server, with the advisory locks. A statement does not wait for the rows or the unique
keys of another transaction. -/
def postgres : Server Stmt Reply Int64 Change Tables where
  lock
    | .advisoryXactLock key, _ => some key
    | _, _ => none
  exec := Tables.exec
  apply := Tables.apply

/-! ### Locks -/

/-- The first eight bytes of the SHA-256 digest, and `hashtextextended(_, 0)`. -/
structure LockHash where
  digest : List UInt8 → Int64
  text : String → Int64

def pushGateLockNamespace : String := "buzz_push_gate:"

namespace LockHash

variable (hash : LockHash)

def authorLock (communityId : CommunityId) (author : PublicKey) : Int64 :=
  hash.digest (uuidBytes communityId.uuid ++ hexBytes author.toHex.toList)

def addressLock (address : Address) : Int64 :=
  hash.digest (uuidBytes address.communityId.uuid ++ hexBytes address.author.toHex.toList ++
    utf8Bytes address.installationId)

/-- `community` as it is printed: hyphenated. -/
def gateLock (communityId : CommunityId) : Int64 :=
  hash.text (pushGateLockNamespace ++ communityId.uuid.toString)

end LockHash

/-! ### Acceptance -/

inductive AcceptLeaseOutcome where
  | accepted
  | staleEvent
  | staleGeneration
  | endpointAlreadyLeased
  | leaseQuotaExceeded
  | sourceEventCollision
  | constraintViolation
deriving DecidableEq

def constraintAcceptanceOutcome (error : SqlError) : Option AcceptLeaseOutcome :=
  if error.code = "23505" ∧ error.constraint = "push_leases_endpoint_unique" then
    some .endpointAlreadyLeased
  else if error.code = "23505" ∧
      error.constraint = "push_leases_community_id_source_event_id_key" then
    some .sourceEventCollision
  else if startsWith "23" error.code then some .constraintViolation
  else none

/-- What a call answers when it leaves its transaction, which is then rolled back. -/
abbrev Exit := Except DbError AcceptLeaseOutcome

namespace SqlError

/-- `?`. -/
def raised (error : SqlError) : Exit := .error (.sqlx error.constraint)

def refused (error : SqlError) : Exit :=
  match constraintAcceptanceOutcome error with
  | some outcome => .ok outcome
  | none => error.raised

end SqlError

def ask (stmt : Stmt) : Task Stmt Reply Exit (Reply stmt) := Task.ask stmt

def LeaseVersion.stamp (version : LeaseVersion) : Stamp :=
  ⟨version.sourceCreatedAt, version.sourceEventId⟩

/-- Later, or of one second the smaller id. -/
def winsEvent (incoming current : Stamp) : Bool :=
  current.createdAt < incoming.createdAt ||
    (incoming.createdAt == current.createdAt && incoming.id.toHex < current.id.toHex)

theorem winsEvent_iff {incoming current : Stamp} : winsEvent incoming current ↔ current < incoming := by
  rw [← not_le, ← Stamp.dominatedBy_iff]
  simp only [winsEvent, Stamp.dominatedBy, Bool.or_eq_true, Bool.and_eq_true, decide_eq_true_eq,
    beq_iff_eq, not_or, not_and, not_lt, not_le]
  constructor
  · rintro (later | ⟨same, smaller⟩)
    · exact ⟨later.le, fun same => absurd same (by omega)⟩
    · exact ⟨same.ge, fun _ => smaller⟩
  · rintro ⟨notBefore, smaller⟩
    rcases notBefore.lt_or_eq with later | same
    · exact Or.inl later
    · exact Or.inr ⟨same.symm, smaller same.symm⟩

/-- An activation excludes the inserts of events, whose trigger takes the gate's lock shared. -/
def lockGate (hash : LockHash) (communityId : CommunityId) (active : Option ActiveLease) :
    Task Stmt Reply Exit Unit :=
  if active.isSome then ask (.advisoryXactLock (hash.gateLock communityId)) else pure ()

/-- The source event must be new in the community. -/
def checkSource (address : Address) (sourceEventId : EventId) : Task Stmt Reply Exit Unit := do
  let existing : Option Address ← ask (.selectSource address.communityId sourceEventId)
  match existing with
  | none => pure ()
  | some other => throw (.ok (if other ≠ address then .sourceEventCollision else .staleEvent))

/-- The version must follow the effective one in both orders. -/
def checkOrder (address : Address) (version : LeaseVersion) : Task Stmt Reply Exit Unit := do
  let current : Option (Stamp × Int) ← ask (.selectCurrent address)
  match current with
  | none => pure ()
  | some (stamp, generation) =>
    Task.guard (winsEvent version.stamp stamp) (.ok .staleEvent)
    Task.guard (generation < version.generation) (.ok .staleGeneration)

/-- The author's quota and the endpoints of the other installations. -/
def checkActivation (address : Address) (maxActiveLeases : Int) :
    Option ActiveLease → Task Stmt Reply Exit Unit
  | none => pure ()
  | some active => do
    let activeCount : Nat ← ask (.countActive address)
    Task.guard (activeCount < maxActiveLeases) (.ok .leaseQuotaExceeded)
    let duplicate : Bool ← ask (.existsEndpoint address active.appProfile active.endpointHash)
    Task.guard (!duplicate) (.ok .endpointAlreadyLeased)

def leaseOf (address : Address) (version : LeaseVersion) (active : Option ActiveLease) : Lease where
  address := address
  sourceEventId := version.sourceEventId
  sourceCreatedAt := version.sourceCreatedAt
  generation := version.generation
  active := active.isSome
  columns := active
  expiresAt := version.expiresAt

/-- The writes to the two tables. -/
def replaceLease (now : Int) (address : Address) (eventId : EventId) (version : LeaseVersion)
    (active : Option ActiveLease) : Task Stmt Reply Exit Unit := do
  ask (.retireSource address)
  let createdAt ← Task.ofExcept id
    (match fromTimestamp version.sourceCreatedAt with
    | some createdAt => .ok createdAt
    | none => .error (.error (.invalidTimestamp version.sourceCreatedAt)))
  let inserted : Except SqlError Unit ← ask (.insertEvent
    { communityId := address.communityId, id := eventId, pubkey := address.author, createdAt,
      kind := kindPushLease, dTag := some address.installationId, receivedAt := now })
  Task.ofExcept SqlError.refused inserted
  let upserted : Except SqlError Unit ← ask (.upsertLease (leaseOf address version active))
  Task.ofExcept SqlError.refused upserted
  if active.isSome then ask (.backfillPushMatchJobs address.communityId now)

/-- The transaction of `accept_lease_event`, that begins at `now`. -/
def acceptLease (hash : LockHash) (now : Int) (communityId : CommunityId) (event : Event)
    (installationId : String) (version : LeaseVersion) (active : Option ActiveLease)
    (maxActiveLeases : Int) : Task Stmt Reply Exit Unit := do
  let address : Address := ⟨communityId, event.pubkey, installationId⟩
  ask (.advisoryXactLock (hash.addressLock address))
  ask (.advisoryXactLock (hash.authorLock communityId event.pubkey))
  lockGate hash communityId active
  checkSource address version.sourceEventId
  checkOrder address version
  -- The cleanup leaves the columns of the row, which the table does not allow.
  let cleaned : Except SqlError Unit ← ask (.deactivateExpired communityId event.pubkey now)
  Task.ofExcept SqlError.raised cleaned
  checkActivation address maxActiveLeases active
  replaceLease now address event.id version active

def acceptLeaseEvent (hash : LockHash) (now : Int) (communityId : CommunityId) (event : Event)
    (installationId : String) (version : LeaseVersion) (active : Option ActiveLease)
    (maxActiveLeases : Int) : Prog Stmt Reply (Ending Exit) := do
  match ← (acceptLease hash now communityId event installationId version active
    maxActiveLeases).run with
  | .ok () => return .commit (.ok .accepted)
  | .error exit => return .rollback exit

end Push
