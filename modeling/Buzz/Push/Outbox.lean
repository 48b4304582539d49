import Buzz.Lib.Compare
import Buzz.Push.Effective

/-!
# The wake outbox

`push_wake_outbox` and the functions of `buzz-db/src/push.rs` that write it. A wake is keyed by
its endpoint and its event; it names the lease that asked for it, with its generation, and only
while this is the lease's own generation can it be claimed and sent.

Every operation is one transaction or one statement, and here they come one after the other.
-/
namespace Push

open Lib Nostr Relay Db

inductive WakeState where
  | pending
  | sending
  | delivered
  | failed
deriving DecidableEq

/-- A row of `push_wake_outbox`. -/
structure Wake where
  id : Uuid
  address : Address
  leaseGeneration : Int
  endpointHash : List UInt8
  eventId : EventId
  wakeClass : String
  expiresAt : Int
  state : WakeState := .pending
  attempts : Nat := 0
  nextAttemptAt : Int
  leaseUntil : Option Int := none
  claimId : Option Uuid := none
  createdAt : Int
deriving DecidableEq

namespace Wake

/-- The primary key. -/
def key (row : Wake) : CommunityId × Uuid := (row.address.communityId, row.id)

/-- `UNIQUE (community_id, endpoint_hash, event_id)`. -/
def dedupKey (row : Wake) : CommunityId × List UInt8 × EventId :=
  (row.address.communityId, row.endpointHash, row.eventId)

/-- The `CHECK` constraints on the columns that the request gives. -/
def checked (row : Wake) : Bool :=
  0 < row.leaseGeneration && row.endpointHash.length == 32 &&
    row.wakeClass ∈ ["silent", "default", "time_sensitive", "urgent"]

def claim (row : Wake) (claimId : Uuid) (leaseUntil : Int) : Wake :=
  { row with
    state := .sending
    claimId := some claimId
    leaseUntil := some leaseUntil
    attempts := row.attempts + 1 }

end Wake

namespace Lease

def endpointHash (row : Lease) : Option (List UInt8) := row.columns.map ActiveLease.endpointHash

/-- Active, enabled and not expired. -/
def current (row : Lease) (now : Int) : Bool :=
  row.active && row.endpointEnabled && epoch now < row.expiresAt

end Lease

structure Store where
  now : Int
  tables : Tables := {}
  outbox : List Wake := []

structure WakeRequest where
  author : PublicKey
  installationId : String
  leaseGeneration : Int
  eventId : EventId
  wakeClass : String
  expiresAt : Int

inductive EnqueueWakeOutcome where
  | enqueued (id : Uuid)
  | duplicate (id : Uuid)
  | inactiveLease
deriving DecidableEq

structure ClaimedWake where
  community : CommunityId
  id : Uuid
  claimId : Uuid
  eventId : EventId
  channelId : Option Uuid
  author : PublicKey
  installationId : String
  leaseGeneration : Int
  endpointGrant : String
  wakeClass : String
  expiresAt : Int
  attempt : Nat
deriving DecidableEq

inductive RevalidateWakeOutcome where
  | deliver (wake : ClaimedWake)
  | suppressed
deriving DecidableEq

namespace WakeRequest

def address (request : WakeRequest) (communityId : CommunityId) : Address :=
  ⟨communityId, request.author, request.installationId⟩

end WakeRequest

/-! ### Enqueue -/

/-- The rows that `INSERT … ON CONFLICT … DO NOTHING` adds. -/
def newWakes (outbox : List Wake) : List Wake → List Wake
  | [] => []
  | wake :: rest =>
    if outbox.any (·.dedupKey = wake.dedupKey) then newWakes outbox rest
    else wake :: newWakes (outbox ++ [wake]) rest

/-- Of the requests with one key that was inserted the first one reports it. -/
def report (jobId : CommunityId × List UInt8 × EventId → Option Uuid)
    (inserted : List (CommunityId × List UInt8 × EventId)) :
    List (CommunityId × List UInt8 × EventId) →
      List (Option (CommunityId × List UInt8 × EventId)) →
      Except DbError (List EnqueueWakeOutcome)
  | _, [] => .ok []
  | reported, none :: rest =>
    (report jobId inserted reported rest).map (.inactiveLease :: ·)
  | reported, some key :: rest =>
    match jobId key with
    | none => .error (.invalidData "wake enqueue resolved neither insert nor duplicate")
    | some id =>
      if key ∈ inserted ∧ key ∉ reported then
        (report jobId inserted (key :: reported) rest).map (.enqueued id :: ·)
      else (report jobId inserted reported rest).map (.duplicate id :: ·)

namespace Store

/-- The lease that the first statement locks and reads. -/
def currentLease (s : Store) (address : Address) : Option Lease :=
  s.tables.leases.find? fun row => row.address = address && row.current s.now

/-- The endpoint of the current lease, if it has the generation that the matcher has seen. -/
def resolve (s : Store) (communityId : CommunityId) (request : WakeRequest) :
    Option (List UInt8) :=
  (s.currentLease (request.address communityId)).bind fun row =>
    if row.generation = request.leaseGeneration then row.endpointHash else none

def wakeOf (s : Store) (communityId : CommunityId) (request : WakeRequest)
    (endpointHash : List UInt8) (id : Uuid) : Wake where
  id := id
  address := request.address communityId
  leaseGeneration := request.leaseGeneration
  endpointHash := endpointHash
  eventId := request.eventId
  wakeClass := request.wakeClass
  expiresAt := request.expiresAt
  nextAttemptAt := s.now
  createdAt := s.now

/-- The rows of the insert. `genRandomUuid` is what the server draws for each of them. -/
def wakesOf (s : Store) (communityId : CommunityId) (requests : List WakeRequest)
    (genRandomUuid : Nat → Uuid) : List Wake :=
  requests.zipIdx.filterMap fun (request, n) =>
    (s.resolve communityId request).map fun endpointHash =>
      s.wakeOf communityId request endpointHash (genRandomUuid n)

/-- `enqueue_wakes`. A violated constraint rolls the whole batch back. -/
def enqueueWakes (s : Store) (communityId : CommunityId) (requests : List WakeRequest)
    (genRandomUuid : Nat → Uuid) : Except DbError (List EnqueueWakeOutcome) × Store :=
  let wakes := s.wakesOf communityId requests genRandomUuid
  let inserted := newWakes s.outbox wakes
  let outbox := s.outbox ++ inserted
  if !wakes.all Wake.checked then (.error (.sqlx "push_wake_outbox_check"), s)
  else if ¬ (outbox.map Wake.key).Nodup then (.error (.sqlx "push_wake_outbox_pkey"), s)
  else
    let jobs := inserted ++ if inserted.length < wakes.length then outbox else []
    let keys := requests.map fun request =>
      (s.resolve communityId request).map fun hash => (communityId, hash, request.eventId)
    (report (fun key => (jobs.find? (·.dedupKey = key)).map Wake.id) (inserted.map Wake.dedupKey)
      [] keys, { s with outbox })

/-! ### Claims -/

/-- The lease with the generation and the endpoint of the wake. -/
def joined (s : Store) (row : Wake) : Option Lease :=
  s.tables.leases.find? fun lease => lease.address = row.address ∧
    lease.generation = row.leaseGeneration ∧ lease.endpointHash = some row.endpointHash

def liveEvent (s : Store) (row : Wake) : Option EventRow :=
  s.tables.events.find? fun event => event.communityId = row.address.communityId ∧
    event.id = row.eventId ∧ event.deleted = false

def claimedWake (row : Wake) (claimId : Uuid) (lease : Lease) (event : EventRow) : ClaimedWake where
  community := row.address.communityId
  id := row.id
  claimId := claimId
  eventId := row.eventId
  channelId := event.channelId
  author := row.address.author
  installationId := row.address.installationId
  leaseGeneration := row.leaseGeneration
  endpointGrant := (lease.columns.map ActiveLease.endpointGrant).getD ""
  wakeClass := row.wakeClass
  expiresAt := row.expiresAt
  attempt := row.attempts

/-- Due, not in the hands of a worker, and its lease and event are there. -/
def claimable (s : Store) (communityId : CommunityId) (row : Wake) : Bool :=
  row.address.communityId = communityId && (s.liveEvent row).isSome &&
    epoch s.now < row.expiresAt && row.nextAttemptAt ≤ s.now &&
    (row.state = .pending || (row.state = .sending && row.leaseUntil.any (· < s.now))) &&
    (s.joined row).any (·.current s.now)

/-- `ORDER BY next_attempt_at, created_at, id`. -/
def dueFirst (a b : Wake) : Ordering :=
  (compare a.nextAttemptAt b.nextAttemptAt).then
    ((compare a.createdAt b.createdAt).then (compare a.id.bits.toNat b.id.bits.toNat))

def candidates (s : Store) (communityId : CommunityId) (limit : Nat) : List Wake :=
  (sortBy dueFirst (s.outbox.filter (s.claimable communityId))).take limit

/-- `claim_due_wakes`: the rows as they are returned, and the tables. -/
def claimDueWakes (s : Store) (communityId : CommunityId) (limit : Nat) (leaseUntil : Int)
    (claimId : Uuid) : List ClaimedWake × Store :=
  let keys := (s.candidates communityId limit).map Wake.key
  let outbox := s.outbox.map fun row => if row.key ∈ keys then row.claim claimId leaseUntil else row
  ((outbox.filter (·.key ∈ keys)).filterMap fun row =>
    (s.joined row).bind fun lease => (s.liveEvent row).map (claimedWake row claimId lease),
    { s with outbox })

/-- The claim is held, and the wake may still be sent. -/
def sendable (s : Store) (communityId : CommunityId) (id claimId : Uuid) (row : Wake) : Bool :=
  row.key = (communityId, id) && row.claimId = some claimId && row.state = .sending &&
    row.leaseUntil.any (s.now ≤ ·) && epoch s.now < row.expiresAt &&
    (s.joined row).any (·.current s.now) && (s.liveEvent row).isSome

def revalidateWakeForSend (s : Store) (communityId : CommunityId) (id claimId : Uuid) :
    RevalidateWakeOutcome :=
  let wake := (s.outbox.find? (s.sendable communityId id claimId)).bind fun row =>
    (s.joined row).bind fun lease => (s.liveEvent row).map (claimedWake row claimId lease)
  match wake with
  | some wake => .deliver wake
  | none => .suppressed

/-- `UPDATE … WHERE community_id = $1 AND id = $2 AND claim_id = $3 AND state = 'sending'`, with
whether there is such a row. -/
def updateClaim (s : Store) (communityId : CommunityId) (id claimId : Uuid) (update : Wake → Wake) :
    Bool × Store :=
  let held (row : Wake) : Bool := row.key = (communityId, id) && row.claimId = some claimId &&
    row.state = .sending
  (s.outbox.countP held = 1,
    { s with outbox := s.outbox.map fun row => if held row then update row else row })

def completeWake (s : Store) (communityId : CommunityId) (id claimId : Uuid) : Bool × Store :=
  s.updateClaim communityId id claimId fun row =>
    { row with state := .delivered, claimId := none, leaseUntil := none }

def retryWake (s : Store) (communityId : CommunityId) (id claimId : Uuid) (nextAttemptAt : Int) :
    Bool × Store :=
  s.updateClaim communityId id claimId fun row =>
    { row with state := .pending, nextAttemptAt, claimId := none, leaseUntil := none }

def failWake (s : Store) (communityId : CommunityId) (id claimId : Uuid) : Bool × Store :=
  s.updateClaim communityId id claimId fun row =>
    { row with state := .failed, claimId := none, leaseUntil := none }

def disableEndpointGeneration (s : Store) (address : Address) (generation : Int) : Bool × Store :=
  let hit (row : Lease) : Bool := row.address = address && row.generation = generation &&
    row.active && row.endpointEnabled
  (s.tables.leases.countP hit = 1,
    { s with tables := { s.tables with
        leases := s.tables.leases.map fun row =>
          if hit row then { row with endpointEnabled := false } else row } })

end Store

/-! ### Runs -/

inductive Op where
  | accept (call : Call)
  | enqueue (communityId : CommunityId) (requests : List WakeRequest) (genRandomUuid : Nat → Uuid)
  | claim (communityId : CommunityId) (limit : Nat) (leaseUntil : Int) (claimId : Uuid)
  | revalidate (communityId : CommunityId) (id claimId : Uuid)
  | complete (communityId : CommunityId) (id claimId : Uuid)
  | retry (communityId : CommunityId) (id claimId : Uuid) (nextAttemptAt : Int)
  | fail (communityId : CommunityId) (id claimId : Uuid)
  | disable (address : Address) (generation : Int)
  /-- An event is stored, or deleted. -/
  | insertEvent (row : EventRow)
  | deleteEvent (key : CommunityId × Stamp)
  /-- Time passes. -/
  | tick (now : Int)

namespace Store

variable (hash : LockHash) (maxActiveLeases : Int)

/-- `accept_lease_event` with nobody else around. -/
def accept (s : Store) (call : Call) : Store :=
  { s with
    tables := postgres.after (transactions hash maxActiveLeases (fun _ : Unit => s.now)
      fun _ => call) s.tables () }

def step (s : Store) : Op → Store
  | .accept call => s.accept hash maxActiveLeases call
  | .enqueue communityId requests genRandomUuid =>
    (s.enqueueWakes communityId requests genRandomUuid).2
  | .claim communityId limit leaseUntil claimId =>
    (s.claimDueWakes communityId limit leaseUntil claimId).2
  | .revalidate _ _ _ => s
  | .complete communityId id claimId => (s.completeWake communityId id claimId).2
  | .retry communityId id claimId nextAttemptAt =>
    (s.retryWake communityId id claimId nextAttemptAt).2
  | .fail communityId id claimId => (s.failWake communityId id claimId).2
  | .disable address generation => (s.disableEndpointGeneration address generation).2
  | .insertEvent row => { s with tables := postgres.view s.tables (s.tables.insertEvent row).2 }
  | .deleteEvent key =>
    { s with
      tables := { s.tables with
        events := s.tables.events.map fun row =>
          if row.key = key then { row with deleted := true } else row } }
  | .tick now => { s with now := max s.now now }

def run (s : Store) (ops : List Op) : Store := ops.foldl (step hash maxActiveLeases) s

end Store

end Push
