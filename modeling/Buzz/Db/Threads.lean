import Buzz.Db.Replace
import Buzz.Lib.Run
import Mathlib.Data.List.MinMax

/-!
# Threads

`resolve_nip10_thread_meta` of the relay's ingest, which reads the ancestry of a reply off its
tags and the store, and `insert_event_with_thread_metadata_tx` of `buzz-db`, which stores the
event with its row of `thread_metadata` and sees to the rows of its parent and its root.

What the relay is told by its clock and its database is an argument: the time, the row that a
`LIMIT 1` without an order returns, and whether the query of the root goes through, whose failure
ingest takes for a root that is not there.
-/
namespace Db

open Lib Nostr Relay

/-- The kinds that ingest resolves an ancestry for: `requires_h_channel_scope`. -/
def channelScopedKinds : List Kind :=
  [9, 40002, 40003, 40004, 40005, 40006, 40007, 40008, 40100, 45001, 45002, 45003, 9000, 9001, 9002,
    9005, 9008, 9022, 48100, 48101, 48102, 48103, 48106]

def requiresHChannelScope (kind : Kind) : Bool := channelScopedKinds.contains kind

/-! ### Rows -/

structure ThreadMetadataParams where
  eventId : EventId
  eventCreatedAt : Int
  channelId : Uuid
  parentEventId : Option EventId
  parentEventCreatedAt : Option Int
  rootEventId : Option EventId
  rootEventCreatedAt : Option Int
  depth : Int
  broadcast : Bool
deriving DecidableEq

/-- A row of `thread_metadata`. -/
structure ThreadMetadata extends ThreadMetadataParams where
  communityId : CommunityId
  replyCount : Int := 0
  descendantCount : Int := 0
  lastReplyAt : Option Int := none
deriving DecidableEq

namespace ThreadMetadata

/-- The primary key. -/
def key (row : ThreadMetadata) : CommunityId × Int × EventId :=
  (row.communityId, row.eventCreatedAt, row.eventId)

/-- The row is about the event. -/
def isAbout (community : CommunityId) (id : EventId) (row : ThreadMetadata) : Bool :=
  row.communityId = community ∧ row.eventId = id

/-- The row of an event that is known by a reply only. -/
def stub (community : CommunityId) (id : EventId) (createdAt : Int) (channelId : Uuid) :
    ThreadMetadata where
  communityId := community
  eventId := id
  eventCreatedAt := createdAt
  channelId := channelId
  parentEventId := none
  parentEventCreatedAt := none
  rootEventId := none
  rootEventCreatedAt := none
  depth := 0
  broadcast := false

end ThreadMetadata

structure ThreadStore where
  events : List EventRow := []
  threads : List ThreadMetadata := []
deriving DecidableEq

namespace ThreadStore

local instance (priority := 2000) : Preorder Int := Int.instLinearOrder.toPreorder

/-- `deleted_at IS NULL ORDER BY created_at DESC LIMIT 1`. -/
def getEventById (s : ThreadStore) (community : CommunityId) (id : EventId) : Option EventRow :=
  (s.events.filter fun row => row.communityId = community ∧ row.event.id = id ∧ !row.deleted).argmax
    (·.createdAt)

/-- `LIMIT 1`: which row it is if there are several is up to the database. -/
def getThreadMetadataByEvent (s : ThreadStore) (community : CommunityId) (id : EventId)
    (pick : Nat) : Option ThreadMetadata :=
  let rows := s.threads.filter (·.isAbout community id)
  rows[pick % rows.length]?

end ThreadStore

/-! ### Ancestry -/

/-- Sixty-four hex digits in either case, decoded. -/
def decodeId (text : String) : Option EventId :=
  let hex := toAsciiLowercase text
  if proper : hex.length = 64 ∧ hex.toList.all isLowerHexDigit = true then
    some ⟨hex, proper.1, proper.2⟩
  else none

/-- The id of an `e` tag with the marker. -/
def markedId (marker : String) : Tag → Option EventId
  | "e" :: value :: _ :: mark :: _ => if mark = marker then decodeId value else none
  | _ => none

/-- The last tag with the marker counts. -/
def lastMarked (marker : String) (event : Event) : Option EventId :=
  (event.tags.filterMap (markedId marker)).getLast?

/-- The root that a parent without a row names: here the first tag counts. -/
def namedRoot (event : Event) : Option EventId :=
  (event.tags.findSome? (markedId "root")).or (event.tags.findSome? (markedId "reply"))

def isBroadcast : Tag → Bool
  | "broadcast" :: value :: _ => value = "1"
  | _ => false

def instant (event : Event) (now : Int) : Int := (fromTimestamp (asI64 event.createdAt)).getD now

/-- What the relay learns from its clock and its database. -/
structure Luck where
  now : Int
  pick : Nat := 0
  rootLookup : Bool := true
deriving DecidableEq

section

variable (s : ThreadStore) (community : CommunityId) (luck : Luck)

/-- The root's time, or else the parent's. -/
def rootCreated (root : EventId) (parentCreated : Int) : Int :=
  match if luck.rootLookup then s.getEventById community root else none with
  | some row => (fromTimestamp (asI64 row.event.createdAt)).getD parentCreated
  | none => parentCreated

/-- The root of the thread with its time, and the depth of a reply to the parent. -/
def ancestry (parent : EventId) (parentEvent : Event) (clientRoot : EventId) :
    Except String (EventId × Int × Int) :=
  let parentCreated := instant parentEvent luck.now
  match s.getThreadMetadataByEvent community parent luck.pick with
  | some row => do
    let effectiveRoot := row.rootEventId.getD parent
    ensure (clientRoot = effectiveRoot) "root tag does not match thread ancestry"
    let depth := row.depth + 1
    ensure (¬ depth > 100) "thread depth limit exceeded"
    pure (effectiveRoot, rootCreated s community luck effectiveRoot parentCreated, depth)
  | none => do
    let parentRoot := (namedRoot parentEvent).getD parent
    ensure (clientRoot = parentRoot) "root tag does not match thread ancestry"
    if parentRoot = parent then pure (parentRoot, parentCreated, 1)
    else pure (parentRoot, rootCreated s community luck parentRoot parentCreated, 2)

def checkParentChannel (channelId : Uuid) : Option Uuid → Except String Unit
  | some parentChannel =>
    ensure (parentChannel = channelId) "parent event belongs to a different channel"
  | none => .error "parent event has no channel association"

/-- Without a reply tag there is no parent, whatever the root tag says. -/
def resolveNip10ThreadMeta (event : Event) (channelId : Uuid) :
    Except String (Option ThreadMetadataParams) :=
  match lastMarked "reply" event with
  | none => .ok none
  | some parent => do
    let parentRow ← okOr (s.getEventById community parent) "reply parent not found"
    checkParentChannel channelId parentRow.channelId
    let (root, rootCreatedAt, depth) ← ancestry s community luck parent parentRow.event
      ((lastMarked "root" event).getD parent)
    pure (some
      { eventId := event.id
        eventCreatedAt := instant event luck.now
        channelId
        parentEventId := some parent
        parentEventCreatedAt := some (instant parentRow.event luck.now)
        rootEventId := some root
        rootEventCreatedAt := some rootCreatedAt
        depth
        broadcast := event.tags.any isBroadcast })

end

/-! ### Insertion -/

/-- `INSERT … ON CONFLICT DO NOTHING`. -/
def addThread (rows : List ThreadMetadata) (row : ThreadMetadata) : List ThreadMetadata :=
  if rows.any (·.key = row.key) then rows else rows ++ [row]

/-- `UPDATE … WHERE community_id = $1 AND event_id = $2`. -/
def updateThread (rows : List ThreadMetadata) (community : CommunityId) (id : EventId)
    (set : ThreadMetadata → ThreadMetadata) : List ThreadMetadata :=
  rows.map fun row => if row.isAbout community id then set row else row

/-- The row of a reply has been inserted: its parent and its root get rows, too, and are
counted up. -/
def tellAncestors (rows : List ThreadMetadata) (community : CommunityId)
    (threadMeta : ThreadMetadataParams) (now : Int) : List ThreadMetadata :=
  match threadMeta.parentEventId with
  | none => rows
  | some parent =>
    let rows := addThread rows (.stub community parent
      (threadMeta.parentEventCreatedAt.getD threadMeta.eventCreatedAt) threadMeta.channelId)
    let rows := match threadMeta.rootEventId with
      | some root =>
        if root ≠ parent then
          addThread rows (.stub community root
            (threadMeta.rootEventCreatedAt.getD threadMeta.eventCreatedAt) threadMeta.channelId)
        else rows
      | none => rows
    let rows := updateThread rows community parent fun row =>
      { row with replyCount := row.replyCount + 1, lastReplyAt := some now }
    match threadMeta.rootEventId with
    | some root => updateThread rows community root fun row =>
        { row with descendantCount := row.descendantCount + 1 }
    | none => rows

def insertThread (rows : List ThreadMetadata) (community : CommunityId)
    (threadMeta : ThreadMetadataParams) (now : Int) : List ThreadMetadata :=
  let row : ThreadMetadata := { threadMeta with communityId := community }
  if rows.any (·.key = row.key) then rows else tellAncestors (rows ++ [row]) community threadMeta now

inductive InsertError where
  | authEventRejected
  | ephemeralEventRejected (kind : Kind)
  | invalidTimestamp (secs : Int)
deriving DecidableEq

/-- Returns whether the event is new. -/
def insertEventWithThreadMetadata (s : ThreadStore) (community : CommunityId) (event : Event)
    (channelId : Option Uuid) (threadMeta : Option ThreadMetadataParams) (now : Int) :
    Except InsertError (ThreadStore × Bool) := do
  ensure (event.kind ≠ kindAuth) .authEventRejected
  ensure (isEphemeral event.kind = false) (.ephemeralEventRejected event.kind)
  let createdAt ← okOr (fromTimestamp (asI64 event.createdAt))
    (.invalidTimestamp (asI64 event.createdAt))
  let row : EventRow :=
    { communityId := community, event, createdAt, channelId, dTag := extractDTag event }
  if s.events.any (·.key = row.key) then pure (s, false)
  else
    let threads := match threadMeta with
      | some threadMeta => insertThread s.threads community threadMeta now
      | none => s.threads
    pure ({ events := s.events ++ [row], threads }, true)

/-! ### Steps -/

inductive IngestError where
  | rejected (text : String)
  | insert (error : InsertError)
deriving DecidableEq

/-- Only events of some kinds that are in a channel have an ancestry. -/
def threadMetaOf (s : ThreadStore) (community : CommunityId) (event : Event)
    (channelId : Option Uuid) (luck : Luck) : Except String (Option ThreadMetadataParams) :=
  match channelId with
  | some channel =>
    if requiresHChannelScope event.kind then resolveNip10ThreadMeta s community luck event channel
    else .ok none
  | none => .ok none

def ingest (s : ThreadStore) (community : CommunityId) (event : Event) (channelId : Option Uuid)
    (luck : Luck) : Except IngestError ThreadStore := do
  let threadMeta ← (threadMetaOf s community event channelId luck).mapError fun text =>
    .rejected ("invalid: " ++ text)
  let (s, _) ← (insertEventWithThreadMetadata s community event channelId threadMeta luck.now).mapError
    .insert
  pure s

namespace ThreadStore

/-- The event is no longer live. -/
def softDeleteEvent (s : ThreadStore) (community : CommunityId) (id : EventId) : ThreadStore × Bool :=
  ({ s with events := s.events.map fun row =>
      if row.communityId = community ∧ row.event.id = id then { row with deleted := true } else row },
    s.events.any fun row => row.communityId = community ∧ row.event.id = id ∧ !row.deleted)

def softDeleteEventAndUpdateThread (s : ThreadStore) (community : CommunityId) (id : EventId)
    (parent root : Option EventId) : ThreadStore :=
  let (s, deleted) := softDeleteEvent s community id
  if deleted then
    match parent with
    | none => s
    | some parent =>
      let threads := updateThread s.threads community parent fun row =>
        { row with replyCount := max (row.replyCount - 1) 0 }
      match root with
      | some root => { s with threads := updateThread threads community root fun row =>
          { row with descendantCount := max (row.descendantCount - 1) 0 } }
      | none => { s with threads }
  else s

end ThreadStore

/-- An id is the hash of its event, so it names one. -/
structure Catalogue where
  event : EventId → Event
  id_event : ∀ id, (event id).id = id

inductive ThreadAction where
  | ingest (community : CommunityId) (id : EventId) (channelId : Option Uuid) (luck : Luck)
  | softDelete (community : CommunityId) (id : EventId)
  | softDeleteAndUpdateThread (community : CommunityId) (id : EventId)
      (parent root : Option EventId)
deriving DecidableEq

/-- An event that is not accepted changes nothing. -/
def ThreadStore.perform (ids : Catalogue) (s : ThreadStore) : ThreadAction → ThreadStore
  | .ingest community id channelId luck =>
    match Db.ingest s community (ids.event id) channelId luck with
    | .ok s' => s'
    | .error _ => s
  | .softDelete community id => (s.softDeleteEvent community id).1
  | .softDeleteAndUpdateThread community id parent root =>
    s.softDeleteEventAndUpdateThread community id parent root

end Db
