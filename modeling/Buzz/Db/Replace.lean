import Buzz.Db.Events
import Buzz.Lib.Transaction
import Mathlib.Data.Prod.Lex
import Mathlib.Order.OrderDual

/-!
# Replaceable events

`replace_parameterized_event` and `replace_addressable_event` of `buzz-db`, the statements they
send and the triggers that those statements fire (migrations 0007 to 0011 and 0019). Each runs in
one transaction under an advisory lock, so it is a program of statements: a statement sees the
tables with the changes of its transaction, and it answers with a reply and with further changes.

The `events` row keeps the columns that these statements read. The mentions are written after
the commit by the one function and inside the transaction by the other.
-/
namespace Db

open Lib Nostr Relay

def kindBookmarkSet : Kind := 30003
def kindReadState : Kind := 30078

/-! ### The tables -/

/-- `(created_at, id)`: how two versions of an event are ordered. -/
structure Stamp where
  createdAt : Int
  id : EventId
deriving DecidableEq

/-- A row of `events`. -/
structure EventRow where
  communityId : CommunityId
  event : Event
  createdAt : Int
  channelId : Option Uuid
  dTag : Option String
  /-- `deleted_at IS NOT NULL`. -/
  deleted : Bool := false
deriving DecidableEq

namespace EventRow

def stamp (row : EventRow) : Stamp := ⟨row.createdAt, row.event.id⟩

/-- The primary key. -/
def key (row : EventRow) : CommunityId × Stamp := (row.communityId, row.stamp)

end EventRow

/-- The primary key of a watermark. -/
structure MarkKey where
  communityId : CommunityId
  kind : Kind
  pubkey : PublicKey
  dTag : String
deriving DecidableEq

/-- A row of `parameterized_event_watermarks`. -/
structure Watermark where
  key : MarkKey
  stamp : Stamp
deriving DecidableEq

/-- A row of `event_mentions` by its primary key. -/
structure Mention where
  communityId : CommunityId
  pubkeyHex : String
  eventId : EventId
deriving DecidableEq

structure Tables where
  events : List EventRow := []
  watermarks : List Watermark := []
  mentions : List Mention := []
deriving DecidableEq

/-- What one row of a table becomes. -/
inductive Change where
  | put (row : EventRow)
  | remove (key : CommunityId × Stamp)
  | mark (watermark : Watermark)
  | mention (mention : Mention)
  | removeMentions (communityId : CommunityId) (eventId : EventId)
deriving DecidableEq

namespace Tables

def apply (t : Tables) : Change → Tables
  | .put row => { t with events := t.events.filter (·.key ≠ row.key) ++ [row] }
  | .remove key => { t with events := t.events.filter (·.key ≠ key) }
  | .mark m => { t with watermarks := t.watermarks.filter (·.key ≠ m.key) ++ [m] }
  | .mention m => if m ∈ t.mentions then t else { t with mentions := t.mentions ++ [m] }
  | .removeMentions community id =>
    { t with
      mentions := t.mentions.filter fun m => ¬ (m.communityId = community ∧ m.eventId = id) }

end Tables

/-- The rows that a replacement counts as versions of one event. -/
inductive Slot where
  /-- `community_id = $1 AND kind = $2 AND pubkey = $3 AND d_tag = $4`. -/
  | parameterized (communityId : CommunityId) (kind : Kind) (pubkey : PublicKey) (dTag : String)
  /-- `… AND channel_id IS NOT DISTINCT FROM $4`. -/
  | addressable (communityId : CommunityId) (kind : Kind) (pubkey : PublicKey)
      (channelId : Option Uuid)
deriving DecidableEq

namespace Slot

def covers (row : EventRow) : Slot → Bool
  | parameterized community kind pubkey dTag =>
    row.communityId = community ∧ row.event.kind = kind ∧ row.event.pubkey = pubkey ∧
      row.dTag = some dTag
  | addressable community kind pubkey channelId =>
    row.communityId = community ∧ row.event.kind = kind ∧ row.event.pubkey = pubkey ∧
      row.channelId = channelId

end Slot

namespace Tables

/-- The rows of a slot with `deleted_at IS NULL`. -/
def live (t : Tables) (slot : Slot) : List EventRow :=
  t.events.filter fun row => slot.covers row && !row.deleted

def watermark (t : Tables) (key : MarkKey) : Option Stamp :=
  (t.watermarks.find? (·.key = key)).map Watermark.stamp

/-- The primary key is in use. -/
def taken (t : Tables) (key : CommunityId × Stamp) : Bool := t.events.any (·.key = key)

end Tables

/-! ### The order of versions -/

namespace Stamp

/-- `created_at < accepted_ts || (created_at == accepted_ts && incoming_id >= accepted_id)`. -/
def dominatedBy (incoming accepted : Stamp) : Bool :=
  incoming.createdAt < accepted.createdAt ||
    (incoming.createdAt == accepted.createdAt && accepted.id.toHex ≤ incoming.id.toHex)

/-- `ORDER BY created_at DESC, id ASC`. -/
def newestFirst (a b : Stamp) : Ordering :=
  (compare b.createdAt a.createdAt).then (compare a.id.toHex b.id.toHex)

/-- Later is greater, and of one second the smaller id. -/
def rank (s : Stamp) : Int ×ₗ Stringᵒᵈ := toLex (s.createdAt, OrderDual.toDual s.id.toHex)

theorem rank_injective : Function.Injective rank := by
  rintro ⟨t, id⟩ ⟨t', id'⟩ same
  have parts : (t, OrderDual.toDual id.toHex) = (t', OrderDual.toDual id'.toHex) :=
    toLex.injective same
  obtain ⟨rfl, ids⟩ := Prod.mk.inj parts
  rw [Hex64.toHex_injective (OrderDual.toDual.injective ids)]

instance : LinearOrder Stamp := LinearOrder.lift' rank rank_injective

theorem le_iff {a b : Stamp} :
    a ≤ b ↔ a.createdAt < b.createdAt ∨ (a.createdAt = b.createdAt ∧ b.id.toHex ≤ a.id.toHex) := by
  change rank a ≤ rank b ↔ _
  rw [Prod.Lex.le_iff]
  rfl

theorem dominatedBy_iff {incoming accepted : Stamp} :
    incoming.dominatedBy accepted = true ↔ incoming ≤ accepted := by
  simp [dominatedBy, le_iff]

end Stamp

/-! ### The shape of an event -/

/-- `^read-state:[0-9a-f]{32}$`. -/
def isReadStateTag (dTag : String) : Bool :=
  (stripStart "read-state:" dTag).any fun slot =>
    byteLen slot == 32 && slot.toList.all isLowerHexDigit

/-- `is_nip_rs`; the triggers test the row for the same. -/
def isNipRs (kind : Kind) (tags : List Tag) (dTag : String) : Bool :=
  kind == kindReadState &&
  tags.countP (fun t => Tag.kind t == some "d") == 1 &&
  tags.any (fun t => tagValue "d" t == some dTag) &&
  isReadStateTag dTag &&
  tags.countP (fun t => t == ["t", "read-state"]) == 1

def isBuzzMeshStatus (kind : Kind) (tags : List Tag) (dTag : String) : Bool :=
  kind == kindBookmarkSet && startsWith "buzz-mesh-member-status:" dTag &&
  tags.any (fun t => t == ["k", "buzz-mesh-status"])

namespace EventRow

def conformsNipRs (row : EventRow) : Bool :=
  row.dTag.any (isNipRs row.event.kind row.event.tags)

/-- What `purge_soft_deleted_buzz_mesh_status` looks for: the tag by containment. -/
def holdsMeshStatus (row : EventRow) : Bool :=
  row.event.kind == kindBookmarkSet && row.dTag.any (startsWith "buzz-mesh-member-status:") &&
  tagsContain row.event.tags "k" "buzz-mesh-status"

/-- The rows for which `guard_nip_rs_hard_delete` runs. -/
def guardsHardDelete (row : EventRow) : Bool :=
  row.event.kind == kindReadState && row.dTag.any isReadStateTag

/-- The row is soft-deleted, and the triggers remove some rows for good. -/
def softDelete (row : EventRow) : List Change :=
  .put { row with deleted := true } ::
    if row.conformsNipRs || row.holdsMeshStatus then
      [.remove row.key, .removeMentions row.communityId row.event.id]
    else []

end EventRow

/-! ### Statements -/

inductive Stmt where
  | advisoryXactLock (key : Int64)
  | selectHead (slot : Slot)
  | selectWatermark (key : MarkKey)
  | softDelete (slot : Slot)
  /-- `optIn`: the transaction has set `buzz.nip_rs_hard_delete`. -/
  | hardDelete (slot : Slot) (optIn : Bool)
  | deleteMentions (communityId : CommunityId) (eventId : EventId)
  | insert (row : EventRow)
  | upsertWatermark (watermark : Watermark)
  | insertMentions (communityId : CommunityId) (event : Event)

abbrev Reply : Stmt → Type
  | .selectHead _ | .selectWatermark _ => Option Stamp
  | .hardDelete _ _ => Except DbError Unit
  | .insert _ => Except DbError Bool
  | _ => Unit

namespace Tables

/-- `guard_nip_rs_watermark`, before an insert: an error, or whether the row is inserted at all
and the changes. -/
def guardNipRsWatermark (t : Tables) (row : EventRow) : Except DbError (Bool × List Change) :=
  match row.dTag with
  | none => .ok (true, [])
  | some dTag =>
    if row.conformsNipRs then
      let key : MarkKey := ⟨row.communityId, row.event.kind, row.event.pubkey, dTag⟩
      match t.watermark key with
      | none => .ok (true, [.mark ⟨key, row.stamp⟩])
      | some accepted =>
        if ¬ row.stamp.dominatedBy accepted then .ok (true, [.mark ⟨key, row.stamp⟩])
        else if row.stamp = accepted then .ok (false, [])
        else .error (.sqlx "stale NIP-RS event rejected by durable watermark")
    else .ok (true, [])

/-- `INSERT … ON CONFLICT DO NOTHING`, with the rows it has inserted. -/
def insert (t : Tables) (row : EventRow) : Except DbError Bool × List Change :=
  match t.guardNipRsWatermark row with
  | .error e => (.error e, [])
  | .ok (false, changes) => (.ok false, changes)
  | .ok (true, changes) =>
    if t.taken row.key then (.ok false, changes) else (.ok true, changes ++ [Change.put row])

def hardDelete (t : Tables) (slot : Slot) (optIn : Bool) : Except DbError Unit × List Change :=
  if !optIn && (t.live slot).any EventRow.guardsHardDelete then
    (.error (.sqlx "NIP-RS hard delete requires corrected writer opt-in"), [])
  else (.ok (), (t.live slot).map fun row => .remove row.key)

/-- The mentions that `guard_event_mention_live` lets in: those of a read state only while the
event is live. -/
def insertMentions (t : Tables) (communityId : CommunityId) (event : Event) : List Change :=
  if event.kind = kindReadState ∧ ¬ t.events.any (fun row => row.communityId = communityId ∧
      row.event.id = event.id ∧ row.createdAt = asI64 event.createdAt ∧ !row.deleted) then []
  else (mentionPubkeys event).map fun pubkey => .mention ⟨communityId, pubkey, event.id⟩

def exec : (stmt : Stmt) → Tables → Reply stmt × List Change
  | .advisoryXactLock _, _ => ((), [])
  | .selectHead slot, t =>
    ((sortBy Stamp.newestFirst ((t.live slot).map EventRow.stamp)).head?, [])
  | .selectWatermark key, t => (t.watermark key, [])
  | .softDelete slot, t => ((), (t.live slot).flatMap EventRow.softDelete)
  | .hardDelete slot optIn, t => t.hardDelete slot optIn
  | .deleteMentions community id, _ => ((), [.removeMentions community id])
  | .insert row, t => t.insert row
  | .upsertWatermark m, _ => ((), [.mark m])
  | .insertMentions community event, t => ((), t.insertMentions community event)

end Tables

/-- The server. Of its locks only the advisory ones are modelled: a statement that would wait
for a row or for a unique key of another transaction may go on at once. -/
def postgres : Server Stmt Reply Int64 Change Tables where
  lock
    | .advisoryXactLock key, _ => some key
    | _, _ => none
  exec := Tables.exec
  apply := Tables.apply

/-! ### The lock key -/

def uuidBytes (u : Uuid) : List UInt8 :=
  (List.range 16).map fun i => UInt8.ofNat (u.bits.toNat / 256 ^ (15 - i))

/-- `to_le_bytes` of an `i32`. -/
def leBytes (n : Nat) : List UInt8 := (List.range 4).map fun i => UInt8.ofNat (n / 256 ^ i)

def hexValue (c : Char) : Nat := if c ≤ '9' then c.toNat - '0'.toNat else c.toNat - 'a'.toNat + 10

def hexBytes : List Char → List UInt8
  | high :: low :: rest => UInt8.ofNat (hexValue high * 16 + hexValue low) :: hexBytes rest
  | _ => []

def utf8Bytes (s : String) : List UInt8 := s.toList.flatMap String.utf8EncodeChar

/-- FNV-1a over the parts of the coordinate. Two coordinates may have one key. -/
def eventReplacementLockKey (communityId : CommunityId) (kind : Kind) (pubkey : PublicKey)
    (coordinate : Option (List UInt8)) : Int64 :=
  let bytes := uuidBytes communityId.uuid ++ leBytes kind.toNat ++ hexBytes pubkey.toHex.toList ++
    coordinate.getD []
  (bytes.foldl (fun hash byte => (hash ^^^ byte.toUInt64) * 0x100000001b3)
    (0xcbf29ce484222325 : UInt64)).toInt64

namespace Slot

def lockKey : Slot → Int64
  | parameterized community kind pubkey dTag =>
    eventReplacementLockKey community kind pubkey (some (utf8Bytes dTag))
  | addressable community kind pubkey channelId =>
    eventReplacementLockKey community kind pubkey (channelId.map uuidBytes)

end Slot

/-! ### The two functions -/

/-- The event as it is returned, and `was_inserted`. -/
abbrev Replaced := StoredEvent × Bool

/-- A transaction that is dropped with an error is rolled back. -/
def inTransaction {α : Type} (task : Task Stmt Reply DbError (Ending α)) :
    Prog Stmt Reply (Ending (Except DbError α)) := do
  match ← task.run with
  | .ok ending => return ending.map .ok
  | .error e => return .rollback (.error e)

def ask (stmt : Stmt) : Task Stmt Reply DbError (Reply stmt) := Task.ask stmt

/-- The watermark matters for a read state only. -/
def readWatermark (nipRs : Bool) (mark : MarkKey) : Task Stmt Reply DbError (Option Stamp) :=
  if nipRs then ask (.selectWatermark mark) else pure none

/-- The earlier version goes: a read state and a mesh status for good, with their mentions. -/
def supersede (slot : Slot) (communityId : CommunityId) (existing : Option Stamp)
    (nipRs meshStatus : Bool) : Task Stmt Reply DbError Unit :=
  match existing with
  | none => pure ()
  | some head =>
    if nipRs || meshStatus then do
      Task.reply (ask (.hardDelete slot nipRs))
      ask (.deleteMentions communityId head.id)
    else ask (.softDelete slot)

def keepWatermark (nipRs : Bool) (watermark : Watermark) : Task Stmt Reply DbError Unit :=
  if nipRs then ask (.upsertWatermark watermark) else pure ()

/-- Insert the new version and finish the transaction with `after`; a conflict brings the earlier
version back. -/
def insertVersion (row : EventRow) (after : Task Stmt Reply DbError Unit) :
    Task Stmt Reply DbError (Ending Replaced) := do
  let wasInserted ← Task.reply (ask (.insert row))
  if wasInserted then do
    after
    return .commit (⟨row.event, row.channelId⟩, true)
  else return .rollback (⟨row.event, row.channelId⟩, false)

/-- `from_timestamp(secs, 0).ok_or(InvalidTimestamp(secs))?`, before a transaction is begun. -/
def okOrInvalid (secs : Int) (time : Option Int)
    (body : Int → Prog Stmt Reply (Ending (Except DbError Replaced))) :
    Prog Stmt Reply (Ending (Except DbError Replaced)) :=
  match time with
  | none => .pure (.rollback (.error (.invalidTimestamp secs)))
  | some createdAt => body createdAt

def withCreatedAt (event : Event)
    (body : Int → Prog Stmt Reply (Ending (Except DbError Replaced))) :
    Prog Stmt Reply (Ending (Except DbError Replaced)) :=
  okOrInvalid (asI64 event.createdAt) (fromTimestamp (asI64 event.createdAt)) body

/-- The transaction of `replace_parameterized_event`. -/
def replaceParameterizedAt (communityId : CommunityId) (event : Event) (dTag : String)
    (channelId : Option Uuid) (createdAt : Int) : Task Stmt Reply DbError (Ending Replaced) := do
  let slot : Slot := .parameterized communityId event.kind event.pubkey dTag
  let mark : MarkKey := ⟨communityId, event.kind, event.pubkey, dTag⟩
  let incoming : Stamp := ⟨createdAt, event.id⟩
  let nipRs := isNipRs event.kind event.tags dTag
  ask (.advisoryXactLock slot.lockKey)
  let existing : Option Stamp ← ask (.selectHead slot)
  let watermark ← readWatermark nipRs mark
  if existing.any incoming.dominatedBy || watermark.any incoming.dominatedBy then
    return .rollback (⟨event, channelId⟩, false)
  supersede slot communityId existing nipRs (isBuzzMeshStatus event.kind event.tags dTag)
  insertVersion { communityId, event, createdAt, channelId, dTag := some dTag }
    (keepWatermark nipRs ⟨mark, incoming⟩)

def replaceParameterizedEvent (communityId : CommunityId) (event : Event) (dTag : String)
    (channelId : Option Uuid) : Prog Stmt Reply (Ending (Except DbError Replaced)) :=
  withCreatedAt event fun createdAt =>
    inTransaction (replaceParameterizedAt communityId event dTag channelId createdAt)

/-- The transaction of `replace_addressable_event`. -/
def replaceAddressableAt (communityId : CommunityId) (event : Event) (channelId : Option Uuid)
    (createdAt : Int) : Task Stmt Reply DbError (Ending Replaced) := do
  let slot : Slot := .addressable communityId event.kind event.pubkey channelId
  let incoming : Stamp := ⟨createdAt, event.id⟩
  ask (.advisoryXactLock slot.lockKey)
  let existing : Option Stamp ← ask (.selectHead slot)
  if existing.any incoming.dominatedBy then
    return .rollback (⟨event, channelId⟩, false)
  ask (.softDelete slot)
  insertVersion { communityId, event, createdAt, channelId, dTag := extractDTag event }
    (ask (.insertMentions communityId event))

def replaceAddressableEvent (communityId : CommunityId) (event : Event)
    (channelId : Option Uuid) : Prog Stmt Reply (Ending (Except DbError Replaced)) :=
  withCreatedAt event fun createdAt =>
    inTransaction (replaceAddressableAt communityId event channelId createdAt)

/-! ### Deletions -/

/-- `UPDATE events SET deleted_at = NOW() WHERE … AND deleted_at IS NULL` as a transaction of its
own, with whether it has updated a row. -/
def Tables.softDeleteWhere (t : Tables) (condition : EventRow → Bool) : Bool × Tables :=
  let rows := t.events.filter fun row => condition row && !row.deleted
  (!rows.isEmpty, postgres.view t (rows.flatMap EventRow.softDelete))

def softDeleteEvent (communityId : CommunityId) (eventId : EventId) (t : Tables) :
    Bool × Tables :=
  t.softDeleteWhere fun row => row.communityId = communityId ∧ row.event.id = eventId

/-- A deletion spares what is newer than itself. -/
def softDeleteByCoordinate (communityId : CommunityId) (kind : Kind) (pubkey : PublicKey)
    (dTag : String) (deletionCreatedAtSecs : Int) (t : Tables) : Except DbError (Bool × Tables) :=
  match fromTimestamp deletionCreatedAtSecs with
  | none => .error (.invalidTimestamp deletionCreatedAtSecs)
  | some deletionCreatedAt => .ok (t.softDeleteWhere fun row =>
      (Slot.parameterized communityId kind pubkey dTag).covers row &&
        row.createdAt ≤ deletionCreatedAt)

end Db
