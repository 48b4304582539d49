import Buzz.Lib.Compare
import Buzz.Lib.Guard
import Buzz.Lib.Text
import Buzz.Relay.Subscription

/-!
# The events table

`event.rs` of `buzz-db`: the columns that an insert derives from an event, the `EventQuery` and
the rows that `query_events_on` and `count_events_on` select for it. The two functions build the
same `WHERE` clause; only a query knows the composite cursor, the shared gate, an order and a
page. SQL is taken to evaluate the clause as it is written.
-/
namespace Db

open Lib Nostr Relay

/-! ### Kinds -/

def kindAuth : Kind := 22242
def kindPersona : Kind := 30175
def kindTeamCatalog : Kind := 30178

/-- Kinds that only their author reads unless the event is shared. -/
def sharedGatedKinds : List Kind := [kindPersona, kindTeamCatalog]

def isEphemeral (kind : Kind) : Bool := 20000 ≤ kind && kind ≤ 29999

def isParameterizedReplaceable (kind : Kind) : Bool := 30000 ≤ kind && kind ≤ 39999

/-! ### Timestamps -/

/-- `as i64` of a `u64`. -/
@[irreducible] def asI64 (n : Nat) : Int := Int.bmod n (2 ^ 64)

/-- The first second of `chrono`'s calendar: year -262143. -/
def minSecs : Int := -8334601228800

/-- The last second of `chrono`'s calendar: year 262142. -/
def maxSecs : Int := 8210266876799

/-- `DateTime::from_timestamp(secs, 0)`: an instant as its second. -/
def fromTimestamp (secs : Int) : Option Int :=
  if minSecs ≤ secs ∧ secs ≤ maxSecs then some secs else none

theorem asI64_of_lt {n : Nat} (small : n < 2 ^ 63) : asI64 n = n := by
  unfold asI64
  rw [Int.bmod_def]
  split <;> omega

theorem asI64_of_le {n : Nat} (large : 2 ^ 63 ≤ n) (bound : n < 2 ^ 64) :
    asI64 n = (n : Int) - 2 ^ 64 := by
  unfold asI64
  rw [Int.bmod_def]
  split <;> omega

theorem fromTimestamp_eq_some {secs t : Int} :
    fromTimestamp secs = some t ↔ secs = t ∧ minSecs ≤ t ∧ t ≤ maxSecs := by
  unfold fromTimestamp
  split
  next fits =>
    constructor
    · intro same
      cases same
      exact ⟨rfl, fits⟩
    · rintro ⟨rfl, _⟩
      rfl
  next misfit =>
    constructor
    · intro same
      cases same
    · rintro ⟨rfl, fits⟩
      exact absurd fits misfit

/-! ### Rows -/

/-- `parts.len() >= 2 && parts[0] == name`, then `parts[1]`. -/
def tagValue (name : String) (t : Tag) : Option String :=
  if Tag.kind t = some name then Tag.content t else none

/-- The value of the first `d` tag, or the empty text, for a NIP-33 kind. -/
def extractDTag (event : Event) : Option String :=
  if isParameterizedReplaceable event.kind then
    some ((event.tags.findSome? (tagValue "d")).getD "")
  else none

def toAsciiLowercase (s : String) : String := String.ofList (s.toList.map Char.toLower)

/-- Sixty-four hex digits in either case. -/
def isHexPubkey (s : String) : Bool := byteLen s == 64 && s.toList.all isAsciiHexDigit

/-- The keys that `insert_mentions` writes for an event: malformed `p` tags are skipped. -/
def mentionPubkeys (event : Event) : List String :=
  ((event.tags.filterMap (tagValue "p")).filter isHexPubkey).map toAsciiLowercase

/-- A row of `events` with its rows of `event_mentions`. -/
structure Row where
  communityId : CommunityId
  event : Event
  channelId : Option Uuid := none
  /-- `deleted_at IS NOT NULL`. -/
  deleted : Bool := false
  /-- `insert_mentions` runs after the insert, and that it failed is only logged. -/
  mentioned : Bool := true
  /-- `insert_event` refuses these kinds. -/
  storable : event.kind ≠ kindAuth ∧ isEphemeral event.kind = false := by decide
  /-- Ingest takes an event only within fifteen minutes of its own clock. -/
  inRange : (event.createdAt : Int) ≤ maxSecs := by decide
deriving DecidableEq

namespace Row

def createdAt (r : Row) : Int := r.event.createdAt

def dTag (r : Row) : Option String := extractDTag r.event

def mentions (r : Row) : List String := if r.mentioned then mentionPubkeys r.event else []

/-- `row_to_stored_event`. -/
def stored (r : Row) : StoredEvent := ⟨r.event, r.channelId⟩

@[simp] theorem stored_event (r : Row) : r.stored.event = r.event := rfl

@[simp] theorem stored_channelId (r : Row) : r.stored.channelId = r.channelId := rfl

end Row

/-! ### Queries -/

inductive DbError where
  | invalidData (message : String)
  | invalidTimestamp (secs : Int)
  /-- What the server or the connection reports. -/
  | sqlx (message : String)
deriving DecidableEq

namespace DbError

/-- `Display` of `DbError`. -/
def toString : DbError → String
  | invalidData message => "invalid data: " ++ message
  | invalidTimestamp secs => "invalid timestamp: " ++ secs.repr
  | sqlx message => "database error: " ++ message

end DbError

def defaultMaxPageLimit : Int := 1000

structure EventQuery where
  communityId : CommunityId
  channelId : Option Uuid := none
  kinds : Option (List Kind) := none
  pubkey : Option PublicKey := none
  since : Option Int := none
  until_ : Option Int := none
  limit : Option Int := none
  offset : Option Nat := none
  pTagHex : Option String := none
  dTag : Option String := none
  dTags : Option (List String) := none
  beforeId : Option EventId := none
  globalOnly : Bool := false
  authors : Option (List PublicKey) := none
  ids : Option (List EventId) := none
  eTags : Option (List String) := none
  channelIds : Option (List Uuid) := none
  channelIdsIncludeGlobal : Bool := true
  maxLimit : Option Int := none
  sharedGatedReader : Option PublicKey := none
deriving DecidableEq

/-- `tags @> [[key, value]]`: JSONB containment looks at the elements of a tag and not at their
positions. -/
def tagsContain (tags : List Tag) (key value : String) : Bool :=
  tags.any fun t => t.contains key && t.contains value

namespace EventQuery

/-- An empty list stands for a query without rows. -/
def matchesNothing (q : EventQuery) : Bool :=
  q.kinds == some [] || q.authors == some [] || q.ids == some [] || q.eTags == some []

def channelClause (q : EventQuery) (channel : Option Uuid) : Bool :=
  (match q.channelId with
    | some ch => channel == some ch
    | none => !q.globalOnly || channel == none) &&
  (match q.channelIds with
    | none => true
    | some [] => q.channelIdsIncludeGlobal && channel == none
    | some ids => (q.channelIdsIncludeGlobal && channel == none) || channel.any (ids.contains ·))

def dTagClause (q : EventQuery) (dTag : Option String) : Bool :=
  match q.dTag with
  | some d => dTag == some d
  | none => match q.dTags with
    | none | some [] => true
    | some ds => dTag.any (ds.contains ·)

/-- The clauses that a count and a query have in common, the channel's aside. -/
def fieldWhere (q : EventQuery) (r : Row) : Bool :=
  r.communityId == q.communityId && !r.deleted &&
  q.pTagHex.all (fun p => r.mentions.contains (toAsciiLowercase p)) &&
  q.kinds.all (fun ks => ks.contains r.event.kind) &&
  q.pubkey.all (fun pk => r.event.pubkey == pk) &&
  q.authors.all (fun as => as.contains r.event.pubkey) &&
  q.ids.all (fun ids => ids.contains r.event.id) &&
  q.eTags.all (fun es => es.any (tagsContain r.event.tags "e" ·)) &&
  q.since.all (fun s => s ≤ r.createdAt) &&
  q.dTagClause r.dTag

def countWhere (q : EventQuery) (r : Row) : Bool :=
  q.channelClause r.channelId && q.fieldWhere r && q.until_.all (fun u => r.createdAt ≤ u)

/-- The composite cursor: `until` excludes its own second up to and including `before_id`. -/
def untilClause (q : EventQuery) (r : Row) : Bool :=
  q.until_.all fun u => match q.beforeId with
    | some bid => r.createdAt < u || (r.createdAt == u && bid.toHex < r.event.id.toHex)
    | none => r.createdAt ≤ u

def sharedClause (q : EventQuery) (r : Row) : Bool :=
  q.sharedGatedReader.all fun reader =>
    !sharedGatedKinds.contains r.event.kind || r.event.pubkey == reader ||
      tagsContain r.event.tags "shared" "true"

def queryWhere (q : EventQuery) (r : Row) : Bool :=
  q.channelClause r.channelId && q.fieldWhere r && q.untilClause r && q.sharedClause r

/-- The `LIMIT` of the page. -/
def limitVal (q : EventQuery) : Int :=
  min (q.limit.getD 100) (q.maxLimit.getD defaultMaxPageLimit)

end EventQuery

namespace EventQuery

variable {q : EventQuery} {channel : Option Uuid}

theorem channelClause_of_channel {u : Uuid} (own : q.channelId = some u)
    (open_ : q.channelIds = none) : q.channelClause channel = true ↔ channel = some u := by
  simp [channelClause, own, open_]

theorem channelClause_of_ids {ids : List Uuid} (open_ : q.channelId = none)
    (any : q.globalOnly = false) (scope : q.channelIds = some ids) :
    q.channelClause channel = true ↔
      (q.channelIdsIncludeGlobal = true ∧ channel = none) ∨ ∃ c ∈ channel, c ∈ ids := by
  cases ids with
  | nil => simp [channelClause, open_, any, scope]
  | cons id ids => cases channel <;> simp [channelClause, open_, any, scope]

theorem channelClause_of_none (open_ : q.channelId = none) (any : q.globalOnly = false)
    (unscoped : q.channelIds = none) : q.channelClause channel = true := by
  simp [channelClause, open_, any, unscoped]

end EventQuery

/-- `ORDER BY created_at DESC, id ASC`. -/
def pageOrder (r r' : Row) : Ordering :=
  (compare r'.createdAt r.createdAt).then (compare r.event.id.toHex r'.event.id.toHex)

/-- The rows that `count_events_on` counts. -/
def countedOn (rows : List Row) (q : EventQuery) : List Row :=
  if q.matchesNothing then [] else rows.filter q.countWhere

def countEventsOn (rows : List Row) (q : EventQuery) : Nat := (countedOn rows q).length

def queryEventsOn (rows : List Row) (q : EventQuery) : Except DbError (List Row) := do
  ensure (¬ (q.beforeId.isSome ∧ q.until_ = none))
    (.invalidData "before_id requires until to be set")
  ensure (¬ (q.globalOnly ∧ q.channelId.isSome))
    (.invalidData "global_only and channel_id are mutually exclusive")
  if q.matchesNothing then return []
  ensure (0 ≤ q.limitVal) (.sqlx "LIMIT must not be negative")
  return (((sortBy pageOrder (rows.filter q.queryWhere)).drop (q.offset.getD 0)).take
    q.limitVal.toNat)

end Db
