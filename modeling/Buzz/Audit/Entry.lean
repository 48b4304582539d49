import Buzz.Lib.JsonShape
import Buzz.Lib.Sorted
import Buzz.Relay.Subscription
import Mathlib.Data.List.Forall2

/-!
# Audit entries and their hash

The entries of `buzz-audit` with the bytes that are hashed for them (`action.rs`,
`entry.rs`, `error.rs`, `hash.rs`). A number of the JSON context is the literal that
`serde_json` writes for it, and neither a number nor a string fails to be written, so
that `compute_hash` does not return its serialization error.

The text of a time and SHA-256 come from other crates and are parameters.
-/
namespace Audit

open Lib Nostr Relay

abbrev Bytes := List UInt8

def utf8 (text : List Char) : Bytes := text.flatMap String.utf8EncodeChar

/-! ### Actions -/

inductive AuditAction where
  | eventCreated
  | eventDeleted
  | channelCreated
  | channelUpdated
  | channelDeleted
  | memberAdded
  | memberRemoved
  | authSuccess
  | authFailure
  | rateLimitExceeded
  | mediaUploaded
deriving DecidableEq

namespace AuditAction

def asStr : AuditAction → String
  | .eventCreated => "event_created"
  | .eventDeleted => "event_deleted"
  | .channelCreated => "channel_created"
  | .channelUpdated => "channel_updated"
  | .channelDeleted => "channel_deleted"
  | .memberAdded => "member_added"
  | .memberRemoved => "member_removed"
  | .authSuccess => "auth_success"
  | .authFailure => "auth_failure"
  | .rateLimitExceeded => "rate_limit_exceeded"
  | .mediaUploaded => "media_uploaded"

def all : List AuditAction :=
  [.eventCreated, .eventDeleted, .channelCreated, .channelUpdated, .channelDeleted, .memberAdded,
    .memberRemoved, .authSuccess, .authFailure, .rateLimitExceeded, .mediaUploaded]

def fromStr (s : String) : Option AuditAction := all.find? (·.asStr = s)

theorem fromStr_eq_some {s : String} {action : AuditAction} :
    fromStr s = some action ↔ s = action.asStr := by
  constructor
  · intro found
    have named : action.asStr = s := by simpa using List.find?_some found
    exact named.symm
  · rintro rfl
    cases action <;> decide

end AuditAction

/-! ### Entries -/

/-- Nanoseconds since the Unix epoch. -/
abbrev DateTime := Int

structure NewAuditEntry where
  communityId : CommunityId
  action : AuditAction
  actorPubkey : Option Bytes
  objectId : Option String
  detail : Json

structure AuditEntry where
  communityId : Uuid
  /-- An `i64` in the source; that it overflows is left out. -/
  seq : Int
  hash : Bytes
  prevHash : Option Bytes
  action : AuditAction
  actorPubkey : Option Bytes
  objectId : Option String
  detail : Json
  createdAt : DateTime

inductive AuditError where
  | database (text : String)
  | chainViolation (seq : Int)
  | hashMismatch (seq : Int)
  | unknownAction
deriving DecidableEq

def AuditError.display : AuditError → String
  | .database text => "database error: " ++ text
  | .chainViolation seq =>
    s!"hash chain integrity violation at seq {seq}: " ++ "prev_hash does not match preceding entry"
  | .hashMismatch seq =>
    s!"hash mismatch at seq {seq}: " ++ "stored hash does not match recomputed hash"
  | .unknownAction => "unknown audit action in database"

/-- How a call of the service fails: with an error or by a panic. -/
inductive Fault where
  | error (e : AuditError)
  | panic
deriving DecidableEq

/-! ### The hash -/

def genesisHash : Bytes := List.replicate 32 0

/-- Microseconds, which is what a `TIMESTAMPTZ` column keeps. -/
def toStoragePrecision (createdAt : DateTime) : DateTime := createdAt - createdAt % 1000

theorem toStoragePrecision_idem (t : DateTime) :
    toStoragePrecision (toStoragePrecision t) = toStoragePrecision t := by
  have whole (n : Int) : (n - n % 1000) % 1000 = 0 := by omega
  rw [toStoragePrecision, toStoragePrecision, whole t, Int.sub_zero]

mutual
/-- Compact JSON with the members of an object in the order of their names. -/
def canonicalJson : Json → List Char
  | .obj members =>
    let sorted := BTreeMap.ofList (canonicalMembers members)
    '\x7b' :: [','].intercalate (sorted.entries.map fun (k, text) =>
      Json.printString k ++ ':' :: text) ++ ['\x7d']
  | .arr items => '[' :: [','].intercalate (canonicalItems items) ++ [']']
  | .null => Json.null.print
  | .bool b => (Json.bool b).print
  | .num literal => (Json.num literal).print
  | .str s => (Json.str s).print

def canonicalItems : List Json → List (List Char)
  | [] => []
  | item :: rest => canonicalJson item :: canonicalItems rest

def canonicalMembers : List (String × Json) → List (String × List Char)
  | [] => []
  | (name, value) :: rest => (name, canonicalJson value) :: canonicalMembers rest
end

/-- The big-endian bytes of the low `8 * width` bits. -/
def toBeBytes : Nat → Int → Bytes
  | 0, _ => []
  | width + 1, n => toBeBytes width (n / 256) ++ [UInt8.ofNat (n % 256).toNat]

/-- A presence tag and the bytes, if there are any. -/
def tagged : Option Bytes → Bytes
  | some bytes => 1 :: bytes
  | none => [0]

/-- What comes from `chrono` and `sha2`. -/
structure Hashing where
  toRfc3339 : DateTime → String
  sha256 : Bytes → Vector UInt8 32

namespace Hashing

variable (hashing : Hashing)

/-- The bytes that are hashed; the hash itself is not among them. -/
def preimage (entry : AuditEntry) : Bytes :=
  toBeBytes 16 entry.communityId.bits.toNat ++
    toBeBytes 8 entry.seq ++
    utf8 (hashing.toRfc3339 (toStoragePrecision entry.createdAt)).toList ++
    utf8 entry.action.asStr.toList ++
    tagged entry.actorPubkey ++
    tagged (entry.objectId.map fun id => utf8 id.toList) ++
    utf8 (canonicalJson entry.detail) ++
    entry.prevHash.getD genesisHash

def computeHash (entry : AuditEntry) : Bytes := (hashing.sha256 (hashing.preimage entry)).toList

end Hashing

/-! ### Equal contexts have one hash -/

private theorem canonicalMembers_eq (members : List (String × Json)) :
    canonicalMembers members = members.map fun member => (member.1, canonicalJson member.2) := by
  induction members with
  | nil => rfl
  | cons member rest ih => rw [canonicalMembers, ih, List.map_cons]

private theorem get?_canonicalMembers (members : List (String × Json)) (name : String) :
    (BTreeMap.ofList (canonicalMembers members)).get? name =
      ((Json.obj members).get? name).map canonicalJson := by
  rw [BTreeMap.get?_ofList, canonicalMembers_eq, ← List.map_reverse, List.find?_map, Json.get?]
  simp [Function.comp_def]

mutual
theorem canonicalJson_congr : ∀ {value value' : Json}, value.Equal value' →
    canonicalJson value = canonicalJson value'
  | _, _, .null => rfl
  | _, _, .bool _ => rfl
  | _, _, .num _ => rfl
  | _, _, .str _ => rfl
  | .arr items, .arr items', .arr same => by
    rw [canonicalJson, canonicalJson, canonicalItems_congr items items' same]
  | .obj members, .obj members', .obj same => by
    have sorted : BTreeMap.ofList (canonicalMembers members) =
        BTreeMap.ofList (canonicalMembers members') := by
      apply BTreeMap.ext_get?
      intro name
      rw [get?_canonicalMembers, get?_canonicalMembers]
      have found := same name
      cases here : (Json.obj members).get? name with
      | none =>
        rw [here] at found
        cases there : (Json.obj members').get? name with
        | none => rfl
        | some value' => rw [there] at found; cases found
      | some value =>
        rw [here] at found
        cases there : (Json.obj members').get? name with
        | none => rw [there] at found; cases found
        | some value' =>
          rw [there] at found
          cases found with
          | some equal =>
            have member := Json.mem_of_get? here
            rw [Option.map_some, Option.map_some, canonicalMember_congr members name value member equal]
    rw [canonicalJson, canonicalJson, sorted]

theorem canonicalItems_congr : ∀ items items' : List Json, List.Forall₂ Json.Equal items items' →
    canonicalItems items = canonicalItems items'
  | [], [], _ => rfl
  | item :: rest, item' :: rest', .cons same later => by
    rw [canonicalItems, canonicalItems, canonicalJson_congr same,
      canonicalItems_congr rest rest' later]

theorem canonicalMember_congr : ∀ (members : List (String × Json)) (name : String) (value : Json),
    (name, value) ∈ members → ∀ {value' : Json}, value.Equal value' →
      canonicalJson value = canonicalJson value'
  | (_, value) :: rest, name, value', member, _, same => by
    rcases List.mem_cons.mp member with here | member
    · cases here
      exact canonicalJson_congr same
    · exact canonicalMember_congr rest name value' member same
end

end Audit
