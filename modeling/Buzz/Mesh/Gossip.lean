import Buzz.Lib.Compare
import Buzz.Lib.Newest
import Buzz.Tunnel.Directory

/-!
# Gossip between relay runtimes

Every runtime of a deployment has a record that only it changes. Records spread by an exchange
of digests and deltas: a digest says which versions a runtime knows, and the answer is a delta
of the records that are newer. `GossipState` is the exchange without anything around it.
-/
namespace Mesh

open Lib Nostr
open Tunnel (RuntimeId)

def gossipPayloadVersion : Nat := 1

/-- `u64::MAX`. -/
def maxVersion : Nat := 2 ^ 64 - 1

structure GossipRecord where
  runtimeId : RuntimeId
  endpointAddrs : List String
  protoVersion : UInt16
  /-- The bits of an `f32`. -/
  load : UInt32
  draining : Bool
  capabilities : List String
  version : Nat
  heartbeatMillis : Nat
  bounded : version ≤ maxVersion
deriving DecidableEq

/-- A first record, at the time `now`. -/
def GossipRecord.new (runtimeId : RuntimeId) (endpointAddrs : List String) (protoVersion : UInt16)
    (now : Nat) : GossipRecord where
  runtimeId
  endpointAddrs
  protoVersion
  load := 0
  draining := false
  capabilities := []
  version := 1
  heartbeatMillis := now
  bounded := by decide

/-- `update(&mut record)`, with a new version and a heartbeat. -/
def GossipRecord.updated (r : GossipRecord) (update : GossipRecord → GossipRecord) (now : Nat) :
    GossipRecord :=
  { update r with
    version := min ((update r).version + 1) maxVersion
    heartbeatMillis := now
    bounded := Nat.min_le_right _ _ }

structure GossipDigestEntry where
  runtimeId : RuntimeId
  version : Nat
deriving DecidableEq

inductive GossipMessage where
  | digest (version : Nat) (entries : List GossipDigestEntry)
  | delta (version : Nat) (records : List GossipRecord)
deriving DecidableEq

/-- The check of `decode_message` on a message that was read. -/
def GossipMessage.known : GossipMessage → Bool
  | .digest version _ => version = gossipPayloadVersion
  | .delta version _ => version = gossipPayloadVersion

/-- `sort_by_key(to_hex)`. -/
def sortById {α : Type} (id : α → RuntimeId) (l : List α) : List α :=
  sortBy (fun a b => compare (id a).toHex (id b).toHex) l

def GossipRecord.entry (r : GossipRecord) : GossipDigestEntry := ⟨r.runtimeId, r.version⟩

/-- The digest of these records. -/
def digestOf (records : List GossipRecord) : List GossipDigestEntry :=
  sortById (·.runtimeId) (records.map GossipRecord.entry)

/-- The versions of a digest, collected into a map: of two entries the last one counts. -/
def remoteVersions (entries : List GossipDigestEntry) (id : RuntimeId) : Option Nat :=
  (entries.reverse.find? (·.runtimeId = id)).map (·.version)

/-- The records that a digest lacks or has in an older version. -/
def deltaOf (records : List GossipRecord) (digest : List GossipDigestEntry) : List GossipRecord :=
  sortById (·.runtimeId) (records.filter fun r =>
    (remoteVersions digest r.runtimeId).all (· < r.version))

/-- Records are kept as they come. -/
@[reducible] def records : Renewal RuntimeId GossipRecord GossipRecord where
  key := (·.runtimeId)
  version := (·.version)
  record := id
  fresh := id
  renew _ r := r
  record_fresh _ := rfl
  record_renew _ _ := rfl

structure GossipState where
  records : Keyed GossipRecord.runtimeId

namespace GossipState

/-- `GossipState::new`. -/
def new (localRecord : GossipRecord) : GossipState := ⟨Keyed.empty.put localRecord⟩

/-- `update_local`: nothing happens where the runtime is not known. -/
def updateLocal (s : GossipState) (id : RuntimeId) (update : GossipRecord → GossipRecord)
    (now : Nat) : GossipState :=
  match s.records.get id with
  | none => s
  | some r => ⟨s.records.put (r.updated update now)⟩

def digest (s : GossipState) : GossipMessage :=
  .digest gossipPayloadVersion (digestOf s.records.rows)

def deltaFor (s : GossipState) (digest : List GossipDigestEntry) : GossipMessage :=
  .delta gossipPayloadVersion (deltaOf s.records.rows digest)

/-- One record of a delta, and whether it changes the state. -/
def applyRecord (s : GossipState) (r : GossipRecord) : GossipState × Bool :=
  if (s.records.get r.runtimeId).all (·.version < r.version) then (⟨s.records.put r⟩, true)
  else (s, false)

/-- `apply_delta`, with the runtime ids that changed. -/
def applyDelta (s : GossipState) : List GossipRecord → GossipState × List RuntimeId
  | [] => (s, [])
  | r :: rest =>
    let (next, changes) := s.applyRecord r
    let (last, changed) := next.applyDelta rest
    (last, if changes then r.runtimeId :: changed else changed)

end GossipState

end Mesh
