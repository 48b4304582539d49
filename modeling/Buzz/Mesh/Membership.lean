import Buzz.Mesh.Gossip

/-!
# The membership table of a runtime

The table has a row for every other runtime that is known, from the records of the ready
registry in Redis and from gossip. A record of the registry counts when the relay key has
signed its runtime id. Not modelled are the counters for the status page and the suspicion
level, a floating-point number; the heartbeats it is computed from are.
-/
namespace Mesh

open Lib Nostr
open Tunnel (RuntimeId)

/-! ### The ready registry -/

def attestationContext : String := "buzz-relay-mesh-ready-v1"

/-- What the relay key signs. -/
def attestationPreimage (runtimeId : RuntimeId) (relayPubkey : String) : String :=
  attestationContext ++ "\nruntime_pubkey=" ++ runtimeId.toHex ++ "\nrelay_pubkey=" ++ relayPubkey

/-- The value at `mesh:ready:{runtime_id}`. -/
structure ReadyRecord where
  runtimeId : RuntimeId
  runtimePubkey : String
  relayPubkey : String
  relaySig : String
  endpointAddrs : List String
  protoVersion : UInt16
  capabilities : List String
deriving DecidableEq

/-- The parts of the `nostr` and `secp256k1` crates that read keys and check signatures. The
digest that is signed is left to `verifies`, which gets the text. -/
structure Schnorr where
  fromHex : String → Option PublicKey
  fromHex_toHex : ∀ key : PublicKey, fromHex key.toHex = some key
  /-- `Signature::from_str`. -/
  readable : String → Bool
  /-- `verify_schnorr` over the SHA-256 of the text. -/
  verifies : PublicKey → String → String → Bool

inductive AttestationError where
  | mismatch
  | relayPubkey
  | relaySig
  | verification
deriving DecidableEq

variable (schnorr : Schnorr)

/-- `ReadyRecord::verify_attestation`. -/
def ReadyRecord.verifyAttestation (ready : ReadyRecord) : Except AttestationError Unit :=
  if ready.runtimePubkey ≠ ready.runtimeId.toHex then .error .mismatch
  else match schnorr.fromHex ready.relayPubkey with
    | none => .error .relayPubkey
    | some key =>
      if schnorr.readable ready.relaySig = false then .error .relaySig
      else if schnorr.verifies key ready.relaySig (attestationPreimage ready.runtimeId key.toHex) then
        .ok ()
      else .error .verification

/-! ### The table -/

inductive ConnectionState where
  | disconnected
  | connecting
  | connected
  | suspect
deriving DecidableEq

/-- The intervals between heartbeats, in milliseconds. -/
structure PhiAccrual where
  samples : List Nat
  lastHeartbeat : Option Nat
  maxSamples : Nat
deriving DecidableEq

namespace PhiAccrual

def default : PhiAccrual := ⟨[], none, 100⟩

/-- A heartbeat, which counts as an interval when it is later than the last one. -/
def observe (phi : PhiAccrual) (at_ : Nat) : PhiAccrual :=
  let samples := match phi.lastHeartbeat with
    | some last =>
      if last < at_ then
        let pushed := phi.samples ++ [at_ - last]
        if phi.maxSamples < pushed.length then pushed.tail else pushed
      else phi.samples
    | none => phi.samples
  { phi with samples, lastHeartbeat := some at_ }

end PhiAccrual

structure PeerState where
  record : GossipRecord
  phi : PhiAccrual
  connectionState : ConnectionState
deriving DecidableEq

def PeerState.fresh (r : GossipRecord) : PeerState :=
  ⟨r, PhiAccrual.default.observe r.heartbeatMillis, .connected⟩

def PeerState.renew (peer : PeerState) (r : GossipRecord) : PeerState :=
  ⟨r, peer.phi.observe r.heartbeatMillis, .connected⟩

/-- Rows of the table, and the records they come from. -/
@[reducible] def peerRows : Renewal RuntimeId GossipRecord PeerState where
  key := (·.runtimeId)
  version := (·.version)
  record := (·.record)
  fresh := PeerState.fresh
  renew := PeerState.renew
  record_fresh _ := rfl
  record_renew _ _ := rfl

structure MeshMembership where
  localRuntimeId : RuntimeId
  localRecord : GossipRecord
  peers : peerRows.Replica
  draining : Bool
  foreignRelayRejections : Nat
  expectedRelayPubkey : Option String
  own : localRecord.runtimeId = localRuntimeId
  apart : ∀ peer ∈ peers.rows, peer.record.runtimeId ≠ localRuntimeId

namespace MeshMembership

def new (localRecord : GossipRecord) : MeshMembership where
  localRuntimeId := localRecord.runtimeId
  localRecord
  peers := .empty
  draining := false
  foreignRelayRejections := 0
  expectedRelayPubkey := none
  own := rfl
  apart _ member := (List.not_mem_nil member).elim

def withExpectedRelayPubkey (m : MeshMembership) (pubkeyHex : String) : MeshMembership :=
  { m with expectedRelayPubkey := some pubkeyHex }

theorem put_apart {m : MeshMembership} {peer : PeerState}
    (foreign : peer.record.runtimeId ≠ m.localRuntimeId) :
    ∀ other ∈ (m.peers.put peer).rows, other.record.runtimeId ≠ m.localRuntimeId := by
  intro other member
  rcases Table.mem_put.mp member with rfl | ⟨stored, -⟩
  · exact foreign
  · exact m.apart other stored

/-- `apply_gossip_record`, and whether it changes the table. -/
def applyGossipRecord (m : MeshMembership) (r : GossipRecord) : MeshMembership × Bool :=
  if foreign : r.runtimeId = m.localRuntimeId then (m, false)
  else match m.peers.get r.runtimeId with
    | some peer =>
      if r.version ≤ peer.record.version then (m, false)
      else ({ m with peers := m.peers.put (peer.renew r), apart := put_apart foreign }, true)
    | none => ({ m with peers := m.peers.put (.fresh r), apart := put_apart foreign }, true)

/-- One record of `apply_ready_records`, which enters with version 1. -/
def applyReadyRecord (m : MeshMembership) (ready : ReadyRecord) (now : Nat) : MeshMembership :=
  if ready.runtimeId = m.localRuntimeId then m
  else if m.expectedRelayPubkey ≠ some ready.relayPubkey then
    { m with foreignRelayRejections := m.foreignRelayRejections + 1 }
  else match ready.verifyAttestation schnorr with
    | .error _ => m
    | .ok () =>
      (m.applyGossipRecord { GossipRecord.new ready.runtimeId ready.endpointAddrs
        ready.protoVersion now with capabilities := ready.capabilities }).1

/-- `mark_connection_state`. -/
def markConnectionState (m : MeshMembership) (id : RuntimeId) (state : ConnectionState) :
    MeshMembership :=
  match found : m.peers.get id with
  | none => m
  | some peer =>
    { m with
      peers := m.peers.put { peer with connectionState := state }
      apart := put_apart (m.apart peer (Keyed.mem_of_get found)) }

/-- `update_local` with an update that leaves the runtime id alone. -/
def updateLocal (m : MeshMembership) (update : GossipRecord → GossipRecord)
    (keeps : ∀ r, (update r).runtimeId = r.runtimeId) (now : Nat) : MeshMembership :=
  { m with
    localRecord := m.localRecord.updated update now
    own := (keeps _).trans m.own }

/-- The heartbeat of `gossip_tick_loop`. -/
def heartbeat (m : MeshMembership) (now : Nat) : MeshMembership :=
  m.updateLocal (fun r => r) (fun _ => rfl) now

def beginDrain (m : MeshMembership) (now : Nat) : MeshMembership :=
  { m with draining := true }.updateLocal (fun r => { r with draining := true }) (fun _ => rfl) now

/-- All records that are known. -/
def records (m : MeshMembership) : List GossipRecord :=
  m.peers.rows.map (·.record) ++ [m.localRecord]

def digest (m : MeshMembership) : GossipMessage := .digest gossipPayloadVersion (digestOf m.records)

def deltaFor (m : MeshMembership) (digest : List GossipDigestEntry) : GossipMessage :=
  .delta gossipPayloadVersion (deltaOf m.records digest)

/-! ### What an operation does to the table -/

variable {m : MeshMembership} {r : GossipRecord}

theorem applyGossipRecord_own (own : r.runtimeId = m.localRuntimeId) :
    m.applyGossipRecord r = (m, false) := dif_pos own

theorem peers_applyGossipRecord (foreign : r.runtimeId ≠ m.localRuntimeId) :
    (m.applyGossipRecord r).1.peers = peerRows.absorb m.peers r := by
  rw [applyGossipRecord, dif_neg foreign]
  unfold Renewal.absorb
  cases m.peers.get r.runtimeId with
  | none => rfl
  | some peer =>
    dsimp only
    split <;> rfl

/-- What the operations of a runtime leave alone, and what they only add to. -/
structure Follows (m m' : MeshMembership) : Prop where
  localRuntimeId : m'.localRuntimeId = m.localRuntimeId
  expected : m'.expectedRelayPubkey = m.expectedRelayPubkey
  version : m.localRecord.version ≤ m'.localRecord.version
  has : ∀ k v, peerRows.Has m.peers k v → peerRows.Has m'.peers k v

theorem Follows.refl (m : MeshMembership) : Follows m m := ⟨rfl, rfl, Nat.le_refl _, fun _ _ => id⟩

theorem Follows.trans {m m' m'' : MeshMembership} (first : Follows m m') (second : Follows m' m'') :
    Follows m m'' where
  localRuntimeId := second.localRuntimeId.trans first.localRuntimeId
  expected := second.expected.trans first.expected
  version := Nat.le_trans first.version second.version
  has k v known := second.has k v (first.has k v known)

theorem frame_applyGossipRecord (m : MeshMembership) (r : GossipRecord) :
    (m.applyGossipRecord r).1.localRuntimeId = m.localRuntimeId ∧
      (m.applyGossipRecord r).1.expectedRelayPubkey = m.expectedRelayPubkey ∧
      (m.applyGossipRecord r).1.localRecord = m.localRecord := by
  unfold applyGossipRecord
  split
  next => exact ⟨rfl, rfl, rfl⟩
  next =>
    split
    next => split <;> exact ⟨rfl, rfl, rfl⟩
    next => exact ⟨rfl, rfl, rfl⟩

theorem follows_applyGossipRecord (m : MeshMembership) (r : GossipRecord) :
    Follows m (m.applyGossipRecord r).1 := by
  obtain ⟨localId, expected, localRecord⟩ := frame_applyGossipRecord m r
  refine ⟨localId, expected, by rw [localRecord], fun k v known => ?_⟩
  by_cases own : r.runtimeId = m.localRuntimeId
  · rw [applyGossipRecord_own own]
    exact known
  · rw [peers_applyGossipRecord own]
    exact known.absorb r

theorem record_applyGossipRecord {peer : PeerState}
    (member : peer ∈ (m.applyGossipRecord r).1.peers.rows) :
    peer.record = r ∨ ∃ old ∈ m.peers.rows, peer.record = old.record := by
  by_cases own : r.runtimeId = m.localRuntimeId
  · rw [applyGossipRecord_own own] at member
    exact Or.inr ⟨peer, member, rfl⟩
  · rw [peers_applyGossipRecord own] at member
    rcases Renewal.get_absorb (Keyed.get_of_mem member) with held | ⟨-, same⟩
    · exact Or.inr ⟨peer, Keyed.mem_of_get held, rfl⟩
    · exact Or.inl same

/-- The record that a ready record enters the table with. -/
def hint (ready : ReadyRecord) (now : Nat) : GossipRecord :=
  { GossipRecord.new ready.runtimeId ready.endpointAddrs ready.protoVersion now with
    capabilities := ready.capabilities }

variable {schnorr} {ready : ReadyRecord} {now : Nat}

/-- A ready record changes rows only when the expected key has signed its runtime id. -/
theorem applyReadyRecord_cases (schnorr : Schnorr) (m : MeshMembership) (ready : ReadyRecord)
    (now : Nat) :
    ((m.applyReadyRecord schnorr ready now).peers = m.peers ∧
        (m.applyReadyRecord schnorr ready now).localRuntimeId = m.localRuntimeId ∧
        (m.applyReadyRecord schnorr ready now).expectedRelayPubkey = m.expectedRelayPubkey ∧
        (m.applyReadyRecord schnorr ready now).localRecord = m.localRecord) ∨
      m.expectedRelayPubkey = some ready.relayPubkey ∧ ready.verifyAttestation schnorr = .ok () ∧
        m.applyReadyRecord schnorr ready now = (m.applyGossipRecord (hint ready now)).1 := by
  unfold applyReadyRecord
  split
  next => exact Or.inl ⟨rfl, rfl, rfl, rfl⟩
  next =>
    split
    next => exact Or.inl ⟨rfl, rfl, rfl, rfl⟩
    next anchored =>
      cases verified : ready.verifyAttestation schnorr with
      | error _ => exact Or.inl ⟨rfl, rfl, rfl, rfl⟩
      | ok => exact Or.inr ⟨not_not.mp anchored, rfl, rfl⟩

theorem follows_applyReadyRecord (m : MeshMembership) (ready : ReadyRecord) (now : Nat) :
    Follows m (m.applyReadyRecord schnorr ready now) := by
  rcases applyReadyRecord_cases schnorr m ready now with
    ⟨peers, localId, expected, localRecord⟩ | ⟨-, -, applied⟩
  · exact ⟨localId, expected, by rw [localRecord], fun k v known => by rw [peers]; exact known⟩
  · rw [applied]
    exact follows_applyGossipRecord m _

theorem peers_markConnectionState {id : RuntimeId} {state : ConnectionState} {k : RuntimeId} :
    ((m.markConnectionState id state).peers.get k).map (·.record) =
      (m.peers.get k).map (·.record) := by
  unfold markConnectionState
  split
  next => rfl
  next peer found =>
    obtain rfl := Keyed.key_of_get found
    dsimp only
    rw [Keyed.get_put]
    split
    next same => rw [← same, found]; rfl
    next => rfl

theorem follows_markConnectionState (m : MeshMembership) (id : RuntimeId)
    (state : ConnectionState) : Follows m (m.markConnectionState id state) ∧
      (m.markConnectionState id state).localRecord = m.localRecord := by
  have rows := @peers_markConnectionState m id state
  have frame : (m.markConnectionState id state).localRuntimeId = m.localRuntimeId ∧
      (m.markConnectionState id state).expectedRelayPubkey = m.expectedRelayPubkey ∧
      (m.markConnectionState id state).localRecord = m.localRecord := by
    unfold markConnectionState
    split <;> exact ⟨rfl, rfl, rfl⟩
  refine ⟨⟨frame.1, frame.2.1, by rw [frame.2.2], ?_⟩, frame.2.2⟩
  rintro k v ⟨peer, found, newer⟩
  have there := @rows k
  rw [found] at there
  obtain ⟨peer', found', same⟩ := Option.map_eq_some_iff.mp there
  exact ⟨peer', found', newer.trans (congrArg GossipRecord.version same.symm).le⟩

theorem record_markConnectionState {id : RuntimeId} {state : ConnectionState} {peer : PeerState}
    (member : peer ∈ (m.markConnectionState id state).peers.rows) :
    ∃ old ∈ m.peers.rows, peer.record = old.record := by
  have there := @peers_markConnectionState m id state peer.record.runtimeId
  rw [Keyed.get_of_mem member] at there
  obtain ⟨old, found, same⟩ := Option.map_eq_some_iff.mp there.symm
  exact ⟨old, Keyed.mem_of_get found, same.symm⟩

theorem version_updated (r : GossipRecord) {update : GossipRecord → GossipRecord}
    (keeps : ∀ r, (update r).version = r.version) (now : Nat) :
    r.version ≤ (r.updated update now).version ∧
      ((r.updated update now).version < maxVersion → r.version < (r.updated update now).version) := by
  have bounded := r.bounded
  simp only [GossipRecord.updated, keeps]
  omega

theorem follows_heartbeat (m : MeshMembership) (now : Nat) : Follows m (m.heartbeat now) :=
  ⟨rfl, rfl, (version_updated m.localRecord (fun _ => rfl) now).1, fun _ _ => id⟩

theorem follows_beginDrain (m : MeshMembership) (now : Nat) : Follows m (m.beginDrain now) :=
  ⟨rfl, rfl, (@version_updated m.localRecord (fun r => { r with draining := true })
    (fun _ => rfl) now).1, fun _ _ => id⟩

theorem mem_records : r ∈ m.records ↔ r = m.localRecord ∨ ∃ peer ∈ m.peers.rows, r = peer.record := by
  rw [records, List.mem_append, List.mem_map, List.mem_singleton, or_comm]
  simp only [eq_comm]

end MeshMembership

end Mesh
