import Buzz.Mesh.Membership
import Buzz.Lib.Run

/-!
# The mesh of a deployment

Runtimes boot, find each other in the ready registry and gossip over control streams. The steps
of different runtimes interleave in any order, frames are lost at any time, and anybody may
write to the registry; only the relay key signs, and it signs the runtime ids that boot. A delta
is applied one record at a time, as the loop over its records does.
-/
namespace Mesh

open Lib Nostr
open Tunnel (RuntimeId)

/-- A message on a control stream. -/
structure Frame where
  sender : RuntimeId
  receiver : RuntimeId
  message : GossipMessage
deriving DecidableEq

structure World where
  pods : RuntimeId → Option MeshMembership
  frames : List Frame
  registry : List ReadyRecord
  /-- The texts that the relay key has signed. -/
  signed : List String
  /-- Every local record that a runtime has had. -/
  published : List GossipRecord

namespace World

def initial : World := ⟨fun _ => none, [], [], [], []⟩

def setPod (w : World) (id : RuntimeId) (m : MeshMembership) : World :=
  { w with pods := fun other => if other = id then some m else w.pods other }

end World

inductive Action where
  /-- `boot_mesh` of a new runtime, with the signature of its attestation. -/
  | boot (id : RuntimeId) (addrs : List String) (protoVersion : UInt16) (capabilities : List String)
    (relaySig : String) (now : Nat)
  /-- Somebody writes to Redis. -/
  | write (ready : ReadyRecord)
  | expire (ready : ReadyRecord)
  /-- One of the records that a scan has found is applied. -/
  | scan (id : RuntimeId) (ready : ReadyRecord) (now : Nat)
  /-- The relay key signs something else. -/
  | sign (text : String)
  | heartbeat (id : RuntimeId) (now : Nat)
  | drain (id : RuntimeId) (now : Nat)
  | connection (id peer : RuntimeId) (state : ConnectionState)
  /-- `gossip_tick_loop` sends the digest to a peer. -/
  | gossip (id peer : RuntimeId)
  /-- The receiver of a frame takes it: it answers a digest, and applies the next record of a
  delta. -/
  | receive (i : Nat)
  | lose (i : Nat)
deriving DecidableEq

/-- What boots, and the attestation that it publishes. -/
def bootRecord (id : RuntimeId) (addrs : List String) (protoVersion : UInt16)
    (capabilities : List String) (now : Nat) : GossipRecord :=
  { GossipRecord.new id addrs protoVersion now with capabilities }

def readyRecord (relay : PublicKey) (id : RuntimeId) (addrs : List String) (protoVersion : UInt16)
    (capabilities : List String) (relaySig : String) : ReadyRecord where
  runtimeId := id
  runtimePubkey := id.toHex
  relayPubkey := relay.toHex
  relaySig
  endpointAddrs := addrs
  protoVersion
  capabilities

namespace World

/-- A frame is taken. -/
def take (w : World) (i : Nat) (frame : Frame) (m : MeshMembership) : World :=
  let rest := w.frames.eraseIdx i
  match frame.message with
  | .digest version entries =>
    if version ≠ gossipPayloadVersion then { w with frames := rest }
    else { w with frames := rest ++ [⟨frame.receiver, frame.sender, m.deltaFor entries⟩] }
  | .delta version records =>
    if version ≠ gossipPayloadVersion then { w with frames := rest }
    else match records with
      | [] => { w with frames := rest }
      | r :: later =>
        { w.setPod frame.receiver (m.applyGossipRecord r).1 with
          frames := w.frames.set i { frame with message := .delta version later } }

variable (schnorr : Schnorr) (relay : PublicKey)

def step (w : World) : Action → Option World
  | .boot id addrs protoVersion capabilities relaySig now =>
    let text := attestationPreimage id relay.toHex
    let own := bootRecord id addrs protoVersion capabilities now
    if (w.pods id).isSome ∨ schnorr.verifies relay relaySig text = false then none
    else some { w.setPod id ((MeshMembership.new own).withExpectedRelayPubkey relay.toHex) with
      registry := readyRecord relay id addrs protoVersion capabilities relaySig :: w.registry
      signed := text :: w.signed
      published := own :: w.published }
  | .write ready =>
    -- Nobody else has the relay key.
    if schnorr.verifies relay ready.relaySig (attestationPreimage ready.runtimeId relay.toHex) = true ∧
        attestationPreimage ready.runtimeId relay.toHex ∉ w.signed then none
    else some { w with registry := ready :: w.registry }
  | .expire ready => some { w with registry := w.registry.erase ready }
  | .scan id ready now =>
    match w.pods id with
    | some m => if ready ∈ w.registry then some (w.setPod id (m.applyReadyRecord schnorr ready now))
        else none
    | none => none
  | .sign text =>
    if attestationContext.toList <+: text.toList then none
    else some { w with signed := text :: w.signed }
  | .heartbeat id now =>
    (w.pods id).map fun m =>
      { w.setPod id (m.heartbeat now) with
        published := (m.heartbeat now).localRecord :: w.published }
  | .drain id now =>
    (w.pods id).map fun m =>
      { w.setPod id (m.beginDrain now) with
        published := (m.beginDrain now).localRecord :: w.published }
  | .connection id peer state =>
    (w.pods id).map fun m => w.setPod id (m.markConnectionState peer state)
  | .gossip id peer =>
    (w.pods id).map fun m => { w with frames := w.frames ++ [⟨id, peer, m.digest⟩] }
  | .receive i =>
    match w.frames[i]? with
    | none => none
    | some frame => (w.pods frame.receiver).map (w.take i frame)
  | .lose i => some { w with frames := w.frames.eraseIdx i }

end World

end Mesh
