import Buzz.Audio.Room
import Buzz.Lib.Run

/-!
# Media of a huddle across pods

`Room::broadcast_frame` and `deliver_prefixed`, the sinks of the remote peers, the datagrams of the
mesh and `MeshAudioRouter::on_media_datagram`, for one huddle. The owner's room holds its local
clients and one peer for each client of another pod; the sink of such a peer sends what it is
offered to the pod of its client, and there the frame goes to every client but the author.

Frames are numbered in the order they are sent, to tell apart two that have the same bytes. The log
of the offers and that of the losses are not state of the relay. Frames that `recv_loop` refuses
for their length or header are not sent. No other community uses the UUID of the channel.
-/
namespace Audio

open Lib Nostr

/-- A frame on its way, with the index of its author in front. -/
structure Packet where
  payload : List UInt8
  frame : Nat
deriving DecidableEq

/-- Where a copy of a frame was handed on: by its author, or by the sink of a peer. -/
inductive Hop (ι : Type) where
  | author
  | sink (pod : ι) (peer : Uuid)
deriving DecidableEq

structure Datagram (ι : Type) where
  dest : ι
  generation : UInt64
  packet : Packet
  via : Hop ι
deriving DecidableEq

/-- A `try_send` on the audio channel of a peer. -/
structure Offer (ι : Type) where
  pod : ι
  peer : Uuid
  packet : Packet
  via : Hop ι
deriving DecidableEq

/-- A client, by the pod of its connection and its id in the room there. -/
structure Client (ι : Type) where
  pod : ι
  peer : Uuid
deriving DecidableEq

/-- One huddle. Every client of another pod has a peer in the owner's room, and is admitted at the
index of that peer. -/
structure Huddle (ι : Type) where
  owner : ι
  generation : UInt64
  room : ι → Room
  /-- The pod that the sink of a remote peer sends to; none for a client of the owner's pod. -/
  host : Uuid → Option ι
  distinct : ∀ pod a b p q, (room pod).peers.lookup a = some p → (room pod).peers.lookup b = some q →
    p.peerIndex = q.peerIndex → a = b
  abroad : ∀ q p pod, (room owner).peers.lookup q = some p → host q = some pod → pod ≠ owner
  registered : ∀ pod x p, pod ≠ owner → (room pod).peers.lookup x = some p →
    ∃ q p', (room owner).peers.lookup q = some p' ∧ host q = some pod ∧ p'.peerIndex = p.peerIndex
  admitted : ∀ q p pod, (room owner).peers.lookup q = some p → host q = some pod →
    ∃ x p', (room pod).peers.lookup x = some p' ∧ p'.peerIndex = p.peerIndex

/-- `AUDIO_CHANNEL_CAPACITY`. -/
def audioChannelCapacity : Nat := 8

/-- The media of a huddle. -/
structure Media (ι : Type) where
  /-- The frames that were sent: who sent them, and their bytes. -/
  frames : List (Client ι × List UInt8) := []
  queues : ι → Uuid → List Packet := fun _ _ => []
  network : List (Datagram ι) := []
  /-- `GenerationFloor` for the session. -/
  floor : ι → Option UInt64 := fun _ => none
  offered : List (Offer ι) := []
  dropped : List (Hop ι × Nat) := []

inductive MediaAction (ι : Type) where
  /-- A client sends a frame. -/
  | speak (client : Client ι) (frame : List UInt8)
  /-- The next frame is taken from the channel of a peer: by the sink of a remote peer or by the
  connection of a client. -/
  | take (pod : ι) (peer : Uuid)
  | deliver (datagram : Nat)
  | lose (datagram : Nat)
  | idle

namespace Huddle

variable {ι : Type} [DecidableEq ι] (h : Huddle ι)

/-- The client is in the room of its pod, and a client itself. -/
def Has (x : Client ι) (p : RosterPeer) : Prop :=
  (h.room x.pod).peers.lookup x.peer = some p ∧ (x.pod = h.owner → h.host x.peer = none)

instance (x : Client ι) (p : RosterPeer) : Decidable (h.Has x p) :=
  inferInstanceAs (Decidable (_ ∧ (_ → _)))

/-- `try_send` of a packet to these peers of a pod. -/
def offer (s : Media ι) (pod : ι) (targets : List Uuid) (packet : Packet) (via : Hop ι) : Media ι :=
  let full (u : Uuid) : Bool := audioChannelCapacity ≤ (s.queues pod u).length
  { s with
    queues := fun p u =>
      if p = pod ∧ u ∈ targets ∧ full u = false then s.queues p u ++ [packet] else s.queues p u
    offered := s.offered ++ targets.map fun u => ⟨pod, u, packet, via⟩
    dropped := s.dropped ++ (targets.filter full).map fun u => (.sink pod u, packet.frame) }

def broadcastFrame (s : Media ι) (senderId : Uuid) (frame : List UInt8) (number : Nat) : Media ι :=
  match (h.room h.owner).peers.lookup senderId with
  | none => s
  | some sender =>
    offer s h.owner ((h.room h.owner).peers.keys.filter (· ≠ senderId))
      ⟨sender.peerIndex :: frame, number⟩ .author

def deliverPrefixed (s : Media ι) (pod : ι) (authorIndex : UInt8) (packet : Packet) (via : Hop ι) :
    Media ι :=
  offer s pod (((h.room pod).peers.entries.filter fun e => e.2.peerIndex ≠ authorIndex).map (·.1))
    packet via

/-- `GenerationFloor::check`; none when the frame is stale. -/
def check (floor : Option UInt64) (generation : UInt64) : Option UInt64 :=
  match floor with
  | none => some generation
  | some known => if generation < known then none else some (if known < generation then generation else known)

def onMediaDatagram (s : Media ι) (d : Datagram ι) : Media ι :=
  match check (s.floor d.dest) d.generation with
  | none => { s with dropped := s.dropped ++ [(d.via, d.packet.frame)] }
  | some floor =>
    let s := { s with floor := Function.update s.floor d.dest (some floor) }
    match d.packet.payload with
    | [] => { s with dropped := s.dropped ++ [(d.via, d.packet.frame)] }
    | authorIndex :: _ => h.deliverPrefixed s d.dest authorIndex d.packet d.via

def perform (s : Media ι) : MediaAction ι → Option (Media ι)
  | .speak client frame =>
    match (h.room client.pod).peers.lookup client.peer with
    | none => none
    | some p =>
      let next := { s with frames := s.frames ++ [(client, frame)] }
      if client.pod = h.owner then
        if h.host client.peer = none then
          some (h.broadcastFrame next client.peer frame s.frames.length)
        else none
      else
        -- `forward_media`
        some { next with network := s.network ++
          [⟨h.owner, h.generation, ⟨p.peerIndex :: frame, s.frames.length⟩, .author⟩] }
  | .take pod peer =>
    match s.queues pod peer with
    | [] => none
    | packet :: rest =>
      let next := { s with queues := fun p u => if p = pod ∧ u = peer then rest else s.queues p u }
      match if pod = h.owner then h.host peer else none with
      | none => some next
      | some dest =>
        some { next with network := s.network ++ [⟨dest, h.generation, packet, .sink pod peer⟩] }
  | .deliver i =>
    match s.network[i]? with
    | none => none
    | some d => some (h.onMediaDatagram { s with network := s.network.eraseIdx i } d)
  | .lose i =>
    match s.network[i]? with
    | none => none
    | some d => some { s with
        network := s.network.eraseIdx i
        dropped := s.dropped ++ [(d.via, d.packet.frame)] }
  | .idle => some s

abbrev Run := Trace h.perform

end Huddle

end Audio
