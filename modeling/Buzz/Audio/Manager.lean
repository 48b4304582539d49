import Buzz.Audio.Room
import Buzz.Lib.Run

/-!
# The rooms of a pod

`AudioRoomManager` with the handlers that use it (`audio/room.rs`, `audio/handler.rs` and the owner
side of `audio/join.rs`). A handler gets hold of a room long before its peer is let in, and others
run in between: what it does while it holds a lock or reads once is one step here.

A room is named by the number of its creation, which stands for the `Arc`. A connection is named by
the id of its peer; each registration of a control stream is a connection of its own. What the
database, the directory and another owner answer is part of the action.
-/
namespace Audio

open Lib Nostr Relay

/-- The key of `AudioRoomManager::rooms`. -/
abbrev RoomKey := CommunityId × Uuid

/-- `CURRENT_PROTOCOL_VERSION`. -/
def currentProtocolVersion : UInt8 := 2

/-- What a connection is to the pod. -/
inductive Origin where
  /-- A client of this pod, and so is the huddle. -/
  | client
  /-- A client of this pod, in a huddle of another. -/
  | ingress
  /-- A client of another pod, registered over its control stream. -/
  | stream
deriving DecidableEq

/-- Where the handler of a connection is. -/
inductive Stage where
  | outside
  /-- The handler has the room. -/
  | obtained (room : Nat)
  /-- The channel is not archived; for a registration, the fence is valid. -/
  | checked (room : Nat)
  /-- The owner has registered the client. -/
  | registered (room : Nat) (peerIndex : UInt8)
  | inside (room : Nat)
  /-- The control stream has looked up the room, to take the peer out of what it found. -/
  | looked (room found : Nat)
  /-- The huddle ends with this connection, and the channel is to be archived. -/
  | ending (room : Nat)
  /-- The join has failed, before the cleanup. -/
  | failing
  /-- The peer has left, before the cleanup; the channel was archived or not. -/
  | exiting (archived : Bool)
  /-- After the cleanup; the event for the archived channel is to be sent or not. -/
  | cleaned (archived roomEmptied : Bool)
  | gone
deriving DecidableEq

namespace Stage

/-- The room the handler will let its peer into. -/
def awaited : Stage → Option Nat
  | obtained room | checked room | registered room _ => some room
  | outside | inside _ | looked .. | ending _ | failing | exiting _ | cleaned .. | gone => none

/-- The room the peer was let into and not yet taken out of. -/
def joined : Stage → Option Nat
  | inside room | looked room _ => some room
  | outside | obtained _ | checked _ | registered .. | ending _ | failing | exiting _ | cleaned ..
  | gone => none

end Stage

/-- The connections, by the ids of their peers. -/
structure Visitors where
  key : Uuid → RoomKey
  origin : Uuid → Origin
  pubkey : Uuid → String
  version : Uuid → UInt8

structure Pod where
  /-- `AudioRoomManager::rooms`. -/
  rooms : RoomKey → Option Nat := fun _ => none
  heap : Nat → Room := fun _ => {}
  created : Nat := 0
  stage : Uuid → Stage := fun _ => .outside

inductive PodAction where
  | getOrCreate (c : Uuid)
  /-- `get_channel`, or `validate` for a registration. -/
  | check (c : Uuid) (passed : Bool)
  /-- `dial_remote_owner`, with the index that the owner gives. -/
  | dial (c : Uuid) (peerIndex : Option UInt8)
  | enter (c : Uuid)
  | leave (c : Uuid)
  /-- `UnregisterPeer` or the teardown of the stream: first the lookup, then the removal. -/
  | lookup (c : Uuid)
  | drop (c : Uuid)
  | archive (c : Uuid) (succeeded : Bool)
  | cleanup (c : Uuid)
  /-- The event of kind 48103. -/
  | emitEnded (c : Uuid)
  /-- The rest of the handler, with the release of the lease when the room was removed. -/
  | finish (c : Uuid)
  | idle
deriving DecidableEq

namespace Pod

/-- The handler goes on. -/
def move (s : Pod) (c : Uuid) (stage : Stage) : Pod :=
  { s with stage := Function.update s.stage c stage }

def setRoom (s : Pod) (r : Nat) (room : Room) : Pod :=
  { s with heap := Function.update s.heap r room }

/-- The room of the key, and a new one if it has none. -/
def getOrCreate (s : Pod) (key : RoomKey) : Nat × Pod :=
  match s.rooms key with
  | some r => (r, s)
  | none =>
    (s.created, { s with
      rooms := Function.update s.rooms key (some s.created)
      heap := Function.update s.heap s.created {}
      created := s.created + 1 })

/-- The room that `cleanup_if_empty` removes. -/
def evicts (s : Pod) (key : RoomKey) : Option Nat :=
  (s.rooms key).filter fun r => (s.heap r).isEmpty

def cleanupIfEmpty (s : Pod) (key : RoomKey) : Bool × Pod :=
  match s.evicts key with
  | some _ => (true, { s with rooms := Function.update s.rooms key none })
  | none => (false, s)

section

variable (s : Pod) (c : Uuid) (stage : Stage) (r : Nat) (room : Room)

@[simp] theorem rooms_move : (s.move c stage).rooms = s.rooms := rfl

@[simp] theorem heap_move : (s.move c stage).heap = s.heap := rfl

@[simp] theorem created_move : (s.move c stage).created = s.created := rfl

@[simp] theorem stage_move_self : (s.move c stage).stage c = stage := Function.update_self ..

theorem stage_move_of_ne {d : Uuid} (other : d ≠ c) : (s.move c stage).stage d = s.stage d :=
  Function.update_of_ne other ..

@[simp] theorem rooms_setRoom : (s.setRoom r room).rooms = s.rooms := rfl

@[simp] theorem stage_setRoom : (s.setRoom r room).stage = s.stage := rfl

@[simp] theorem created_setRoom : (s.setRoom r room).created = s.created := rfl

@[simp] theorem heap_setRoom_self : (s.setRoom r room).heap r = room := Function.update_self ..

theorem heap_setRoom_of_ne {r' : Nat} (other : r' ≠ r) : (s.setRoom r room).heap r' = s.heap r' :=
  Function.update_of_ne other ..

end

end Pod

namespace Visitors

variable (v : Visitors)

/-- Versions above the relay's and 0 are refused before any admission. -/
def Supported (c : Uuid) : Prop := v.version c ≠ 0 ∧ v.version c ≤ currentProtocolVersion

instance (c : Uuid) : Decidable (v.Supported c) := inferInstanceAs (Decidable (_ ∧ _))

/-- The admission, with the owner's index for an ingress client. -/
def admission (room : Room) (c : Uuid) : Option UInt8 → Except AdmissionError Room
  | none => (room.addPeer c (v.pubkey c) (v.version c)).map (·.2.1)
  | some peerIndex => (room.addPeerAtIndex c (v.pubkey c) (v.version c) peerIndex).map (·.1)

/-- A refused peer leaves the room as it is, and no cleanup follows. -/
def enterRoom (s : Pod) (c : Uuid) (r : Nat) (peerIndex : Option UInt8) : Pod :=
  match v.admission (s.heap r) c peerIndex with
  | .ok room => (s.setRoom r room).move c (.inside r)
  | .error _ => s.move c .gone

def perform (s : Pod) : PodAction → Option Pod
  | .getOrCreate c =>
    match s.stage c with
    | .outside =>
      let (r, s') := s.getOrCreate (v.key c)
      some (s'.move c (.obtained r))
    | _ => none
  | .check c passed =>
    match s.stage c, passed with
    | .obtained r, true => some (s.move c (.checked r))
    -- a registration is rejected or the stream is closed
    | .obtained _, false => some (s.move c (if v.origin c = .stream then .gone else .failing))
    | _, _ => none
  | .dial c peerIndex =>
    match v.origin c, s.stage c with
    | .ingress, .checked r =>
      if v.Supported c then
        some (s.move c (match peerIndex with
          | some i => .registered r i
          | none => .failing))
      else some (s.move c .gone)
    | _, _ => none
  | .enter c =>
    match v.origin c, s.stage c with
    | .client, .checked r =>
      if v.Supported c then some (v.enterRoom s c r none) else some (s.move c .gone)
    | .stream, .checked r => some (v.enterRoom s c r none)
    | .ingress, .registered r i => some (v.enterRoom s c r (some i))
    | _, _ => none
  | .leave c =>
    match v.origin c, s.stage c with
    | .client, .inside r =>
      match (s.heap r).removePeerAndCheckEnded c with
      | some (room, _, _, ends) =>
        some ((s.setRoom r room).move c (if ends then .ending r else .exiting false))
      | none => some (s.move c (.exiting false))
    | .ingress, .inside r =>
      match (s.heap r).removePeer c with
      | some (room, _) => some ((s.setRoom r room).move c (.exiting false))
      | none => some (s.move c (.exiting false))
    | _, _ => none
  | .lookup c =>
    match v.origin c, s.stage c with
    | .stream, .inside r =>
      match s.rooms (v.key c) with
      | some found => some (s.move c (.looked r found))
      | none => some (s.move c .gone)
    | _, _ => none
  | .drop c =>
    match s.stage c with
    | .looked _ found =>
      match (s.heap found).removePeer c with
      | some (room, _) => some ((s.setRoom found room).move c .gone)
      | none => some (s.move c .gone)
    | _ => none
  | .archive c succeeded =>
    match s.stage c, succeeded with
    | .ending _, true => some (s.move c (.exiting true))
    | .ending r, false => some ((s.setRoom r (s.heap r).clearEnded).move c .gone)
    | _, _ => none
  | .cleanup c =>
    let (emptied, s') := s.cleanupIfEmpty (v.key c)
    match s.stage c with
    | .failing => some (s'.move c .gone)
    | .exiting archived => some (s'.move c (.cleaned archived emptied))
    | _ => none
  | .emitEnded c =>
    match s.stage c with
    | .cleaned true emptied => some (s.move c (.cleaned false emptied))
    | _ => none
  | .finish c =>
    match s.stage c with
    | .cleaned false _ => some (s.move c .gone)
    | _ => none
  | .idle => some s

abbrev Run := Trace v.perform

end Visitors

end Audio
