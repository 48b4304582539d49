import Buzz.Audio.OneRoom

/-!
# The pod that owns a huddle

The handlers of `Manager` on a pod that owns its huddles: a client first resolves the owner
(`resolve_join_owner_ready`), with the lease in the directory and the entry in the
`HuddleOwnerRegistry` read one after the other; after its admission it attaches the lease it
acquired or takes the signals that are there, and the leaver that removes the room releases the
entry, whose renewer then gives back the lease. Archiving a channel succeeds, no lease is lost or
expires, and the pod does not drain.

The counts of joins, archivings and events and who ended a huddle are kept to state what happened.
-/
namespace Audio

open Lib Nostr Relay

/-- A `HuddleOwnerEntry`, with the session that its renewer holds the lease of. -/
structure OwnerEntry where
  key : RoomKey
  generation : Nat
deriving DecidableEq

/-- What a client knows of the lease. -/
inductive Ticket where
  | unresolved
  /-- `owner_of` found nobody. -/
  | unowned
  /-- This pod is the owner; the registry is to be asked. -/
  | seen (generation : Nat)
  /-- The generation, and whether this client acquired the lease. -/
  | resolved (generation : Nat) (acquired : Bool)
  /-- The client has the signals of an entry. -/
  | attached (generation : Nat)
deriving DecidableEq

namespace Ticket

def generation : Ticket → Option Nat
  | seen g | resolved g _ | attached g => some g
  | unresolved | unowned => none

end Ticket

structure OwnerPod where
  pod : Pod := {}
  ticket : Uuid → Ticket := fun _ => .unresolved
  /-- The leases of this pod in the directory. -/
  lease : RoomKey → Option Nat := fun _ => none
  /-- The counters of the generations. -/
  generation : RoomKey → Nat := fun _ => 0
  /-- `HuddleOwnerRegistry::entries`. -/
  entries : Uuid → Option OwnerEntry := fun _ => none
  /-- Cancelled renewers that have not given back their leases. -/
  cancelled : List OwnerEntry := []
  joins : RoomKey → Nat := fun _ => 0
  archives : RoomKey → Nat := fun _ => 0
  /-- The events of kind 48103. -/
  ends : RoomKey → Nat := fun _ => 0
  /-- The connection with which the huddle ended. -/
  ender : RoomKey → Option Uuid := fun _ => none

inductive OwnerAction where
  | ownerOf (c : Uuid)
  | acquire (c : Uuid)
  /-- The check of `resolve_join_owner_ready`, or the wait for the next attempt. -/
  | ready (c : Uuid)
  | attach (c : Uuid)
  /-- A step of the handlers. -/
  | handler (a : PodAction)
  | giveBack (entry : OwnerEntry)
deriving DecidableEq

namespace OwnerPod

/-- `HuddleOwnerRegistry::release`. -/
def release (s : OwnerPod) (session : Uuid) (generation : Nat) : OwnerPod :=
  match s.entries session with
  | some entry =>
    if entry.generation = generation then
      { s with
        entries := Function.update s.entries session none
        cancelled := entry :: s.cancelled }
    else s
  | none => s

/-- `HuddleOwnerRegistry::attach_signals`. -/
def attachSignals (s : OwnerPod) (session : Uuid) (lease : OwnerEntry) : OwnerPod :=
  match s.entries session with
  | some _ => { s with cancelled := lease :: s.cancelled }
  | none => { s with entries := Function.update s.entries session (some lease) }

def setTicket (s : OwnerPod) (c : Uuid) (ticket : Ticket) : OwnerPod :=
  { s with ticket := Function.update s.ticket c ticket }

end OwnerPod

namespace Visitors

variable (v : Visitors)

/-- When a handler can take its step. A client has resolved the owner before it gets its room, and
is attached before it leaves; an archived channel does not pass the check. -/
def Allows (s : OwnerPod) : PodAction → Prop
  | .getOrCreate c => v.origin c = .stream ∨ v.origin c = .client ∧
      match s.ticket c with
      | .resolved .. => True
      | _ => False
  | .check c true => v.origin c = .stream ∨ s.archives (v.key c) = 0
  | .leave c =>
    match s.ticket c with
    | .attached _ => True
    | _ => False
  | .archive _ succeeded => succeeded = true
  | .dial .. => False
  | _ => True

instance (s : OwnerPod) (a : PodAction) : Decidable (v.Allows s a) := by
  unfold Allows
  split
  · split <;> infer_instance
  · infer_instance
  · split <;> infer_instance
  all_goals infer_instance

/-- What a step of a handler is to the rest of the pod. -/
def observe (s : OwnerPod) (pod : Pod) : PodAction → OwnerPod
  | .enter c =>
    match pod.stage c with
    | .inside _ => { s with joins := Function.update s.joins (v.key c) (s.joins (v.key c) + 1) }
    | _ => s
  | .leave c =>
    match pod.stage c with
    | .ending _ => { s with ender := Function.update s.ender (v.key c) (some c) }
    | _ => s
  | .archive c _ =>
    { s with archives := Function.update s.archives (v.key c) (s.archives (v.key c) + 1) }
  | .emitEnded c => { s with ends := Function.update s.ends (v.key c) (s.ends (v.key c) + 1) }
  | .finish c =>
    match s.pod.stage c, s.ticket c with
    | .cleaned _ true, .attached g => s.release (v.key c).2 g
    | _, _ => s
  | _ => s

def performOwner (s : OwnerPod) : OwnerAction → Option OwnerPod
  | .ownerOf c =>
    match v.origin c, s.ticket c with
    | .client, .unresolved =>
      match s.lease (v.key c) with
      | some g => some (s.setTicket c (.seen g))
      | none => some (s.setTicket c .unowned)
    | _, _ => none
  | .acquire c =>
    match s.ticket c with
    | .unowned =>
      match s.lease (v.key c) with
      | some g => some (s.setTicket c (.seen g))
      | none =>
        let g := s.generation (v.key c) + 1
        some { s.setTicket c (.resolved g true) with
          lease := Function.update s.lease (v.key c) (some g)
          generation := Function.update s.generation (v.key c) g }
    | _ => none
  | .ready c =>
    match s.ticket c with
    | .seen g =>
      if (s.entries (v.key c).2).isSome then some (s.setTicket c (.resolved g false))
      else some (s.setTicket c .unresolved)
    | _ => none
  | .attach c =>
    match s.pod.stage c, s.ticket c with
    | .inside _, .resolved g true =>
      some ((s.attachSignals (v.key c).2 ⟨v.key c, g⟩).setTicket c (.attached g))
    | .inside _, .resolved g false => some (s.setTicket c (.attached g))
    | _, _ => none
  | .handler a =>
    if v.Allows s a then (v.perform s.pod a).map fun pod => { v.observe s pod a with pod }
    else none
  | .giveBack entry =>
    if entry ∈ s.cancelled then
      some { s with
        cancelled := s.cancelled.erase entry
        lease := if s.lease entry.key = some entry.generation then
          Function.update s.lease entry.key none else s.lease }
    else none

abbrev OwnerRun := Trace v.performOwner

end Visitors

end Audio
