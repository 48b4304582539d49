import Buzz.Audio.Roster
import Buzz.Lib.Follow
import Buzz.Lib.Run

/-!
# The roster of an ingress client

The control stream between the owner of a huddle and a pod with one of its clients: the owner's
`serve_control_loop` registers the client and passes on the changes of its room, which it reads from
a broadcast channel of 64 entries, and `read_owner_control` hands them to the client. The link
refines `Lib.Follow`: what the client has is the roster of the room after some number of changes,
and that number never goes back.

A revision is a `u64` that wraps. It is the number of changes modulo 2^64, so it goes back once, after
its last value (`revision_goes_back`).
-/
namespace Audio

open Lib Nostr

/-! ### The owner's room -/

inductive RoomChange where
  | addPeer (peerId : Uuid) (pubkey : String) (version : UInt8)
  | addPeerAtIndex (peerId : Uuid) (pubkey : String) (version peerIndex : UInt8)
  | removePeer (peerId : Uuid)
  | removePeerAndCheckEnded (peerId : Uuid)
  | markEnded
  | clearEnded

namespace RoomChange

/-- A new peer has a new id. -/
def Fresh (room : Room) : RoomChange → Prop
  | addPeer peerId .. | addPeerAtIndex peerId .. => room.peers.lookup peerId = none
  | _ => True

instance (room : Room) (c : RoomChange) : Decidable (c.Fresh room) :=
  match c with
  | addPeer peerId .. | addPeerAtIndex peerId .. =>
    inferInstanceAs (Decidable (room.peers.lookup peerId = none))
  | removePeer _ | removePeerAndCheckEnded _ | markEnded | clearEnded => isTrue trivial

/-- The room after a change, and the delta that it sends. -/
def perform (room : Room) : RoomChange → Room × Option RosterDelta
  | addPeer peerId pubkey version =>
    match room.addPeer peerId pubkey version with
    | .ok (_, next, delta) => (next, some delta)
    | .error _ => (room, none)
  | addPeerAtIndex peerId pubkey version peerIndex =>
    match room.addPeerAtIndex peerId pubkey version peerIndex with
    | .ok (next, delta) => (next, some delta)
    | .error _ => (room, none)
  | removePeer peerId =>
    match room.removePeer peerId with
    | some (next, delta) => (next, some delta)
    | none => (room, none)
  | removePeerAndCheckEnded peerId =>
    match room.removePeerAndCheckEnded peerId with
    | some (next, delta, _) => (next, some delta)
    | none => (room, none)
  | markEnded => (room.markEnded, none)
  | clearEnded => (room.clearEnded, none)

end RoomChange

/-! ### The link -/

inductive ControlMsg where
  | peerRegistered (peerIndex : UInt8) (roster : RosterSnapshot)
  | rosterSnapshot (snapshot : RosterSnapshot)
  | rosterDelta (delta : RosterDelta)

/-- A message, with the number of changes that its roster is after. The number is not sent. -/
structure Message where
  msg : ControlMsg
  position : Nat

/-- Where the loop of the owner is. The number is that of the changes its receiver has passed. -/
inductive Serving where
  | waiting
  /-- Subscribed, and about to validate the fence. -/
  | subscribed (next : Nat)
  | registered (next : Nat) (peerIndex : UInt8)
  | serving (next : Nat)
  /-- The receiver has lagged, and the snapshot is not taken. -/
  | lagged (next : Nat)

/-- What the client has, and the number of changes that this is after. -/
structure Ingress where
  revision : UInt64
  names : Names
  reached : Nat

structure Link where
  room : Room := {}
  /-- The deltas that the room has sent. -/
  sent : List RosterDelta := []
  loop : Serving := .waiting
  stream : List Message := []
  /-- `RosterResync` messages on their way. -/
  requests : Nat := 0
  ingress : Option Ingress := none

inductive LinkAction where
  | change (c : RoomChange)
  | subscribe
  | register (peerId : Uuid) (pubkey : String) (version : UInt8)
  | reply
  /-- The receiver has a delta, or has lagged. -/
  | roster
  /-- The snapshot after a lag. -/
  | resync
  /-- The client's pod asks for a snapshot. -/
  | ask
  | answer
  | read
  | idle

/-- `broadcast::channel(64)`. -/
def rosterChannelCapacity : Nat := 64

namespace Link

def snapshot (s : Link) : Message := ⟨.rosterSnapshot s.room.rosterSnapshot, s.sent.length⟩

/-- `read_owner_control`, and whether it asks for a snapshot. -/
def readOwnerControl (i : Ingress) (m : Message) : Ingress × Bool :=
  match m.msg with
  | .rosterSnapshot snapshot =>
    ({ revision := snapshot.revision, names := Names.none.insertAll snapshot.peers,
       reached := m.position }, false)
  | .rosterDelta delta =>
    if delta.revision = i.revision + 1 then
      ({ revision := delta.revision, names := i.names.apply delta, reached := m.position }, false)
    else (i, i.revision < delta.revision)
  | .peerRegistered .. => (i, false)

def perform (s : Link) : LinkAction → Option Link
  | .change c =>
    if c.Fresh s.room then
      let (room, delta) := c.perform s.room
      some { s with room, sent := s.sent ++ delta.toList }
    else none
  | .subscribe =>
    match s.loop with
    | .waiting => some { s with loop := .subscribed s.sent.length }
    | _ => none
  | .register peerId pubkey version =>
    match s.loop, s.room.addPeer peerId pubkey version with
    | .subscribed next, .ok (peerIndex, room, delta) =>
      if s.room.peers.lookup peerId = none then
        some { s with room, sent := s.sent ++ [delta], loop := .registered next peerIndex }
      else none
    | _, _ => none
  | .reply =>
    match s.loop with
    | .registered next peerIndex =>
      some { s with
        loop := .serving next
        stream := s.stream ++ [⟨.peerRegistered peerIndex s.room.rosterSnapshot, s.sent.length⟩] }
    | _ => none
  | .roster =>
    match s.loop with
    | .serving next =>
      if next + rosterChannelCapacity < s.sent.length then
        some { s with loop := .lagged (s.sent.length - rosterChannelCapacity) }
      else
        match s.sent[next]? with
        | some delta => some { s with
            loop := .serving (next + 1)
            stream := s.stream ++ [⟨.rosterDelta delta, next + 1⟩] }
        | none => none
    | _ => none
  | .resync =>
    match s.loop with
    | .lagged next => some { s with loop := .serving next, stream := s.stream ++ [s.snapshot] }
    | _ => none
  | .ask => if s.ingress.isSome then some { s with requests := s.requests + 1 } else none
  | .answer =>
    match s.loop, s.requests with
    | .serving _, requests + 1 => some { s with requests, stream := s.stream ++ [s.snapshot] }
    | _, _ => none
  | .read =>
    match s.ingress, s.stream with
    | none, ⟨.peerRegistered _ roster, position⟩ :: rest =>
      some { s with
        stream := rest
        ingress := some ⟨roster.revision, Names.none.insertAll roster.peers, position⟩ }
    | some i, m :: rest =>
      let (next, resync) := readOwnerControl i m
      some { s with
        stream := rest
        ingress := some next
        requests := if resync then s.requests + 1 else s.requests }
    | _, _ => none
  | .idle => some s

abbrev Run := Trace perform

end Link

/-! ### What a change does to the roster -/

/-- The room after a change: the delta, if there is one, says what became of the roster. -/
structure Room.Changed (room next : Room) (delta : Option RosterDelta) : Prop where
  sound : next.Sound
  names : next.names = delta.elim room.names room.names.apply
  revision : next.guard.rosterRevision = delta.elim room.guard.rosterRevision (·.revision)
  follows : ∀ d ∈ delta, d.revision = room.guard.rosterRevision + 1

namespace Room

variable {room next : Room}

theorem Sound.changed_enter (sound : room.Sound) {g : AdmissionGuard} {peerId : Uuid}
    {peer : RosterPeer} (gives : room.Gives g peer.peerIndex)
    (fresh : room.peers.lookup peerId = none)
    (same : g.rosterRevision = room.guard.rosterRevision) :
    room.Changed (room.enter g peerId peer).1 (some (room.enter g peerId peer).2) where
  sound := sound.enter gives
  names := sound.names_enter gives fresh
  revision := rfl
  follows d member := by
    cases member
    simp [Room.enter, AdmissionGuard.revise, same]

theorem Sound.changed_without (sound : room.Sound) {peerId : Uuid} {peer : RosterPeer}
    (here : room.peers.lookup peerId = some peer) :
    room.Changed (room.without peerId peer).1 (some (room.without peerId peer).2) where
  sound := sound.without here
  names := sound.names_without here
  revision := rfl
  follows d member := by
    cases member
    rfl

theorem Sound.ended (sound : room.Sound) (ended : Bool) :
    ({ room with guard := { room.guard with ended } } : Room).Sound :=
  ⟨sound.distinct, sound.nodup, sound.unused, sound.used_old, sound.free_old⟩

theorem Sound.unchanged (sound : room.Sound) : room.Changed room none :=
  ⟨sound, rfl, rfl, fun _ member => by cases member⟩

theorem Sound.changed_addPeer (sound : room.Sound) {peerId : Uuid} {pubkey : String}
    {version peerIndex : UInt8} {delta : RosterDelta} (fresh : room.peers.lookup peerId = none)
    (added : room.addPeer peerId pubkey version = .ok (peerIndex, next, delta)) :
    room.Changed next (some delta) := by
  obtain ⟨g, gives, same, entered⟩ := sound.addPeer_eq_ok added
  cases entered
  exact sound.changed_enter gives fresh same

theorem Sound.changed_addPeerAtIndex (sound : room.Sound) {peerId : Uuid} {pubkey : String}
    {version peerIndex : UInt8} {delta : RosterDelta} (fresh : room.peers.lookup peerId = none)
    (added : room.addPeerAtIndex peerId pubkey version peerIndex = .ok (next, delta)) :
    room.Changed next (some delta) := by
  obtain ⟨g, gives, same, entered⟩ := addPeerAtIndex_eq_ok added
  cases entered
  exact sound.changed_enter gives fresh same

/-- Every change of a room keeps the indices apart, and its delta is the next one. -/
theorem Sound.change (sound : room.Sound) {c : RoomChange} (fresh : c.Fresh room) :
    room.Changed (c.perform room).1 (c.perform room).2 := by
  -- What is refused sends no delta; the rest enters or leaves the room.
  cases c with
  | addPeer peerId pubkey version =>
    simp only [RoomChange.perform]
    split
    next peerIndex next delta added => exact sound.changed_addPeer fresh added
    next => exact sound.unchanged
  | addPeerAtIndex peerId pubkey version peerIndex =>
    simp only [RoomChange.perform]
    split
    next next delta added => exact sound.changed_addPeerAtIndex fresh added
    next => exact sound.unchanged
  | removePeer peerId =>
    simp only [RoomChange.perform, removePeer]
    cases here : room.peers.lookup peerId with
    | none => exact sound.unchanged
    | some peer => exact sound.changed_without here
  | removePeerAndCheckEnded peerId =>
    simp only [RoomChange.perform, removePeerAndCheckEnded]
    cases here : room.peers.lookup peerId with
    | none => exact sound.unchanged
    | some peer =>
      have removed := sound.changed_without here
      simp only [Option.map_some]
      split
      · exact { removed with sound := removed.sound.ended true }
      · exact removed
  | markEnded => exact { sound.unchanged with sound := sound.ended true }
  | clearEnded => exact { sound.unchanged with sound := sound.ended false }

end Room

/-! ### The invariant of the link -/

/-- The roster after the first changes. -/
def rosterAfter (sent : List RosterDelta) (k : Nat) : Names := (sent.take k).foldl Names.apply Names.none

theorem rosterAfter_append {sent more : List RosterDelta} {k : Nat} (inside : k ≤ sent.length) :
    rosterAfter (sent ++ more) k = rosterAfter sent k := by
  rw [rosterAfter, List.take_append_of_le_length inside, rosterAfter]

theorem rosterAfter_succ {sent : List RosterDelta} {k : Nat} {d : RosterDelta}
    (change : sent[k]? = some d) : rosterAfter sent (k + 1) = (rosterAfter sent k).apply d := by
  obtain ⟨inside, rfl⟩ := List.getElem?_eq_some_iff.mp change
  rw [rosterAfter, List.take_succ_eq_append_getElem inside, List.foldl_append]
  rfl

namespace Message

/-- The message as `Lib.Follow` sees it. -/
def feed (m : Message) : Feed :=
  match m.msg with
  | .peerRegistered .. | .rosterSnapshot _ => .snapshot m.position
  | .rosterDelta _ => .delta m.position

def isReply (m : Message) : Bool :=
  match m.msg with
  | .peerRegistered .. => true
  | _ => false

/-- A snapshot has the roster after as many changes as it says, and a delta is the change that
leads there. -/
def Faithful (sent : List RosterDelta) (m : Message) : Prop :=
  match m.msg with
  | .peerRegistered _ snapshot | .rosterSnapshot snapshot =>
    m.position ≤ sent.length ∧ snapshot.revision = UInt64.ofNat m.position ∧
      Names.none.insertAll snapshot.peers = rosterAfter sent m.position
  | .rosterDelta delta => ∃ k, m.position = k + 1 ∧ sent[k]? = some delta

theorem Faithful.append {sent more : List RosterDelta} {m : Message} (faithful : m.Faithful sent) :
    m.Faithful (sent ++ more) := by
  obtain ⟨msg, position⟩ := m
  cases msg with
  | peerRegistered _ snapshot | rosterSnapshot snapshot =>
    obtain ⟨inside, revision, names⟩ := faithful
    refine ⟨Nat.le_trans inside (by simp), revision, ?_⟩
    rw [rosterAfter_append inside]
    exact names
  | rosterDelta delta =>
    obtain ⟨k, next, change⟩ := faithful
    refine ⟨k, next, ?_⟩
    rw [List.getElem?_append_left (List.getElem?_eq_some_iff.mp change).1]
    exact change

end Message

namespace Link

/-- The number of changes that the client has, none before it is registered. -/
def reached (s : Link) : Nat := s.ingress.elim 0 (·.reached)

/-- The reply comes first, and only once. -/
def Ordered : Option Ingress → List Message → Prop
  | none, [] => False
  | none, m :: rest => m.isReply = true ∧ ∀ m ∈ rest, m.isReply = false
  | some _, stream => ∀ m ∈ stream, m.isReply = false

/-- The stream of a registered client, with the receiver at this number of changes. -/
def Feeds (s : Link) (next : Nat) : Prop :=
  Ordered s.ingress s.stream ∧
    Fed rosterChannelCapacity s.sent.length next s.reached (s.stream.map Message.feed)

/-- The stream by where the owner's loop is. -/
def Streams (s : Link) : Prop :=
  match s.loop with
  | .waiting => s.stream = [] ∧ s.ingress = none
  | .subscribed next | .registered next _ => s.stream = [] ∧ s.ingress = none ∧ next ≤ s.sent.length
  | .serving next => s.Feeds next
  | .lagged next => s.Feeds 0 ∧ next ≤ s.sent.length

/-- The client has the roster after so many changes. -/
structure Follows (i : Ingress) (sent : List RosterDelta) : Prop where
  inside : i.reached ≤ sent.length
  revision : i.revision = UInt64.ofNat i.reached
  names : i.names = rosterAfter sent i.reached

structure Linked (s : Link) : Prop where
  sound : s.room.Sound
  names : s.room.names = rosterAfter s.sent s.sent.length
  revision : s.room.guard.rosterRevision = UInt64.ofNat s.sent.length
  revisions : ∀ k d, s.sent[k]? = some d → d.revision = UInt64.ofNat (k + 1)
  messages : ∀ m ∈ s.stream, m.Faithful s.sent
  streams : s.Streams
  follows : ∀ i ∈ s.ingress, Follows i s.sent

theorem linked_initial : ({} : Link).Linked where
  sound := Room.sound_new
  names := rfl
  revision := rfl
  revisions _ _ change := by cases change
  messages _ member := by cases member
  streams := ⟨rfl, rfl⟩
  follows _ member := by cases member

theorem Follows.append {i : Ingress} {sent : List RosterDelta} (follows : Follows i sent)
    (more : List RosterDelta) : Follows i (sent ++ more) where
  inside := Nat.le_trans follows.inside (by simp)
  revision := follows.revision
  names := follows.names.trans (rosterAfter_append follows.inside).symm

variable {s s' : Link}

theorem Streams.grow (streams : s.Streams) (room : Room) (d : RosterDelta) :
    ({ s with room, sent := s.sent ++ [d] } : Link).Streams := by
  have longer : (s.sent ++ [d]).length = s.sent.length + 1 := by simp
  unfold Streams at streams ⊢
  cases loop : s.loop with
  | waiting =>
    rw [loop] at streams
    exact streams
  | subscribed next | registered next =>
    rw [loop] at streams
    obtain ⟨stream, ingress, inside⟩ := streams
    exact ⟨stream, ingress, by simp only [longer]; omega⟩
  | serving next =>
    rw [loop] at streams
    refine ⟨streams.1, ?_⟩
    simp only [longer]
    exact streams.2.grow
  | lagged next =>
    rw [loop] at streams
    obtain ⟨⟨ordered, fed⟩, inside⟩ := streams
    refine ⟨⟨ordered, ?_⟩, ?_⟩
    · simp only [longer]
      exact fed.grow
    · simp only [longer]
      omega

theorem Linked.change (linked : s.Linked) {room : Room} {delta : Option RosterDelta}
    (changed : s.room.Changed room delta) :
    ({ s with room, sent := s.sent ++ delta.toList } : Link).Linked := by
  cases delta with
  | none =>
    have names := changed.names
    have revision := changed.revision
    rw [Option.elim_none] at names revision
    simp only [Option.toList_none, List.append_nil]
    exact { linked with
      sound := changed.sound
      names := names.trans linked.names
      revision := revision.trans linked.revision }
  | some d =>
    have names := changed.names
    have revision := changed.revision
    rw [Option.elim_some] at names revision
    -- The revision counts the deltas that have been sent.
    have next : d.revision = UInt64.ofNat (s.sent.length + 1) := by
      rw [changed.follows d rfl, linked.revision, UInt64.ofNat_add]
      rfl
    have last : (s.sent ++ [d])[s.sent.length]? = some d := by simp
    simp only [Option.toList_some]
    constructor
    · exact changed.sound
    · have grown : rosterAfter (s.sent ++ [d]) (s.sent.length + 1) =
          (rosterAfter s.sent s.sent.length).apply d := by
        rw [rosterAfter_succ last, rosterAfter_append (Nat.le_refl _)]
      rw [List.length_append, List.length_singleton, grown, names, linked.names]
    · rw [revision, next, List.length_append, List.length_singleton]
    · intro k d' change
      -- An old delta keeps its revision, and the last one has just got its own.
      by_cases earlier : k < s.sent.length
      · rw [List.getElem?_append_left earlier] at change
        exact linked.revisions k d' change
      · have inside := (List.getElem?_eq_some_iff.mp change).1
        rw [List.length_append, List.length_singleton] at inside
        obtain rfl : k = s.sent.length := by omega
        cases last.symm.trans change
        exact next
    · intro m member
      exact (linked.messages m member).append
    · exact linked.streams.grow room d
    · intro i member
      exact (linked.follows i member).append [d]

theorem Linked.faithful_snapshot (linked : s.Linked) :
    s.room.rosterSnapshot.revision = UInt64.ofNat s.sent.length ∧
      Names.none.insertAll s.room.rosterSnapshot.peers = rosterAfter s.sent s.sent.length :=
  ⟨linked.revision, linked.sound.insertAll_snapshot.trans linked.names⟩

theorem ordered_append {ingress : Option Ingress} {stream : List Message} {m : Message}
    (ordered : Ordered ingress stream) (later : m.isReply = false) :
    Ordered ingress (stream ++ [m]) := by
  -- Before the client is registered the reply is at the front.
  cases ingress with
  | some i =>
    intro m' member
    rcases List.mem_append.mp member with old | new
    · exact ordered m' old
    · rw [List.mem_singleton.mp new]
      exact later
  | none =>
    cases stream with
    | nil => exact ordered.elim
    | cons first rest =>
      refine ⟨ordered.1, ?_⟩
      intro m' member
      rcases List.mem_append.mp member with old | new
      · exact ordered.2 m' old
      · rw [List.mem_singleton.mp new]
        exact later

theorem Linked.send (linked : s.Linked) {next' : Nat} {m : Message} {requests : Nat}
    (ordered : Ordered s.ingress s.stream) (faithful : m.Faithful s.sent)
    (later : m.isReply = false)
    (fed : Fed rosterChannelCapacity s.sent.length next' s.reached
      (s.stream.map Message.feed ++ [m.feed])) :
    ({ s with loop := .serving next', stream := s.stream ++ [m], requests } : Link).Linked where
  sound := linked.sound
  names := linked.names
  revision := linked.revision
  revisions := linked.revisions
  messages m' member := by
    rcases List.mem_append.mp member with old | new
    · exact linked.messages m' old
    · rw [List.mem_singleton.mp new]
      exact faithful
  streams := by
    refine ⟨ordered_append ordered later, ?_⟩
    rw [List.map_append]
    exact fed
  follows := linked.follows

/-- A snapshot is as good as all changes, wherever the receiver goes on. -/
theorem Linked.sendSnapshot (linked : s.Linked) {next next' : Nat} (requests : Nat)
    (feeds : s.Feeds next) (inside : next' ≤ s.sent.length) :
    ({ s with loop := .serving next', stream := s.stream ++ [s.snapshot], requests } : Link).Linked :=
  linked.send feeds.1 ⟨Nat.le_refl _, linked.faithful_snapshot⟩ rfl (feeds.2.pushSnapshot inside)

theorem Linked.sendDelta (linked : s.Linked) {next : Nat} {delta : RosterDelta}
    (feeds : s.Feeds next) (change : s.sent[next]? = some delta)
    (near : s.sent.length ≤ next + rosterChannelCapacity) :
    ({ s with
      loop := .serving (next + 1)
      stream := s.stream ++ [⟨.rosterDelta delta, next + 1⟩] } : Link).Linked :=
  linked.send feeds.1 ⟨next, rfl, change⟩ rfl
    (feeds.2.pushDelta (List.getElem?_eq_some_iff.mp change).1 near)

theorem Linked.reply (linked : s.Linked) {next : Nat} {peerIndex : UInt8}
    (registered : s.loop = .registered next peerIndex) :
    ({ s with
      loop := .serving next
      stream := s.stream ++ [⟨.peerRegistered peerIndex s.room.rosterSnapshot, s.sent.length⟩] } :
        Link).Linked := by
  have streams := linked.streams
  rw [Streams, registered] at streams
  obtain ⟨nothing, unregistered, inside⟩ := streams
  refine { linked with messages := ?_, streams := ?_ }
  · intro m member
    rw [nothing, List.nil_append, List.mem_singleton] at member
    rw [member]
    exact ⟨Nat.le_refl _, linked.faithful_snapshot⟩
  · simp only [Streams, nothing, List.nil_append, unregistered]
    exact ⟨⟨rfl, fun _ member => by cases member⟩, (Fed.nil _ _).pushSnapshot inside⟩

/-! ### The client reads -/

theorem ofNat_eq_succ_iff {position reached : Nat} (early : position ≤ reached + 1)
    (near : reached < position + rosterChannelCapacity) :
    UInt64.ofNat position = UInt64.ofNat reached + 1 ↔ position = reached + 1 := by
  have succ : UInt64.ofNat reached + 1 = UInt64.ofNat (reached + 1) := by
    rw [UInt64.ofNat_add]
    rfl
  rw [succ, ← UInt64.toNat_inj, UInt64.toNat_ofNat', UInt64.toNat_ofNat']
  -- The two numbers are less than 2^64 apart.
  unfold rosterChannelCapacity at near
  omega

/-- The client goes where `Lib.Follow` says, and has the roster there. -/
theorem follows_read {i : Ingress} {m : Message} {sent : List RosterDelta}
    (revisions : ∀ k d, sent[k]? = some d → d.revision = UInt64.ofNat (k + 1))
    (follows : Follows i sent) (faithful : m.Faithful sent) (later : m.isReply = false)
    (fits : m.feed.Fits rosterChannelCapacity i.reached) :
    Follows (readOwnerControl i m).1 sent ∧
      (readOwnerControl i m).1.reached = m.feed.follow i.reached := by
  obtain ⟨msg, position⟩ := m
  cases msg with
  | peerRegistered => cases later
  | rosterSnapshot snapshot =>
    obtain ⟨inside, revision, names⟩ := faithful
    exact ⟨⟨inside, revision, names⟩, rfl⟩
  | rosterDelta delta =>
    obtain ⟨k, rfl, change⟩ := faithful
    obtain ⟨early, near⟩ := fits
    have revision := revisions k delta change
    have next := ofNat_eq_succ_iff early near
    simp only [readOwnerControl, Message.feed, Feed.follow, revision, follows.revision, next]
    -- The delta is the next change, or an old one that is skipped.
    by_cases turn : k + 1 = i.reached + 1
    · obtain rfl : k = i.reached := by omega
      simp only [if_true]
      refine ⟨⟨(List.getElem?_eq_some_iff.mp change).1, rfl, ?_⟩, trivial⟩
      rw [rosterAfter_succ change, follows.names]
    · simp only [turn, if_false]
      exact ⟨follows, trivial⟩

/-- Messages are under way only to a client that the loop serves. -/
theorem feeds_of_stream (linked : s.Linked) {m : Message} {rest : List Message}
    (stream : s.stream = m :: rest) : ∃ next, s.Feeds next ∧
      ∀ s' : Link, s'.loop = s.loop → s'.sent = s.sent → s'.Feeds next → s'.Streams := by
  have streams := linked.streams
  unfold Streams at streams
  cases loop : s.loop with
  | waiting | subscribed | registered =>
    rw [loop, stream] at streams
    cases streams.1
  | serving next =>
    rw [loop] at streams
    refine ⟨next, streams, fun s' same _ feeds => ?_⟩
    rw [Streams, same]
    exact feeds
  | lagged next =>
    rw [loop] at streams
    refine ⟨0, streams.1, fun s' same sent feeds => ?_⟩
    rw [Streams, same, sent]
    exact ⟨feeds, streams.2⟩

theorem Linked.readReply (linked : s.Linked) {peerIndex : UInt8} {roster : RosterSnapshot}
    {position : Nat} {rest : List Message} (unregistered : s.ingress = none)
    (stream : s.stream = ⟨.peerRegistered peerIndex roster, position⟩ :: rest) :
    ({ s with
      stream := rest
      ingress := some ⟨roster.revision, Names.none.insertAll roster.peers, position⟩ } :
        Link).Linked := by
  obtain ⟨next, ⟨ordered, fed⟩, streams⟩ := feeds_of_stream linked stream
  have faithful := linked.messages _ (by rw [stream]; exact List.mem_cons_self ..)
  rw [unregistered, stream] at ordered
  rw [stream] at fed
  refine { linked with messages := ?_, streams := ?_, follows := ?_ }
  · intro m member
    exact linked.messages m (by rw [stream]; exact List.mem_cons_of_mem _ member)
  · exact streams _ rfl rfl ⟨ordered.2, fed.read.2⟩
  · intro i member
    cases member
    exact ⟨faithful.1, faithful.2.1, faithful.2.2⟩

theorem Linked.read (linked : s.Linked) {i : Ingress} {m : Message} {rest : List Message}
    {requests : Nat} (client : s.ingress = some i) (stream : s.stream = m :: rest) :
    ({ s with stream := rest, ingress := some (readOwnerControl i m).1, requests } : Link).Linked := by
  obtain ⟨next, ⟨ordered, fed⟩, streams⟩ := feeds_of_stream linked stream
  have here : m ∈ s.stream := by
    rw [stream]
    exact List.mem_cons_self ..
  rw [client, stream] at ordered
  rw [reached, client, stream] at fed
  -- The client has what was promised of the first message, and the rest is promised of where it
  -- goes.
  obtain ⟨fits, later⟩ := fed.read
  obtain ⟨follows, reach⟩ := follows_read linked.revisions (linked.follows i client)
    (linked.messages m here) (ordered m (List.mem_cons_self ..)) fits
  refine { linked with messages := ?_, streams := ?_, follows := ?_ }
  · intro m' member
    exact linked.messages m' (by rw [stream]; exact List.mem_cons_of_mem _ member)
  · refine streams _ rfl rfl ⟨fun m' member => ordered m' (List.mem_cons_of_mem _ member), ?_⟩
    simp only [reached, Option.elim_some, reach]
    exact later
  · intro j member
    cases member
    exact follows

theorem Linked.step (linked : s.Linked) {a : LinkAction} (performed : s.perform a = some s') :
    s'.Linked := by
  have streams := linked.streams
  -- An action that changes the room, the loop, the stream or the client.
  cases a with
  | change c =>
    simp only [perform] at performed
    split at performed
    next fresh =>
      cases performed
      exact linked.change (linked.sound.change fresh)
    next => cases performed
  | subscribe =>
    simp only [perform] at performed
    split at performed
    next waiting =>
      cases performed
      rw [Streams, waiting] at streams
      exact { linked with streams := ⟨streams.1, streams.2, Nat.le_refl _⟩ }
    next => cases performed
  | register peerId pubkey version =>
    simp only [perform] at performed
    split at performed
    next next peerIndex room delta subscribed added =>
      split at performed
      next fresh =>
        cases performed
        have changed := linked.change (linked.sound.changed_addPeer fresh added)
        have kept := changed.streams
        simp only [Streams, subscribed] at kept
        exact { changed with streams := kept }
      next => cases performed
    next => cases performed
  | reply =>
    simp only [perform] at performed
    split at performed
    next next peerIndex registered =>
      cases performed
      exact linked.reply registered
    next => cases performed
  | roster =>
    simp only [perform] at performed
    split at performed
    next next serving =>
      rw [Streams, serving] at streams
      split at performed
      next lagged =>
        cases performed
        exact { linked with streams := ⟨⟨streams.1, streams.2.restart⟩, Nat.sub_le _ _⟩ }
      next near =>
        split at performed
        next delta change =>
          cases performed
          exact linked.sendDelta streams change (Nat.le_of_not_lt near)
        next => cases performed
    next => cases performed
  | resync =>
    simp only [perform] at performed
    split at performed
    next next lagged =>
      cases performed
      rw [Streams, lagged] at streams
      exact linked.sendSnapshot _ streams.1 streams.2
    next => cases performed
  | ask =>
    simp only [perform] at performed
    split at performed
    next =>
      cases performed
      exact { linked with }
    next => cases performed
  | answer =>
    simp only [perform] at performed
    split at performed
    next next requests serving more =>
      cases performed
      rw [Streams, serving] at streams
      have inside : next ≤ s.sent.length := Nat.le_trans streams.2.behind streams.2.ahead
      have sent := linked.sendSnapshot requests streams inside
      rw [← serving] at sent
      exact sent
    next => cases performed
  | read =>
    simp only [perform] at performed
    split at performed
    next unregistered stream =>
      cases performed
      exact linked.readReply unregistered stream
    next client stream =>
      cases performed
      exact linked.read client stream
    next => cases performed
  | idle =>
    cases performed
    exact linked

/-! ### A whole run -/

theorem sent_of_perform {a : LinkAction} (performed : s.perform a = some s') :
    ∃ more, s'.sent = s.sent ++ more ∧ more.length ≤ 1 := by
  cases a with
  | change c =>
    simp only [perform] at performed
    split at performed
    next =>
      cases performed
      exact ⟨_, rfl, by cases (c.perform s.room).2 <;> simp⟩
    next => cases performed
  | register peerId pubkey version =>
    simp only [perform] at performed
    split at performed
    next =>
      split at performed
      next =>
        cases performed
        exact ⟨_, rfl, by simp⟩
      next => cases performed
    next => cases performed
  | subscribe | reply | roster | resync | ask | answer | read | idle =>
    refine ⟨[], ?_, by simp⟩
    rw [List.append_nil]
    simp only [perform] at performed
    grind

variable {run : Run}

theorem linked_at (start : run.state 0 = {}) (n : Nat) : (run.state n).Linked := by
  apply run.invariant (fun _ _ _ performed linked => linked.step performed) (Nat.zero_le n)
  rw [start]
  exact linked_initial

theorem sent_grows (run : Run) {m n : Nat} (later : m ≤ n) :
    (run.state m).sent <+: (run.state n).sent := by
  induction later with
  | refl => exact List.prefix_rfl
  | step _ ih =>
    obtain ⟨more, grown, -⟩ := sent_of_perform (run.steps _)
    rw [grown]
    exact ih.trans (List.prefix_append _ _)

/-- The deltas are sent one at a time, so the room has been at every number of changes. -/
theorem exists_moment (start : run.state 0 = {}) {n k : Nat} (inside : k ≤ (run.state n).sent.length) :
    ∃ m ≤ n, (run.state m).sent.length = k := by
  by_cases now : (run.state n).sent.length = k
  · exact ⟨n, Nat.le_refl n, now⟩
  have before : ¬ k < (run.state 0).sent.length := by
    rw [start]
    exact Nat.not_lt_zero k
  -- At the step that passes `k`, the room was at `k` before it.
  obtain ⟨m, -, early, notYet, passed⟩ := run.exists_start
    (P := fun s : Link => k < s.sent.length) (Nat.zero_le n) before (by omega)
  obtain ⟨more, grown, short⟩ := sent_of_perform (run.steps m)
  refine ⟨m, Nat.le_of_lt early, ?_⟩
  rw [grown, List.length_append] at passed
  omega

theorem rosterAfter_of_grown {before after : List RosterDelta} (grown : before <+: after) {k : Nat}
    (inside : k ≤ before.length) : rosterAfter after k = rosterAfter before k := by
  obtain ⟨more, rfl⟩ := grown
  exact rosterAfter_append inside

/-- What the client has is the owner's roster after so many changes, which are never fewer later;
the revision is their number modulo 2^64. A delta is applied only where it is the next change. -/
structure Replicates (run : Run) (n : Nat) (i : Ingress) : Prop where
  past : ∃ m ≤ n, (run.state m).sent.length = i.reached
  same : ∀ m, (run.state m).sent.length = i.reached →
    i.names = (run.state m).room.names ∧
      i.revision = (run.state m).room.guard.rosterRevision
  revision : i.revision = UInt64.ofNat i.reached
  forward : ∀ i', (run.state (n + 1)).ingress = some i' → i.reached ≤ i'.reached
  applied : ∀ delta position rest i', run.action n = .read →
    (run.state n).stream = ⟨.rosterDelta delta, position⟩ :: rest →
    (run.state (n + 1)).ingress = some i' →
    i' = i ∨ ((run.state n).sent[i.reached]? = some delta ∧ i'.reached = i.reached + 1)
  distinct : ((run.state n).room.roster.map (·.peerIndex)).Nodup

theorem ingress_of_perform {a : LinkAction} {i : Ingress} (performed : s.perform a = some s')
    (client : s.ingress = some i) : s'.ingress = some i ∨
      ∃ m rest, s.stream = m :: rest ∧ s'.ingress = some (readOwnerControl i m).1 := by
  cases a with
  | read =>
    simp only [perform] at performed
    split at performed
    next unregistered _ => cases unregistered.symm.trans client
    next j m rest here stream =>
      cases performed
      cases here.symm.trans client
      exact Or.inr ⟨m, rest, stream, rfl⟩
    next => cases performed
  | change | register | subscribe | reply | roster | resync | ask | answer | idle =>
    left
    rw [← client]
    simp only [perform] at performed
    grind

theorem Linked.reads (linked : s.Linked) {i : Ingress} {m : Message} {rest : List Message}
    (client : s.ingress = some i) (stream : s.stream = m :: rest) :
    i.reached ≤ (readOwnerControl i m).1.reached ∧
      ∀ delta position, m = ⟨.rosterDelta delta, position⟩ → (readOwnerControl i m).1 = i ∨
        (s.sent[i.reached]? = some delta ∧ (readOwnerControl i m).1.reached = i.reached + 1) := by
  obtain ⟨next, ⟨ordered, fed⟩, -⟩ := feeds_of_stream linked stream
  have here : m ∈ s.stream := by
    rw [stream]
    exact List.mem_cons_self ..
  rw [client, stream] at ordered
  rw [reached, client, stream] at fed
  have fits := fed.read.1
  have follows := linked.follows i client
  have faithful := linked.messages m here
  obtain ⟨-, reach⟩ := follows_read linked.revisions follows faithful
    (ordered m (List.mem_cons_self ..)) fits
  constructor
  · rw [reach]
    exact fits.le_follow
  · rintro delta position rfl
    obtain ⟨k, rfl, change⟩ := faithful
    by_cases turn : k + 1 = i.reached + 1
    · obtain rfl : k = i.reached := by omega
      refine Or.inr ⟨change, ?_⟩
      rw [reach]
      simp [Message.feed, Feed.follow]
    · left
      have revision := linked.revisions k delta change
      have next : UInt64.ofNat (k + 1) = UInt64.ofNat i.reached + 1 ↔ k + 1 = i.reached + 1 :=
        ofNat_eq_succ_iff fits.1 fits.2
      -- Another revision than the next one is not applied.
      have refused : ¬ delta.revision = i.revision + 1 := by
        rw [revision, follows.revision, next]
        exact turn
      simp only [readOwnerControl, refused, if_false]

theorem replicates (run : Run) (start : run.state 0 = {}) {n : Nat} {i : Ingress}
    (client : (run.state n).ingress = some i) : Replicates run n i := by
  have linked := linked_at start n
  have follows := linked.follows i client
  constructor
  · exact exists_moment start follows.inside
  · intro m moment
    have then_ := linked_at start m
    -- Whichever moment is the later one, its changes begin with those of the other.
    have both : rosterAfter (run.state n).sent i.reached = rosterAfter (run.state m).sent i.reached := by
      rcases Nat.le_total m n with earlier | later
      · exact rosterAfter_of_grown (sent_grows run earlier) (Nat.le_of_eq moment.symm)
      · exact (rosterAfter_of_grown (sent_grows run later) follows.inside).symm
    constructor
    · rw [follows.names, both, then_.names, moment]
    · rw [follows.revision, then_.revision, moment]
  · exact follows.revision
  · intro i' after
    rcases ingress_of_perform (run.steps n) client with same | ⟨m, rest, stream, next⟩
    · cases same.symm.trans after
      exact Nat.le_refl _
    · cases next.symm.trans after
      exact (linked.reads client stream).1
  · intro delta position rest i' _ stream after
    rcases ingress_of_perform (run.steps n) client with same | ⟨m, rest', stream', next⟩
    · cases same.symm.trans after
      exact Or.inl rfl
    · cases next.symm.trans after
      cases stream.symm.trans stream'
      exact (linked.reads client stream).2 delta position rfl
  · exact linked.sound.nodup_roster

end Link

/-! ### Around the revisions -/

namespace Sample

open Link

/-- Bob's pod is served, and carol is in the room or not. -/
def bobAnd (carol : Bool) (revision : UInt64) : Room :=
  if carol then
    { peers := ((∅ : Map Uuid RosterPeer).insert ⟨1⟩ ⟨"bob", 0⟩).insert ⟨2⟩ ⟨"carol", 1⟩
      guard := { nextFresh := 2, pinnedVersion := some 2, rosterRevision := revision } }
  else
    { peers := (∅ : Map Uuid RosterPeer).insert ⟨1⟩ ⟨"bob", 0⟩
      guard := { nextFresh := 2, free := [1], pinnedVersion := some 2, rosterRevision := revision } }

/-- Nothing is under way. -/
def level (carol : Bool) (revision : UInt64) (sent : List RosterDelta) (names : Names) : Link where
  room := bobAnd carol revision
  sent := sent
  loop := .serving sent.length
  ingress := some ⟨revision, names, sent.length⟩

/-- Carol leaves or comes back, and bob is told. -/
def turn (carol : Bool) : List LinkAction :=
  [.change (if carol then .removePeer ⟨2⟩ else .addPeer ⟨2⟩ "carol" 2), .roster, .read]

def opening : List LinkAction :=
  [.subscribe, .register ⟨1⟩ "bob" 2, .reply, .read, .roster, .read]

/-- The room when bob's pod has registered him. -/
def bobAlone : Room where
  peers := (∅ : Map Uuid RosterPeer).insert ⟨1⟩ ⟨"bob", 0⟩
  guard := { nextFresh := 1, pinnedVersion := some 2, rosterRevision := 1 }

theorem after_change {room next : Room} {c : RoomChange} {d : RosterDelta} {revision : UInt64}
    {sent : List RosterDelta} {names : Names} (fresh : c.Fresh room)
    (changed : c.perform room = (next, some d)) (follows : d.revision = revision + 1) :
    Trace.after perform
      { room, sent, loop := .serving sent.length, ingress := some ⟨revision, names, sent.length⟩ }
      [.change c, .roster, .read] =
    some { room := next, sent := sent ++ [d], loop := .serving (sent ++ [d]).length,
           ingress := some ⟨revision + 1, names.apply d, (sent ++ [d]).length⟩ } := by
  -- The receiver has not lagged.
  have far : rosterChannelCapacity ≠ 0 := by decide
  simp [Trace.after, perform, fresh, changed, far, readOwnerControl, follows]

theorem after_opening : ∃ sent names, Trace.after perform {}
    (opening ++
      [LinkAction.change (.addPeer ⟨2⟩ "carol" 2), LinkAction.roster, LinkAction.read]) =
      some (level true 2 sent names) := by
  have opened : Trace.after perform {} opening =
      some { room := bobAlone, sent := [⟨1, some ⟨"bob", 0⟩, none⟩], loop := .serving 1,
             ingress := some ⟨1, Names.none.insertAll bobAlone.rosterSnapshot.peers, 1⟩ } := rfl
  rw [Trace.after_append opened]
  exact ⟨_, _, after_change (by decide) rfl rfl⟩

theorem after_turn (carol : Bool) (revision : UInt64) (sent : List RosterDelta) (names : Names) :
    ∃ d names', Trace.after perform (level carol revision sent names) (turn carol) =
      some (level (!carol) (revision + 1) (sent ++ [d]) names') := by
  cases carol with
  | false =>
    have absent : (bobAnd false revision).peers.lookup ⟨2⟩ = none := rfl
    exact ⟨_, _, after_change absent rfl rfl⟩
  | true => exact ⟨_, _, after_change trivial rfl rfl⟩

theorem after_turns (k : Nat) : ∃ actions carol sent names,
    Trace.after perform {} actions = some (level carol (UInt64.ofNat (k + 2)) sent names) := by
  -- Each turn raises the revision by one.
  induction k with
  | zero =>
    obtain ⟨sent, names, ran⟩ := after_opening
    exact ⟨_, true, sent, names, ran⟩
  | succ k ih =>
    obtain ⟨actions, carol, sent, names, ran⟩ := ih
    obtain ⟨d, names', again⟩ := after_turn carol (UInt64.ofNat (k + 2)) sent names
    refine ⟨actions ++ turn carol, !carol, sent ++ [d], names', ?_⟩
    have next : UInt64.ofNat (k + 1 + 2) = UInt64.ofNat (k + 2) + 1 := by
      rw [← UInt64.ofNat_one, ← UInt64.ofNat_add]
    rw [Trace.after_append ran, again, next]

def served : Link.Run :=
  .ofList {} (opening ++
      [LinkAction.change (.addPeer ⟨2⟩ "carol" 2), LinkAction.roster, LinkAction.read]) .idle
    (by decide) (fun _ => rfl)

end Sample

/-- Bob is told of carol. -/
theorem replicates_carol : ∃ i, (Sample.served.state 9).ingress = some i ∧
    Link.Replicates Sample.served 9 i := by
  have client : (Sample.served.state 9).ingress.isSome = true := by decide
  obtain ⟨i, client⟩ := Option.isSome_iff_exists.mp client
  exact ⟨i, client, Link.replicates Sample.served rfl client⟩

/-- After 2^64 changes the revision that a client has reached is smaller than before. -/
theorem revision_goes_back : ∃ run : Link.Run, run.state 0 = {} ∧ ∃ m n i i', m ≤ n ∧
    (run.state m).ingress = some i ∧ (run.state n).ingress = some i' ∧ i'.revision < i.revision := by
  obtain ⟨k, last⟩ : ∃ k, k + 3 = 2 ^ 64 := ⟨2 ^ 64 - 3, by decide⟩
  obtain ⟨actions, carol, sent, names, ran⟩ := Sample.after_turns k
  obtain ⟨d, names', again⟩ := Sample.after_turn carol (UInt64.ofNat (k + 2)) sent names
  obtain ⟨run, start, before, after⟩ := Trace.exists_through .idle ran again fun _ => rfl
  refine ⟨run, start, actions.length, _, _, _, Nat.le_add_right _ _, congrArg Link.ingress before,
    congrArg Link.ingress after, ?_⟩
  rw [UInt64.lt_iff_toNat_lt]
  show (UInt64.ofNat (k + 2) + 1).toNat < (UInt64.ofNat (k + 2)).toNat
  rw [UInt64.toNat_add, UInt64.toNat_ofNat', UInt64.toNat_one]
  omega

end Audio
