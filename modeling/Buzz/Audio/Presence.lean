import Buzz.Audio.Roster
import Buzz.Lib.Run

/-!
# Who is in the huddle, as the owner's clients see it

The connections of one room on the owner's pod, local clients and the remote peers of other pods: a
connection lets its peer in, reads the list of peers, broadcasts `joined` with the list, and when
it ends takes the peer out and broadcasts `left`. None of these steps holds a lock over the next,
and the list and the broadcasts themselves go over the peers one by one, without a lock from one to
the next. A remote peer is announced with itself as the list. Clients apply the messages in the
order of their control channel; the channel of a remote peer has no reader.

A list that was read before a peer left can be broadcast after the `left` of that peer, and then
every client has the peer again (`disagree_after_stale_list`). An index is recycled before the
`left` of its last holder is broadcast, which can then take away the entry of the next. Two
broadcasts about one index can reach two clients in different orders.
-/
namespace Audio

open Lib Nostr

/-- A control message, as far as the map of a client depends on it. -/
inductive ClientMessage where
  | joined (peer : RosterPeer) (peers : List RosterPeer)
  | left (peer : RosterPeer)
deriving DecidableEq

namespace Names

def receive (names : Names) : ClientMessage → Names
  | .joined _ peers => names.insertAll peers
  | .left peer => names.remove peer

end Names

/-- What a connection has done. -/
inductive Stay where
  | outside
  | entered (peer : RosterPeer)
  /-- Reading the list for `joined`. -/
  | listing (peer : RosterPeer) (walk : Walk Uuid) (read : List RosterPeer)
  | listed (peer : RosterPeer) (peers : List RosterPeer)
  /-- In a broadcast. -/
  | sending (m : ClientMessage) (walk : Walk Uuid)
  | present (peer : RosterPeer)
  /-- Taken out of the room, `left` not sent. -/
  | removed (peer : RosterPeer)
  | gone
deriving DecidableEq

/-- Where a connection is after its broadcast. -/
def ClientMessage.after : ClientMessage → Stay
  | joined peer _ => .present peer
  | left _ => .gone

/-- The connections of the room, by the ids of their peers. -/
structure Guests where
  local_ : Uuid → Bool
  pubkey : Uuid → String
  version : Uuid → UInt8

structure Lobby where
  room : Room := {}
  stay : Uuid → Stay := fun _ => .outside
  /-- The control channels of the clients. -/
  ctrl : Uuid → List ClientMessage := fun _ => []
  /-- What the clients have of the messages they took. -/
  names : Uuid → Names := fun _ => Names.none
  /-- A message did not fit into a channel. -/
  overflowed : Bool := false

/-- `CTRL_CHANNEL_CAPACITY`. -/
def ctrlChannelCapacity : Nat := 32

inductive LobbyAction where
  | enter (peer : Uuid)
  | list (peer : Uuid)
  /-- The list takes one entry of the room. -/
  | read (peer entry : Uuid)
  | listEnd (peer : Uuid)
  | announce (peer : Uuid)
  | leave (peer : Uuid)
  | farewell (peer : Uuid)
  /-- The broadcast comes to one entry of the room. -/
  | send (peer entry : Uuid)
  | sendEnd (peer : Uuid)
  /-- The client takes a message from its channel. -/
  | receive (peer : Uuid)
  /-- The archive of an ended room failed. -/
  | clearEnded
  | idle

namespace Lobby

/-- A connection goes on. -/
def turn (s : Lobby) (x : Uuid) (stay : Stay) : Lobby :=
  { s with stay := Function.update s.stay x stay }

@[simp] theorem turn_room (s : Lobby) (x : Uuid) (stay : Stay) :
    (s.turn x stay).room = s.room := rfl

/-- `peer_pubkeys`, before its first entry. -/
def peerPubkeys (s : Lobby) (x : Uuid) (peer : RosterPeer) : Lobby :=
  s.turn x (.listing peer (.along s.room.peers) [])

/-- `broadcast_control`, before its first entry. -/
def broadcastControl (s : Lobby) (x : Uuid) (m : ClientMessage) : Lobby :=
  s.turn x (.sending m (.along s.room.peers))

end Lobby

namespace Guests

variable (guests : Guests)

/-- The message goes into the control channel of a client. -/
def trySend (s : Lobby) (y : Uuid) (m : ClientMessage) : Lobby :=
  if guests.local_ y then
    if (s.ctrl y).length < ctrlChannelCapacity then
      { s with ctrl := Function.update s.ctrl y (s.ctrl y ++ [m]) }
    else
      { s with overflowed := true }
  else
    s

def perform (s : Lobby) : LobbyAction → Option Lobby
  | .enter x =>
    match s.stay x, s.room.addPeer x (guests.pubkey x) (guests.version x) with
    | .outside, .ok (peerIndex, room, _) =>
      some { s with
        room, stay := Function.update s.stay x (.entered ⟨guests.pubkey x, peerIndex⟩) }
    | _, _ => none
  | .list x =>
    match s.stay x with
    | .entered peer =>
      -- `register_remote_peer` lists only the new peer
      some (if guests.local_ x then s.peerPubkeys x peer else s.turn x (.listed peer [peer]))
    | _ => none
  | .read x y =>
    match s.stay x, s.room.peers.lookup y with
    | .listing peer walk read, some entry =>
      if y ∈ walk.visited then none
      else some (s.turn x (.listing peer (walk.visit y) (read ++ [entry])))
    | _, _ => none
  | .listEnd x =>
    match s.stay x with
    | .listing peer walk read =>
      if walk.Done s.room.peers then some (s.turn x (.listed peer read)) else none
    | _ => none
  | .announce x =>
    match s.stay x with
    | .listed peer peers => some (s.broadcastControl x (.joined peer peers))
    | _ => none
  | .leave x =>
    match s.stay x with
    | .present peer =>
      let removed := if guests.local_ x then (s.room.removePeerAndCheckEnded x).map (·.1)
        else (s.room.removePeer x).map (·.1)
      removed.map fun room => { s with room, stay := Function.update s.stay x (.removed peer) }
    | _ => none
  | .farewell x =>
    match s.stay x with
    | .removed peer => some (s.broadcastControl x (.left peer))
    | _ => none
  | .send x y =>
    match s.stay x with
    | .sending m walk =>
      if y ∈ s.room.peers ∧ y ∉ walk.visited then
        some ((guests.trySend s y m).turn x (.sending m (walk.visit y)))
      else none
    | _ => none
  | .sendEnd x =>
    match s.stay x with
    | .sending m walk => if walk.Done s.room.peers then some (s.turn x m.after) else none
    | _ => none
  | .receive x =>
    match s.ctrl x with
    | [] => none
    | m :: rest => some { s with
        ctrl := Function.update s.ctrl x rest
        names := Function.update s.names x ((s.names x).receive m) }
  | .clearEnded => some { s with room := s.room.clearEnded }
  | .idle => some s

abbrev Run := Trace guests.perform

end Guests

/-! ### What the clients should have -/

namespace ClientMessage

/-- What the message says of the holder of an index. -/
def Tells (i : UInt8) (said : Option String) : ClientMessage → Prop
  | joined _ peers => ∃ p ∈ peers, p.peerIndex = i ∧ some p.pubkey = said
  | left peer => peer.peerIndex = i ∧ none = said

def Mentions (m : ClientMessage) (i : UInt8) : Prop := ∃ said, m.Tells i said

end ClientMessage

namespace Stay

/-- The peer is in the room. -/
def inRoom : Stay → Option RosterPeer
  | entered peer | listing peer _ _ | listed peer _ | sending (.joined peer _) _ | present peer =>
    some peer
  | outside | sending (.left _) _ | removed _ | gone => none

/-- The connection has its peer to announce. -/
def prepares : Stay → Option RosterPeer
  | entered peer | listing peer _ _ | listed peer _ => some peer
  | outside | sending _ _ | present _ | removed _ | gone => none

/-- The connection has a broadcast about this index to begin. -/
def Concerns (i : UInt8) : Stay → Prop
  | entered peer | listing peer _ _ | listed peer _ | removed peer => peer.peerIndex = i
  | outside | sending _ _ | present _ | gone => False

/-- The list of the connection has the entry, or will have it. -/
def Lists (a : Uuid) (p : RosterPeer) : Stay → Prop
  | entered _ => True
  | listing _ walk read => p ∈ read ∨ walk.Owes a
  | listed _ peers => p ∈ peers
  | outside | sending _ _ | present _ | removed _ | gone => False

/-- The list of the connection has, or will have, its own peer. -/
def Includes (x : Uuid) : Stay → Prop
  | listing peer walk read => peer ∈ read ∨ walk.Owes x
  | listed peer peers => peer ∈ peers
  | outside | entered _ | sending _ _ | present _ | removed _ | gone => True

theorem concerns_iff_of_prepares {stay : Stay} {peer : RosterPeer} {i : UInt8}
    (prepares : stay.prepares = some peer) : stay.Concerns i ↔ peer.peerIndex = i := by
  cases stay with
  | entered | listing | listed =>
    cases prepares
    rfl
  | outside | sending | present | removed | gone => cases prepares

end Stay

namespace Lobby

/-- What a client has when it has taken all messages of its channel. -/
def view (s : Lobby) (x : Uuid) : Names := (s.ctrl x).foldl Names.receive (s.names x)

@[simp] theorem view_turn (s : Lobby) (x y : Uuid) (stay : Stay) :
    (s.turn x stay).view y = s.view y := rfl

/-- Every connection has finished its steps. -/
def Finished (s : Lobby) : Prop :=
  ∀ c, s.stay c = .outside ∨ (∃ peer, s.stay c = .present peer) ∨ s.stay c = .gone

/-- What the message says of an index is so in the room, or another connection has a broadcast
about the index to begin, and no broadcast that is under way says something else of it. -/
def Apt (s : Lobby) (c : Uuid) (m : ClientMessage) : Prop :=
  ∀ i said, m.Tells i said →
    (s.room.names i = said ∨ ∃ d, d ≠ c ∧ (s.stay d).Concerns i) ∧
    ∀ d m' walk, s.stay d = .sending m' walk → ∀ other, m'.Tells i other → other = said

def Timely (s : Lobby) : LobbyAction → Prop
  | .announce c => ∀ peer peers, s.stay c = .listed peer peers → s.Apt c (.joined peer peers)
  | .farewell c => ∀ peer, s.stay c = .removed peer → s.Apt c (.left peer)
  | _ => True

/-- A broadcast about the index has yet to come to the client. -/
def Awaits (s : Lobby) (y : Uuid) (i : UInt8) : Prop :=
  ∃ c m walk, s.stay c = .sending m walk ∧ m.Mentions i ∧ walk.Owes y

/-- The list of the client itself brings it the holder of the index. -/
def Learns (s : Lobby) (y : Uuid) (i : UInt8) : Prop :=
  ∃ a p, s.room.peers.lookup a = some p ∧ p.peerIndex = i ∧ (s.stay y).Lists a p

end Lobby

namespace Names

/-- Entries that agree about an index leave there what they say. -/
theorem insertAll_apply {peers : List RosterPeer} {i : UInt8} {said : Option String}
    (agree : ∀ p ∈ peers, p.peerIndex = i → some p.pubkey = said) {names : Names}
    (held : names i = said ∨ ∃ p ∈ peers, p.peerIndex = i) : names.insertAll peers i = said := by
  induction peers generalizing names with
  | nil =>
    rcases held with held | ⟨p, member, -⟩
    · exact held
    · cases member
  | cons p peers ih =>
    rw [insertAll, List.foldl_cons]
    apply ih fun q member => agree q (List.mem_cons_of_mem p member)
    by_cases index : p.peerIndex = i
    · left
      rw [insert, index, Function.update_self]
      exact agree p (List.mem_cons_self ..) index
    · rcases held with held | ⟨q, member, same⟩
      · left
        rw [insert, Function.update_of_ne (Ne.symm index), held]
      · right
        rcases List.mem_cons.mp member with rfl | later
        · exact absurd same index
        · exact ⟨q, later, same⟩

/-- A message that says one thing of an index leaves that there, and one that says nothing leaves
what was there. -/
theorem receive_apply {m : ClientMessage} {i : UInt8} {said : Option String}
    (agree : ∀ other, m.Tells i other → other = said) {names : Names}
    (held : names i = said ∨ m.Mentions i) : names.receive m i = said := by
  cases m with
  | joined peer peers =>
    apply insertAll_apply
    · exact fun p member index => agree _ ⟨p, member, index, rfl⟩
    · rcases held with held | ⟨_, p, member, index, -⟩
      · exact Or.inl held
      · exact Or.inr ⟨p, member, index⟩
  | left peer =>
    simp only [receive, remove]
    by_cases index : peer.peerIndex = i
    · subst index
      rw [Function.update_self]
      exact agree Option.none ⟨rfl, rfl⟩
    · rcases held with held | ⟨_, same, -⟩
      · rw [Function.update_of_ne (Ne.symm index), held]
      · exact absurd same index

end Names

namespace Guests

/-- The room has the peers that the connections have let in. -/
structure Housed (s : Lobby) : Prop where
  sound : s.room.Sound
  inside : ∀ x, s.room.peers.lookup x = (s.stay x).inRoom
  lists : ∀ x, (s.stay x).Includes x
  outside : ∀ x, s.stay x = .outside → s.ctrl x = [] ∧ s.names x = Names.none

variable {guests : Guests} {s s' : Lobby}

theorem housed_initial : Housed {} where
  sound := Room.sound_new
  inside _ := rfl
  lists _ := trivial
  outside _ _ := ⟨rfl, rfl⟩

theorem Housed.move (housed : Housed s) {x : Uuid} {stay : Stay} {room : Room} {overflowed : Bool}
    (sound : room.Sound)
    (others : ∀ y, y ≠ x → room.peers.lookup y = s.room.peers.lookup y)
    (here : room.peers.lookup x = stay.inRoom) (list : stay.Includes x)
    (started : stay ≠ .outside) :
    Housed { s with room, stay := Function.update s.stay x stay, overflowed } := by
  constructor
  · exact sound
  · intro y
    by_cases same : y = x
    · subst same
      simpa using here
    · simpa [Function.update_of_ne same, others y same] using housed.inside y
  · intro y
    by_cases same : y = x
    · subst same
      simpa using list
    · simpa [Function.update_of_ne same] using housed.lists y
  · intro y out
    by_cases same : y = x
    · subst same
      exact absurd (by simpa using out) started
    · exact housed.outside y (by simpa [Function.update_of_ne same] using out)

/-- The local clients in the room are up to date about an index, but for what is on its way, and
every broadcast under way says what is so. -/
structure Settled (guests : Guests) (s : Lobby) (i : UInt8) : Prop where
  said : ∀ c m walk, s.stay c = .sending m walk → ∀ said, m.Tells i said → said = s.room.names i
  clients : ∀ y, guests.local_ y = true → (s.room.peers.lookup y).isSome →
    s.view y i = s.room.names i ∨ s.Awaits y i ∨ s.Learns y i

/-- About every index a broadcast is still to begin, or the clients are up to date. -/
def Informed (guests : Guests) (s : Lobby) : Prop :=
  ∀ i, (∃ c, (s.stay c).Concerns i) ∨ guests.Settled s i

/-! ### One connection goes on -/

section

variable {x y : Uuid} {stay : Stay} {i : UInt8}

theorem concerns_update (concerned : ∃ c, (s.stay c).Concerns i)
    (same : (s.stay x).Concerns i → stay.Concerns i) :
    ∃ c, (Function.update s.stay x stay c).Concerns i := by
  obtain ⟨c, concerns⟩ := concerned
  refine ⟨c, ?_⟩
  by_cases here : c = x
  · subst here
    rw [Function.update_self]
    exact same concerns
  · rw [Function.update_of_ne here]
    exact concerns

theorem concerns_self (concerns : stay.Concerns i) :
    ∃ c, (Function.update s.stay x stay c).Concerns i :=
  ⟨x, by rw [Function.update_self]; exact concerns⟩

theorem awaits_turn (awaits : s.Awaits y i)
    (own : ∀ m walk, s.stay x = .sending m walk → m.Mentions i → walk.Owes y →
      ∃ walk', stay = .sending m walk' ∧ walk'.Owes y) :
    (s.turn x stay).Awaits y i := by
  obtain ⟨c, m, walk, sending, mentions, owes⟩ := awaits
  by_cases here : c = x
  · subst here
    obtain ⟨walk', still, owes⟩ := own m walk sending mentions owes
    exact ⟨c, m, walk', by simp [Lobby.turn, still], mentions, owes⟩
  · exact ⟨c, m, walk, by simp [Lobby.turn, Function.update_of_ne here, sending], mentions, owes⟩

theorem learns_turn (learns : s.Learns y i)
    (own : y = x → ∀ a p, s.room.peers.lookup a = some p → p.peerIndex = i →
      (s.stay x).Lists a p → stay.Lists a p) : (s.turn x stay).Learns y i := by
  obtain ⟨a, p, here, index, lists⟩ := learns
  refine ⟨a, p, here, index, ?_⟩
  by_cases same : y = x
  · subst same
    simpa [Lobby.turn] using own rfl a p here index lists
  · simpa [Lobby.turn, Function.update_of_ne same] using lists

theorem said_turn {known : Option String}
    (said : ∀ c m walk, s.stay c = .sending m walk → ∀ said, m.Tells i said → said = known)
    (own : ∀ m walk, stay = .sending m walk → ∀ said, m.Tells i said → said = known) :
    ∀ c m walk, (s.turn x stay).stay c = .sending m walk →
      ∀ said, m.Tells i said → said = known := by
  intro c m walk sending
  by_cases here : c = x
  · subst here
    exact own m walk (by simpa [Lobby.turn] using sending)
  · exact said c m walk (by simpa [Lobby.turn, Function.update_of_ne here] using sending)

theorem Settled.turn (settled : guests.Settled s i)
    (tells : ∀ m walk, stay = .sending m walk → ∀ said, m.Tells i said → said = s.room.names i)
    (awaits : ∀ m walk, s.stay x = .sending m walk → m.Mentions i →
      ∀ y, (s.room.peers.lookup y).isSome → walk.Owes y →
        ∃ walk', stay = .sending m walk' ∧ walk'.Owes y)
    (lists : guests.local_ x = true → ∀ a p, s.room.peers.lookup a = some p → p.peerIndex = i →
      (s.stay x).Lists a p → stay.Lists a p) : guests.Settled (s.turn x stay) i where
  said := said_turn settled.said tells
  clients y client here := by
    rcases settled.clients y client here with equal | awaited | learns
    · exact Or.inl equal
    · refine Or.inr (Or.inl (awaits_turn awaited ?_))
      exact fun m walk sending mentions => awaits m walk sending mentions y here
    · exact Or.inr (Or.inr (learns_turn learns fun same => lists (same ▸ client)))

/-- A connection that has its broadcast still to begin goes on and keeps to its list. -/
theorem Informed.turn (informed : guests.Informed s) {peer : RosterPeer}
    (before : (s.stay x).prepares = some peer) (after : stay.prepares = some peer)
    (lists : guests.local_ x = true → ∀ a p, s.room.peers.lookup a = some p →
      (s.stay x).Lists a p → stay.Lists a p) : guests.Informed (s.turn x stay) := by
  intro i
  rcases informed i with concerned | settled
  · refine Or.inl (concerns_update concerned ?_)
    rw [Stay.concerns_iff_of_prepares before, Stay.concerns_iff_of_prepares after]
    exact id
  refine Or.inr (settled.turn ?_ ?_ ?_)
  · rintro m walk rfl
    cases after
  · intro m walk sending
    rw [sending] at before
    cases before
  · exact fun client a p here _ => lists client a p here

end

section

variable {x : Uuid} {peer : RosterPeer}

theorem Housed.here (housed : Housed s) (stay : (s.stay x).inRoom = some peer) :
    s.room.peers.lookup x = some peer := (housed.inside x).trans stay

theorem Housed.turn (housed : Housed s) {stay : Stay} (same : (s.stay x).inRoom = stay.inRoom)
    (list : stay.Includes x) (started : stay ≠ .outside) : Housed (s.turn x stay) := by
  apply housed.move housed.sound
  · exact fun _ _ => rfl
  · exact (housed.inside x).trans same
  · exact list
  · exact started

theorem Housed.enter (housed : Housed s) {g : AdmissionGuard}
    (gives : s.room.Gives g peer.peerIndex) :
    Housed { s with
      room := (s.room.enter g x peer).1, stay := Function.update s.stay x (.entered peer) } := by
  apply housed.move (housed.sound.enter gives)
  · intro y other
    exact AList.lookup_insert_ne other
  · exact AList.lookup_insert _
  · trivial
  · rintro ⟨⟩

theorem Informed.enter (informed : guests.Informed s) (housed : Housed s) {g : AdmissionGuard}
    (gives : s.room.Gives g peer.peerIndex) (outside : s.stay x = .outside) :
    guests.Informed { s with
      room := (s.room.enter g x peer).1, stay := Function.update s.stay x (.entered peer) } := by
  have fresh : s.room.peers.lookup x = none := by
    rw [housed.inside, outside]
    rfl
  have names := housed.sound.names_enter gives fresh
  have sound : (s.room.enter g x peer).1.Sound := housed.sound.enter gives
  intro i
  by_cases index : peer.peerIndex = i
  · exact Or.inl (concerns_self index)
  have unchanged : (s.room.enter g x peer).1.names i = s.room.names i := by
    rw [names, Names.insert, Function.update_of_ne (Ne.symm index)]
  rcases informed i with concerned | settled
  · refine Or.inl (concerns_update concerned ?_)
    rw [outside]
    exact fun no => no.elim
  refine Or.inr ⟨?_, ?_⟩
  · simp only [unchanged]
    refine said_turn settled.said ?_
    rintro _ _ ⟨⟩
  · intro y client here
    simp only [unchanged]
    by_cases same : y = x
    · subst same
      cases occupied : s.room.names i with
      | none =>
        -- the new client knows of nobody
        obtain ⟨empty, nothing⟩ := housed.outside y outside
        left
        simp [Lobby.view, empty, nothing, Names.none]
      | some pubkey =>
        obtain ⟨a, found⟩ := sound.names_eq_some.mp (unchanged.trans occupied)
        exact Or.inr (Or.inr ⟨a, _, found, rfl, by simp [Stay.Lists]⟩)
    · have before : (s.room.peers.lookup y).isSome := by
        simpa [Room.enter, AList.lookup_insert_ne same] using here
      rcases settled.clients y client before with equal | awaits | ⟨a, p, found, index, lists⟩
      · exact Or.inl equal
      · refine Or.inr (Or.inl (awaits_turn awaits ?_))
        rw [outside]
        rintro _ _ ⟨⟩
      · refine Or.inr (Or.inr ⟨a, p, ?_, index, ?_⟩)
        · have other : a ≠ x := by
            rintro rfl
            rw [fresh] at found
            cases found
          simpa [Room.enter, AList.lookup_insert_ne other] using found
        · simpa [Function.update_of_ne same] using lists

theorem Housed.leave (housed : Housed s) {room : Room}
    (sound : room.Sound) (same : room.peers = s.room.peers.erase x) :
    Housed { s with room, stay := Function.update s.stay x (.removed peer) } := by
  apply housed.move sound
  · intro y other
    rw [same, AList.lookup_erase_ne other]
  · rw [same, AList.lookup_erase]
    rfl
  · trivial
  · rintro ⟨⟩

theorem Informed.leave (informed : guests.Informed s) (housed : Housed s)
    (present : s.stay x = .present peer) {room : Room}
    (same : room.peers = s.room.peers.erase x)
    (names : room.names = s.room.names.remove peer) :
    guests.Informed { s with room, stay := Function.update s.stay x (.removed peer) } := by
  intro i
  by_cases index : peer.peerIndex = i
  · exact Or.inl (concerns_self index)
  have unchanged : room.names i = s.room.names i := by
    rw [names, Names.remove, Function.update_of_ne (Ne.symm index)]
  rcases informed i with concerned | settled
  · refine Or.inl (concerns_update concerned ?_)
    rw [present]
    exact fun no => no.elim
  refine Or.inr ⟨?_, ?_⟩
  · simp only [unchanged]
    refine said_turn settled.said ?_
    rintro _ _ ⟨⟩
  · intro y client here
    simp only [unchanged]
    have other : y ≠ x := by
      rintro rfl
      simp [same] at here
    have before : (s.room.peers.lookup y).isSome := by
      simpa [same, AList.lookup_erase_ne other] using here
    rcases settled.clients y client before with equal | awaits | ⟨a, p, found, at_, lists⟩
    · exact Or.inl equal
    · refine Or.inr (Or.inl (awaits_turn awaits ?_))
      rw [present]
      rintro _ _ ⟨⟩
    · refine Or.inr (Or.inr ⟨a, p, ?_, at_, ?_⟩)
      · have apart : a ≠ x := by
          rintro rfl
          rw [housed.inside, present] at found
          cases found
          exact index at_
        simpa [same, AList.lookup_erase_ne apart] using found
      · simpa [Function.update_of_ne other] using lists

/-- An apt broadcast begins: it comes to every client in the room. -/
theorem Informed.broadcast (informed : guests.Informed s) {m : ClientMessage} (apt : s.Apt x m)
    (quiet : ∀ m walk, s.stay x ≠ .sending m walk)
    (concerns : ∀ i, (s.stay x).Concerns i → m.Mentions i)
    (lists : ∀ a p, (s.stay x).Lists a p → m.Mentions p.peerIndex) :
    guests.Informed (s.broadcastControl x m) := by
  intro i
  by_cases mentions : m.Mentions i
  · by_cases another : ∃ d, d ≠ x ∧ (s.stay d).Concerns i
    · obtain ⟨d, other, still⟩ := another
      refine Or.inl ⟨d, ?_⟩
      simpa [Lobby.broadcastControl, Lobby.turn, Function.update_of_ne other] using still
    have right : ∀ said, m.Tells i said → s.room.names i = said :=
      fun said tells => (apt i said tells).1.resolve_right another
    refine Or.inr ⟨?_, ?_⟩
    · refine said_turn ?_ ?_
      · intro c m' walk sending other tells
        obtain ⟨said, own⟩ := mentions
        rw [(apt i said own).2 c m' walk sending other tells]
        exact (right said own).symm
      · rintro _ _ ⟨⟩ said tells
        exact (right said tells).symm
    · intro y client here
      refine Or.inr (Or.inl ⟨x, m, .along s.room.peers, ?_, mentions, Walk.owes_along here⟩)
      simp [Lobby.broadcastControl, Lobby.turn]
  · rcases informed i with concerned | settled
    · refine Or.inl (concerns_update concerned ?_)
      exact fun still => absurd (concerns i still) mentions
    refine Or.inr (settled.turn ?_ ?_ ?_)
    · rintro _ _ ⟨⟩ said tells
      exact absurd ⟨said, tells⟩ mentions
    · exact fun m walk sending => absurd sending (quiet m walk)
    · intro _ a p _ index listed
      exact absurd (index ▸ lists a p listed) mentions

/-! ### One message of a broadcast -/

section

variable {y : Uuid} {m : ClientMessage}

@[simp] theorem trySend_room : (guests.trySend s y m).room = s.room := by
  unfold trySend
  split_ifs <;> rfl

@[simp] theorem trySend_stay : (guests.trySend s y m).stay = s.stay := by
  unfold trySend
  split_ifs <;> rfl

@[simp] theorem trySend_names : (guests.trySend s y m).names = s.names := by
  unfold trySend
  split_ifs <;> rfl

theorem trySend_ctrl_of_ne {z : Uuid} (other : z ≠ y) :
    (guests.trySend s y m).ctrl z = s.ctrl z := by
  unfold trySend
  split_ifs
  · exact Function.update_of_ne other ..
  · rfl
  · rfl

theorem view_trySend_of_ne {z : Uuid} (other : z ≠ y) :
    (guests.trySend s y m).view z = s.view z := by
  simp [Lobby.view, trySend_ctrl_of_ne other]

theorem view_trySend (client : guests.local_ y = true)
    (fits : (guests.trySend s y m).overflowed = false) :
    (guests.trySend s y m).view y = (s.view y).receive m := by
  unfold trySend at fits ⊢
  split_ifs at fits ⊢
  simp [Lobby.view]

end

theorem Housed.trySend (housed : Housed s) {y : Uuid} {m : ClientMessage}
    (inside : y ∈ s.room.peers) : Housed (guests.trySend s y m) where
  sound := by simpa using housed.sound
  inside := by simpa using housed.inside
  lists := by simpa using housed.lists
  outside := by
    intro z out
    rw [trySend_stay] at out
    have other : z ≠ y := by
      rintro rfl
      have absent : s.room.peers.lookup z = none := by
        rw [housed.inside, out]
        rfl
      exact AList.lookup_eq_none.mp absent inside
    simpa [trySend_ctrl_of_ne other] using housed.outside z out

theorem Housed.send (housed : Housed s) {y : Uuid} {m : ClientMessage} {walk : Walk Uuid}
    (sending : s.stay x = .sending m walk) (inside : y ∈ s.room.peers) :
    Housed ((guests.trySend s y m).turn x (.sending m (walk.visit y))) := by
  apply (housed.trySend inside).turn
  · rw [trySend_stay, sending]
    cases m <;> rfl
  · trivial
  · rintro ⟨⟩

/-- The client that the message comes to has what it says, and the others still wait for it. -/
theorem Informed.send (informed : guests.Informed s) {y : Uuid} {m : ClientMessage}
    {walk : Walk Uuid} (sending : s.stay x = .sending m walk)
    (fits : (guests.trySend s y m).overflowed = false) :
    guests.Informed ((guests.trySend s y m).turn x (.sending m (walk.visit y))) := by
  intro i
  rcases informed i with concerned | settled
  · left
    refine concerns_update (by simpa using concerned) ?_
    rw [trySend_stay, sending]
    exact id
  have tells := settled.said x m walk sending
  refine Or.inr ⟨?_, ?_⟩
  · simp only [Lobby.turn_room, trySend_room]
    refine said_turn (by simpa using settled.said) ?_
    rintro _ _ ⟨⟩
    exact tells
  · intro z client here
    simp only [Lobby.turn_room, Lobby.view_turn, trySend_room] at here ⊢
    by_cases reached : z = y ∧ m.Mentions i
    · obtain ⟨rfl, mentions⟩ := reached
      left
      rw [view_trySend client fits]
      exact Names.receive_apply tells (Or.inr mentions)
    have view : (guests.trySend s y m).view z i = s.view z i := by
      by_cases same : z = y
      · subst same
        rw [view_trySend client fits]
        apply Names.receive_apply _ (Or.inl rfl)
        exact fun other about => absurd ⟨rfl, other, about⟩ reached
      · rw [view_trySend_of_ne same]
    rw [view]
    rcases settled.clients z client here with equal | awaits | learns
    · exact Or.inl equal
    · refine Or.inr (Or.inl (awaits_turn ?_ ?_))
      · simpa [Lobby.Awaits] using awaits
      · rw [trySend_stay, sending]
        rintro _ _ ⟨⟩ mentions owes
        exact ⟨_, rfl, owes.visit fun same => reached ⟨same, mentions⟩⟩
    · refine Or.inr (Or.inr (learns_turn ?_ ?_))
      · simpa [Lobby.Learns] using learns
      · rw [trySend_stay, sending]
        exact fun _ _ _ _ _ lists => lists.elim

theorem Housed.sendEnd (housed : Housed s) {m : ClientMessage} {walk : Walk Uuid}
    (sending : s.stay x = .sending m walk) : Housed (s.turn x m.after) := by
  apply housed.turn
  · rw [sending]
    cases m <;> rfl
  · cases m <;> trivial
  · cases m with
    | joined | left => rintro ⟨⟩

/-- A broadcast ends when it has come to every client that stayed. -/
theorem Informed.sendEnd (informed : guests.Informed s) {m : ClientMessage} {walk : Walk Uuid}
    (sending : s.stay x = .sending m walk) (done : walk.Done s.room.peers) :
    guests.Informed (s.turn x m.after) := by
  have silent : ∀ m' walk', m.after ≠ .sending m' walk' := by
    cases m with
    | joined | left => rintro _ _ ⟨⟩
  intro i
  rcases informed i with concerned | settled
  · refine Or.inl (concerns_update concerned ?_)
    rw [sending]
    exact fun no => no.elim
  refine Or.inr (settled.turn ?_ ?_ ?_)
  · exact fun m' walk' same => absurd same (silent m' walk')
  · rw [sending]
    rintro _ _ ⟨⟩ _ y here owes
    exact absurd owes (done.not_owes here)
  · rw [sending]
    exact fun _ _ _ _ _ lists => lists.elim

/-! ### The list of a connection -/

theorem Housed.list (housed : Housed s) (entered : s.stay x = .entered peer) :
    Housed (s.peerPubkeys x peer) := by
  have here : s.room.peers.lookup x = some peer := housed.here (by rw [entered]; rfl)
  apply housed.turn
  · rw [entered]
    rfl
  · exact Or.inr (Walk.owes_along (Option.isSome_of_eq_some here))
  · rintro ⟨⟩

theorem Informed.list (informed : guests.Informed s) (entered : s.stay x = .entered peer) :
    guests.Informed (s.peerPubkeys x peer) := by
  apply informed.turn
  · rw [entered]
    rfl
  · rfl
  · intro _ a p here _
    exact Or.inr (Walk.owes_along (Option.isSome_of_eq_some here))

theorem Housed.listRemote (housed : Housed s) (entered : s.stay x = .entered peer) :
    Housed (s.turn x (.listed peer [peer])) := by
  apply housed.turn
  · rw [entered]
    rfl
  · exact List.mem_singleton_self _
  · rintro ⟨⟩

theorem Informed.listRemote (informed : guests.Informed s) (entered : s.stay x = .entered peer)
    (remote : guests.local_ x = false) : guests.Informed (s.turn x (.listed peer [peer])) := by
  apply informed.turn
  · rw [entered]
    rfl
  · rfl
  · intro client
    rw [remote] at client
    cases client

section

variable {walk : Walk Uuid} {entries : List RosterPeer}

/-- What the list was to have it has still to read, or has read. -/
theorem lists_read {y : Uuid} {entry : RosterPeer} (found : s.room.peers.lookup y = some entry)
    {a : Uuid} {p : RosterPeer} (here : s.room.peers.lookup a = some p)
    (lists : p ∈ entries ∨ walk.Owes a) : p ∈ entries ++ [entry] ∨ (walk.visit y).Owes a := by
  rcases lists with before | owes
  · exact Or.inl (List.mem_append_left _ before)
  · by_cases same : a = y
    · subst same
      rw [found] at here
      cases here
      exact Or.inl (by simp)
    · exact Or.inr (owes.visit same)

theorem Housed.read (housed : Housed s) (listing : s.stay x = .listing peer walk entries) {y : Uuid}
    {entry : RosterPeer} (found : s.room.peers.lookup y = some entry) :
    Housed (s.turn x (.listing peer (walk.visit y) (entries ++ [entry]))) := by
  have here : s.room.peers.lookup x = some peer := housed.here (by rw [listing]; rfl)
  have own := housed.lists x
  rw [listing] at own
  apply housed.turn
  · rw [listing]
    rfl
  · exact lists_read found here own
  · rintro ⟨⟩

theorem Informed.read (informed : guests.Informed s)
    (listing : s.stay x = .listing peer walk entries) {y : Uuid} {entry : RosterPeer}
    (found : s.room.peers.lookup y = some entry) :
    guests.Informed (s.turn x (.listing peer (walk.visit y) (entries ++ [entry]))) := by
  apply informed.turn
  · rw [listing]
    rfl
  · rfl
  · rw [listing]
    exact fun _ a p here lists => lists_read found here lists

theorem Housed.listEnd (housed : Housed s) (listing : s.stay x = .listing peer walk entries)
    (done : walk.Done s.room.peers) : Housed (s.turn x (.listed peer entries)) := by
  have here : s.room.peers.lookup x = some peer := housed.here (by rw [listing]; rfl)
  have own := housed.lists x
  rw [listing] at own
  apply housed.turn
  · rw [listing]
    rfl
  · exact own.resolve_right (done.not_owes (Option.isSome_of_eq_some here))
  · rintro ⟨⟩

theorem Informed.listEnd (informed : guests.Informed s)
    (listing : s.stay x = .listing peer walk entries) (done : walk.Done s.room.peers) :
    guests.Informed (s.turn x (.listed peer entries)) := by
  apply informed.turn
  · rw [listing]
    rfl
  · rfl
  · rw [listing]
    exact fun _ a p here lists =>
      lists.resolve_right (done.not_owes (Option.isSome_of_eq_some here))

end

/-! ### Both broadcasts -/

theorem Housed.announce (housed : Housed s) {peers : List RosterPeer}
    (listed : s.stay x = .listed peer peers) :
    Housed (s.broadcastControl x (.joined peer peers)) := by
  apply housed.turn
  · rw [listed]
    rfl
  · trivial
  · rintro ⟨⟩

theorem Informed.announce (informed : guests.Informed s) (housed : Housed s)
    {peers : List RosterPeer} (listed : s.stay x = .listed peer peers)
    (timely : s.Timely (.announce x)) :
    guests.Informed (s.broadcastControl x (.joined peer peers)) := by
  have own := housed.lists x
  rw [listed] at own
  apply informed.broadcast (timely peer peers listed)
  · rw [listed]
    rintro _ _ ⟨⟩
  · rw [listed]
    exact fun i index => ⟨_, peer, own, index, rfl⟩
  · rw [listed]
    exact fun a p member => ⟨_, p, member, rfl, rfl⟩

theorem Housed.farewell (housed : Housed s) (removed : s.stay x = .removed peer) :
    Housed (s.broadcastControl x (.left peer)) := by
  apply housed.turn
  · rw [removed]
    rfl
  · trivial
  · rintro ⟨⟩

theorem Informed.farewell (informed : guests.Informed s) (removed : s.stay x = .removed peer)
    (timely : s.Timely (.farewell x)) : guests.Informed (s.broadcastControl x (.left peer)) := by
  apply informed.broadcast (timely peer removed)
  · rw [removed]
    rintro _ _ ⟨⟩
  · rw [removed]
    exact fun i index => ⟨_, index, rfl⟩
  · rw [removed]
    exact fun _ _ lists => lists.elim

end

/-! ### The messages that a client takes -/

theorem Housed.receive (housed : Housed s) {x : Uuid} {m : ClientMessage}
    {rest : List ClientMessage} (waits : s.ctrl x = m :: rest) (names : Uuid → Names)
    (others : ∀ y, y ≠ x → names y = s.names y) :
    Housed { s with ctrl := Function.update s.ctrl x rest, names } := by
  constructor
  · exact housed.sound
  · exact housed.inside
  · exact housed.lists
  · intro y out
    obtain ⟨empty, nothing⟩ := housed.outside y out
    have other : y ≠ x := by
      rintro rfl
      rw [waits] at empty
      cases empty
    simp only [Function.update_of_ne other, others y other]
    exact ⟨empty, nothing⟩

/-- A client that takes a message has what it was going to have. -/
theorem Informed.receive (informed : guests.Informed s) {x : Uuid} {m : ClientMessage}
    {rest : List ClientMessage} (waits : s.ctrl x = m :: rest) :
    guests.Informed { s with
      ctrl := Function.update s.ctrl x rest
      names := Function.update s.names x ((s.names x).receive m) } := by
  have view : ∀ y, Lobby.view { s with
      ctrl := Function.update s.ctrl x rest
      names := Function.update s.names x ((s.names x).receive m) } y = s.view y := by
    intro y
    by_cases same : y = x
    · subst same
      simp [Lobby.view, waits]
    · simp [Lobby.view, Function.update_of_ne same]
  intro i
  rcases informed i with concerned | settled
  · exact Or.inl concerned
  · refine Or.inr ⟨settled.said, ?_⟩
    intro y client here
    rw [view]
    exact settled.clients y client here

theorem Housed.clearEnded (housed : Housed s) : Housed { s with room := s.room.clearEnded } where
  sound := ⟨housed.sound.distinct, housed.sound.nodup, housed.sound.unused, housed.sound.used_old,
    housed.sound.free_old⟩
  inside := housed.inside
  lists := housed.lists
  outside := housed.outside

theorem Informed.clearEnded (informed : guests.Informed s) :
    guests.Informed { s with room := s.room.clearEnded } := by
  intro i
  rcases informed i with concerned | settled
  · exact Or.inl concerned
  · exact Or.inr ⟨settled.said, settled.clients⟩

/-! ### Every action -/

/-- What the actions do. -/
inductive Performs (guests : Guests) (s : Lobby) : LobbyAction → Lobby → Prop where
  | enter {x : Uuid} {peerIndex : UInt8} {room : Room} {delta : RosterDelta}
      (outside : s.stay x = .outside)
      (added : s.room.addPeer x (guests.pubkey x) (guests.version x) =
        .ok (peerIndex, room, delta)) :
      Performs guests s (.enter x) { s with
        room, stay := Function.update s.stay x (.entered ⟨guests.pubkey x, peerIndex⟩) }
  | list {x : Uuid} {peer : RosterPeer} (entered : s.stay x = .entered peer) :
      Performs guests s (.list x) (s.peerPubkeys x peer)
  | listRemote {x : Uuid} {peer : RosterPeer} (entered : s.stay x = .entered peer)
      (remote : guests.local_ x = false) :
      Performs guests s (.list x) (s.turn x (.listed peer [peer]))
  | read {x y : Uuid} {peer entry : RosterPeer} {walk : Walk Uuid} {entries : List RosterPeer}
      (listing : s.stay x = .listing peer walk entries)
      (found : s.room.peers.lookup y = some entry) :
      Performs guests s (.read x y)
        (s.turn x (.listing peer (walk.visit y) (entries ++ [entry])))
  | listEnd {x : Uuid} {peer : RosterPeer} {walk : Walk Uuid} {entries : List RosterPeer}
      (listing : s.stay x = .listing peer walk entries) (done : walk.Done s.room.peers) :
      Performs guests s (.listEnd x) (s.turn x (.listed peer entries))
  | announce {x : Uuid} {peer : RosterPeer} {peers : List RosterPeer}
      (listed : s.stay x = .listed peer peers) :
      Performs guests s (.announce x) (s.broadcastControl x (.joined peer peers))
  | leave {x : Uuid} {peer : RosterPeer} {room : Room} (present : s.stay x = .present peer)
      (left : (if guests.local_ x then (s.room.removePeerAndCheckEnded x).map (·.1)
        else (s.room.removePeer x).map (·.1)) = some room) :
      Performs guests s (.leave x)
        { s with room, stay := Function.update s.stay x (.removed peer) }
  | farewell {x : Uuid} {peer : RosterPeer} (removed : s.stay x = .removed peer) :
      Performs guests s (.farewell x) (s.broadcastControl x (.left peer))
  | send {x y : Uuid} {m : ClientMessage} {walk : Walk Uuid}
      (sending : s.stay x = .sending m walk) (inside : y ∈ s.room.peers) :
      Performs guests s (.send x y) ((guests.trySend s y m).turn x (.sending m (walk.visit y)))
  | sendEnd {x : Uuid} {m : ClientMessage} {walk : Walk Uuid}
      (sending : s.stay x = .sending m walk) (done : walk.Done s.room.peers) :
      Performs guests s (.sendEnd x) (s.turn x m.after)
  | receive {x : Uuid} {m : ClientMessage} {rest : List ClientMessage}
      (waits : s.ctrl x = m :: rest) :
      Performs guests s (.receive x) { s with
        ctrl := Function.update s.ctrl x rest
        names := Function.update s.names x ((s.names x).receive m) }
  | clearEnded : Performs guests s .clearEnded { s with room := s.room.clearEnded }
  | idle : Performs guests s .idle s

theorem performs_of_perform {a : LobbyAction} (performed : guests.perform s a = some s') :
    Performs guests s a s' := by
  cases a with
  | enter x =>
    simp only [perform] at performed
    split at performed
    next outside added =>
      cases performed
      exact .enter outside added
    next => cases performed
  | list x =>
    simp only [perform] at performed
    split at performed
    next entered =>
      cases performed
      split
      next => exact .list entered
      next remote => exact .listRemote entered (Bool.eq_false_iff.mpr remote)
    next => cases performed
  | read x y =>
    simp only [perform] at performed
    split at performed
    next listing found =>
      split at performed
      next => cases performed
      next =>
        cases performed
        exact .read listing found
    next => cases performed
  | listEnd x =>
    simp only [perform] at performed
    split at performed
    next listing =>
      split at performed
      next done =>
        cases performed
        exact .listEnd listing done
      next => cases performed
    next => cases performed
  | announce x =>
    simp only [perform] at performed
    split at performed
    next listed =>
      cases performed
      exact .announce listed
    next => cases performed
  | leave x =>
    simp only [perform] at performed
    split at performed
    next present =>
      obtain ⟨room, left, rfl⟩ := Option.map_eq_some_iff.mp performed
      exact .leave present left
    next => cases performed
  | farewell x =>
    simp only [perform] at performed
    split at performed
    next removed =>
      cases performed
      exact .farewell removed
    next => cases performed
  | send x y =>
    simp only [perform] at performed
    split at performed
    next sending =>
      split at performed
      next reached =>
        cases performed
        exact .send sending reached.1
      next => cases performed
    next => cases performed
  | sendEnd x =>
    simp only [perform] at performed
    split at performed
    next sending =>
      split at performed
      next done =>
        cases performed
        exact .sendEnd sending done
      next => cases performed
    next => cases performed
  | receive x =>
    simp only [perform] at performed
    split at performed
    next => cases performed
    next waits =>
      cases performed
      exact .receive waits
  | clearEnded =>
    cases performed
    exact .clearEnded
  | idle =>
    cases performed
    exact .idle

theorem overflowed_of_performs {a : LobbyAction} (performs : Performs guests s a s')
    (before : s.overflowed = true) : s'.overflowed = true := by
  cases performs with
  | send =>
    simp only [Lobby.turn, trySend]
    split_ifs
    · exact before
    · rfl
    · exact before
  | enter | list | listRemote | read | listEnd | announce | leave | farewell | sendEnd | receive
  | clearEnded | idle => exact before

theorem exists_of_leave {x : Uuid} {room : Room}
    (left : (if guests.local_ x then (s.room.removePeerAndCheckEnded x).map (·.1)
      else (s.room.removePeer x).map (·.1)) = some room) :
    ∃ peer, s.room.peers.lookup x = some peer ∧
      (room = (s.room.without x peer).1 ∨ room = (s.room.without x peer).1.markEnded) := by
  cases here : s.room.peers.lookup x with
  | none => simp [Room.removePeerAndCheckEnded, Room.removePeer, here] at left
  | some peer =>
    refine ⟨peer, rfl, ?_⟩
    simp only [Room.removePeerAndCheckEnded, Room.removePeer, here, Option.map_some] at left
    split at left
    · simp only [Option.some.injEq] at left
      split at left
      · exact Or.inr left.symm
      · exact Or.inl left.symm
    · exact Or.inl (Option.some.inj left).symm

theorem informed_of_performs {a : LobbyAction} (performs : Performs guests s a s')
    (timely : s.Timely a) (fits : s'.overflowed = false)
    (before : Housed s ∧ guests.Informed s) : Housed s' ∧ guests.Informed s' := by
  obtain ⟨housed, informed⟩ := before
  cases performs with
  | @enter x peerIndex room delta outside added =>
    obtain ⟨g, gives, -, entered⟩ := housed.sound.addPeer_eq_ok added
    obtain rfl : room = (s.room.enter g x ⟨guests.pubkey x, peerIndex⟩).1 :=
      congrArg Prod.fst entered
    exact ⟨housed.enter gives, informed.enter housed gives outside⟩
  | list entered => exact ⟨housed.list entered, informed.list entered⟩
  | listRemote entered remote =>
    exact ⟨housed.listRemote entered, informed.listRemote entered remote⟩
  | read listing found => exact ⟨housed.read listing found, informed.read listing found⟩
  | listEnd listing done => exact ⟨housed.listEnd listing done, informed.listEnd listing done⟩
  | announce listed => exact ⟨housed.announce listed, informed.announce housed listed timely⟩
  | @leave x peer room present left =>
    obtain ⟨peer', here, which⟩ := exists_of_leave left
    obtain rfl : peer' = peer := by
      rw [housed.inside, present] at here
      exact (Option.some.inj here).symm
    have sound := housed.sound.without here
    have names := housed.sound.names_without here
    rcases which with rfl | rfl
    · exact ⟨housed.leave sound rfl, informed.leave housed present rfl names⟩
    · have ended : (s.room.without x peer').1.markEnded.Sound :=
        ⟨sound.distinct, sound.nodup, sound.unused, sound.used_old, sound.free_old⟩
      exact ⟨housed.leave ended rfl, informed.leave housed present rfl names⟩
  | farewell removed => exact ⟨housed.farewell removed, informed.farewell removed timely⟩
  | send sending inside => exact ⟨housed.send sending inside, informed.send sending fits⟩
  | sendEnd sending done => exact ⟨housed.sendEnd sending, informed.sendEnd sending done⟩
  | receive waits =>
    refine ⟨housed.receive waits _ fun y other => ?_, informed.receive waits⟩
    exact Function.update_of_ne other ..
  | clearEnded => exact ⟨housed.clearEnded, informed.clearEnded⟩
  | idle => exact ⟨housed, informed⟩

/-- In a run of timely broadcasts the clients are informed, as long as no message was dropped. -/
theorem Run.informed (run : guests.Run) (start : run.state 0 = {})
    (timely : ∀ n, (run.state n).Timely (run.action n)) (n : Nat)
    (fits : (run.state n).overflowed = false) :
    Housed (run.state n) ∧ guests.Informed (run.state n) := by
  induction n with
  | zero =>
    rw [start]
    refine ⟨housed_initial, fun i => Or.inr ⟨?_, ?_⟩⟩
    · rintro _ _ _ ⟨⟩
    · intro y _ here
      simp at here
  | succ n ih =>
    have performs := performs_of_perform (run.steps n)
    apply informed_of_performs performs (timely n) fits
    apply ih
    apply Bool.eq_false_iff.mpr
    intro before
    rw [overflowed_of_performs performs before] at fits
    cases fits

theorem quiet_of_finished (finished : s.Finished) (c : Uuid) :
    (∀ i, ¬ (s.stay c).Concerns i) ∧ (∀ m walk, s.stay c ≠ .sending m walk) ∧
      ∀ a p, ¬ (s.stay c).Lists a p := by
  rcases finished c with out | ⟨peer, present⟩ | gone
  · simp [out, Stay.Concerns, Stay.Lists]
  · simp [present, Stay.Concerns, Stay.Lists]
  · simp [gone, Stay.Concerns, Stay.Lists]

/-- When every connection has finished its steps, the clients in the room have its roster. -/
theorem Run.agree (run : guests.Run) (start : run.state 0 = {})
    (timely : ∀ n, (run.state n).Timely (run.action n)) (n : Nat)
    (fits : (run.state n).overflowed = false) (finished : (run.state n).Finished) (x : Uuid)
    (client : guests.local_ x = true) (here : ((run.state n).room.peers.lookup x).isSome) :
    (run.state n).view x = (run.state n).room.names := by
  obtain ⟨-, informed⟩ := run.informed start timely n fits
  have quiet := quiet_of_finished finished
  funext i
  rcases informed i with ⟨c, concerns⟩ | settled
  · exact absurd concerns ((quiet c).1 i)
  · rcases settled.clients x client here with equal | ⟨c, m, walk, sending, -⟩ | ⟨a, p, -, -, lists⟩
    · exact equal
    · exact absurd sending ((quiet c).2.1 m walk)
    · exact absurd lists ((quiet x).2.2 a p)

end Guests

/-! ### A list that was read too early -/

namespace Sample

open Guests

/-- Alice and bob are clients of the owner's pod, carol of another. -/
def three : Guests where
  local_ x := x ≠ ⟨3⟩
  pubkey x := if x = ⟨1⟩ then "alice" else if x = ⟨2⟩ then "bob" else "carol"
  version _ := 2

/-- A local client comes, with these peers in the room. -/
def arrive (x : Uuid) (peers : List Uuid) : List LobbyAction :=
  [.enter x, .list x] ++ peers.map (.read x) ++ [.listEnd x]

/-- The broadcast that has begun comes to these peers. -/
def tell (x : Uuid) (peers : List Uuid) : List LobbyAction := peers.map (.send x) ++ [.sendEnd x]

/-- Bob reads the list, alice leaves, and bob sends the list. -/
def late : List LobbyAction :=
  arrive ⟨1⟩ [⟨1⟩] ++ LobbyAction.announce ⟨1⟩ :: tell ⟨1⟩ [⟨1⟩] ++
    (arrive ⟨2⟩ [⟨1⟩, ⟨2⟩] ++ LobbyAction.leave ⟨1⟩ :: LobbyAction.farewell ⟨1⟩ ::
      tell ⟨1⟩ [⟨2⟩]) ++
    (LobbyAction.announce ⟨2⟩ :: tell ⟨2⟩ [⟨2⟩] ++ [LobbyAction.receive ⟨2⟩, .receive ⟨2⟩])

/-- The actions in turn, and nothing after them. -/
def play {guests : Guests} (actions : List LobbyAction)
    (ran : (Trace.after guests.perform {} actions).isSome) : guests.Run :=
  .ofList {} actions .idle ran fun _ => rfl

def lateRun : three.Run := play late (by decide)

/-- Alice, carol and bob come, one after the other, and carol goes. -/
def orderly : List LobbyAction :=
  arrive ⟨1⟩ [⟨1⟩] ++ LobbyAction.announce ⟨1⟩ :: tell ⟨1⟩ [⟨1⟩] ++
    (LobbyAction.enter ⟨3⟩ :: LobbyAction.list ⟨3⟩ :: LobbyAction.announce ⟨3⟩ ::
      tell ⟨3⟩ [⟨1⟩, ⟨3⟩]) ++
    (arrive ⟨2⟩ [⟨1⟩, ⟨2⟩, ⟨3⟩] ++ LobbyAction.announce ⟨2⟩ :: tell ⟨2⟩ [⟨3⟩, ⟨2⟩, ⟨1⟩]) ++
    (LobbyAction.leave ⟨3⟩ :: LobbyAction.farewell ⟨3⟩ :: tell ⟨3⟩ [⟨1⟩, ⟨2⟩]) ++
    [LobbyAction.receive ⟨1⟩]

def orderlyRun : three.Run := play orderly (by decide)

def sends : Stay → Bool
  | .sending _ _ => true
  | _ => false

def ended : Stay → Bool
  | .outside | .present _ | .gone => true
  | _ => false

def comers (actions : List LobbyAction) : List Uuid :=
  actions.filterMap fun | .enter c => some c | _ => none

theorem mem_comers {actions : List LobbyAction} {c : Uuid} :
    c ∈ comers actions ↔ LobbyAction.enter c ∈ actions := by
  simp only [comers, List.mem_filterMap]
  constructor
  · rintro ⟨a, member, comes⟩
    cases a with
    | enter d =>
      cases comes
      exact member
    | _ => cases comes
  · exact fun member => ⟨_, member, rfl⟩

/-- Without another broadcast that is under way or to begin. -/
def Prompt (among : List Uuid) (s : Lobby) : LobbyAction → Prop
  | .announce c =>
    match s.stay c with
    | .listed _ peers => (∀ p ∈ peers, s.room.names p.peerIndex = some p.pubkey) ∧
        ∀ d ∈ among, sends (s.stay d) = false
    | _ => True
  | .farewell c =>
    match s.stay c with
    | .removed peer => s.room.names peer.peerIndex = none ∧ ∀ d ∈ among, sends (s.stay d) = false
    | _ => True
  | _ => True

instance (among : List Uuid) (s : Lobby) (a : LobbyAction) : Decidable (Prompt among s a) := by
  unfold Prompt
  split
  · split <;> infer_instance
  · split <;> infer_instance
  · infer_instance

theorem apt_of_still {s : Lobby} {c : Uuid} {m : ClientMessage}
    (still : ∀ d, sends (s.stay d) = false)
    (right : ∀ i said, m.Tells i said → s.room.names i = said) : s.Apt c m := by
  intro i said tells
  refine ⟨Or.inl (right i said tells), ?_⟩
  intro d m' walk sending
  have quiet := still d
  rw [sending] at quiet
  cases quiet

theorem Prompt.timely {among : List Uuid} {s : Lobby} {a : LobbyAction} (prompt : Prompt among s a)
    (others : ∀ d, d ∉ among → s.stay d = .outside) : s.Timely a := by
  have still (quiet : ∀ d ∈ among, sends (s.stay d) = false) (d : Uuid) :
      sends (s.stay d) = false := by
    by_cases member : d ∈ among
    · exact quiet d member
    · rw [others d member]
      rfl
  cases a with
  | announce c =>
    intro peer peers listed
    simp only [Prompt, listed] at prompt
    apply apt_of_still (still prompt.2)
    rintro i said ⟨p, member, rfl, rfl⟩
    exact prompt.1 p member
  | farewell c =>
    intro peer removed
    simp only [Prompt, removed] at prompt
    apply apt_of_still (still prompt.2)
    rintro i said ⟨rfl, rfl⟩
    exact prompt.1
  | enter | list | read | listEnd | leave | send | sendEnd | receive | clearEnded | idle => trivial

theorem outside_of_performs {guests : Guests} {s s' : Lobby} {a : LobbyAction} {c : Uuid}
    (performs : Performs guests s a s') (other : a ≠ .enter c) (out : s.stay c = .outside) :
    s'.stay c = .outside := by
  cases performs with
  | @enter x =>
    have different : c ≠ x := fun same => other (congrArg LobbyAction.enter same.symm)
    exact (Function.update_of_ne different ..).trans out
  | list found | listRemote found | read found | listEnd found | announce found | leave found
  | farewell found | sendEnd found =>
    refine (Function.update_of_ne ?_ ..).trans out
    rintro rfl
    rw [out] at found
    cases found
  | send found =>
    refine (Function.update_of_ne ?_ ..).trans (by rw [trySend_stay, out])
    rintro rfl
    rw [out] at found
    cases found
  | receive | clearEnded | idle => exact out

section

variable {guests : Guests} {actions : List LobbyAction}
  {ran : (Trace.after guests.perform {} actions).isSome}

theorem outside_of_play {c : Uuid} (absent : c ∉ comers actions) (n : Nat) :
    ((play actions ran).state n).stay c = .outside := by
  have never : ∀ n, (play actions ran).action n ≠ .enter c := by
    apply Trace.forall_ofList (P := fun _ a => a ≠ LobbyAction.enter c)
    · intro n inside
      simp only [Trace.ofList, List.getElem?_eq_getElem inside, Option.getD_some]
      exact fun same => absent (mem_comers.mpr (same ▸ List.getElem_mem inside))
    · rintro _ ⟨⟩
  induction n with
  | zero => rfl
  | succ n ih =>
    exact outside_of_performs (performs_of_perform ((play actions ran).steps n)) (never n) ih

theorem timely_of_prompt
    (prompt : ∀ n < actions.length,
      Prompt (comers actions) ((play actions ran).state n) ((play actions ran).action n))
    (n : Nat) : ((play actions ran).state n).Timely ((play actions ran).action n) :=
  Prompt.timely (Trace.forall_ofList (P := Prompt _) prompt (fun _ => trivial) n)
    fun _ absent => outside_of_play absent n

theorem finished_of_ended {n : Nat}
    (came : ∀ c ∈ comers actions, ended (((play actions ran).state n).stay c) = true) :
    ((play actions ran).state n).Finished := by
  intro c
  by_cases comes : c ∈ comers actions
  · have done := came c comes
    generalize ((play actions ran).state n).stay c = stay at done
    cases stay with
    | outside => exact Or.inl rfl
    | present peer => exact Or.inr (Or.inl ⟨peer, rfl⟩)
    | gone => exact Or.inr (Or.inr rfl)
    | entered | listing | listed | sending | removed => cases done
  · exact Or.inl (outside_of_play comes n)

end

end Sample

/-- Alice and bob know who is left. -/
theorem agree_after_carol :
    (Sample.orderlyRun.state 30).view ⟨1⟩ = (Sample.orderlyRun.state 30).room.names :=
  Sample.orderlyRun.agree rfl (Sample.timely_of_prompt (by decide)) 30 (by decide)
    (Sample.finished_of_ended (by decide)) ⟨1⟩ rfl (by decide)

/-- Bob has alice on his list, who has left. -/
theorem disagree_after_stale_list : ¬ ∀ (guests : Guests) (run : guests.Run),
    run.state 0 = {} → ∀ n, (run.state n).overflowed = false → (run.state n).Finished →
    ∀ x, guests.local_ x = true → ((run.state n).room.peers.lookup x).isSome →
      (run.state n).view x = (run.state n).room.names := by
  intro agree
  have same := agree Sample.three Sample.lateRun rfl 21 (by decide)
    (Sample.finished_of_ended (by decide)) ⟨2⟩ rfl (by decide)
  have different :
      (Sample.lateRun.state 21).view ⟨2⟩ 0 ≠ (Sample.lateRun.state 21).room.names 0 := by decide
  exact different (congrFun same 0)

end Audio
