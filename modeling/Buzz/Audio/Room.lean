import Buzz.Lib.Map
import Buzz.Relay.Subscription

/-!
# An audio room

The peer registry of one huddle on one pod (`buzz-relay/src/audio/room.rs`): the allocator of the
peer indices, the admission of a peer with its three refusals, and the removals. Every operation
here runs under the lock of the admission guard, so each is one step. The channels of a peer are
modelled where they are used.
-/
namespace Audio

open Lib Nostr

/-- A participant, as the rosters name it. -/
structure RosterPeer where
  pubkey : String
  peerIndex : UInt8
deriving DecidableEq

/-- A complete roster at one revision. -/
structure RosterSnapshot where
  revision : UInt64
  peers : List RosterPeer
deriving DecidableEq

/-- One change of a roster. -/
structure RosterDelta where
  revision : UInt64
  joined : Option RosterPeer
  left : Option RosterPeer
deriving DecidableEq

inductive AdmissionError where
  | ended
  | full
  | versionMismatch (pinned requested : UInt8)
deriving DecidableEq

/-- `MAX_PEERS_PER_ROOM`. -/
def maxPeersPerRoom : Nat := 25

/-! ### The admission guard -/

structure AdmissionGuard where
  nextFresh : UInt8 := 0
  /-- The recycled indices, the one that was pushed last first. -/
  free : List UInt8 := []
  ended : Bool := false
  pinnedVersion : Option UInt8 := none
  rosterRevision : UInt64 := 0
deriving DecidableEq

namespace AdmissionGuard

def alloc (g : AdmissionGuard) : Option (UInt8 × AdmissionGuard) :=
  match g.free with
  | idx :: free => some (idx, { g with free })
  | [] =>
    if g.nextFresh = 255 then none
    else some (g.nextFresh, { g with nextFresh := g.nextFresh + 1 })

def release (g : AdmissionGuard) (idx : UInt8) : AdmissionGuard := { g with free := idx :: g.free }

/-- `pinned_version.get_or_insert`. -/
def pin (g : AdmissionGuard) (version : UInt8) : AdmissionGuard :=
  { g with pinnedVersion := some (g.pinnedVersion.getD version) }

/-- `wrapping_add(1)`. -/
def revise (g : AdmissionGuard) : AdmissionGuard := { g with rosterRevision := g.rosterRevision + 1 }

/-- The index is given to an ingress peer: it is no longer free, and not fresh. -/
def claim (g : AdmissionGuard) (idx : UInt8) : AdmissionGuard :=
  { g with
    free := g.free.filter (· ≠ idx)
    -- `saturating_add(1)`
    nextFresh := if g.nextFresh ≤ idx then (if idx = 255 then 255 else idx + 1) else g.nextFresh }

end AdmissionGuard

/-! ### The room -/

structure Room where
  peers : Map Uuid RosterPeer := ∅
  guard : AdmissionGuard := {}
deriving DecidableEq

namespace Room

def isEmpty (room : Room) : Bool := room.peers.entries.isEmpty

def size (room : Room) : Nat := room.peers.entries.length

/-- The peers in the order of the map. -/
def roster (room : Room) : List RosterPeer := room.peers.entries.map (·.2)

/-- Whether the room is pinned to another version. -/
def mismatch (room : Room) (requested : UInt8) : Option AdmissionError :=
  match room.guard.pinnedVersion with
  | some pinned => if pinned ≠ requested then some (.versionMismatch pinned requested) else none
  | none => none

/-- The peer is in the room, and the roster has a new revision. -/
def enter (room : Room) (g : AdmissionGuard) (peerId : Uuid) (peer : RosterPeer) :
    Room × RosterDelta :=
  ({ peers := room.peers.insert peerId peer, guard := g.revise },
    { revision := g.revise.rosterRevision, joined := some peer, left := none })

/-- The new peer takes an index of the room. -/
def addPeer (room : Room) (peerId : Uuid) (pubkey : String) (requestedVersion : UInt8) :
    Except AdmissionError (UInt8 × Room × RosterDelta) :=
  if room.guard.ended then .error .ended
  else if maxPeersPerRoom ≤ room.size then .error .full
  else
    match room.mismatch requestedVersion with
    | some error => .error error
    | none =>
      match room.guard.alloc with
      | none => .error .full
      | some (peerIndex, g) =>
        .ok (peerIndex, room.enter (g.pin requestedVersion) peerId ⟨pubkey, peerIndex⟩)

/-- The new peer has the index that the owner gave it. -/
def addPeerAtIndex (room : Room) (peerId : Uuid) (pubkey : String)
    (requestedVersion peerIndex : UInt8) : Except AdmissionError (Room × RosterDelta) :=
  if room.guard.ended then .error .ended
  else if maxPeersPerRoom ≤ room.size ∨ room.roster.any (·.peerIndex = peerIndex) then .error .full
  else
    match room.mismatch requestedVersion with
    | some error => .error error
    | none =>
      .ok (room.enter ((room.guard.pin requestedVersion).claim peerIndex) peerId
        ⟨pubkey, peerIndex⟩)

/-- The room without a peer that is in it. -/
def without (room : Room) (peerId : Uuid) (peer : RosterPeer) : Room × RosterDelta :=
  let g := (room.guard.release peer.peerIndex).revise
  ({ peers := room.peers.erase peerId, guard := g },
    { revision := g.rosterRevision, joined := none, left := some peer })

def removePeer (room : Room) (peerId : Uuid) : Option (Room × RosterDelta) :=
  (room.peers.lookup peerId).map (room.without peerId)

def markEnded (room : Room) : Room := { room with guard := { room.guard with ended := true } }

def clearEnded (room : Room) : Room := { room with guard := { room.guard with ended := false } }

/-- Only the first removal that leaves the room empty ends it. -/
def removePeerAndCheckEnded (room : Room) (peerId : Uuid) : Option (Room × RosterDelta × UInt8 × Bool) :=
  (room.peers.lookup peerId).map fun peer =>
    let removed := room.without peerId peer
    let shouldEnd := !removed.1.guard.ended && removed.1.isEmpty
    (if shouldEnd then removed.1.markEnded else removed.1, removed.2, peer.peerIndex, shouldEnd)

/-- The peers by index, with the revision. -/
def rosterSnapshot (room : Room) : RosterSnapshot where
  revision := room.guard.rosterRevision
  peers := room.roster.mergeSort fun a b => a.peerIndex ≤ b.peerIndex

/-! ### Indices -/

/-- The allocator has given out the index. -/
def Old (g : AdmissionGuard) (i : UInt8) : Prop := i.toNat < g.nextFresh.toNat ∨ i = 255

/-- The peers have indices of their own, and the allocator gives out none of them again. -/
structure Sound (room : Room) : Prop where
  distinct : ∀ a b p q, room.peers.lookup a = some p → room.peers.lookup b = some q →
    p.peerIndex = q.peerIndex → a = b
  nodup : room.guard.free.Nodup
  unused : ∀ a p, room.peers.lookup a = some p → p.peerIndex ∉ room.guard.free
  used_old : ∀ a p, room.peers.lookup a = some p → Old room.guard p.peerIndex
  free_old : ∀ i ∈ room.guard.free, Old room.guard i

theorem sound_new : ({} : Room).Sound where
  distinct _ _ _ _ found := by simp at found
  nodup := List.nodup_nil
  unused _ _ found := by simp at found
  used_old _ _ found := by simp at found
  free_old _ member := by cases member

/-- What the guard `g` leaves of the allocator of `room` when it has given out `i`. -/
structure Gives (room : Room) (g : AdmissionGuard) (i : UInt8) : Prop where
  free : g.free.Sublist room.guard.free
  taken : i ∉ g.free
  unused : ∀ a p, room.peers.lookup a = some p → p.peerIndex ≠ i
  grown : room.guard.nextFresh.toNat ≤ g.nextFresh.toNat
  old : Old g i

variable {room : Room} {g : AdmissionGuard} {i : UInt8}

theorem lookup_enter {peerId a : Uuid} {peer p : RosterPeer}
    (found : (room.enter g peerId peer).1.peers.lookup a = some p) :
    (a = peerId ∧ p = peer) ∨ (a ≠ peerId ∧ room.peers.lookup a = some p) := by
  simp only [Room.enter, Map.lookup_insert_ite] at found
  split at found
  next same =>
    cases found
    exact Or.inl ⟨same, rfl⟩
  next other => exact Or.inr ⟨other, found⟩

theorem Sound.enter (sound : room.Sound) {peerId : Uuid} {peer : RosterPeer}
    (gives : room.Gives g peer.peerIndex) : (room.enter g peerId peer).1.Sound := by
  have old : ∀ i, Old room.guard i → Old g i := by
    rintro i (lt | last)
    · exact Or.inl (Nat.lt_of_lt_of_le lt gives.grown)
    · exact Or.inr last
  constructor
  · intro a b p q foundA foundB same
    rcases lookup_enter foundA with ⟨rfl, rfl⟩ | ⟨-, earlierA⟩
    · rcases lookup_enter foundB with ⟨rfl, rfl⟩ | ⟨-, earlierB⟩
      · rfl
      · exact absurd same.symm (gives.unused b q earlierB)
    · rcases lookup_enter foundB with ⟨rfl, rfl⟩ | ⟨-, earlierB⟩
      · exact absurd same (gives.unused a p earlierA)
      · exact sound.distinct a b p q earlierA earlierB same
  · exact sound.nodup.sublist gives.free
  · intro a p found
    rcases lookup_enter found with ⟨rfl, rfl⟩ | ⟨-, earlier⟩
    · exact gives.taken
    · exact fun member => sound.unused a p earlier (gives.free.subset member)
  · intro a p found
    rcases lookup_enter found with ⟨rfl, rfl⟩ | ⟨-, earlier⟩
    · exact gives.old
    · exact old _ (sound.used_old a p earlier)
  · intro i member
    exact old i (sound.free_old i (gives.free.subset member))

theorem toNat_succ (small : i ≠ 255) : (i + 1).toNat = i.toNat + 1 := by
  have different : i.toNat ≠ 255 := fun last => small (UInt8.toNat_inj.mp last)
  have bound := i.toNat_lt
  rw [UInt8.toNat_add, UInt8.toNat_one]
  omega

theorem Sound.gives_alloc (sound : room.Sound) (version : UInt8)
    (allocated : room.guard.alloc = some (i, g)) : room.Gives (g.pin version) i := by
  unfold AdmissionGuard.alloc at allocated
  split at allocated
  next idx free recycled =>
    cases allocated
    have nodup := sound.nodup
    rw [recycled] at nodup
    constructor
    · simp [AdmissionGuard.pin, recycled]
    · exact (List.nodup_cons.mp nodup).1
    · rintro a p found rfl
      exact sound.unused a p found (by simp [recycled])
    · exact Nat.le_refl _
    · exact sound.free_old i (by simp [recycled])
  next nothing =>
    split at allocated
    next => cases allocated
    next fresh =>
      cases allocated
      have next := toNat_succ fresh
      constructor
      · exact List.Sublist.refl _
      · simp [AdmissionGuard.pin, nothing]
      · intro a p found same
        rcases sound.used_old a p found with lt | last
        · rw [same] at lt
          exact Nat.lt_irrefl _ lt
        · exact fresh (same.symm.trans last)
      · simp only [AdmissionGuard.pin]
        omega
      · simp only [Old, AdmissionGuard.pin]
        omega

theorem nextFresh_claim (g : AdmissionGuard) (i : UInt8) :
    g.nextFresh.toNat ≤ (g.claim i).nextFresh.toNat ∧ Old (g.claim i) i := by
  simp only [Old, AdmissionGuard.claim]
  by_cases reached : g.nextFresh ≤ i
  · have le := UInt8.le_iff_toNat_le.mp reached
    rw [if_pos reached]
    by_cases last : i = 255
    · subst last
      exact ⟨le, Or.inr rfl⟩
    · rw [if_neg last, toNat_succ last]
      omega
  · rw [if_neg reached]
    exact ⟨Nat.le_refl _, Or.inl (Nat.lt_of_not_le fun le => reached (UInt8.le_iff_toNat_le.mpr le))⟩

theorem gives_claim (version : UInt8) (unused : ∀ p ∈ room.roster, p.peerIndex ≠ i) :
    room.Gives ((room.guard.pin version).claim i) i := by
  constructor
  · exact List.filter_sublist
  · simp [AdmissionGuard.claim]
  · intro a p found
    exact unused p (List.mem_map.mpr ⟨⟨a, p⟩, (Map.mem_entries_iff _ _ _).mpr found, rfl⟩)
  · exact (nextFresh_claim (room.guard.pin version) i).1
  · exact (nextFresh_claim (room.guard.pin version) i).2

theorem alloc_revision {g g' : AdmissionGuard} {i : UInt8} (allocated : g.alloc = some (i, g')) :
    g'.rosterRevision = g.rosterRevision := by
  unfold AdmissionGuard.alloc at allocated
  split at allocated
  · cases allocated
    rfl
  · split at allocated
    · cases allocated
    · cases allocated
      rfl

theorem alloc_ended {g g' : AdmissionGuard} {i : UInt8} (allocated : g.alloc = some (i, g')) :
    g'.ended = g.ended := by
  unfold AdmissionGuard.alloc at allocated
  split at allocated
  · cases allocated
    rfl
  · split at allocated
    · cases allocated
    · cases allocated
      rfl

theorem addPeer_of_ok {peerId : Uuid} {pubkey : String} {version peerIndex : UInt8} {next : Room}
    {delta : RosterDelta} (added : room.addPeer peerId pubkey version = .ok (peerIndex, next, delta)) :
    room.guard.ended = false ∧
      ∃ g peer, g.ended = false ∧ next = (room.enter g peerId peer).1 := by
  unfold addPeer at added
  split at added
  · cases added
  next ongoing =>
    split at added
    · cases added
    split at added
    · cases added
    split at added
    · cases added
    next i g allocated =>
      cases added
      have isOpen : room.guard.ended = false := by simpa using ongoing
      exact ⟨isOpen, g.pin version, _, (alloc_ended allocated).trans isOpen, rfl⟩

theorem addPeerAtIndex_of_ok {peerId : Uuid} {pubkey : String} {version peerIndex : UInt8}
    {next : Room} {delta : RosterDelta}
    (added : room.addPeerAtIndex peerId pubkey version peerIndex = .ok (next, delta)) :
    room.guard.ended = false ∧
      ∃ g peer, g.ended = false ∧ next = (room.enter g peerId peer).1 := by
  unfold addPeerAtIndex at added
  split at added
  · cases added
  next ongoing =>
    split at added
    · cases added
    split at added
    · cases added
    · cases added
      have isOpen : room.guard.ended = false := by simpa using ongoing
      exact ⟨isOpen, (room.guard.pin version).claim peerIndex, _, isOpen, rfl⟩

theorem lookup_of_isEmpty (empty : room.isEmpty = true) (a : Uuid) : room.peers.lookup a = none := by
  cases found : room.peers.lookup a with
  | none => rfl
  | some peer =>
    have member := (Map.mem_entries_iff _ _ _).mpr found
    rw [List.isEmpty_iff.mp empty] at member
    cases member

theorem isEmpty_eq_false {a : Uuid} (here : (room.peers.lookup a).isSome) : room.isEmpty = false := by
  apply Bool.eq_false_iff.mpr
  intro empty
  rw [lookup_of_isEmpty empty] at here
  cases here

theorem Sound.addPeer_eq_ok (sound : room.Sound) {peerId : Uuid} {pubkey : String}
    {version peerIndex : UInt8} {next : Room} {delta : RosterDelta}
    (added : room.addPeer peerId pubkey version = .ok (peerIndex, next, delta)) :
    ∃ g, room.Gives g peerIndex ∧ g.rosterRevision = room.guard.rosterRevision ∧
      (next, delta) = room.enter g peerId ⟨pubkey, peerIndex⟩ := by
  unfold addPeer at added
  split at added
  · cases added
  split at added
  · cases added
  split at added
  · cases added
  split at added
  · cases added
  next i g allocated =>
    cases added
    have same : g.rosterRevision = room.guard.rosterRevision := alloc_revision allocated
    exact ⟨_, sound.gives_alloc version allocated, same, rfl⟩

theorem addPeerAtIndex_eq_ok {peerId : Uuid} {pubkey : String} {version peerIndex : UInt8}
    {next : Room} {delta : RosterDelta}
    (added : room.addPeerAtIndex peerId pubkey version peerIndex = .ok (next, delta)) :
    ∃ g, room.Gives g peerIndex ∧ g.rosterRevision = room.guard.rosterRevision ∧
      (next, delta) = room.enter g peerId ⟨pubkey, peerIndex⟩ := by
  unfold addPeerAtIndex at added
  split at added
  · cases added
  split at added
  · cases added
  next free =>
    split at added
    · cases added
    · cases added
      have unused : ∀ p ∈ room.roster, p.peerIndex ≠ peerIndex := by
        intro p member same
        apply free
        exact Or.inr (List.any_eq_true.mpr ⟨p, member, by simpa using same⟩)
      exact ⟨_, gives_claim version unused, rfl, rfl⟩

theorem lookup_without {peerId a : Uuid} {peer p : RosterPeer}
    (found : (room.without peerId peer).1.peers.lookup a = some p) :
    a ≠ peerId ∧ room.peers.lookup a = some p := by
  simp only [Room.without, Map.lookup_erase_ite] at found
  split at found
  next => cases found
  next other => exact ⟨other, found⟩

theorem Sound.without (sound : room.Sound) {peerId : Uuid} {peer : RosterPeer}
    (here : room.peers.lookup peerId = some peer) : (room.without peerId peer).1.Sound := by
  constructor
  · intro a b p q foundA foundB
    exact sound.distinct a b p q (lookup_without foundA).2 (lookup_without foundB).2
  · exact List.nodup_cons.mpr ⟨sound.unused peerId peer here, sound.nodup⟩
  · intro a p found member
    obtain ⟨other, earlier⟩ := lookup_without found
    rcases List.mem_cons.mp member with same | free
    · exact other (sound.distinct a peerId p peer earlier here same)
    · exact sound.unused a p earlier free
  · intro a p found
    exact sound.used_old a p (lookup_without found).2
  · intro i member
    rcases List.mem_cons.mp member with rfl | free
    · exact sound.used_old peerId peer here
    · exact sound.free_old i free

end Room

end Audio
