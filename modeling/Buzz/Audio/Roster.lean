import Buzz.Audio.Room
import Mathlib.Data.List.Sort

/-!
# Rosters as clients hold them

A client of a huddle keeps a map from peer index to pubkey (`desktop`, `huddle/playout.rs`), built
from the `joined`, `left` and `roster` messages it gets. The roster of a room is seen as such a map
too, and the changes of a room change it at one index.
-/
namespace Audio

open Lib Nostr

/-- `index_to_pubkey`. -/
abbrev Names := UInt8 → Option String

namespace Names

def none : Names := fun _ => Option.none

def insert (names : Names) (peer : RosterPeer) : Names :=
  Function.update names peer.peerIndex (some peer.pubkey)

def remove (names : Names) (peer : RosterPeer) : Names :=
  Function.update names peer.peerIndex Option.none

/-- The entries of a message one after the other. -/
def insertAll (names : Names) (peers : List RosterPeer) : Names := peers.foldl insert names

/-- The change that a delta stands for. -/
def apply (names : Names) (delta : RosterDelta) : Names :=
  match delta.joined with
  | some peer => names.insert peer
  | Option.none =>
    match delta.left with
    | some peer => names.remove peer
    | Option.none => names

theorem insert_eq_some {names : Names} {peer : RosterPeer} {i : UInt8} {pubkey : String} :
    names.insert peer i = some pubkey ↔
      (i = peer.peerIndex ∧ pubkey = peer.pubkey) ∨ (i ≠ peer.peerIndex ∧ names i = some pubkey) := by
  unfold insert
  by_cases same : i = peer.peerIndex
  · subst same
    simp [eq_comm]
  · simp [same]

theorem remove_eq_some {names : Names} {peer : RosterPeer} {i : UInt8} {pubkey : String} :
    names.remove peer i = some pubkey ↔ i ≠ peer.peerIndex ∧ names i = some pubkey := by
  unfold remove
  by_cases same : i = peer.peerIndex
  · subst same
    simp
  · simp [same]

/-- With an index for each peer the order of the entries does not matter. -/
theorem insertAll_eq_some {peers : List RosterPeer} (nodup : (peers.map (·.peerIndex)).Nodup)
    {names : Names} {i : UInt8} {pubkey : String} :
    names.insertAll peers i = some pubkey ↔
      ⟨pubkey, i⟩ ∈ peers ∨ ((∀ p ∈ peers, p.peerIndex ≠ i) ∧ names i = some pubkey) := by
  induction peers generalizing names with
  | nil => simp [insertAll]
  | cons p peers ih =>
    rw [List.map_cons, List.nodup_cons] at nodup
    have others : ∀ q ∈ peers, q.peerIndex ≠ p.peerIndex :=
      fun q member same => nodup.1 (List.mem_map.mpr ⟨q, member, same⟩)
    rw [insertAll, List.foldl_cons]
    refine (ih nodup.2).trans ?_
    rw [insert_eq_some, List.mem_cons]
    constructor
    · rintro (later | ⟨absent, ⟨rfl, rfl⟩ | ⟨different, old⟩⟩)
      · exact Or.inl (Or.inr later)
      · exact Or.inl (Or.inl rfl)
      · refine Or.inr ⟨?_, old⟩
        rintro q (_ | ⟨_, member⟩)
        · exact different.symm
        · exact absent q member
    · rintro ((rfl | later) | ⟨absent, old⟩)
      · exact Or.inr ⟨others, Or.inl ⟨rfl, rfl⟩⟩
      · exact Or.inl later
      · exact Or.inr ⟨fun q member => absent q (by simp [member]),
          Or.inr ⟨fun same => absent p (by simp) same.symm, old⟩⟩

end Names

namespace Room

/-- The roster of the room as a map. -/
def names (room : Room) : Names := Names.none.insertAll room.roster

variable {room : Room}

theorem mem_roster {p : RosterPeer} : p ∈ room.roster ↔ ∃ a, room.peers.lookup a = some p := by
  simp only [roster, List.mem_map]
  constructor
  · rintro ⟨⟨a, q⟩, member, rfl⟩
    exact ⟨a, (Map.mem_entries_iff _ _ _).mp member⟩
  · rintro ⟨a, here⟩
    exact ⟨⟨a, p⟩, (Map.mem_entries_iff _ _ _).mpr here, rfl⟩

theorem Sound.nodup_roster (sound : room.Sound) : (room.roster.map (·.peerIndex)).Nodup := by
  rw [roster, List.map_map]
  apply List.Nodup.map_on
  · rintro ⟨a, p⟩ hereA ⟨b, q⟩ hereB same
    have foundA := (Map.mem_entries_iff _ _ _).mp hereA
    have foundB := (Map.mem_entries_iff _ _ _).mp hereB
    obtain rfl := sound.distinct a b p q foundA foundB same
    rw [Option.some.inj (foundA.symm.trans foundB)]
  · exact List.Nodup.of_map _ room.peers.nodupKeys

theorem Sound.names_eq_some (sound : room.Sound) {i : UInt8} {pubkey : String} :
    room.names i = some pubkey ↔ ∃ a, room.peers.lookup a = some ⟨pubkey, i⟩ := by
  rw [names, Names.insertAll_eq_some sound.nodup_roster, mem_roster]
  simp [Names.none]

theorem Sound.insertAll_snapshot (sound : room.Sound) :
    Names.none.insertAll room.rosterSnapshot.peers = room.names := by
  have perm : room.rosterSnapshot.peers.Perm room.roster := List.mergeSort_perm _ _
  have nodup : (room.rosterSnapshot.peers.map (·.peerIndex)).Nodup :=
    (perm.map _).nodup_iff.mpr sound.nodup_roster
  funext i
  apply Option.ext
  intro pubkey
  rw [names, Names.insertAll_eq_some nodup, Names.insertAll_eq_some sound.nodup_roster,
    perm.mem_iff]
  simp [Names.none]

theorem Sound.names_enter (sound : room.Sound) {g : AdmissionGuard} {peerId : Uuid}
    {peer : RosterPeer} (gives : room.Gives g peer.peerIndex)
    (fresh : room.peers.lookup peerId = none) :
    (room.enter g peerId peer).1.names = room.names.insert peer := by
  funext i
  apply Option.ext
  intro pubkey
  rw [(sound.enter gives).names_eq_some, Names.insert_eq_some, sound.names_eq_some]
  constructor
  · rintro ⟨a, found⟩
    rcases lookup_enter found with ⟨rfl, rfl⟩ | ⟨-, earlier⟩
    · exact Or.inl ⟨rfl, rfl⟩
    · exact Or.inr ⟨gives.unused a _ earlier, a, earlier⟩
  · rintro (⟨rfl, rfl⟩ | ⟨-, a, earlier⟩)
    · exact ⟨peerId, by simp [Room.enter]⟩
    · refine ⟨a, ?_⟩
      have other : a ≠ peerId := by
        rintro rfl
        rw [fresh] at earlier
        cases earlier
      simp [Room.enter, other, earlier]

theorem Sound.names_without (sound : room.Sound) {peerId : Uuid} {peer : RosterPeer}
    (here : room.peers.lookup peerId = some peer) :
    (room.without peerId peer).1.names = room.names.remove peer := by
  funext i
  apply Option.ext
  intro pubkey
  rw [(sound.without here).names_eq_some, Names.remove_eq_some, sound.names_eq_some]
  constructor
  · rintro ⟨a, found⟩
    obtain ⟨other, earlier⟩ := lookup_without found
    refine ⟨?_, a, earlier⟩
    exact fun same => other (sound.distinct a peerId _ peer earlier here same)
  · rintro ⟨different, a, earlier⟩
    refine ⟨a, ?_⟩
    have other : a ≠ peerId := by
      rintro rfl
      rw [here] at earlier
      cases earlier
      exact different rfl
    simp [Room.without, other, earlier]

end Room

end Audio
