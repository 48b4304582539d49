import Buzz.Mesh.Network

/-!
# Records come from their runtimes

Whatever the order of the steps, a table has only runtimes that booted under the relay key, no
record is newer than its runtime's own, and two tables with one version of a record have the same
record. The exceptions are the first version, which the ready registry makes up, and the last
one, at which the counter stays.
-/
namespace Mesh

open Lib Nostr
open Tunnel (RuntimeId)

/-! ### What is signed -/

theorem attestationPreimage_injective {id id' : RuntimeId} {relayPubkey : String}
    (same : attestationPreimage id relayPubkey = attestationPreimage id' relayPubkey) : id = id' := by
  apply Hex64.toHex_injective
  apply String.toList_inj.mp
  have chars := congrArg String.toList same
  simp only [attestationPreimage, String.toList_append, List.append_assoc] at chars
  exact List.append_cancel_right (List.append_cancel_left (List.append_cancel_left chars))

theorem context_prefix (id : RuntimeId) (relayPubkey : String) :
    attestationContext.toList <+: (attestationPreimage id relayPubkey).toList := by
  simp only [attestationPreimage, String.toList_append, List.append_assoc]
  exact List.prefix_append _ _

theorem verifies_of_ok {schnorr : Schnorr} {relay : PublicKey} {ready : ReadyRecord}
    (anchored : some relay.toHex = some ready.relayPubkey)
    (verified : ready.verifyAttestation schnorr = .ok ()) :
    schnorr.verifies relay ready.relaySig (attestationPreimage ready.runtimeId relay.toHex) = true := by
  unfold ReadyRecord.verifyAttestation at verified
  rw [← Option.some.inj anchored, schnorr.fromHex_toHex] at verified
  split at verified
  next => cases verified
  next =>
    dsimp only at verified
    split at verified
    next => cases verified
    next =>
      split at verified
      next holds => exact holds
      next => cases verified

/-! ### The invariant -/

namespace World

variable {schnorr : Schnorr} {relay : PublicKey} {w w' : World}

/-- A record that its runtime has published, or the first version of a runtime that booted. -/
def Known (w : World) (r : GossipRecord) : Prop :=
  r ∈ w.published ∨ r.version = 1 ∧ (w.pods r.runtimeId).isSome

/-- The runtime has this version of a record or a newer one. -/
def Knows (w : World) (a r : RuntimeId) (v : Nat) : Prop :=
  ∃ m, w.pods a = some m ∧ (a = r ∧ v ≤ m.localRecord.version ∨ peerRows.Has m.peers r v)

structure Sound (schnorr : Schnorr) (relay : PublicKey) (w : World) : Prop where
  own : ∀ id m, w.pods id = some m → m.localRuntimeId = id ∧ m.localRecord ∈ w.published ∧
    m.expectedRelayPubkey = some relay.toHex
  published : ∀ r ∈ w.published, 1 ≤ r.version ∧
    ∃ m, w.pods r.runtimeId = some m ∧ r.version ≤ m.localRecord.version
  unique : ∀ r ∈ w.published, ∀ r' ∈ w.published, r.runtimeId = r'.runtimeId →
    r.version = r'.version → r.version < maxVersion → r = r'
  held : ∀ id m, w.pods id = some m → ∀ peer ∈ m.peers.rows, w.Known peer.record
  deltas : ∀ frame ∈ w.frames, ∀ version records, frame.message = .delta version records →
    ∀ r ∈ records, w.Known r
  digests : ∀ frame ∈ w.frames, ∀ version entries, frame.message = .digest version entries →
    ∀ entry ∈ entries, w.Knows frame.sender entry.runtimeId entry.version
  signed : ∀ id : RuntimeId, attestationPreimage id relay.toHex ∈ w.signed → (w.pods id).isSome
  registry : ∀ ready ∈ w.registry,
    schnorr.verifies relay ready.relaySig (attestationPreimage ready.runtimeId relay.toHex) = true →
      attestationPreimage ready.runtimeId relay.toHex ∈ w.signed

/-- What every step leaves or only adds to. -/
structure Grows (w w' : World) : Prop where
  pods : ∀ id m, w.pods id = some m → ∃ m', w'.pods id = some m' ∧ MeshMembership.Follows m m'
  published : ∀ r ∈ w.published, r ∈ w'.published

theorem Grows.isSome (grows : w.Grows w') {id : RuntimeId} (booted : (w.pods id).isSome) :
    (w'.pods id).isSome := by
  obtain ⟨m, here⟩ := Option.isSome_iff_exists.mp booted
  obtain ⟨m', there, -⟩ := grows.pods id m here
  rw [there]
  rfl

theorem Grows.known (grows : w.Grows w') {r : GossipRecord} (known : w.Known r) : w'.Known r :=
  known.imp (grows.published r) fun ⟨first, booted⟩ => ⟨first, grows.isSome booted⟩

theorem Grows.knows (grows : w.Grows w') {a r : RuntimeId} {v : Nat} (knows : w.Knows a r v) :
    w'.Knows a r v := by
  obtain ⟨m, here, known⟩ := knows
  obtain ⟨m', there, follows⟩ := grows.pods a m here
  refine ⟨m', there, known.imp (fun ⟨same, newer⟩ => ⟨same, newer.trans follows.version⟩) ?_⟩
  exact follows.has r v

theorem grows_of_pods (pods : w'.pods = w.pods) (published : ∀ r ∈ w.published, r ∈ w'.published) :
    w.Grows w' :=
  ⟨fun _ m here => ⟨m, (congrFun pods _).trans here, .refl m⟩, published⟩

theorem grows_setPod {id : RuntimeId} {m m' : MeshMembership} (here : w.pods id = some m)
    (follows : MeshMembership.Follows m m')
    (pods : w'.pods = (w.setPod id m').pods) (published : ∀ r ∈ w.published, r ∈ w'.published) :
    w.Grows w' := by
  refine ⟨fun other m₀ found => ?_, published⟩
  rw [pods]
  simp only [setPod]
  split
  next same =>
    subst same
    cases here.symm.trans found
    exact ⟨m', rfl, follows⟩
  next => exact ⟨m₀, found, .refl m₀⟩

theorem pods_setPod {id other : RuntimeId} {m m' : MeshMembership}
    (found : (w.setPod id m).pods other = some m') :
    other = id ∧ m' = m ∨ other ≠ id ∧ w.pods other = some m' := by
  simp only [setPod] at found
  split at found
  next same => exact Or.inl ⟨same, (Option.some.inj found).symm⟩
  next other => exact Or.inr ⟨other, found⟩

theorem Sound.knows_of_mem (sound : w.Sound schnorr relay) {a : RuntimeId} {m : MeshMembership}
    (here : w.pods a = some m) {r : GossipRecord} (member : r ∈ m.records) :
    w.Knows a r.runtimeId r.version := by
  rcases MeshMembership.mem_records.mp member with rfl | ⟨peer, stored, rfl⟩
  · exact ⟨m, here, Or.inl ⟨((sound.own a m here).1.symm.trans m.own.symm), Nat.le_refl _⟩⟩
  · exact ⟨m, here, Or.inr ⟨peer, Keyed.get_of_mem stored, Nat.le_refl _⟩⟩

theorem Sound.known_of_mem (sound : w.Sound schnorr relay) {a : RuntimeId} {m : MeshMembership}
    (here : w.pods a = some m) {r : GossipRecord} (member : r ∈ m.records) : w.Known r := by
  rcases MeshMembership.mem_records.mp member with rfl | ⟨peer, stored, rfl⟩
  · exact Or.inl (sound.own a m here).2.1
  · exact sound.held a m here peer stored

theorem Sound.le_of_known (sound : w.Sound schnorr relay) {r : GossipRecord} (known : w.Known r) :
    ∃ m, w.pods r.runtimeId = some m ∧ r.version ≤ m.localRecord.version := by
  rcases known with member | ⟨first, booted⟩
  · exact (sound.published r member).2
  · obtain ⟨m, here⟩ := Option.isSome_iff_exists.mp booted
    exact ⟨m, here, first ▸ (sound.published _ (sound.own _ m here).2.1).1⟩

theorem Sound.of_setPod (sound : w.Sound schnorr relay) {id : RuntimeId} {m m' : MeshMembership}
    (here : w.pods id = some m) (follows : MeshMembership.Follows m m')
    (pods : w'.pods = (w.setPod id m').pods) (signed : w'.signed = w.signed)
    (registry : w'.registry = w.registry) (kept : ∀ r ∈ w.published, r ∈ w'.published)
    (own : m'.localRecord ∈ w'.published)
    (added : ∀ r ∈ w'.published, r ∈ w.published ∨ r = m'.localRecord ∧
      (m'.localRecord.version < maxVersion → m.localRecord.version < m'.localRecord.version))
    (held : ∀ peer ∈ m'.peers.rows, w.Known peer.record)
    (deltas : ∀ frame ∈ w'.frames, ∀ version records, frame.message = .delta version records →
      ∀ r ∈ records, w.Known r)
    (digests : ∀ frame ∈ w'.frames, ∀ version entries, frame.message = .digest version entries →
      ∀ entry ∈ entries, w.Knows frame.sender entry.runtimeId entry.version) :
    w'.Sound schnorr relay ∧ w.Grows w' := by
  have grows : w.Grows w' := grows_setPod here follows pods kept
  obtain ⟨localId, published, expected⟩ := sound.own id m here
  have ownId : m'.localRecord.runtimeId = id := m'.own.trans (follows.localRuntimeId.trans localId)
  have there : w'.pods id = some m' := by
    rw [pods]
    simp [setPod]
  have first : 1 ≤ m.localRecord.version := (sound.published _ published).1
  -- What was published of a runtime is no newer than its own record before the step.
  have older : ∀ r ∈ w.published, r.runtimeId = id → r.version ≤ m.localRecord.version := by
    intro r member its
    obtain ⟨m₀, found, le⟩ := (sound.published r member).2
    rw [its, here] at found
    cases found
    exact le
  refine ⟨⟨?_, ?_, ?_, ?_, ?_, ?_, ?_, ?_⟩, grows⟩
  · intro other m₀ found
    rw [pods] at found
    rcases pods_setPod found with ⟨rfl, rfl⟩ | ⟨-, found⟩
    · exact ⟨follows.localRuntimeId.trans localId, own, follows.expected.trans expected⟩
    · obtain ⟨same, member, key⟩ := sound.own other m₀ found
      exact ⟨same, kept _ member, key⟩
  · intro r member
    rcases added r member with old | ⟨rfl, -⟩
    · obtain ⟨positive, m₀, found, le⟩ := sound.published r old
      obtain ⟨m₁, found', follows'⟩ := grows.pods _ m₀ found
      exact ⟨positive, m₁, found', le.trans follows'.version⟩
    · exact ⟨first.trans follows.version, m', ownId ▸ there, Nat.le_refl _⟩
  · intro r member r' member' sameId sameVersion unsaturated
    rcases added r member with old | ⟨rfl, newer⟩ <;> rcases added r' member' with old' | ⟨rfl, newer'⟩
    · exact sound.unique r old r' old' sameId sameVersion unsaturated
    · have le := older r old (sameId.trans ownId)
      have lt := newer' (sameVersion ▸ unsaturated)
      omega
    · have le := older r' old' (sameId.symm.trans ownId)
      have lt := newer unsaturated
      omega
    · rfl
  · intro other m₀ found peer member
    rw [pods] at found
    rcases pods_setPod found with ⟨rfl, rfl⟩ | ⟨-, found⟩
    · exact grows.known (held peer member)
    · exact grows.known (sound.held other m₀ found peer member)
  · intro frame member version records shape r carried
    exact grows.known (deltas frame member version records shape r carried)
  · intro frame member version entries shape entry listed
    exact grows.knows (digests frame member version entries shape entry listed)
  · intro other member
    rw [signed] at member
    exact grows.isSome (sound.signed other member)
  · intro ready member verified
    rw [registry] at member
    rw [signed]
    exact sound.registry ready member verified

theorem Sound.of_frames (sound : w.Sound schnorr relay) {frames : List Frame}
    (deltas : ∀ frame ∈ frames, ∀ version records, frame.message = .delta version records →
      ∀ r ∈ records, w.Known r)
    (digests : ∀ frame ∈ frames, ∀ version entries, frame.message = .digest version entries →
      ∀ entry ∈ entries, w.Knows frame.sender entry.runtimeId entry.version) :
    { w with frames }.Sound schnorr relay ∧ w.Grows { w with frames } :=
  ⟨{ sound with deltas, digests },
    grows_of_pods rfl fun _ => id⟩

theorem mem_deltaOf {records : List GossipRecord} {entries : List GossipDigestEntry}
    {r : GossipRecord} : r ∈ deltaOf records entries ↔
      r ∈ records ∧ (remoteVersions entries r.runtimeId).all (· < r.version) := by
  rw [deltaOf, sortById, (sortBy_perm _ _).mem_iff, List.mem_filter]

theorem mem_digestOf {records : List GossipRecord} {entry : GossipDigestEntry} :
    entry ∈ digestOf records ↔ ∃ r ∈ records, r.entry = entry := by
  rw [digestOf, sortById, (sortBy_perm _ _).mem_iff, List.mem_map]

theorem Sound.frame (sound : w.Sound schnorr relay) {a : RuntimeId} {m : MeshMembership}
    (here : w.pods a = some m) :
    (∀ entries version records, m.deltaFor entries = .delta version records →
      ∀ r ∈ records, w.Known r) ∧
    ∀ version entries, m.digest = .digest version entries →
      ∀ entry ∈ entries, w.Knows a entry.runtimeId entry.version := by
  constructor
  · intro entries version records shape r member
    cases shape
    exact sound.known_of_mem here (mem_deltaOf.mp member).1
  · intro version entries shape entry member
    cases shape
    obtain ⟨r, known, rfl⟩ := mem_digestOf.mp member
    exact sound.knows_of_mem here known

theorem Sound.boot (sound : w.Sound schnorr relay) {id : RuntimeId} (absent : w.pods id = none)
    {addrs : List String} {protoVersion : UInt16} {capabilities : List String} {now : Nat}
    {ready : ReadyRecord} (its : ready.runtimeId = id) :
    let own := bootRecord id addrs protoVersion capabilities now
    let w' : World := { w.setPod id ((MeshMembership.new own).withExpectedRelayPubkey relay.toHex) with
      registry := ready :: w.registry
      signed := attestationPreimage id relay.toHex :: w.signed
      published := own :: w.published }
    w'.Sound schnorr relay ∧ w.Grows w' := by
  intro own w'
  have there : w'.pods id = some ((MeshMembership.new own).withExpectedRelayPubkey relay.toHex) := by
    simp [w', setPod]
  have grows : w.Grows w' := by
    refine ⟨fun other m found => ⟨m, ?_, .refl m⟩, fun r member => List.mem_cons_of_mem _ member⟩
    have ne : other ≠ id := by
      rintro rfl
      rw [absent] at found
      cases found
    simpa [w', setPod, ne] using found
  have fresh : ∀ r ∈ w.published, r.runtimeId ≠ id := by
    rintro r member rfl
    obtain ⟨m, found, -⟩ := (sound.published r member).2
    rw [absent] at found
    cases found
  refine ⟨⟨?_, ?_, ?_, ?_, ?_, ?_, ?_, ?_⟩, grows⟩
  · intro other m found
    rcases pods_setPod (w := w) found with ⟨rfl, rfl⟩ | ⟨-, found⟩
    · exact ⟨rfl, List.mem_cons_self, rfl⟩
    · obtain ⟨same, member, key⟩ := sound.own other m found
      exact ⟨same, List.mem_cons_of_mem _ member, key⟩
  · intro r member
    rcases List.mem_cons.mp member with rfl | old
    · exact ⟨Nat.le_refl _, _, there, Nat.le_refl _⟩
    · obtain ⟨positive, m, found, le⟩ := sound.published r old
      obtain ⟨m', found', follows⟩ := grows.pods _ m found
      exact ⟨positive, m', found', le.trans follows.version⟩
  · intro r member r' member' sameId sameVersion unsaturated
    rcases List.mem_cons.mp member with rfl | old <;> rcases List.mem_cons.mp member' with rfl | old'
    · rfl
    · exact absurd sameId.symm (fresh r' old')
    · exact absurd sameId (fresh r old)
    · exact sound.unique r old r' old' sameId sameVersion unsaturated
  · intro other m found peer member
    rcases pods_setPod (w := w) found with ⟨rfl, rfl⟩ | ⟨-, found⟩
    · exact (List.not_mem_nil member).elim
    · exact grows.known (sound.held other m found peer member)
  · intro frame member version records shape r carried
    exact grows.known (sound.deltas frame member version records shape r carried)
  · intro frame member version entries shape entry listed
    exact grows.knows (sound.digests frame member version entries shape entry listed)
  · intro other member
    rcases List.mem_cons.mp member with same | old
    · rw [attestationPreimage_injective same, there]
      rfl
    · exact grows.isSome (sound.signed other old)
  · intro entry member verified
    rcases List.mem_cons.mp member with rfl | old
    · rw [its]
      exact List.mem_cons_self
    · exact List.mem_cons_of_mem _ (sound.registry entry old verified)

theorem Sound.held_scan (sound : w.Sound schnorr relay) {id : RuntimeId} {m : MeshMembership}
    (here : w.pods id = some m) {ready : ReadyRecord} (stored : ready ∈ w.registry) (now : Nat) :
    (m.applyReadyRecord schnorr ready now).localRecord = m.localRecord ∧
      ∀ peer ∈ (m.applyReadyRecord schnorr ready now).peers.rows, w.Known peer.record := by
  rcases MeshMembership.applyReadyRecord_cases schnorr m ready now with
    ⟨peers, -, -, localRecord⟩ | ⟨anchored, verified, applied⟩
  · rw [peers]
    exact ⟨localRecord, sound.held id m here⟩
  · rw [applied]
    refine ⟨(MeshMembership.frame_applyGossipRecord m _).2.2, fun peer member => ?_⟩
    rcases MeshMembership.record_applyGossipRecord member with same | ⟨old, held, same⟩
    · have signed := sound.registry ready stored
        (verifies_of_ok ((sound.own id m here).2.2.symm.trans anchored) verified)
      exact Or.inr (same ▸ ⟨rfl, sound.signed _ signed⟩)
    · rw [same]
      exact sound.held id m here old held

theorem Sound.take (sound : w.Sound schnorr relay) {i : Nat} {frame : Frame}
    (found : w.frames[i]? = some frame) {m : MeshMembership} (here : w.pods frame.receiver = some m) :
    (w.take i frame m).Sound schnorr relay ∧ w.Grows (w.take i frame m) := by
  have rest : ∀ other ∈ w.frames.eraseIdx i, other ∈ w.frames := fun other member =>
    (List.eraseIdx_sublist _ _).mem member
  have deltas := fun other member => sound.deltas other (rest other member)
  have digests := fun other member => sound.digests other (rest other member)
  have dropped : { w with frames := w.frames.eraseIdx i }.Sound schnorr relay ∧
      w.Grows { w with frames := w.frames.eraseIdx i } := sound.of_frames deltas digests
  unfold World.take
  cases shape : frame.message with
  | digest version entries =>
    dsimp only
    split
    next => exact dropped
    next =>
      have answer := (sound.frame here).1 entries
      refine sound.of_frames ?_ ?_
      · intro other member v records carries
        rcases List.mem_append.mp member with old | new
        · exact deltas other old v records carries
        · rw [List.mem_singleton.mp new] at carries
          exact answer v records carries
      · intro other member v listed carries
        rcases List.mem_append.mp member with old | new
        · exact digests other old v listed carries
        · rw [List.mem_singleton.mp new] at carries
          cases carries
  | delta version records =>
    dsimp only
    split
    next => exact dropped
    next =>
      cases records with
      | nil => exact dropped
      | cons r later =>
        have carried := sound.deltas frame (List.mem_of_getElem? found) version _ shape
        have localRecord := (MeshMembership.frame_applyGossipRecord m r).2.2
        refine sound.of_setPod here (MeshMembership.follows_applyGossipRecord m r) rfl rfl rfl
          (fun _ member => member) ?_ (fun _ member => Or.inl member) ?_ ?_ ?_
        · rw [localRecord]
          exact (sound.own _ m here).2.1
        · intro peer member
          rcases MeshMembership.record_applyGossipRecord member with same | ⟨old, held, same⟩
          · rw [same]
            exact carried r List.mem_cons_self
          · rw [same]
            exact sound.held _ m here old held
        · intro other member v listed carries
          rcases List.mem_or_eq_of_mem_set member with old | rfl
          · exact sound.deltas other old v listed carries
          · cases carries
            exact fun r' member' => carried r' (List.mem_cons_of_mem _ member')
        · intro other member v listed carries
          rcases List.mem_or_eq_of_mem_set member with old | rfl
          · exact sound.digests other old v listed carries
          · cases carries

theorem sound_initial : initial.Sound schnorr relay := by
  constructor <;> intros <;> simp_all [initial]

theorem Sound.step (sound : w.Sound schnorr relay) {a : Action}
    (stepped : w.step schnorr relay a = some w') : w'.Sound schnorr relay ∧ w.Grows w' := by
  cases a with
  | boot id addrs protoVersion capabilities relaySig now =>
    dsimp only [World.step] at stepped
    split at stepped
    next => cases stepped
    next allowed =>
      cases stepped
      have absent : w.pods id = none := by
        rw [not_or, Bool.not_eq_true, Option.isSome_eq_false_iff, Option.isNone_iff_eq_none] at allowed
        exact allowed.1
      exact sound.boot absent rfl
  | write ready =>
    dsimp only [World.step] at stepped
    split at stepped
    next => cases stepped
    next allowed =>
      cases stepped
      refine ⟨{ sound with registry := fun other member verified => ?_ }, grows_of_pods rfl fun _ => id⟩
      rcases List.mem_cons.mp member with rfl | old
      · by_contra unsigned
        exact allowed ⟨verified, unsigned⟩
      · exact sound.registry other old verified
  | expire ready =>
    cases stepped
    have registry := fun other (member : other ∈ w.registry.erase ready) =>
      sound.registry other (List.mem_of_mem_erase member)
    exact ⟨{ sound with registry }, grows_of_pods rfl fun _ => id⟩
  | scan id ready now =>
    dsimp only [World.step] at stepped
    split at stepped
    next m here =>
      split at stepped
      next stored =>
        cases stepped
        obtain ⟨localRecord, held⟩ := sound.held_scan here stored now
        refine sound.of_setPod here (MeshMembership.follows_applyReadyRecord m ready now) rfl rfl rfl
          (fun _ member => member) ?_ (fun _ member => Or.inl member) held sound.deltas sound.digests
        rw [localRecord]
        exact (sound.own id m here).2.1
      next => cases stepped
    next => cases stepped
  | sign text =>
    dsimp only [World.step] at stepped
    split at stepped
    next => cases stepped
    next other =>
      cases stepped
      have registry := fun ready (stored : ready ∈ w.registry) verified =>
        List.mem_cons_of_mem text (sound.registry ready stored verified)
      refine ⟨{ sound with signed := fun id member => ?_, registry }, grows_of_pods rfl fun _ => id⟩
      rcases List.mem_cons.mp member with same | old
      · exact absurd (same ▸ context_prefix id relay.toHex) other
      · exact sound.signed id old
  | heartbeat id now =>
    obtain ⟨m, here, rfl⟩ := Option.map_eq_some_iff.mp stepped
    refine sound.of_setPod here (MeshMembership.follows_heartbeat m now) rfl rfl rfl
      (fun _ member => List.mem_cons_of_mem _ member) List.mem_cons_self ?_ (sound.held id m here)
      sound.deltas sound.digests
    intro r member
    rcases List.mem_cons.mp member with rfl | old
    · exact Or.inr ⟨rfl, (MeshMembership.version_updated _ (fun _ => rfl) now).2⟩
    · exact Or.inl old
  | drain id now =>
    obtain ⟨m, here, rfl⟩ := Option.map_eq_some_iff.mp stepped
    refine sound.of_setPod here (MeshMembership.follows_beginDrain m now) rfl rfl rfl
      (fun _ member => List.mem_cons_of_mem _ member) List.mem_cons_self ?_ (sound.held id m here)
      sound.deltas sound.digests
    intro r member
    rcases List.mem_cons.mp member with rfl | old
    · exact Or.inr ⟨rfl, (@MeshMembership.version_updated m.localRecord
        (fun r => { r with draining := true }) (fun _ => rfl) now).2⟩
    · exact Or.inl old
  | connection id peer state =>
    obtain ⟨m, here, rfl⟩ := Option.map_eq_some_iff.mp stepped
    obtain ⟨follows, localRecord⟩ := MeshMembership.follows_markConnectionState m peer state
    refine sound.of_setPod here follows rfl rfl rfl (fun _ member => member) ?_
      (fun _ member => Or.inl member) ?_ sound.deltas sound.digests
    · rw [localRecord]
      exact (sound.own id m here).2.1
    · intro row member
      obtain ⟨old, held, same⟩ := MeshMembership.record_markConnectionState member
      rw [same]
      exact sound.held id m here old held
  | gossip id peer =>
    obtain ⟨m, here, rfl⟩ := Option.map_eq_some_iff.mp stepped
    have listed := (sound.frame here).2
    refine sound.of_frames ?_ ?_
    · intro other member v records carries
      rcases List.mem_append.mp member with old | new
      · exact sound.deltas other old v records carries
      · rw [List.mem_singleton.mp new] at carries
        cases carries
    · intro other member v entries carries
      rcases List.mem_append.mp member with old | new
      · exact sound.digests other old v entries carries
      · rw [List.mem_singleton.mp new] at carries ⊢
        exact listed v entries carries
  | receive i =>
    dsimp only [World.step] at stepped
    split at stepped
    next => cases stepped
    next frame found =>
      obtain ⟨m, here, rfl⟩ := Option.map_eq_some_iff.mp stepped
      exact sound.take found here
  | lose i =>
    cases stepped
    have rest : ∀ other ∈ w.frames.eraseIdx i, other ∈ w.frames := fun other member =>
      (List.eraseIdx_sublist _ _).mem member
    exact sound.of_frames (fun other member => sound.deltas other (rest other member))
      fun other member => sound.digests other (rest other member)

theorem sound_of_reached {actions : List Action}
    (reached : Trace.after (World.step schnorr relay) initial actions = some w) :
    w.Sound schnorr relay :=
  Trace.after_invariant (fun _ _ _ stepped sound => (Sound.step sound stepped).1) reached
    sound_initial

end World

/-! ### What the tables say -/

/-- Every record in a table is of a runtime that booted and no newer than that runtime's own, and
two tables with a version of a record have the same record, unless it is the version that the
registry made up or the one at which the counter stays. -/
theorem tables_agree (schnorr : Schnorr) (relay : PublicKey) {actions : List Action} {w : World}
    (reached : Trace.after (World.step schnorr relay) .initial actions = some w) {a b : RuntimeId}
    {m m' : MeshMembership} (here : w.pods a = some m) (there : w.pods b = some m') :
    (∀ r ∈ m.records, ∃ owner, w.pods r.runtimeId = some owner ∧
      r.version ≤ owner.localRecord.version) ∧
    ∀ r ∈ m.records, ∀ r' ∈ m'.records, r.runtimeId = r'.runtimeId → r.version = r'.version →
      1 < r.version → r.version < maxVersion → r = r' := by
  have sound := World.sound_of_reached reached
  refine ⟨fun r member => sound.le_of_known (sound.known_of_mem here member), ?_⟩
  intro r member r' member' sameId sameVersion later unsaturated
  rcases sound.known_of_mem here member with published | ⟨first, -⟩
  · rcases sound.known_of_mem there member' with published' | ⟨first', -⟩
    · exact sound.unique r published r' published' sameId sameVersion unsaturated
    · omega
  · omega

namespace Sample

def fromHex (s : String) : Option PublicKey :=
  if length_eq : s.length = 64 then
    if digits : s.toList.all isLowerHexDigit = true then some ⟨s, length_eq, digits⟩ else none
  else none

theorem fromHex_toHex (key : PublicKey) : fromHex key.toHex = some key := by
  rw [fromHex, dif_pos key.length_eq, dif_pos key.digits]

/-- Keys are read from 64 lowercase digits, and a signature is the text. -/
def schnorr : Schnorr where
  fromHex := fromHex
  fromHex_toHex := fromHex_toHex
  readable _ := true
  verifies _ signature text := signature = text

def relay : PublicKey := Hex64.repeated 'a' (Eq.refl true)
def one : RuntimeId := Hex64.repeated '1' (Eq.refl true)
def two : RuntimeId := Hex64.repeated '2' (Eq.refl true)

/-- The second runtime finds the first one in the registry and asks it for its next record, which
comes in one delta. -/
def meeting : List Action :=
  [.boot one [] 1 [] (attestationPreimage one relay.toHex) 10,
    .boot two [] 1 [] (attestationPreimage two relay.toHex) 20,
    .scan two (readyRecord relay one [] 1 [] (attestationPreimage one relay.toHex)) 30,
    .heartbeat one 40, .gossip two one, .receive 0, .receive 0, .receive 0]

/-- A version that a table has of a runtime. -/
def versionAt (w : World) (a r : RuntimeId) : Option Nat :=
  (w.pods a).bind fun m => (m.records.find? (·.runtimeId = r)).map (·.version)

theorem met : (Trace.after (World.step schnorr relay) .initial meeting).map
    (fun w => (versionAt w one one, versionAt w two one)) = some (some 2, some 2) := by
  decide +kernel

theorem exists_of_versionAt {w : World} {a r : RuntimeId} {v : Nat}
    (known : versionAt w a r = some v) :
    ∃ m, w.pods a = some m ∧ ∃ record ∈ m.records, record.runtimeId = r ∧ record.version = v := by
  obtain ⟨m, here, found⟩ := Option.bind_eq_some_iff.mp known
  obtain ⟨record, found, same⟩ := Option.map_eq_some_iff.mp found
  exact ⟨m, here, record, List.mem_of_find?_eq_some found,
    by simpa using List.find?_some found, same⟩

end Sample

theorem tables_agree_meeting : ∃ w, Trace.after (World.step Sample.schnorr Sample.relay) .initial
      Sample.meeting = some w ∧ ∃ m m' r, w.pods Sample.one = some m ∧
        w.pods Sample.two = some m' ∧ r ∈ m.records ∧ r ∈ m'.records ∧ r.version = 2 := by
  obtain ⟨w, reached, versions⟩ := Option.map_eq_some_iff.mp Sample.met
  obtain ⟨first, second⟩ := Prod.mk.inj versions
  obtain ⟨m, here, r, member, its, version⟩ := Sample.exists_of_versionAt first
  obtain ⟨m', there, r', member', its', version'⟩ := Sample.exists_of_versionAt second
  have same := (tables_agree _ _ reached here there).2 r member r' member'
    (its.trans its'.symm) (version.trans version'.symm) (by omega) (by rw [version]; decide)
  exact ⟨w, reached, m, m', r, here, there, member, same ▸ member', version⟩

end Mesh
