import Buzz.Mesh.Spread

/-!
# Digests lose nothing

A delta leaves a table as all records would, even if the table has changed since its digest was
sent. And a membership table gossips as the plain `GossipState` would, which the relay does not
run: the two differ only on records of a runtime's own.
-/
namespace Mesh

open Lib Nostr
open Tunnel (RuntimeId)

namespace MeshMembership

variable {m : MeshMembership} {k : RuntimeId}

/-- The loop over the records of a delta. -/
def applyGossipRecords (m : MeshMembership) (records : List GossipRecord) : MeshMembership :=
  records.foldl (fun m r => (m.applyGossipRecord r).1) m

theorem frame_applyGossipRecords (m : MeshMembership) (records : List GossipRecord) :
    (m.applyGossipRecords records).localRuntimeId = m.localRuntimeId ∧
      (m.applyGossipRecords records).localRecord = m.localRecord := by
  induction records generalizing m with
  | nil => exact ⟨rfl, rfl⟩
  | cons r rest ih =>
    obtain ⟨localId, -, localRecord⟩ := frame_applyGossipRecord m r
    obtain ⟨restId, restRecord⟩ := ih (m.applyGossipRecord r).1
    exact ⟨restId.trans localId, restRecord.trans localRecord⟩

theorem peers_applyGossipRecords (m : MeshMembership) (records : List GossipRecord) :
    (m.applyGossipRecords records).peers =
      peerRows.absorbAll m.peers (records.filter (·.runtimeId ≠ m.localRuntimeId)) := by
  induction records generalizing m with
  | nil => rfl
  | cons r rest ih =>
    change (applyGossipRecords (m.applyGossipRecord r).1 rest).peers = _
    rw [ih, (frame_applyGossipRecord m r).1]
    by_cases own : r.runtimeId = m.localRuntimeId
    · rw [List.filter_cons_of_neg (by simpa using own), applyGossipRecord_own own]
    · rw [List.filter_cons_of_pos (by simpa using own), peers_applyGossipRecord own]
      rfl

theorem nodup_records (m : MeshMembership) : (m.records.map (·.runtimeId)).Nodup := by
  rw [records, List.map_append, List.map_map, List.nodup_append]
  refine ⟨m.peers.nodup, List.nodup_singleton _, fun k held other own => ?_⟩
  obtain ⟨peer, member, rfl⟩ := List.mem_map.mp held
  rw [List.map_singleton, List.mem_singleton, m.own] at own
  rintro rfl
  exact m.apart peer member own

theorem has_of_digest {v : Nat} (foreign : k ≠ m.localRuntimeId)
    (listed : remoteVersions (digestOf m.records) k = some v) : peerRows.Has m.peers k v := by
  obtain ⟨r, member, same⟩ := World.mem_digestOf.mp (World.mem_of_remoteVersions listed)
  obtain ⟨rfl, rfl⟩ := GossipDigestEntry.mk.inj same
  rcases mem_records.mp member with rfl | ⟨peer, held, rfl⟩
  · exact absurd m.own foreign
  · exact ⟨peer, Keyed.get_of_mem held, Nat.le_refl _⟩

/-- The answer to a digest is as good as all records in any order, and whatever its table has
learned since. -/
theorem delta_complete (m asker later : MeshMembership) (since : Follows asker later)
    {all : List GossipRecord} (perm : all.Perm m.records) (k : RuntimeId) :
    (later.applyGossipRecords (deltaOf m.records (digestOf asker.records))).peers.get k =
      (later.applyGossipRecords all).peers.get k := by
  -- The digest, without the entry of the asker itself.
  let known (k : RuntimeId) : Option Nat :=
    if k = later.localRuntimeId then none else remoteVersions (digestOf asker.records) k
  have covers : ∀ k v, known k = some v → peerRows.Has later.peers k v := by
    intro k v listed
    by_cases own : k = later.localRuntimeId
    · simp [known, own] at listed
    · rw [show known k = _ from if_neg own] at listed
      exact since.has k v (has_of_digest (since.localRuntimeId ▸ own) listed)
  have foreign (l : List GossipRecord) : (deltaOf l (digestOf asker.records)).filter
      (·.runtimeId ≠ later.localRuntimeId) |>.Perm
        (peerRows.lacking known (l.filter (·.runtimeId ≠ later.localRuntimeId))) := by
    refine ((sortBy_perm _ _).filter _).trans ?_
    rw [Renewal.lacking, List.filter_filter, List.filter_filter]
    refine .of_eq (List.filter_congr fun r _ => ?_)
    by_cases own : r.runtimeId = later.localRuntimeId
    · simp [own]
    · simp [known, own]
  have nodup := nodup_records m
  have apart (l : List GossipRecord) (sub : l.Sublist m.records) :
      (l.map peerRows.key).Nodup := nodup.sublist (sub.map _)
  rw [peers_applyGossipRecords, peers_applyGossipRecords,
    ← Renewal.get_absorbAll_perm (apart _ ?_) (foreign m.records).symm,
    Renewal.absorbAll_lacking covers]
  · exact Renewal.get_absorbAll_perm (apart _ List.filter_sublist) (perm.symm.filter _)
  · exact List.filter_sublist.trans List.filter_sublist

/-- A table of the meeting that has learned of a third runtime. -/
theorem delta_complete_sample :
    let one := new (GossipRecord.new Sample.one [] 1 10)
    let two := new (GossipRecord.new Sample.two [] 1 20)
    let third := GossipRecord.new (Hex64.repeated '3' rfl) [] 1 30
    let m := (one.heartbeat 40).applyGossipRecord third |>.1
    let later := (two.heartbeat 50).applyGossipRecord third |>.1
    (later.applyGossipRecords (deltaOf m.records (digestOf two.records))).peers.get Sample.one =
      (later.applyGossipRecords m.records.reverse).peers.get Sample.one :=
  delta_complete _ _ _ ((follows_heartbeat _ 50).trans (follows_applyGossipRecord _ _))
    (List.reverse_perm _) _

end MeshMembership

/-! ### The plain exchange -/

inductive GossipOp where
  | delta (records : List GossipRecord)
  | heartbeat (now : Nat)
  | drain (now : Nat)

namespace GossipOp

def onTable (m : MeshMembership) : GossipOp → MeshMembership
  | delta records => m.applyGossipRecords records
  | heartbeat now => m.heartbeat now
  | drain now => m.beginDrain now

def onState (id : RuntimeId) (s : GossipState) : GossipOp → GossipState
  | delta records => (s.applyDelta records).1
  | heartbeat now => s.updateLocal id (fun r => r) now
  | drain now => s.updateLocal id (fun r => { r with draining := true }) now

/-- Nobody sends a runtime a newer record of itself. -/
def Behind (m : MeshMembership) : GossipOp → Prop
  | delta records => ∀ r ∈ records, r.runtimeId = m.localRuntimeId →
      r.version ≤ m.localRecord.version
  | _ => True

end GossipOp

namespace GossipState

variable {s : GossipState} {m : MeshMembership}

/-- The state has the records of the table. -/
def Represents (s : GossipState) (m : MeshMembership) : Prop :=
  ∀ k, s.records.get k =
    if k = m.localRuntimeId then some m.localRecord else (m.peers.get k).map (·.record)

theorem Represents.mem_iff (same : s.Represents m) {r : GossipRecord} :
    r ∈ s.records.rows ↔ r ∈ m.records := by
  rw [MeshMembership.mem_records]
  constructor
  · intro member
    have found := Keyed.get_of_mem member
    rw [same] at found
    split at found
    next => exact Or.inl (Option.some.inj found).symm
    next =>
      obtain ⟨peer, held, rfl⟩ := Option.map_eq_some_iff.mp found
      exact Or.inr ⟨peer, Keyed.mem_of_get held, rfl⟩
  · rintro (rfl | ⟨peer, held, rfl⟩)
    · have found := same m.localRuntimeId
      rw [if_pos rfl] at found
      exact Keyed.mem_of_get found
    · have found := same peer.record.runtimeId
      rw [if_neg (m.apart peer held), Keyed.get_of_mem held] at found
      exact Keyed.mem_of_get found

theorem Represents.perm (same : s.Represents m) : s.records.rows.Perm m.records := by
  have nodup : s.records.rows.Nodup := s.records.nodup.of_map _
  exact (List.perm_ext_iff_of_nodup nodup (m.nodup_records.of_map _)).mpr fun _ => same.mem_iff

theorem separates_id {α : Type} {id : α → RuntimeId} {l : List α} (apart : (l.map id).Nodup) :
    Separates (fun a b => compare (id a).toHex (id b).toHex) l := by
  intro a inside b inside' same
  exact List.inj_on_of_nodup_map apart inside inside'
    (Hex64.toHex_injective (Std.LawfulEqOrd.eq_of_compare same))

theorem Represents.digest_eq (same : s.Represents m) : s.digest = m.digest := by
  have apart := m.nodup_records
  have entries : ((s.records.rows.map GossipRecord.entry).map (·.runtimeId)).Nodup := by
    rw [List.map_map]
    exact s.records.nodup
  exact congrArg _ ((sortBy_eq_iff_perm (separates_id entries)).mpr (same.perm.map _))

theorem Represents.deltaFor_eq (same : s.Represents m) (entries : List GossipDigestEntry) :
    s.deltaFor entries = m.deltaFor entries := by
  refine congrArg _ ((sortBy_eq_iff_perm (separates_id ?_)).mpr (same.perm.filter _))
  exact s.records.nodup.sublist (List.filter_sublist.map _)

theorem represents_new (r : GossipRecord) : (new r).Represents (.new r) := by
  intro k
  change (Keyed.empty.put r).get k = _
  rw [Keyed.get_put]
  simp only [eq_comm]
  rfl

theorem Represents.put (same : s.Represents m) {m' : MeshMembership} {row : PeerState}
    (foreign : row.record.runtimeId ≠ m.localRuntimeId)
    (localId : m'.localRuntimeId = m.localRuntimeId) (localRecord : m'.localRecord = m.localRecord)
    (peers : m'.peers = m.peers.put row) : Represents ⟨s.records.put row.record⟩ m' := by
  intro k
  rw [Keyed.get_put, same, localId, localRecord, peers, Keyed.get_put]
  by_cases its : row.record.runtimeId = k
  · subst its
    simp [foreign]
  · simp [its]

theorem Represents.applyRecord (same : s.Represents m) {r : GossipRecord}
    (behind : r.runtimeId = m.localRuntimeId → r.version ≤ m.localRecord.version) :
    (s.applyRecord r).1.Represents (m.applyGossipRecord r).1 ∧
      (s.applyRecord r).2 = (m.applyGossipRecord r).2 := by
  by_cases own : r.runtimeId = m.localRuntimeId
  · have kept : s.applyRecord r = (s, false) := by
      rw [GossipState.applyRecord, same, if_pos own, Option.all_some,
        if_neg (by simpa using behind own)]
    rw [kept, MeshMembership.applyGossipRecord_own own]
    exact ⟨same, rfl⟩
  · have found := same r.runtimeId
    rw [if_neg own] at found
    rw [GossipState.applyRecord, MeshMembership.applyGossipRecord, dif_neg own, found]
    cases m.peers.get r.runtimeId with
    | none => exact ⟨same.put (show (PeerState.fresh r).record.runtimeId ≠ _ from own) rfl rfl rfl, rfl⟩
    | some peer =>
      by_cases newer : peer.record.version < r.version
      · rw [if_pos (by simpa using newer)]
        simp only [Nat.not_le.mpr newer, if_false]
        exact ⟨same.put (show (peer.renew r).record.runtimeId ≠ _ from own) rfl rfl rfl, trivial⟩
      · rw [if_neg (by simpa using newer)]
        simp only [Nat.not_lt.mp newer, if_true]
        exact ⟨same, trivial⟩

theorem Represents.applyDelta (same : s.Represents m) {records : List GossipRecord}
    (behind : (GossipOp.delta records).Behind m) :
    (s.applyDelta records).1.Represents (m.applyGossipRecords records) := by
  induction records generalizing s m with
  | nil => exact same
  | cons r rest ih =>
    have first := (same.applyRecord (behind r List.mem_cons_self)).1
    refine ih first fun r' member own => ?_
    obtain ⟨localId, -, localRecord⟩ := m.frame_applyGossipRecord r
    rw [localRecord]
    exact behind r' (List.mem_cons_of_mem _ member) (own.trans localId)

theorem Represents.updateLocal (same : s.Represents m) {update : GossipRecord → GossipRecord}
    (keeps : ∀ r, (update r).runtimeId = r.runtimeId) (now : Nat) :
    (s.updateLocal m.localRuntimeId update now).Represents (m.updateLocal update keeps now) := by
  have found := same m.localRuntimeId
  rw [if_pos rfl] at found
  have written : s.updateLocal m.localRuntimeId update now =
      ⟨s.records.put (m.localRecord.updated update now)⟩ := by
    simp only [GossipState.updateLocal, found]
  have its : (m.localRecord.updated update now).runtimeId = m.localRuntimeId :=
    (keeps _).trans m.own
  intro k
  rw [written, Keyed.get_put, its, same]
  simp only [MeshMembership.updateLocal, eq_comm (a := k)]
  split <;> simp_all

theorem Represents.op (same : s.Represents m) {op : GossipOp} (behind : op.Behind m) :
    (op.onState m.localRuntimeId s).Represents (op.onTable m) := by
  cases op with
  | delta records => exact same.applyDelta behind
  | heartbeat now => exact same.updateLocal (fun _ => rfl) now
  | drain now =>
    exact @updateLocal s m same (fun r => { r with draining := true }) (fun _ => rfl) now

end GossipState

/-- A table that is sent no newer records of its own runtime gossips as the plain state does. -/
theorem table_refines (first : GossipRecord) (ops : List GossipOp)
    (behind : Along GossipOp.onTable (fun m op => op.Behind m) (.new first) ops) :
    let s := ops.foldl (GossipOp.onState first.runtimeId) (.new first)
    let m := ops.foldl GossipOp.onTable (.new first)
    s.Represents m ∧ s.digest = m.digest ∧ ∀ entries, s.deltaFor entries = m.deltaFor entries := by
  intro s m
  have same : s.Represents m := by
    suffices follows : ∀ (s : GossipState) (m : MeshMembership), s.Represents m →
        m.localRuntimeId = first.runtimeId → Along GossipOp.onTable (fun m op => op.Behind m) m ops →
        (ops.foldl (GossipOp.onState first.runtimeId) s).Represents (ops.foldl GossipOp.onTable m) from
      follows _ _ (GossipState.represents_new first) rfl behind
    clear behind s m
    intro s m same its behind
    induction ops generalizing s m with
    | nil => exact same
    | cons op rest ih =>
      have next := same.op behind.1
      rw [its] at next
      refine ih _ _ next ?_ behind.2
      cases op with
      | delta records => exact (m.frame_applyGossipRecords records).1.trans its
      | heartbeat | drain => exact its
  exact ⟨same, same.digest_eq, same.deltaFor_eq⟩

/-- A runtime that has met a third one answers a digest. -/
theorem table_refines_sample :
    let third := GossipRecord.new (Hex64.repeated '3' rfl) [] 1 30
    let ops := [GossipOp.heartbeat 20, .delta [third], .drain 40]
    let first := GossipRecord.new Sample.one [] 1 10
    (ops.foldl (GossipOp.onState first.runtimeId) (.new first)).digest =
      (ops.foldl GossipOp.onTable (.new first)).digest :=
  (table_refines _ _ (by
    refine ⟨trivial, fun r member own => ?_, trivial, trivial⟩
    obtain rfl := List.mem_singleton.mp member
    exact absurd own (by decide))).2.1

end Mesh
