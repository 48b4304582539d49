import Buzz.Audit.Chain

/-!
# Tampering with a chain

What `verify_chain` over all numbers of a chain finds out about a table in which rows of
the chain were deleted or altered. It follows the links from row to row, and so it can
only miss what lies before the first row that it finds: `detects_iff` says that a chain
whose front was cut off is the one thing that it does not detect.

No hash function is injective on all byte strings, and the bytes of an entry do not
determine it in general: both are assumed of the entries at hand.
-/
namespace Audit

open Lib Nostr Relay

section

variable {hashing : Hashing} {community : CommunityId} {chain table : List Row}

/-- The entries of the rows, without their hashes. -/
def readable (rows : List Row) : Set AuditEntry :=
  {entry | ∃ row ∈ rows, ∃ read, rowToAuditEntry row = .ok read ∧ entry = { read with hash := [] }}

/-- If the table passes the verification and still has the last row of the chain with its
hash, then no row of the chain was deleted or altered. -/
def Detects (hashing : Hashing) (community : CommunityId) (chain table : List Row) : Prop :=
  verifyChain hashing table community 1 chain.length = .ok true →
  (∃ row ∈ table, row.communityId = community.uuid ∧ row.seq = chain.length ∧
    ∀ last ∈ chain.getLast?, row.hash = last.hash) →
  ∀ row ∈ chain, row ∈ table

/-- The rows of the community that are left are those of the chain behind its front. -/
def CutOff (community : CommunityId) (chain table : List Row) : Prop :=
  ∃ k : Nat, 1 ≤ k ∧ k < chain.length ∧ ∀ row : Row,
    (row ∈ table ∧ row.communityId = community.uuid ∧ 1 ≤ row.seq ∧ row.seq ≤ chain.length) ↔
      (row ∈ chain ∧ (k : Int) < row.seq)

/-! ### What the verification reads -/

/-- The rows that the verification of the whole chain finds, in their order. -/
def found (community : CommunityId) (chain table : List Row) : List Row :=
  selectRange table community.uuid 1 chain.length

theorem mem_found {row : Row} : row ∈ found community chain table ↔
    row ∈ table ∧ row.communityId = community.uuid ∧ 1 ≤ row.seq ∧ row.seq ≤ chain.length :=
  mem_selectRange

theorem found_increasing (unique : (table.map fun row => (row.communityId, row.seq)).Nodup) :
    (found community chain table).Pairwise fun a b => a.seq < b.seq := by
  have apart : Separates (fun a b : Row => compare a.seq b.seq) (table.filter fun row =>
      row.communityId = community.uuid ∧ 1 ≤ row.seq ∧ row.seq ≤ chain.length) := by
    intro a inA b inB tie
    rw [List.mem_filter, decide_eq_true_eq] at inA inB
    apply List.inj_on_of_nodup_map unique inA.1 inB.1
    rw [inA.2.1, inB.2.1, compare_eq_iff_eq.mp tie]
  have increasing := pairwise_sortBy (unique.of_map.filter _) apart
  exact increasing.imp fun less => compare_lt_iff_lt.mp less

theorem injOn_hash {rows : List Row} (intact : ∀ row ∈ rows, row.Intact hashing)
    (preimages : Set.InjOn hashing.preimage (readable rows))
    (digests : Set.InjOn hashing.sha256 (Set.image hashing.preimage (readable rows))) :
    Set.InjOn Row.hash {row | row ∈ rows} := by
  intro row member row' member' same
  obtain ⟨entry, read, hashed⟩ := intact row member
  obtain ⟨entry', read', hashed'⟩ := intact row' member'
  have inside : { entry with hash := [] } ∈ readable rows := ⟨row, member, entry, read, rfl⟩
  have inside' : { entry' with hash := [] } ∈ readable rows := ⟨row', member', entry', read', rfl⟩
  have sums : hashing.sha256 (hashing.preimage { entry with hash := [] }) =
      hashing.sha256 (hashing.preimage { entry' with hash := [] }) := by
    apply Vector.toList_inj.mp
    exact hashed.trans (same.trans hashed'.symm)
  have bytes := digests ⟨_, inside, rfl⟩ ⟨_, inside', rfl⟩ sums
  have fields := preimages inside inside' bytes
  obtain rfl := rowToAuditEntry_eq_ok.mp read
  obtain rfl := rowToAuditEntry_eq_ok.mp read'
  obtain ⟨own, seq, -, prev, action, actor, object, detail, time⟩ := AuditEntry.mk.inj fields
  rw [Row.mk.injEq]
  exact ⟨own, seq, same, prev, by rw [action], actor, object, by rw [detail], time⟩

variable (honest : Honest hashing community.uuid chain)
  (unique : (table.map fun row => (row.communityId, row.seq)).Nodup)

include honest in
private theorem mem_rest {front rest : List Row} (split : front ++ rest = chain) {row : Row} :
    row ∈ rest ↔ row ∈ chain ∧ (front.length : Int) < row.seq := by
  constructor
  · intro inside
    obtain ⟨j, here⟩ := List.mem_iff_getElem?.mp inside
    have there : chain[front.length + j]? = some row := by
      rw [← split, List.getElem?_append_right (by omega), Nat.add_sub_cancel_left, here]
    have number := honest.seq_eq there
    exact ⟨List.mem_of_getElem? there, by omega⟩
  · rintro ⟨inside, behind⟩
    obtain ⟨j, here⟩ := List.mem_iff_getElem?.mp inside
    have number := honest.seq_eq here
    rw [← split, List.getElem?_append_right (by omega)] at here
    exact List.mem_of_getElem? here

include unique in
private theorem getLast?_found {row : Row} (member : row ∈ found community chain table)
    (top : row.seq = chain.length) : (found community chain table).getLast? = some row := by
  have increasing : (found community chain table).Pairwise fun a b => a.seq < b.seq :=
    found_increasing unique
  have bounded : ∀ other ∈ found community chain table, other.seq ≤ row.seq := by
    intro other inside
    rw [top]
    exact (mem_found.mp inside).2.2.2
  revert member increasing bounded
  cases found community chain table using List.reverseRecOn with
  | nil => nofun
  | append_singleton front last =>
    intro member increasing bounded
    rcases List.mem_append.mp member with early | same
    · -- A row before the last one has a smaller number.
      have less := (List.pairwise_append.mp increasing).2.2 row early last (by simp)
      exact absurd (bounded last (by simp)) (not_le.mpr less)
    · rw [List.mem_singleton.mp same, List.getLast?_concat]

include honest unique

/-- Rows that pass the verification and end like the chain are the end of the chain. -/
theorem suffix_of_verified
    (preimages : Set.InjOn hashing.preimage (readable (chain ++ found community chain table)))
    (digests : Set.InjOn hashing.sha256
      (Set.image hashing.preimage (readable (chain ++ found community chain table))))
    (verified : verifyRows hashing none (found community chain table) = .ok true)
    {row : Row} (member : row ∈ found community chain table) (top : row.seq = chain.length)
    (hash : ∀ last ∈ chain.getLast?, row.hash = last.hash) :
    found community chain table <:+ chain := by
  obtain ⟨-, intact, chained⟩ := verifyRows_eq_ok.mp verified
  have all : ∀ other ∈ chain ++ found community chain table, other.Intact hashing := by
    intro other inside
    rcases List.mem_append.mp inside with inside | inside
    · exact honest.intact other inside
    · exact intact other inside
  have distinct : Set.InjOn Row.hash {other | other ∈ chain ∨ other ∈ found community chain table} :=
    (injOn_hash all preimages digests).mono fun _ inside => List.mem_append.mpr inside
  apply honest.linked.suffix_of_last chained distinct (List.ne_nil_of_mem member)
  rw [getLast?_found unique member top]
  cases last : chain.getLast? with
  | none =>
    -- A chain without rows has no last number.
    have low := (mem_found.mp member).2.2.1
    rw [top, List.getLast?_eq_none_iff.mp last] at low
    exact absurd low (by decide)
  | some row' => rw [Option.map_some, Option.map_some, hash row' last]

/-- The part of a chain behind its front passes the verification. -/
theorem verified_of_cutOff {k : Nat} (cut : ∀ row, row ∈ found community chain table ↔
    row ∈ chain ∧ (k : Int) < row.seq) (inside : k < chain.length) :
    verifyChain hashing table community 1 chain.length = .ok true := by
  have back : found community chain table = chain.filter ((k : Int) + 1 ≤ ·.seq) := by
    apply eq_of_increasing Row.seq (found_increasing unique) (honest.increasing.filter _)
    intro row
    rw [cut, List.mem_filter, decide_eq_true_eq, Int.add_one_le_iff]
  have suffix : found community chain table <:+ chain := by
    rw [back]
    exact filter_ge_suffix Row.seq honest.increasing _
  have some : (found community chain table).isEmpty = false := by
    rw [List.isEmpty_eq_false_iff_exists_mem]
    refine ⟨chain[k], (cut _).mpr ⟨List.getElem_mem inside, ?_⟩⟩
    rw [honest.seq_eq (List.getElem?_eq_getElem inside)]
    omega
  rw [verifyChain, ← found, some, if_neg (by simp), verifyRows_eq_ok]
  exact ⟨by rintro _ ⟨⟩, fun row member => honest.intact row (suffix.subset member),
    honest.linked.chained.suffix suffix⟩

/-! ### What is detected -/

/-- The verification of a whole chain detects all that was done to it, unless its front was cut
off and nothing else. -/
theorem detects_iff
    (preimages : Set.InjOn hashing.preimage (readable (chain ++ found community chain table)))
    (digests : Set.InjOn hashing.sha256
      (Set.image hashing.preimage (readable (chain ++ found community chain table)))) :
    Detects hashing community chain table ↔ ¬CutOff community chain table := by
  constructor
  · rintro detects ⟨k, positive, inside, cut⟩
    have cut' (row : Row) : row ∈ found community chain table ↔ row ∈ chain ∧ (k : Int) < row.seq :=
      mem_found.trans (cut row)
    have verified := verified_of_cutOff honest unique cut' inside
    have position (j : Nat) (bound : j < chain.length) : chain[j].seq = (j : Int) + 1 :=
      honest.seq_eq (List.getElem?_eq_getElem bound)
    have top := position (chain.length - 1) (by omega)
    have last : chain.getLast? = some chain[chain.length - 1] := by
      rw [List.getLast?_eq_getElem?, List.getElem?_eq_getElem]
    -- The last row is there, so that the first row should be there too.
    have kept := (cut chain[chain.length - 1]).mpr ⟨List.getElem_mem _, by omega⟩
    have intact := detects verified ⟨chain[chain.length - 1], kept.1, kept.2.1, by omega, by simp [last]⟩
    have first := position 0 (by omega)
    have present := intact chain[0] (List.getElem_mem _)
    have own := honest.community chain[0] (List.getElem_mem _)
    have behind := ((cut chain[0]).mp ⟨present, own, by omega, by omega⟩).2
    omega
  · intro whole verified survives row member
    obtain ⟨top, there, own, number, hash⟩ := survives
    have some : chain.length ≠ 0 := by
      intro empty
      rw [List.length_eq_zero_iff.mp empty] at member
      cases member
    have inFound : top ∈ found community chain table :=
      mem_found.mpr ⟨there, own, by omega, by omega⟩
    have rows : verifyRows hashing none (found community chain table) = .ok true := by
      rw [verifyChain, ← found, if_neg (by simp [List.ne_nil_of_mem inFound])] at verified
      exact verified
    have suffix := suffix_of_verified honest unique preimages digests rows inFound number hash
    obtain ⟨front, split⟩ := suffix
    by_cases all : front = []
    · rw [all, List.nil_append] at split
      rw [← split] at member
      exact (mem_found.mp member).1
    · -- Otherwise a front was cut off.
      refine absurd ⟨front.length, List.length_pos_iff.mpr all, ?_, fun row => ?_⟩ whole
      · have rest := List.length_pos_of_mem inFound
        rw [← split, List.length_append]
        omega
      · exact mem_found.symm.trans (mem_rest honest split)

end

/-! ### A chain without its first row -/

namespace Sample

def firstEntry : AuditEntry where
  communityId := community.uuid
  seq := 1
  hash := firstHash.toList
  prevHash := none
  action := .eventCreated
  actorPubkey := none
  objectId := none
  detail := .null
  createdAt := 0

def secondEntry : AuditEntry where
  communityId := community.uuid
  seq := 2
  hash := secondHash.toList
  prevHash := some firstHash.toList
  action := .eventDeleted
  actorPubkey := none
  objectId := none
  detail := .null
  createdAt := 1000000000

/-- The row of an entry. -/
def row (entry : AuditEntry) : Row where
  communityId := entry.communityId
  seq := entry.seq
  hash := entry.hash
  prevHash := entry.prevHash
  action := entry.action.asStr
  actorPubkey := entry.actorPubkey
  objectId := entry.objectId
  detail := some entry.detail
  createdAt := entry.createdAt

def rows : List Row := [row firstEntry, row secondEntry]

theorem honest_rows : Honest twoHashes community.uuid rows where
  community := by simp [rows, row, firstEntry, secondEntry]
  seqs := rfl
  linked k r here := by
    rcases k with _ | _ | k
    · cases here
      rfl
    · cases here
      rfl
    · cases here
  intact := by
    have first : twoHashes.computeHash firstEntry = firstHash.toList := by decide
    have second : twoHashes.computeHash secondEntry = secondHash.toList := by decide
    simp only [rows, List.forall_mem_cons, List.not_mem_nil, false_imp_iff, implies_true, and_true]
    exact ⟨⟨firstEntry, rowToAuditEntry_eq_ok.mpr rfl, first⟩,
      ⟨secondEntry, rowToAuditEntry_eq_ok.mpr rfl, second⟩⟩

private theorem readable_rows {left : List Row} (sub : left ⊆ rows) :
    readable left ⊆ {{ firstEntry with hash := [] }, { secondEntry with hash := [] }} := by
  rintro _ ⟨r, member, read, found, rfl⟩
  have same := rowToAuditEntry_eq_ok.mp found
  have inside := sub member
  simp only [rows, List.mem_cons, List.not_mem_nil, or_false] at inside
  rcases inside with rfl | rfl
  · have entry : read = firstEntry := by
      have known : rowToAuditEntry (row firstEntry) = .ok firstEntry :=
        rowToAuditEntry_eq_ok.mpr rfl
      exact Except.ok.inj (found.symm.trans known)
    rw [entry]
    exact Or.inl rfl
  · have entry : read = secondEntry := by
      have known : rowToAuditEntry (row secondEntry) = .ok secondEntry :=
        rowToAuditEntry_eq_ok.mpr rfl
      exact Except.ok.inj (found.symm.trans known)
    rw [entry]
    exact Or.inr rfl

private theorem sums_ne : twoHashes.sha256 (twoHashes.preimage { firstEntry with hash := [] }) ≠
    twoHashes.sha256 (twoHashes.preimage { secondEntry with hash := [] }) := by
  decide

theorem injOn_preimage {left : List Row} (sub : left ⊆ rows) :
    Set.InjOn twoHashes.preimage (readable left) := by
  apply Set.InjOn.mono (readable_rows sub)
  rw [Set.injOn_pair]
  exact fun same => absurd (congrArg twoHashes.sha256 same) sums_ne

theorem injOn_sha256 {left : List Row} (sub : left ⊆ rows) :
    Set.InjOn twoHashes.sha256 (Set.image twoHashes.preimage (readable left)) := by
  apply Set.InjOn.mono (Set.image_mono (readable_rows sub))
  rw [Set.image_pair, Set.injOn_pair]
  exact fun same => absurd same sums_ne

theorem sub_rows {left : List Row} (sub : left ⊆ rows) :
    rows ++ found community rows left ⊆ rows := by
  apply List.append_subset.mpr ⟨List.Subset.refl _, ?_⟩
  exact fun r member => sub (mem_found.mp member).1

end Sample

theorem detects_whole_chain :
    Detects Sample.twoHashes Sample.community Sample.rows Sample.rows ↔
      ¬CutOff Sample.community Sample.rows Sample.rows :=
  detects_iff Sample.honest_rows (by decide)
    (Sample.injOn_preimage (Sample.sub_rows (List.Subset.refl _)))
    (Sample.injOn_sha256 (Sample.sub_rows (List.Subset.refl _)))

/-- Without its first row the chain still passes. -/
theorem first_row_not_missed :
    ¬∀ (hashing : Hashing) (community : CommunityId) (chain table : List Row),
      Honest hashing community.uuid chain →
      (table.map fun row => (row.communityId, row.seq)).Nodup →
      Set.InjOn hashing.preimage (readable (chain ++ found community chain table)) →
      Set.InjOn hashing.sha256
        (Set.image hashing.preimage (readable (chain ++ found community chain table))) →
      Detects hashing community chain table := by
  intro claimed
  have sub : [Sample.row Sample.secondEntry] ⊆ Sample.rows := by simp [Sample.rows]
  have detects := claimed Sample.twoHashes Sample.community Sample.rows
    [Sample.row Sample.secondEntry] Sample.honest_rows (by simp)
    (Sample.injOn_preimage (Sample.sub_rows sub)) (Sample.injOn_sha256 (Sample.sub_rows sub))
  have passes : verifyChain Sample.twoHashes [Sample.row Sample.secondEntry] Sample.community 1
      Sample.rows.length = .ok true := by decide
  have present := detects passes ⟨_, List.mem_singleton_self _, rfl, rfl, by simp [Sample.rows]⟩
    (Sample.row Sample.firstEntry) (by simp [Sample.rows])
  have numbers := congrArg Row.seq (List.mem_singleton.mp present)
  revert numbers
  decide

end Audit
