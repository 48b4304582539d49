import Buzz.Audit.Service
import Buzz.Lib.HashChain

/-!
# Chains of entries

What a chain is before anybody runs: the entries that appends make one after the other,
the rows of a community that such entries leave, and that `verify_chain` accepts every
part of them.
-/
namespace Audit

open Lib Nostr Relay

variable {hashing : Hashing}

/-! ### Appending one after the other -/

/-- What an append reads of the entries before it. -/
def headOf (entries : List AuditEntry) : Option (Int × Bytes) :=
  entries.getLast?.map fun entry => (entry.seq, entry.hash)

/-- The entries of calls that append one after the other, each with its clock reading. -/
def chainOf (hashing : Hashing) (calls : List (NewAuditEntry × DateTime)) : List AuditEntry :=
  calls.foldl
    (fun entries call => entries ++ [nextEntry hashing (headOf entries) call.1 call.2]) []

theorem chainOf_concat (calls : List (NewAuditEntry × DateTime)) (call : NewAuditEntry × DateTime) :
    chainOf hashing (calls ++ [call]) = chainOf hashing calls ++
      [nextEntry hashing (headOf (chainOf hashing calls)) call.1 call.2] := by
  rw [chainOf, List.foldl_append]
  rfl

theorem length_chainOf (calls : List (NewAuditEntry × DateTime)) :
    (chainOf hashing calls).length = calls.length := by
  induction calls using List.reverseRecOn with
  | nil => rfl
  | append_singleton calls call ih => simp [chainOf_concat, ih]

theorem nextEntry_createdAt (head : Option (Int × Bytes)) (entry : NewAuditEntry) (now : DateTime) :
    nextEntry hashing head entry (nextEntry hashing head entry now).createdAt =
      nextEntry hashing head entry now := by
  unfold nextEntry
  simp only [toStoragePrecision_idem]

/-- What holds of an entry that was appended. -/
structure Appended (hashing : Hashing) (entry : AuditEntry) : Prop where
  hash : hashing.computeHash entry = entry.hash
  precision : toStoragePrecision entry.createdAt = entry.createdAt

theorem appended_nextEntry (head : Option (Int × Bytes)) (entry : NewAuditEntry) (now : DateTime) :
    Appended hashing (nextEntry hashing head entry now) where
  hash := rfl
  precision := toStoragePrecision_idem now

theorem appended_of_mem {calls : List (NewAuditEntry × DateTime)} {entry : AuditEntry}
    (member : entry ∈ chainOf hashing calls) : Appended hashing entry := by
  induction calls using List.reverseRecOn with
  | nil => cases member
  | append_singleton calls call ih =>
    rw [chainOf_concat, List.mem_append, List.mem_singleton] at member
    rcases member with member | rfl
    · exact ih member
    · exact appended_nextEntry _ _ _

theorem detail_of_mem {calls : List (NewAuditEntry × DateTime)} {entry : AuditEntry}
    (member : entry ∈ chainOf hashing calls) : ∃ call ∈ calls, entry.detail = call.1.detail := by
  induction calls using List.reverseRecOn with
  | nil => cases member
  | append_singleton calls call ih =>
    rw [chainOf_concat, List.mem_append, List.mem_singleton] at member
    rcases member with member | rfl
    · obtain ⟨call', listed, same⟩ := ih member
      exact ⟨call', List.mem_append_left _ listed, same⟩
    · exact ⟨call, by simp, rfl⟩

theorem seqs_chainOf (calls : List (NewAuditEntry × DateTime)) :
    (chainOf hashing calls).map AuditEntry.seq =
      (List.range calls.length).map fun k : Nat => (k : Int) + 1 := by
  induction calls using List.reverseRecOn with
  | nil => rfl
  | append_singleton calls call ih =>
    have next : (nextEntry hashing (headOf (chainOf hashing calls)) call.1 call.2).seq =
        (calls.length : Int) + 1 := by
      -- The last number so far is the number of calls.
      have length : (chainOf hashing calls).length = calls.length := length_chainOf calls
      cases last : (chainOf hashing calls).getLast? with
      | none =>
        have empty : calls.length = 0 := by
          rw [← length, List.getLast?_eq_none_iff.mp last]
          rfl
        simp [headOf, last, nextEntry, empty]
      | some entry =>
        have number : ((chainOf hashing calls).map AuditEntry.seq).getLast? = some entry.seq := by
          rw [List.getLast?_map, last]
          rfl
        have some : calls.length ≠ 0 := by
          rw [← length]
          intro empty
          rw [List.length_eq_zero_iff.mp empty] at last
          cases last
        obtain ⟨n, many⟩ : ∃ n, calls.length = n + 1 := ⟨calls.length - 1, by omega⟩
        rw [ih, many, List.range_succ, List.map_append, List.map_singleton,
          List.getLast?_concat, Option.some.injEq] at number
        simp [headOf, last, nextEntry, many, ← number]
    rw [chainOf_concat, List.map_append, List.map_singleton, ih, next, List.length_append,
      List.length_singleton, List.range_succ, List.map_append, List.map_singleton]

theorem linked_chainOf (calls : List (NewAuditEntry × DateTime)) :
    Linked AuditEntry.prevHash AuditEntry.hash (chainOf hashing calls) := by
  induction calls using List.reverseRecOn with
  | nil => exact fun _ _ found => by cases found
  | append_singleton calls call ih =>
    rw [chainOf_concat, Linked.concat_iff]
    refine ⟨ih, ?_⟩
    unfold headOf nextEntry
    cases (chainOf hashing calls).getLast? <;> rfl

/-! ### The rows of a community -/

theorem increasing_of_seqs {rows : List Row}
    (seqs : rows.map Row.seq = (List.range rows.length).map fun k : Nat => (k : Int) + 1) :
    rows.Pairwise fun a b => a.seq < b.seq := by
  rw [← List.pairwise_map (f := Row.seq) (R := (· < ·)), seqs, List.pairwise_map]
  exact List.pairwise_lt_range.imp fun less => by omega

/-- The rows of one community when all were appended by the service. -/
structure Honest (hashing : Hashing) (community : Uuid) (rows : List Row) : Prop where
  community : ∀ row ∈ rows, row.communityId = community
  seqs : rows.map Row.seq = (List.range rows.length).map fun k : Nat => (k : Int) + 1
  linked : Linked Row.prevHash Row.hash rows
  intact : ∀ row ∈ rows, row.Intact hashing

namespace Honest

variable {community : Uuid} {rows : List Row}

theorem seq_eq (honest : Honest hashing community rows) {k : Nat} {row : Row}
    (here : rows[k]? = some row) : row.seq = (k : Int) + 1 := by
  obtain ⟨inside, rfl⟩ := List.getElem?_eq_some_iff.mp here
  have number := congrArg (·[k]?) honest.seqs
  simpa [inside] using number

theorem increasing (honest : Honest hashing community rows) :
    rows.Pairwise fun a b => a.seq < b.seq := increasing_of_seqs honest.seqs

end Honest

/-! ### What the verifier accepts -/

theorem verifyRows_eq_ok {expected : Option Bytes} {rows : List Row} :
    verifyRows hashing expected rows = .ok true ↔
      (∀ hash ∈ expected, ∀ row ∈ rows.head?, row.prevHash = some hash) ∧
        (∀ row ∈ rows, row.Intact hashing) ∧ Chained Row.prevHash Row.hash rows := by
  induction rows generalizing expected with
  | nil => simp [verifyRows, Chained]
  | cons row rest ih =>
    rw [verifyRows_cons, ih, Chained, Chained, List.isChain_cons]
    simp only [Option.mem_def, Option.some.injEq, forall_eq', List.head?_cons, List.forall_mem_cons]
    tauto

theorem orderBySeq_of_increasing {rows : List Row}
    (increasing : rows.Pairwise fun a b => a.seq < b.seq) : orderBySeq rows = rows := by
  apply List.Pairwise.insertionSort_eq
  exact increasing.imp fun less => by simpa [Std.isLE_compare] using less.le

theorem mem_selectRange {rows : List Row} {community : Uuid} {a b : Int} {row : Row} :
    row ∈ selectRange rows community a b ↔
      row ∈ rows ∧ row.communityId = community ∧ a ≤ row.seq ∧ row.seq ≤ b := by
  rw [selectRange, orderBySeq, (sortBy_perm _ _).mem_iff]
  simp

theorem selectRange_of_increasing {rows chain : List Row} {community : Uuid}
    (own : rows.filter (·.communityId = community) = chain)
    (increasing : chain.Pairwise fun a b => a.seq < b.seq) (a b : Int) :
    selectRange rows community a b = (chain.filter (·.seq ≤ b)).filter (a ≤ ·.seq) := by
  have split : rows.filter (fun row => row.communityId = community ∧ a ≤ row.seq ∧ row.seq ≤ b) =
      (chain.filter (·.seq ≤ b)).filter (a ≤ ·.seq) := by
    rw [← own, List.filter_filter, List.filter_filter]
    apply List.filter_congr
    intro row _
    simp only [Bool.decide_and]
    ac_rfl
  rw [selectRange, split, orderBySeq_of_increasing]
  exact (increasing.filter _).filter _

theorem Honest.verifyChain {rows chain : List Row} {community : CommunityId}
    (own : rows.filter (·.communityId = community.uuid) = chain)
    (honest : Honest hashing community.uuid chain) {a b : Int} {row : Row} (member : row ∈ chain)
    (after : a ≤ row.seq) (before : row.seq ≤ b) :
    verifyChain hashing rows community a b = .ok true := by
  have found := selectRange_of_increasing own honest.increasing a b
  have some : (selectRange rows community.uuid a b).isEmpty = false := by
    rw [found, List.isEmpty_eq_false_iff_exists_mem]
    exact ⟨row, by simp [member, after, before]⟩
  -- A range of increasing numbers cuts a piece out of the chain.
  have piece : selectRange rows community.uuid a b <:+: chain := by
    rw [found]
    have front := filter_le_prefix Row.seq honest.increasing b
    have back := filter_ge_suffix Row.seq (honest.increasing.filter (·.seq ≤ b)) a
    exact back.isInfix.trans front.isInfix
  rw [Audit.verifyChain, some, if_neg (by simp), verifyRows_eq_ok]
  refine ⟨nofun, fun other inside => honest.intact other (piece.subset inside), ?_⟩
  exact honest.linked.chained.infix piece

/-! ### A chain of two entries -/

namespace Sample

def community : CommunityId := ⟨⟨1⟩⟩

/-- The digest of the first entry. -/
def firstHash : Vector UInt8 32 :=
  ⟨#[0x35, 0x53, 0xc0, 0xe8, 0xd4, 0x08, 0x23, 0x5c, 0x7d, 0xb3, 0x1b, 0x11, 0xaf, 0xd1, 0xc2, 0x9e,
    0xc0, 0xa2, 0xb7, 0xf2, 0x28, 0x2d, 0x8b, 0x23, 0x70, 0xb9, 0xbc, 0x8d, 0x13, 0x3c, 0x47, 0x16], rfl⟩

/-- The digest of the second entry. -/
def secondHash : Vector UInt8 32 :=
  ⟨#[0x02, 0x9e, 0xe1, 0xda, 0x96, 0x34, 0xa7, 0x18, 0x3e, 0x38, 0x96, 0xf5, 0xf2, 0x8d, 0x5d, 0xb1,
    0x1b, 0x79, 0xb2, 0xca, 0xb4, 0x1c, 0xdd, 0x9a, 0x74, 0x36, 0x4b, 0x16, 0x5b, 0x3a, 0x88, 0x09], rfl⟩

/-- SHA-256 on the two entries, which are told apart by the last byte of their numbers, and
the text of their times. -/
def twoHashes : Hashing where
  toRfc3339 t := if t = 0 then "1970-01-01T00:00:00+00:00" else "1970-01-01T00:00:01+00:00"
  sha256 bytes := if bytes[23]? = some 1 then firstHash else secondHash

def entry (community : CommunityId) (action : AuditAction) : NewAuditEntry where
  communityId := community
  action := action
  actorPubkey := none
  objectId := none
  detail := .null

end Sample

end Audit
