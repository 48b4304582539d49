import Buzz.Audit.Chain
import Buzz.Audit.Postgres

/-!
# Appending under the lock

The contract of concurrent calls of `log`. A call relies on the others to leave its
connections alone and, while it holds the lock of a community, to commit nothing that has
the same lock key; a lost connection is the only exception, and then the call cannot
commit either. So the head that was read is the head when the entry is committed.
-/
namespace Audit

open Lib Nostr Relay Service

variable {ι : Type} {pg : Postgres} {hashing : Hashing} {news : ι → NewAuditEntry}
  {i j : ι} {s s' s'' : Database ι}

namespace Database

/-- What was committed to the chain of a community. -/
def commitsOf (s : Database ι) (community : Uuid) : List (Commit ι) :=
  s.commits.filter (·.entry.communityId = community)

def entriesOf (s : Database ι) (community : Uuid) : List AuditEntry :=
  (s.commitsOf community).map Commit.entry

end Database

/-- The table holds what was committed, and the entries of a community are those of its own
calls, appended one after the other. -/
structure Sound (pg : Postgres) (hashing : Hashing) (news : ι → NewAuditEntry) (s : Database ι) :
    Prop where
  rows : s.rows = s.commits.map fun commit => pg.store commit.entry
  chains : ∀ community, s.entriesOf community = chainOf hashing
    ((s.commitsOf community).map fun commit => (news commit.call, commit.entry.createdAt))
  community : ∀ commit ∈ s.commits,
    commit.entry.communityId = (news commit.call).communityId.uuid

/-- The moves of others that call `i` relies on. -/
structure Moves (pg : Postgres) (i : ι) (s s' : Database ι) : Prop where
  commits : ∃ more, s'.commits = s.commits ++ more ∧ (∀ commit ∈ more, commit.call ≠ i) ∧
    ∀ conn, s'.users conn = some i → ∀ key n, s.locks key = some (conn, n) →
      ∀ commit ∈ more, pg.lockKey commit.entry.communityId ≠ key
  kept : ∀ conn, s'.users conn = some i → s.users conn = some i ∧
    s'.transactions conn = s.transactions conn ∧
    ∀ key n, s.locks key = some (conn, n) → s'.locks key = some (conn, n)

namespace Moves

theorem refl : Moves pg i s s :=
  ⟨⟨[], by simp⟩, fun _ used => ⟨used, rfl, fun _ _ held => held⟩⟩

theorem trans (first : Moves pg i s s') (last : Moves pg i s' s'') : Moves pg i s s'' := by
  obtain ⟨early, earlyCommits, earlyCalls, earlyKeys⟩ := first.commits
  obtain ⟨late, lateCommits, lateCalls, lateKeys⟩ := last.commits
  constructor
  · refine ⟨early ++ late, by rw [lateCommits, earlyCommits, List.append_assoc], ?_, ?_⟩
    · intro commit member
      rcases List.mem_append.mp member with member | member
      · exact earlyCalls commit member
      · exact lateCalls commit member
    · intro conn used key n held commit member
      obtain ⟨used', -, -⟩ := last.kept conn used
      obtain ⟨-, -, locks⟩ := first.kept conn used'
      rcases List.mem_append.mp member with member | member
      · exact earlyKeys conn used' key n held commit member
      · exact lateKeys conn used key n (locks key n held) commit member
  · intro conn used
    obtain ⟨used', transactions', locks'⟩ := last.kept conn used
    obtain ⟨used'', transactions'', locks''⟩ := first.kept conn used'
    exact ⟨used'', transactions'.trans transactions'',
      fun key n held => locks' key n (locks'' key n held)⟩

end Moves

def contract (pg : Postgres) (hashing : Hashing) (news : ι → NewAuditEntry) :
    Contract ι (Database ι) where
  inv := Sound pg hashing news
  rely := Moves pg
  refl _ _ := Moves.refl
  trans _ _ _ _ := Moves.trans

/-! ### The end of a session -/

private theorem moves_endSession (i : ι) (s : Database ι) (conn : Conn) :
    Moves pg i s (s.endSession conn) := by
  constructor
  · exact ⟨[], by simp [Database.endSession], by simp, by simp⟩
  · intro conn' used
    by_cases same : conn' = conn
    · subst same
      simp [Database.endSession] at used
    · have used' : s.users conn' = some i := by simpa [Database.endSession, same] using used
      exact ⟨used', by simp [Database.endSession, same],
        fun key n held => by simp [Database.endSession, held, same]⟩

theorem commits_ended (s : Database ι) (ended : List Conn) :
    (ended.foldl Database.endSession s).commits = s.commits := by
  induction ended generalizing s with
  | nil => rfl
  | cons conn rest ih => exact ih _

theorem moves_ended (i : ι) (s : Database ι) (ended : List Conn) :
    Moves pg i s (ended.foldl Database.endSession s) := by
  induction ended generalizing s with
  | nil => exact Moves.refl
  | cons conn rest ih => exact (moves_endSession i s conn).trans (ih _)

theorem Sound.ended (sound : Sound pg hashing news s) (ended : List Conn) :
    Sound pg hashing news (ended.foldl Database.endSession s) := by
  induction ended generalizing s with
  | nil => exact sound
  | cons conn rest ih => exact ih ⟨sound.rows, sound.chains, sound.community⟩

/-! ### Calls that commit nothing -/

/-- The call commits nothing, and the others may rely on it. -/
structure Aside (pg : Postgres) (i : ι) (s s' : Database ι) : Prop where
  rows : s'.rows = s.rows
  commits : s'.commits = s.commits
  moves : ∀ j, j ≠ i → Moves pg j s s'

/-- Only what belongs to one connection has changed, which no other call uses. -/
structure OnlyAt (i : ι) (conn : Conn) (s s' : Database ι) : Prop where
  rows : s'.rows = s.rows
  commits : s'.commits = s.commits
  user : ∀ j, s'.users conn = some j → j = i
  users : ∀ conn', conn' ≠ conn → s'.users conn' = s.users conn'
  transactions : ∀ conn', conn' ≠ conn → s'.transactions conn' = s.transactions conn'
  locks : ∀ conn' key n, conn' ≠ conn → s.locks key = some (conn', n) →
    s'.locks key = some (conn', n)

theorem Aside.refl : Aside pg i s s := ⟨rfl, rfl, fun _ _ => Moves.refl⟩

theorem OnlyAt.aside {conn : Conn} (only : OnlyAt i conn s s') : Aside pg i s s' where
  rows := only.rows
  commits := only.commits
  moves j other := by
    constructor
    · exact ⟨[], by simp [only.commits], by simp, by simp⟩
    · intro conn' used
      -- The others use other connections.
      have differ : conn' ≠ conn := by
        rintro rfl
        exact other (only.user j used)
      rw [only.users conn' differ] at used
      exact ⟨used, only.transactions conn' differ, fun key n held => only.locks conn' key n differ held⟩

theorem Sound.aside (sound : Sound pg hashing news s) (aside : Aside pg i s s') :
    Sound pg hashing news s' where
  rows := by rw [aside.rows, aside.commits, sound.rows]
  chains community := by
    have chain := sound.chains community
    unfold Database.entriesOf Database.commitsOf at chain ⊢
    rw [aside.commits]
    exact chain
  community := by
    rw [aside.commits]
    exact sound.community

private theorem onlyAt_users {conn : Conn} {user : Option ι} (mine : ∀ j, user = some j → j = i) :
    OnlyAt i conn s { s with users := Function.update s.users conn user } where
  rows := rfl
  commits := rfl
  user j used := mine j (by simpa using used)
  users _ differ := Function.update_of_ne differ _ _
  transactions _ _ := rfl
  locks _ _ _ _ held := held

section

variable {conn : Conn} (used : s.users conn = some i)
include used

private theorem onlyAt_transactions (transaction : Option (List AuditEntry)) :
    OnlyAt i conn s
      { s with transactions := Function.update s.transactions conn transaction } where
  rows := rfl
  commits := rfl
  user _ used' := Option.some.inj (used'.symm.trans used)
  users _ _ := rfl
  transactions _ differ := Function.update_of_ne differ _ _
  locks _ _ _ _ held := held

private theorem onlyAt_locks {key : Int} (left : Option (Conn × Nat))
    (mine : ∀ conn' n, s.locks key = some (conn', n) → conn' = conn) :
    OnlyAt i conn s { s with locks := Function.update s.locks key left } where
  rows := rfl
  commits := rfl
  user _ used' := Option.some.inj (used'.symm.trans used)
  users _ _ := rfl
  transactions _ _ := rfl
  locks conn' key' n differ held := by
    by_cases same : key' = key
    · subst same
      exact absurd (mine conn' n held) differ
    · exact (Function.update_of_ne same _ _).trans held

end

theorem lock_cases {conn : Conn} {key : Int} (locked : s.lock conn key = some s') :
    (∃ n, s' = { s with locks := Function.update s.locks key (some (conn, n)) }) ∧
      ∀ conn' n, s.locks key = some (conn', n) → conn' = conn := by
  unfold Database.lock at locked
  split at locked
  next free =>
    cases locked
    exact ⟨⟨_, rfl⟩, fun _ _ held => by rw [free] at held; cases held⟩
  next holder more held =>
    split at locked
    next same =>
      cases locked
      refine ⟨⟨_, rfl⟩, fun conn' n held' => ?_⟩
      rw [held] at held'
      cases held'
      exact same
    next => cases locked

private theorem unlock_cases (s : Database ι) (conn : Conn) (key : Int) :
    s.unlock conn key = s ∨
      ((∃ left, s.unlock conn key = { s with locks := Function.update s.locks key left }) ∧
        ∀ conn' n, s.locks key = some (conn', n) → conn' = conn) := by
  unfold Database.unlock
  split
  next holder more held =>
    split
    next same =>
      refine Or.inr ⟨⟨_, rfl⟩, fun conn' n held' => ?_⟩
      rw [held] at held'
      cases held'
      exact same
    next => exact Or.inl rfl
  next => exact Or.inl rfl

theorem insert_cases {conn : Conn} {entry : AuditEntry}
    (inserted : s.insert pg conn entry = some s') :
    ∃ pending, s.transactions conn = some pending ∧
      s' = { s with
        transactions := Function.update s.transactions conn (some (pending ++ [entry])) } := by
  obtain ⟨pending, found, rest⟩ := Option.bind_eq_some_iff.mp inserted
  split at rest
  · cases rest
  · cases rest
    exact ⟨pending, found, rfl⟩

variable [DecidableEq ι]

theorem onConn_cases {α : Type} {choice : Choice} {conn : Conn} {served : Option (α × Database ι)}
    {reply : Except Fault α} (done : s.onConn i choice conn served = some (reply, s')) :
    (∃ fault, reply = .error fault ∧ s' = s) ∨
      (s.users conn = some i ∧ ∃ a, reply = .ok a ∧ served = some (a, s')) := by
  unfold Database.onConn at done
  split at done
  · cases done
    exact Or.inl ⟨_, rfl, rfl⟩
  · split at done
    next used =>
      obtain ⟨⟨a, s₁⟩, found, same⟩ := Option.map_eq_some_iff.mp done
      cases same
      exact Or.inr ⟨used, a, rfl, found⟩
    next => cases done

/-- A commit fails without effect, or it takes effect, and then only a late one is not reported. -/
theorem onCommit_cases {choice : Choice} {conn : Conn} {reply : Except Fault Unit}
    (done : s.onCommit pg i choice conn = some (reply, s')) :
    (∃ fault, reply = .error fault ∧ s' = s) ∨
      (s.users conn = some i ∧ ∃ reported, s.commit pg i conn reported = some s' ∧
        (reported = true ∧ reply = .ok () ∨
          reported = false ∧ choice.late = true ∧ ∃ fault, reply = .error fault)) := by
  unfold Database.onCommit at done
  split at done
  next fault _ =>
    split at done
    next late =>
      obtain ⟨s₁, committed, same⟩ := Option.map_eq_some_iff.mp done
      cases same
      exact Or.inr ⟨late.2, false, committed, Or.inr ⟨rfl, late.1, fault, rfl⟩⟩
    next =>
      cases done
      exact Or.inl ⟨fault, rfl, rfl⟩
  next =>
    split at done
    next used =>
      obtain ⟨s₁, committed, same⟩ := Option.map_eq_some_iff.mp done
      cases same
      exact Or.inr ⟨used, true, committed, Or.inl ⟨rfl, rfl⟩⟩
    next => cases done

/-- Everything but a commit stays at the connection of the call. -/
theorem perform_aside {choice : Choice} {op : Op} {reply : Reply op}
    (other : ∀ conn, op ≠ .commit conn)
    (done : Database.perform pg i choice s op = some (reply, s')) : Aside pg i s s' := by
  cases op with
  | commit conn => exact absurd rfl (other conn)
  | acquire =>
    simp only [Database.perform] at done
    split at done
    · cases done
      exact Aside.refl
    · split at done
      next => cases done
      next free =>
        cases done
        have only : OnlyAt i choice.conn s
            { s with users := Function.update s.users choice.conn (some i) } :=
          onlyAt_users (fun j used => (Option.some.inj used).symm)
        exact only.aside
  | lock conn name =>
    rcases onConn_cases done with ⟨fault, -, rfl⟩ | ⟨used, _, -, served⟩
    · exact Aside.refl
    · obtain ⟨_, locked, same⟩ := Option.map_eq_some_iff.mp served
      cases same
      obtain ⟨⟨n, rfl⟩, mine⟩ := lock_cases locked
      exact (onlyAt_locks used _ mine).aside
  | begin conn =>
    rcases onConn_cases done with ⟨fault, -, rfl⟩ | ⟨used, _, -, served⟩
    · exact Aside.refl
    · cases served
      exact (onlyAt_transactions used _).aside
  | selectHead conn community =>
    rcases onConn_cases done with ⟨fault, -, rfl⟩ | ⟨used, _, -, served⟩
    · exact Aside.refl
    · cases served
      exact Aside.refl
  | now =>
    cases done
    exact Aside.refl
  | insert conn entry =>
    rcases onConn_cases done with ⟨fault, -, rfl⟩ | ⟨used, _, -, served⟩
    · exact Aside.refl
    · obtain ⟨_, inserted, same⟩ := Option.map_eq_some_iff.mp served
      cases same
      obtain ⟨pending, -, rfl⟩ := insert_cases inserted
      exact (onlyAt_transactions used _).aside
  | rollback conn =>
    simp only [Database.perform] at done
    split at done
    next used =>
      cases done
      exact (onlyAt_transactions used none).aside
    next =>
      cases done
      exact Aside.refl
  | unlock conn name =>
    rcases onConn_cases done with ⟨fault, -, rfl⟩ | ⟨used, _, -, served⟩
    · exact Aside.refl
    · cases served
      rcases unlock_cases s conn (pg.hashtextextended name) with same | ⟨⟨left, same⟩, mine⟩
      · rw [same]
        exact Aside.refl
      · rw [same]
        exact (onlyAt_locks used left mine).aside
  | release conn =>
    simp only [Database.perform] at done
    split at done
    next used =>
      cases done
      exact (onlyAt_users nofun).aside
    next =>
      cases done
      exact Aside.refl

/-! ### The rows of a community -/

omit [DecidableEq ι] in
theorem Sound.rows_filter (sound : Sound pg hashing news s) (community : Uuid) :
    s.rows.filter (·.communityId = community) = (s.entriesOf community).map pg.store := by
  rw [sound.rows, List.filter_map, Database.entriesOf, Database.commitsOf, List.map_map]
  rfl

/-- An entry whose numbers are kept is read back with the hash that it was given. -/
theorem intact_store {entry : AuditEntry} (appended : Appended hashing entry)
    (numbers : pg.KeepsNumbers entry.detail) : (pg.store entry).Intact hashing := by
  refine ⟨{ entry with
    detail := pg.jsonb entry.detail, createdAt := pg.timestamptz entry.createdAt }, ?_, ?_⟩
  · exact rowToAuditEntry_eq_ok.mpr rfl
  · have kept : entry.detail.mapNumbers pg.numeric = entry.detail := by
      conv_rhs => rw [← Json.mapNumbers_id entry.detail]
      exact Json.mapNumbers_eq_iff.mpr numbers
    have text := canonicalJson_congr (pg.jsonb_equal entry.detail)
    rw [kept] at text
    have time := pg.timestamptz_eq entry.createdAt appended.precision
    have bytes : hashing.preimage { entry with
        detail := pg.jsonb entry.detail, createdAt := pg.timestamptz entry.createdAt } =
        hashing.preimage entry := by
      unfold Hashing.preimage
      simp only [text, time]
    rw [Hashing.computeHash, bytes]
    exact appended.hash

section

omit [DecidableEq ι]

theorem Sound.seqs (sound : Sound pg hashing news s) (community : Uuid) :
    (s.rows.filter (·.communityId = community)).map Row.seq =
      (List.range (s.rows.filter (·.communityId = community)).length).map
        fun k : Nat => (k : Int) + 1 := by
  rw [sound.rows_filter, List.map_map, List.length_map]
  change (s.entriesOf community).map AuditEntry.seq = _
  rw [sound.chains, seqs_chainOf, length_chainOf]

theorem Sound.linked (sound : Sound pg hashing news s) (community : Uuid) :
    Linked Row.prevHash Row.hash (s.rows.filter (·.communityId = community)) := by
  rw [sound.rows_filter, sound.chains]
  exact (linked_chainOf _).map (fun _ => rfl) fun _ => rfl

/-- Where every call's numbers are kept, the rows of a community are those of an honest chain. -/
theorem Sound.honest (sound : Sound pg hashing news s)
    (numbers : ∀ i, pg.KeepsNumbers (news i).detail) (community : Uuid) :
    Honest hashing community (s.rows.filter (·.communityId = community)) where
  community row member := by simpa using (List.mem_filter.mp member).2
  seqs := sound.seqs community
  linked := sound.linked community
  intact row member := by
    rw [sound.rows_filter, sound.chains] at member
    obtain ⟨entry, inside, rfl⟩ := List.mem_map.mp member
    obtain ⟨call, listed, same⟩ := detail_of_mem inside
    obtain ⟨commit, -, rfl⟩ := List.mem_map.mp listed
    exact intact_store (appended_of_mem inside) (same ▸ numbers commit.call)

theorem Sound.selectHead (sound : Sound pg hashing news s) (community : Uuid) :
    Audit.selectHead s.rows community = headOf (s.entriesOf community) := by
  have increasing := increasing_of_seqs (sound.seqs community)
  have nodup : ((s.rows.filter (·.communityId = community)).map Row.seq).Nodup :=
    List.pairwise_map.mpr (increasing.imp fun less => less.ne)
  have newest : (s.rows.filter (·.communityId = community)).reverse =
      sortBy (fun a b : Row => compare b.seq a.seq)
        (s.rows.filter (·.communityId = community)) := by
    apply eq_sortBy (List.reverse_perm _)
    · rw [List.pairwise_reverse]
      exact increasing.imp fun less => compare_lt_iff_lt.mpr less
    · exact nodup.of_map
    · intro a inA b inB tie
      exact List.inj_on_of_nodup_map nodup inA inB (compare_eq_iff_eq.mp tie).symm
  rw [Audit.selectHead, ← newest, List.head?_reverse, sound.rows_filter, List.getLast?_map,
    Option.map_map]
  rfl

end

end Audit
