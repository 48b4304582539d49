import Buzz.Audit.Append

/-!
# Concurrent appends

Any number of calls of `log` over any communities, interleaved in any way, with failures
at any call and sessions that end at any moment. A call goes through phases while it has
the lock; as long as its connection lives, each phase is kept by whatever the others do.

`logs_chained` says that every community gets one chain without gaps of its own calls'
entries. `logs_linear` adds that the entries are those of the calls that succeeded, if no
commit takes effect that is reported as failed, and that the chain passes the verification,
if the database gives every number back as it was written.
-/
namespace Audit

open Lib Nostr Relay Service

variable {ι : Type} [DecidableEq ι] {pg : Postgres} {hashing : Hashing}
  {news : ι → NewAuditEntry} {i j : ι} {s s' : Database ι} {conn : Conn} {community : Uuid}

/-! ### Where a call is -/

/-- What a call has committed. -/
def Database.own (s : Database ι) (i : ι) : List (Commit ι) := s.commits.filter (·.call = i)

/-- A call that succeeds has committed the entry that it returns; one that fails has committed
nothing, or was not told. -/
def Database.Outcome (s : Database ι) (i : ι) : Except Fault AuditEntry → Prop
  | .ok entry => (s.own i).map Commit.entry = [entry]
  | .error _ => s.own i = [] ∨ ∃ commit ∈ s.own i, commit.reported = false

inductive Phase where
  | locked
  | begun
  | read (head : Option (Int × Bytes))
  | inserted (head : Option (Int × Bytes)) (entry : AuditEntry)

/-- The transaction of the call, and that the head it has read is still the head. -/
def Phase.Holds (conn : Conn) (community : Uuid) (s : Database ι) : Phase → Prop
  | .locked => True
  | .begun => s.transactions conn = some []
  | .read head => s.transactions conn = some [] ∧ headOf (s.entriesOf community) = head
  | .inserted head entry =>
    s.transactions conn = some [entry] ∧ headOf (s.entriesOf community) = head

/-- Call `i` has committed nothing, and is in this phase unless it has lost its connection. -/
structure At (pg : Postgres) (i : ι) (conn : Conn) (community : Uuid) (phase : Phase)
    (s : Database ι) : Prop where
  unwritten : s.own i = []
  locked : s.users conn = some i → ∃ n, s.locks (pg.lockKey community) = some (conn, n)
  phase : s.users conn = some i → phase.Holds conn community s

theorem Moves.own (moves : Moves pg i s s') : s'.own i = s.own i := by
  obtain ⟨more, commits, others, -⟩ := moves.commits
  have none : more.filter (·.call = i) = [] := by
    rw [List.filter_eq_nil_iff]
    exact fun commit member => by simpa using others commit member
  rw [Database.own, commits, List.filter_append, none, List.append_nil]
  rfl

theorem Moves.outcome {result : Except Fault AuditEntry} (moves : Moves pg i s s')
    (outcome : s.Outcome i result) : s'.Outcome i result := by
  cases result with
  | ok entry => exact (congrArg _ moves.own).trans outcome
  | error fault =>
    unfold Database.Outcome
    rw [moves.own]
    exact outcome

omit [DecidableEq ι] in
theorem Moves.entriesOf {n : Nat} (moves : Moves pg i s s') (used : s'.users conn = some i)
    (locked : s.locks (pg.lockKey community) = some (conn, n)) :
    s'.entriesOf community = s.entriesOf community := by
  obtain ⟨more, commits, -, keys⟩ := moves.commits
  have none : more.filter (·.entry.communityId = community) = [] := by
    rw [List.filter_eq_nil_iff]
    intro commit member same
    have other := keys conn used _ n locked commit member
    rw [of_decide_eq_true same] at other
    exact other rfl
  rw [Database.entriesOf, Database.commitsOf, commits, List.filter_append, none, List.append_nil]
  rfl

theorem At.moves {phase : Phase} (at_ : At pg i conn community phase s) (moves : Moves pg i s s') :
    At pg i conn community phase s' where
  unwritten := moves.own.trans at_.unwritten
  locked used := by
    obtain ⟨used', -, locks⟩ := moves.kept conn used
    obtain ⟨n, held⟩ := at_.locked used'
    exact ⟨n, locks _ n held⟩
  phase used := by
    obtain ⟨used', transactions, -⟩ := moves.kept conn used
    obtain ⟨n, held⟩ := at_.locked used'
    have holds := at_.phase used'
    have entries := moves.entriesOf used held
    cases phase with
    | locked => trivial
    | begun => exact transactions.trans holds
    | read head => exact ⟨transactions.trans holds.1, entries ▸ holds.2⟩
    | inserted head entry => exact ⟨transactions.trans holds.1, entries ▸ holds.2⟩

/-! ### One call -/

/-- A call that commits nothing: it is enough to look at the state in which it is served. -/
theorem meets_ask {op : Op} (before : Database ι → Prop) {ok : Reply op → Database ι → Prop}
    {err : Fault → Database ι → Prop} (other : ∀ conn, op ≠ .commit conn)
    (stable : ∀ s s', before s → Moves pg i s s' → before s')
    (after : ∀ choice s reply s', Sound pg hashing news s → before s →
      Database.perform pg i choice s op = some (reply, s') → ok reply s')
    (here : before s) :
    Meets (Database.service pg) (contract pg hashing news) i (ask op) ok err s := by
  apply Meets.ask
  intro s₁ moved sound choice reply s₂ served
  have ended (j : ι) : Moves pg j s₁ (choice.ended.foldl Database.endSession s₁) :=
    moves_ended j s₁ choice.ended
  have sound' := sound.ended choice.ended
  have aside := perform_aside other served
  refine ⟨sound'.aside aside, fun j differ => (ended j).trans (aside.moves j differ), ?_⟩
  exact after choice _ reply s₂ sound' (stable _ _ here (moved.trans (ended i))) served

/-- The calls that give something back do not change what was committed. -/
theorem meets_back {op : Op} {P : List (Commit ι) → Prop} {err : Fault → Database ι → Prop}
    (other : ∀ conn, op ≠ .commit conn) (here : P (s.own i)) :
    Meets (Database.service pg) (contract pg hashing news) i (ask op)
      (fun _ s => P (s.own i)) err s := by
  apply meets_ask (fun s => P (s.own i)) other
  · intro s s' holds moves
    rw [moves.own]
    exact holds
  · intro choice s reply s' _ holds done
    have commits := (perform_aside other done).commits
    rw [Database.own, commits]
    exact holds
  · exact here

theorem meets_acquire (here : s.own i = []) :
    Meets (Database.service pg) (contract pg hashing news) i (Task.reply (ask .acquire))
      (fun _ s => s.own i = []) (fun fault s => s.Outcome i (.error fault)) s := by
  apply Meets.reply
  exact (meets_back (P := (· = [])) (by simp) here).mono
    (fun _ _ unwritten => ⟨fun _ _ => unwritten, fun _ _ => Or.inl unwritten⟩) fun _ _ failed => failed

theorem meets_lock (here : s.own i = []) :
    Meets (Database.service pg) (contract pg hashing news) i
      (Task.reply (ask (.lock conn (lockName ⟨community⟩))))
      (fun _ s => At pg i conn community .locked s) (fun fault s => s.Outcome i (.error fault)) s := by
  apply Meets.reply
  apply meets_ask (fun s => s.own i = []) (by simp)
  · exact fun s s' unwritten moves => moves.own.trans unwritten
  · intro choice s reply s' _ unwritten done
    rcases onConn_cases done with ⟨fault, rfl, rfl⟩ | ⟨used, _, rfl, served⟩
    · exact ⟨nofun, fun _ _ => Or.inl unwritten⟩
    · obtain ⟨_, locked, same⟩ := Option.map_eq_some_iff.mp served
      cases same
      obtain ⟨⟨n, rfl⟩, -⟩ := lock_cases locked
      refine ⟨fun _ _ => ⟨unwritten, fun _ => ⟨n, ?_⟩, fun _ => trivial⟩, nofun⟩
      exact Function.update_self _ _ _
  · exact here

theorem meets_begin (here : At pg i conn community .locked s) :
    Meets (Database.service pg) (contract pg hashing news) i (Task.reply (ask (.begin conn)))
      (fun _ s => At pg i conn community .begun s) (fun fault s => s.Outcome i (.error fault)) s := by
  apply Meets.reply
  apply meets_ask (At pg i conn community .locked) (by simp)
  · exact fun s s' => At.moves
  · intro choice s reply s' _ at_ done
    rcases onConn_cases done with ⟨fault, rfl, rfl⟩ | ⟨used, _, rfl, served⟩
    · exact ⟨nofun, fun _ _ => Or.inl at_.unwritten⟩
    · cases served
      refine ⟨fun _ _ => ⟨at_.unwritten, fun _ => at_.locked used, fun _ => ?_⟩, nofun⟩
      exact Function.update_self _ _ _
  · exact here

theorem meets_selectHead (here : At pg i conn community .begun s) :
    Meets (Database.service pg) (contract pg hashing news) i
      (Task.reply (ask (.selectHead conn community)))
      (fun head s => At pg i conn community (.read head) s) (fun fault s => s.Outcome i (.error fault)) s := by
  apply Meets.reply
  apply meets_ask (At pg i conn community .begun) (by simp)
  · exact fun s s' => At.moves
  · intro choice s reply s' sound at_ done
    rcases onConn_cases done with ⟨fault, rfl, rfl⟩ | ⟨used, _, rfl, served⟩
    · exact ⟨nofun, fun _ _ => Or.inl at_.unwritten⟩
    · cases served
      have empty : s.transactions conn = some [] := at_.phase used
      have head : selectHead (s.visible pg conn) community = headOf (s.entriesOf community) := by
        rw [Database.visible, empty, Option.getD_some, List.map_nil, List.append_nil,
          sound.selectHead]
      refine ⟨fun _ same => ?_, nofun⟩
      cases same
      exact ⟨at_.unwritten, at_.locked, fun _ => ⟨empty, head.symm⟩⟩
  · exact here

theorem meets_now {phase : Phase} {err : Fault → Database ι → Prop}
    (here : At pg i conn community phase s) :
    Meets (Database.service pg) (contract pg hashing news) i (ask .now)
      (fun _ s => At pg i conn community phase s) err s := by
  apply meets_ask (At pg i conn community phase) (by simp)
  · exact fun s s' => At.moves
  · intro choice s reply s' _ at_ done
    cases done
    exact at_
  · exact here

theorem meets_insert {head : Option (Int × Bytes)} {entry : AuditEntry}
    (here : At pg i conn community (.read head) s) :
    Meets (Database.service pg) (contract pg hashing news) i
      (Task.reply (ask (.insert conn entry)))
      (fun _ s => At pg i conn community (.inserted head entry) s)
      (fun fault s => s.Outcome i (.error fault)) s := by
  apply Meets.reply
  apply meets_ask (At pg i conn community (.read head)) (by simp)
  · exact fun s s' => At.moves
  · intro choice s reply s' _ at_ done
    rcases onConn_cases done with ⟨fault, rfl, rfl⟩ | ⟨used, _, rfl, served⟩
    · exact ⟨nofun, fun _ _ => Or.inl at_.unwritten⟩
    · obtain ⟨_, inserted, same⟩ := Option.map_eq_some_iff.mp served
      cases same
      obtain ⟨pending, found, rfl⟩ := insert_cases inserted
      obtain ⟨empty, current⟩ := at_.phase used
      obtain rfl : pending = [] := Option.some.inj (found.symm.trans empty)
      refine ⟨fun _ _ => ⟨at_.unwritten, fun _ => at_.locked used, fun _ => ⟨?_, current⟩⟩, nofun⟩
      exact Function.update_self _ _ _
  · exact here

/-! ### The commit -/

/-- The state after the transaction with one entry was committed. -/
def Database.committed (pg : Postgres) (s : Database ι) (i : ι) (conn : Conn)
    (entry : AuditEntry) (reported : Bool) : Database ι :=
  { s with
    rows := s.rows ++ [pg.store entry]
    commits := s.commits ++ [⟨i, entry, reported⟩]
    transactions := Function.update s.transactions conn none }

omit [DecidableEq ι] in
private theorem committed_of_commit {entry : AuditEntry} {reported : Bool}
    (inserted : s.transactions conn = some [entry])
    (done : s.commit pg i conn reported = some s') :
    s' = s.committed pg i conn entry reported := by
  obtain ⟨pending, found, rest⟩ := Option.bind_eq_some_iff.mp done
  obtain rfl : pending = [entry] := Option.some.inj (found.symm.trans inserted)
  split at rest
  · cases rest
  · cases rest
    rfl

omit [DecidableEq ι] in
theorem Sound.committed {head : Option (Int × Bytes)} {now : DateTime} {reported : Bool}
    (sound : Sound pg hashing news s)
    (current : headOf (s.entriesOf (news i).communityId.uuid) = head) :
    Sound pg hashing news
      (s.committed pg i conn (nextEntry hashing head (news i) now) reported) where
  rows := by
    simp only [Database.committed, List.map_append, List.map_singleton, sound.rows]
  community commit member := by
    rcases List.mem_append.mp member with member | member
    · exact sound.community commit member
    · rw [List.mem_singleton.mp member]
      rfl
  chains community := by
    have chain := sound.chains community
    by_cases own : (news i).communityId.uuid = community
    · subst own
      have added : (s.committed pg i conn (nextEntry hashing head (news i) now) reported).commitsOf
          (news i).communityId.uuid = s.commitsOf (news i).communityId.uuid ++
            [⟨i, nextEntry hashing head (news i) now, reported⟩] := by
        rw [Database.commitsOf, Database.committed, List.filter_append,
          List.filter_cons_of_pos (by simp [nextEntry])]
        rfl
      rw [Database.entriesOf, added, List.map_append, List.map_append, List.map_singleton,
        List.map_singleton, chainOf_concat, ← chain, current, nextEntry_createdAt]
      rfl
    · have same : (s.committed pg i conn (nextEntry hashing head (news i) now) reported).commitsOf
          community = s.commitsOf community := by
        rw [Database.commitsOf, Database.committed, List.filter_append,
          List.filter_cons_of_neg (by simp [nextEntry, own])]
        exact List.append_nil _
      rw [Database.entriesOf, same]
      exact chain

omit [DecidableEq ι] in
/-- The others see a commit only if they do not have the lock of its community. -/
theorem moves_committed {entry : AuditEntry} {reported : Bool} {n : Nat} (other : j ≠ i)
    (used : s.users conn = some i)
    (locked : s.locks (pg.lockKey entry.communityId) = some (conn, n)) :
    Moves pg j s (s.committed pg i conn entry reported) := by
  have differ {conn' : Conn} (used' : s.users conn' = some j) : conn' ≠ conn := by
    rintro rfl
    exact other (Option.some.inj (used'.symm.trans used))
  constructor
  · refine ⟨[⟨i, entry, reported⟩], rfl, ?_, ?_⟩
    · intro commit member
      rw [List.mem_singleton.mp member]
      exact other.symm
    · intro conn' used' key n' held commit member same
      rw [List.mem_singleton.mp member] at same
      subst same
      rw [locked] at held
      cases held
      exact differ used' rfl
  · exact fun conn' used' => ⟨used', Function.update_of_ne (differ used') _ _, fun _ _ held => held⟩

theorem meets_commit {head : Option (Int × Bytes)} {now : DateTime}
    (here : At pg i conn (news i).communityId.uuid
      (.inserted head (nextEntry hashing head (news i) now)) s) :
    Meets (Database.service pg) (contract pg hashing news) i (Task.reply (ask (.commit conn)))
      (fun _ s => s.Outcome i (.ok (nextEntry hashing head (news i) now)))
      (fun fault s => s.Outcome i (.error fault)) s := by
  apply Meets.reply
  apply Meets.ask
  intro s₁ moved sound choice reply s₂ served
  have ended (j : ι) : Moves pg j s₁ (choice.ended.foldl Database.endSession s₁) :=
    moves_ended j s₁ choice.ended
  have sound' := sound.ended choice.ended
  have at_ := here.moves (moved.trans (ended i))
  rcases onCommit_cases served with ⟨fault, rfl, rfl⟩ | ⟨used, reported, done, told⟩
  · exact ⟨sound', fun j _ => ended j, nofun, fun _ _ => Or.inl at_.unwritten⟩
  · -- The connection is alive, so the lock is held and the head is what was read.
    obtain ⟨n, locked⟩ := at_.locked used
    obtain ⟨inserted, current⟩ := at_.phase used
    obtain rfl := committed_of_commit inserted done
    have before := at_.unwritten
    have written : ((choice.ended.foldl Database.endSession s₁).committed pg i conn
        (nextEntry hashing head (news i) now) reported).own i =
          [⟨i, nextEntry hashing head (news i) now, reported⟩] := by
      rw [Database.own] at before
      rw [Database.own, Database.committed, List.filter_append, before]
      simp
    refine ⟨sound'.committed current, fun j other => ?_, fun _ ok => ?_, fun _ failed => ?_⟩
    · exact (ended j).trans (moves_committed other used locked)
    · unfold Database.Outcome
      rw [written]
      rfl
    · rcases told with ⟨-, rfl⟩ | ⟨rfl, -, -⟩
      · cases failed
      · exact Or.inr ⟨_, written ▸ List.mem_singleton_self _, rfl⟩

/-! ### The program -/

theorem meets_appendIn (here : At pg i conn (news i).communityId.uuid .begun s) :
    Meets (Database.service pg) (contract pg hashing news) i (appendIn hashing conn (news i))
      (fun entry s => s.Outcome i (.ok entry)) (fun fault s => s.Outcome i (.error fault)) s := by
  apply Meets.bind
  apply (meets_selectHead here).mono _ fun _ _ failed => failed
  intro head s read
  apply Meets.bind
  apply (meets_now read).mono _ fun _ _ failed => failed
  intro now s read
  apply Meets.bind
  apply (meets_insert read).mono _ fun _ _ failed => failed
  intro _ s inserted
  apply Meets.bind
  apply (meets_commit inserted).mono _ fun _ _ failed => failed
  exact fun _ s outcome => outcome

private theorem outcome_of_result {result : Except Fault AuditEntry}
    (holds : (∀ entry, result = .ok entry → s.Outcome i (.ok entry)) ∧
      ∀ fault, result = .error fault → s.Outcome i (.error fault)) :
    s.Outcome i result := by
  cases result with
  | ok entry => exact holds.1 entry rfl
  | error fault => exact holds.2 fault rfl

private theorem meets_back_outcome {op : Op} {result : Except Fault AuditEntry}
    {err : Fault → Database ι → Prop} (other : ∀ conn, op ≠ .commit conn)
    (here : s.Outcome i result) :
    Meets (Database.service pg) (contract pg hashing news) i (ask op)
      (fun _ s => s.Outcome i result) err s := by
  cases result with
  | ok entry => exact meets_back (P := fun own => own.map Commit.entry = [entry]) other here
  | error fault =>
    exact meets_back (P := fun own => own = [] ∨ ∃ commit ∈ own, commit.reported = false) other here

private theorem meets_result {result : Except Fault AuditEntry} (outcome : s.Outcome i result) :
    Meets (Database.service pg) (contract pg hashing news) i
      (Task.ofExcept id result : AuditM AuditEntry)
      (fun entry s => s.Outcome i (.ok entry)) (fun fault s => s.Outcome i (.error fault)) s := by
  apply Meets.ofExcept
  · rintro entry rfl
    exact outcome
  · rintro fault rfl
    exact outcome

theorem meets_logInner (here : At pg i conn (news i).communityId.uuid .locked s) :
    Meets (Database.service pg) (contract pg hashing news) i (logInner hashing conn (news i))
      (fun entry s => s.Outcome i (.ok entry)) (fun fault s => s.Outcome i (.error fault)) s := by
  apply Meets.bind
  apply (meets_begin here).mono _ fun _ _ failed => failed
  intro _ s begun
  apply Meets.bind
  apply (Meets.attempt (meets_appendIn begun)).mono _ fun _ _ failed => failed
  intro result s holds
  cases result with
  | ok entry => exact holds.1 entry rfl
  | error fault =>
    -- The transaction is dropped, and the fault is passed on.
    apply Meets.bind
    apply (meets_back_outcome (by simp) (holds.2 fault rfl)).mono _ fun _ _ failed => failed
    exact fun _ s outcome => outcome

theorem meets_logOn (here : s.own i = []) :
    Meets (Database.service pg) (contract pg hashing news) i (logOn hashing conn (news i))
      (fun entry s => s.Outcome i (.ok entry)) (fun fault s => s.Outcome i (.error fault)) s := by
  apply Meets.bind
  apply (meets_lock here).mono _ fun _ _ failed => failed
  intro _ s locked
  apply Meets.bind
  apply (Meets.attempt (meets_logInner locked)).mono _ fun _ _ failed => failed
  intro result s holds
  apply Meets.bind
  apply (meets_back_outcome (by simp) (outcome_of_result holds)).mono _ fun _ _ failed => failed
  exact fun _ s outcome => meets_result outcome

theorem meets_log (here : s.own i = []) :
    Meets (Database.service pg) (contract pg hashing news) i (log hashing (news i))
      (fun entry s => s.Outcome i (.ok entry)) (fun fault s => s.Outcome i (.error fault)) s := by
  apply Meets.bind
  apply (meets_acquire here).mono _ fun _ _ failed => failed
  intro conn s unwritten
  apply Meets.bind
  apply (Meets.attempt (meets_logOn unwritten)).mono _ fun _ _ failed => failed
  intro result s holds
  apply Meets.bind
  apply (meets_back_outcome (by simp) (outcome_of_result holds)).mono _ fun _ _ failed => failed
  exact fun _ s outcome => meets_result outcome

theorem obeys_log (here : s.own i = []) :
    Obeys (Database.service pg) (contract pg hashing news) i (fun result s => s.Outcome i result)
      (log hashing (news i)).run s := by
  apply Obeys.mono (meets_log here)
  intro result s holds
  cases result with
  | ok entry => exact holds
  | error fault => exact holds

/-! ### All calls together -/

/-- One call of `log` for each index, none of them started. -/
def logs (hashing : Hashing) (news : ι → NewAuditEntry) (s : Database ι) :
    Threads Op Reply ι (Database ι) (Except Fault AuditEntry) where
  shared := s
  program i := (log hashing (news i)).run

/-- The rows of a community, oldest first. -/
def Database.rowsOf (s : Database ι) (community : Uuid) : List Row :=
  s.rows.filter (·.communityId = community)

/-- Every community has one chain, which is that of its own calls. -/
structure Chained (pg : Postgres) (hashing : Hashing) (news : ι → NewAuditEntry)
    (s : Database ι) : Prop where
  /-- The numbers are 1, 2, and so on. -/
  seqs : ∀ community, (s.rowsOf community).map Row.seq =
    (List.range (s.rowsOf community).length).map fun k : Nat => (k : Int) + 1
  /-- The first row has no previous hash, and every other one the hash of the row before. -/
  linked : ∀ community, Linked Row.prevHash Row.hash (s.rowsOf community)
  /-- Every row is the entry of a call. -/
  rows : s.rows = s.commits.map fun commit => pg.store commit.entry
  /-- The rows of a community depend on what its own calls appended, in their order, and on
  their clock readings, and on nothing else. -/
  own : ∀ community, s.rowsOf community = (chainOf hashing
    ((s.commitsOf community).map fun commit =>
      (news commit.call, commit.entry.createdAt))).map pg.store
  ownCalls : ∀ community, ∀ commit ∈ s.commitsOf community,
    (news commit.call).communityId.uuid = community

/-- The chains are moreover those of the successful calls and pass the verification. -/
structure Linear (pg : Postgres) (hashing : Hashing) (news : ι → NewAuditEntry)
    (threads : Threads Op Reply ι (Database ι) (Except Fault AuditEntry)) : Prop extends
    Chained pg hashing news threads.shared where
  /-- A call that has returned wrote the entry that it returned, once; a call that failed wrote
  nothing. -/
  returned : ∀ i result, threads.program i = .pure result →
    (threads.shared.commits.filter (·.call = i)).map Commit.entry = result.toOption.toList
  verified : ∀ (community : CommunityId) (a b : Int),
    ∀ row ∈ threads.shared.rowsOf community.uuid, a ≤ row.seq → row.seq ≤ b →
      verifyChain hashing threads.shared.rows community a b = .ok true

omit [DecidableEq ι] in
private theorem Sound.chained (sound : Sound pg hashing news s) : Chained pg hashing news s where
  seqs := sound.seqs
  linked := sound.linked
  rows := sound.rows
  own community := by rw [Database.rowsOf, sound.rows_filter, sound.chains]
  ownCalls community commit member := by
    obtain ⟨member, named⟩ := List.mem_filter.mp member
    rw [← sound.community commit member]
    simpa using named

/-- However many calls run at once, and in whatever order they take their steps and fail, the
table is sound, and a call that has returned has the outcome that it returned. -/
theorem logs_sound {schedule : List (ι × Choice)}
    {threads : Threads Op Reply ι (Database ι) (Except Fault AuditEntry)}
    (empty : s.rows = []) (uncommitted : s.commits = [])
    (ran : (Database.service pg).run (logs hashing news s) schedule = some threads) :
    Sound pg hashing news threads.shared ∧ ∀ i result, threads.program i = .pure result →
      threads.shared.Outcome i result := by
  have start : Sound pg hashing news s := by
    refine ⟨by rw [empty, uncommitted]; rfl, fun community => ?_, ?_⟩
    · rw [Database.entriesOf, Database.commitsOf, uncommitted]
      rfl
    · rw [uncommitted]
      exact fun _ member => (List.not_mem_nil member).elim
  have settled (i : ι) (result : Except Fault AuditEntry) (s₁ s₂ : Database ι)
      (moves : Moves pg i s₁ s₂) (outcome : s₁.Outcome i result) : s₂.Outcome i result :=
    moves.outcome outcome
  have unwritten (i : ι) : s.own i = [] := by
    rw [Database.own, uncommitted]
    rfl
  have obeys (i : ι) : Obeys (Database.service pg) (contract pg hashing news) i
      (fun result s => s.Outcome i result) (log hashing (news i)).run s := obeys_log (unwritten i)
  obtain ⟨sound, obey⟩ := run_obeys settled start obeys ran
  refine ⟨sound, fun i result returned => ?_⟩
  have post := obey i
  rw [returned] at post
  exact post

/-- In every run the rows of a community are one chain. -/
theorem logs_chained {schedule : List (ι × Choice)}
    {threads : Threads Op Reply ι (Database ι) (Except Fault AuditEntry)}
    (empty : s.rows = []) (uncommitted : s.commits = [])
    (ran : (Database.service pg).run (logs hashing news s) schedule = some threads) :
    Chained pg hashing news threads.shared := (logs_sound empty uncommitted ran).1.chained

/-- No commit is late, so every one is reported. -/
private theorem perform_reported {choice : Choice} {op : Op} {reply : Reply op}
    (prompt : choice.late = false)
    (done : Database.perform pg i choice s op = some (reply, s'))
    (told : ∀ commit ∈ s.commits, commit.reported = true) :
    ∀ commit ∈ s'.commits, commit.reported = true := by
  by_cases other : ∀ conn, op ≠ .commit conn
  · rw [(perform_aside other done).commits]
    exact told
  · obtain ⟨conn, same⟩ := not_forall.mp other
    obtain rfl := not_not.mp same
    rcases onCommit_cases done with ⟨fault, -, rfl⟩ | ⟨-, reported, committed, ⟨rfl, -⟩ | late⟩
    · exact told
    · obtain ⟨pending, -, rest⟩ := Option.bind_eq_some_iff.mp committed
      split at rest
      next => cases rest
      next =>
        cases rest
        intro commit member
        rcases List.mem_append.mp member with old | new
        · exact told commit old
        · obtain ⟨entry, -, rfl⟩ := List.mem_map.mp new
          rfl
    · rw [prompt] at late
      cases late.2.1

private theorem run_reported {schedule : List (ι × Choice)}
    {start threads : Threads Op Reply ι (Database ι) (Except Fault AuditEntry)}
    (prompt : ∀ turn ∈ schedule, turn.2.late = false)
    (ran : (Database.service pg).run start schedule = some threads)
    (told : ∀ commit ∈ start.shared.commits, commit.reported = true) :
    ∀ commit ∈ threads.shared.commits, commit.reported = true := by
  induction schedule generalizing start with
  | nil =>
    cases ran
    exact told
  | cons turn schedule ih =>
    obtain ⟨next, first, rest⟩ := Option.bind_eq_some_iff.mp ran
    rw [List.forall_mem_cons] at prompt
    refine ih prompt.2 rest ?_
    unfold Service.step at first
    split at first
    next => cases first
    next =>
      obtain ⟨⟨reply, shared⟩, served, rfl⟩ := Option.map_eq_some_iff.mp first
      refine perform_reported prompt.1 served ?_
      rw [commits_ended]
      exact told

/-- If every number that the calls log is kept and no commit is late, the chains of every run are
those of the successful calls and pass the verification. -/
theorem logs_linear {schedule : List (ι × Choice)}
    {threads : Threads Op Reply ι (Database ι) (Except Fault AuditEntry)}
    (empty : s.rows = []) (uncommitted : s.commits = [])
    (numbers : ∀ i, pg.KeepsNumbers (news i).detail)
    (prompt : ∀ turn ∈ schedule, turn.2.late = false)
    (ran : (Database.service pg).run (logs hashing news s) schedule = some threads) :
    Linear pg hashing news threads := by
  obtain ⟨sound, outcomes⟩ := logs_sound empty uncommitted ran
  have told : ∀ commit ∈ threads.shared.commits, commit.reported = true := by
    refine run_reported prompt ran ?_
    rw [logs, uncommitted]
    exact fun _ member => (List.not_mem_nil member).elim
  refine { sound.chained with returned := fun i result returned => ?_, verified := ?_ }
  · have outcome := outcomes i result returned
    cases result with
    | ok entry => exact outcome
    | error fault =>
      rcases outcome with unwritten | ⟨commit, member, untold⟩
      · exact congrArg _ unwritten
      · rw [told commit (List.mem_filter.mp member).1] at untold
        cases untold
  · intro community a b row member after before
    exact (sound.honest numbers community.uuid).verifyChain rfl member after before

/-! ### Two communities with one lock key -/

namespace Sample

/-- What `serde_json` writes for the float 10^16, and for the integer. -/
def float : NumberLiteral := ⟨"1e16".toList, rfl, rfl⟩

def integer : NumberLiteral := ⟨"10000000000000000".toList, rfl, rfl⟩

/-- `JSONB` writes out the digits of 10^16. -/
def asDecimal (literal : NumberLiteral) : NumberLiteral :=
  if literal = float then integer else literal

/-- A database that has one key for all locks. -/
def postgres : Postgres where
  hashtextextended _ := 0
  jsonb value := value.mapNumbers asDecimal
  numeric := asDecimal
  timestamptz t := t
  jsonb_equal _ := Json.Equal.refl _
  numeric_same literal := by
    unfold asDecimal
    split
    next same =>
      rw [same]
      decide
    next => exact NumberLiteral.SameNumber.refl literal
  timestamptz_eq _ _ := rfl

/-- One call for each of two communities. -/
def calls : Bool → NewAuditEntry
  | true => entry Sample.community .eventCreated
  | false => entry ⟨⟨2⟩⟩ .eventCreated

/-- Both calls have a connection, the first one takes the lock and appends, and the second one
loses its connection after it has taken the lock in its turn. -/
def schedule : List (Bool × Choice) :=
  let served : Choice := {}
  let failed : Choice := { fault := some .panic }
  [(true, { conn := 0 }), (false, { conn := 1 })] ++ List.replicate 8 (true, served) ++
    [(false, served), (false, served), (false, { failed with ended := [1] }), (false, served),
      (false, failed), (false, served)]

end Sample

theorem logs_linear_sample : ∃ threads,
    (Database.service Sample.postgres).run (logs Sample.twoHashes Sample.calls {}) Sample.schedule =
      some threads ∧
    Linear Sample.postgres Sample.twoHashes Sample.calls threads := by
  have runs : ((Database.service Sample.postgres).run (logs Sample.twoHashes Sample.calls {})
      Sample.schedule).isSome = true := by decide
  have prompt : ∀ turn ∈ Sample.schedule, turn.2.late = false := by decide
  have numbers (i : Bool) : Sample.postgres.KeepsNumbers (Sample.calls i).detail := by
    cases i <;> exact fun _ member => (List.not_mem_nil member).elim
  obtain ⟨threads, ran⟩ := Option.isSome_iff_exists.mp runs
  exact ⟨threads, ran, logs_linear rfl rfl numbers prompt ran⟩

/-! ### A float in the context -/

namespace Sample

/-- SHA-256 on the entry with the float and on that with the integer, which are told apart by
their lengths. -/
def digests : Hashing where
  toRfc3339 := twoHashes.toRfc3339
  sha256 bytes := if bytes.length = 110 then
      ⟨#[0xeb, 0xf8, 0xad, 0x20, 0x5b, 0x38, 0x20, 0x74, 0xd8, 0x03, 0x2a, 0x14, 0xc7, 0x50, 0x87,
        0x8b, 0x17, 0x2f, 0x7f, 0xbe, 0xeb, 0x97, 0x06, 0xbe, 0x1c, 0xcd, 0xc5, 0x32, 0xee, 0xff,
        0x46, 0xa5], rfl⟩
    else
      ⟨#[0xc1, 0x0d, 0x79, 0x66, 0x09, 0xb7, 0x7d, 0xd5, 0x67, 0x74, 0x0f, 0x47, 0xb1, 0xd8, 0xef,
        0x23, 0xe8, 0x30, 0x9d, 0x89, 0x44, 0x1f, 0x40, 0x15, 0x3b, 0x52, 0x7d, 0x52, 0xd8, 0x05,
        0x1b, 0xfa], rfl⟩

/-- One call, with `{"bytes":1e16}`. -/
def floatCall (_ : Unit) : NewAuditEntry :=
  { entry Sample.community .eventCreated with detail := .obj [("bytes", .num float)] }

end Sample

/-- The only row of an honest chain does not pass the verification. -/
theorem float_mismatch : ∃ threads,
    (Database.service Sample.postgres).run (logs Sample.digests Sample.floatCall {})
      (List.replicate 9 ((), {})) = some threads ∧
    threads.shared.rows.map Row.seq = [1] ∧
    verifyChain Sample.digests threads.shared.rows Sample.community 1 1 =
      .error (.error (.hashMismatch 1)) ∧
    ¬ Linear Sample.postgres Sample.digests Sample.floatCall threads := by
  have outcome : ((Database.service Sample.postgres).run (logs Sample.digests Sample.floatCall {})
      (List.replicate 9 ((), {}))).map (fun threads =>
        (threads.shared.rows.map fun row => (row.communityId, row.seq),
          verifyChain Sample.digests threads.shared.rows Sample.community 1 1)) =
      some ([(Sample.community.uuid, 1)], .error (.error (.hashMismatch 1))) := by decide +kernel
  obtain ⟨threads, ran, shown⟩ := Option.map_eq_some_iff.mp outcome
  obtain ⟨rows, refused⟩ := Prod.mk.inj shown
  have seqs : threads.shared.rows.map Row.seq = [1] := by
    have second := congrArg (List.map Prod.snd) rows
    rwa [List.map_map] at second
  refine ⟨threads, ran, seqs, refused, fun linear => ?_⟩
  obtain ⟨row, member, place⟩ := List.mem_map.mp (rows ▸ List.mem_singleton_self _ :
    (Sample.community.uuid, (1 : Int)) ∈
      threads.shared.rows.map fun row => (row.communityId, row.seq))
  obtain ⟨own, first⟩ := Prod.mk.inj place
  have accepted := linear.verified Sample.community 1 1 row
    (List.mem_filter.mpr ⟨member, decide_eq_true own⟩) (by rw [first]) (by rw [first])
  rw [refused] at accepted
  cases accepted

end Audit
