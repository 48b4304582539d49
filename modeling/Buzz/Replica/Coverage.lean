import Buzz.Replica.Writer

/-!
# What a proved entry covers

The three buckets of the fence's proof, along a run of one timeline with any number of pods. A
transaction that is over when a probe scans is in the log below the token; one that is open then
has not started before the oldest start that the scan returns; one that starts later starts after
the clock reading. The guard of the last two runs after their start, so none of their rows is as
old as the wall.
-/
namespace Replica

open Lib Nostr

/-- What the wall is a floor and a margin below. -/
def scanInstant (sampledAt : Int) (oldestXactStart : Option Int) : Int :=
  oldestXactStart.elim sampledAt (min · sampledAt)

theorem fenceWall_lt_scanInstant (sampledAt : Int) (oldest : Option Int) :
    fenceWall sampledAt oldest < scanInstant sampledAt oldest - secs createdAtFloorSecs := by
  cases oldest with
  | none => exact fenceWall_lt_sample sampledAt none
  | some oldest =>
    have margin : 0 < secs fenceClockMarginSecs := by decide
    simp only [fenceWall, scanInstant, Option.elim]
    omega

namespace Writer

variable {w w' : Writer} {head c : Commit} {instant : Int} {base : List Commit}

/-- The guard of a checked row has run since the transaction started. -/
structure Guarded (w : Writer) : Prop where
  started : ∀ t ∈ w.transactions, t.start ≤ w.now
  checked : ∀ t ∈ w.transactions, ∀ row ∈ t.checked, row.channelId.isSome = true →
    t.start - secs createdAtFloorSecs ≤ row.createdAt

/-- What is not in the base has started, and so been checked, at the instant or later. -/
structure Since (w : Writer) (instant : Int) (base : List Commit) : Prop where
  now : instant ≤ w.now
  started : ∀ t ∈ w.transactions, instant ≤ t.start
  log : ∃ newer, w.log = newer ++ base ∧ ∀ c ∈ newer, ∀ row ∈ c.rows,
    row.channelId.isSome = true → instant - secs createdAtFloorSecs ≤ row.createdAt

/-- The transactions of a served writer are old ones that have grown, or have just started. -/
theorem transaction_of_serve {request : Request} (served : w.serve request = some w')
    {t' : Transaction} (member : t' ∈ w'.transactions) :
    (t'.start = w.now ∧ t'.checked = []) ∨ ∃ t ∈ w.transactions, t.start = t'.start ∧
      ∀ row ∈ t'.checked, row ∈ t.checked ∨ row.floorGuard w.now = true := by
  -- A statement in a transaction changes that one only.
  have modified {id : Nat} {change : Transaction → Transaction} (here : t' ∈ (w.modify id change).transactions)
      (start : ∀ t, (change t).start = t.start)
      (checked : ∀ t, ∀ row ∈ (change t).checked, row ∈ t.checked ∨ row.floorGuard w.now = true) :
      ∃ t ∈ w.transactions, t.start = t'.start ∧
        ∀ row ∈ t'.checked, row ∈ t.checked ∨ row.floorGuard w.now = true := by
    obtain ⟨t, old, rfl⟩ := List.mem_map.mp here
    refine ⟨t, old, ?_⟩
    split
    · exact ⟨(start t).symm, checked t⟩
    · exact ⟨rfl, fun row => Or.inl⟩
  have kept (old : t' ∈ w.transactions) : ∃ t ∈ w.transactions, t.start = t'.start ∧
      ∀ row ∈ t'.checked, row ∈ t.checked ∨ row.floorGuard w.now = true :=
    ⟨t', old, rfl, fun row => Or.inl⟩
  cases request with
  | tick now =>
    simp only [serve, Option.ite_none_right_eq_some] at served
    obtain ⟨_, served⟩ := served
    cases served
    exact Or.inr (kept member)
  | start id =>
    simp only [serve, Option.ite_none_left_eq_some] at served
    obtain ⟨_, served⟩ := served
    cases served
    rcases List.mem_cons.mp member with rfl | old
    · exact Or.inl ⟨rfl, rfl⟩
    · exact Or.inr (kept old)
  | insert id row =>
    cases served
    exact Or.inr (modified member (fun _ => rfl) fun _ _ => Or.inl)
  | softDelete id key =>
    cases served
    exact Or.inr (modified member (fun _ => rfl) fun _ _ => Or.inl)
  | check id row =>
    simp only [serve] at served
    split at served
    next passes =>
      cases served
      refine Or.inr (modified member (fun t => ?_) fun t row' here => ?_)
      · split
        · rfl
        · rfl
      · split at here
        · rcases List.mem_cons.mp here with rfl | old
          · exact Or.inr passes
          · exact Or.inl old
        · exact Or.inl here
    next =>
      cases served
      exact Or.inr (kept (List.mem_of_mem_filter member))
  | commit id =>
    simp only [serve, Option.bind_eq_bind, Option.bind_eq_some_iff, Option.ite_none_right_eq_some]
      at served
    obtain ⟨t, _, head, _, _, served⟩ := served
    cases served
    exact Or.inr (kept (List.mem_of_mem_filter member))
  | rollback id =>
    cases served
    exact Or.inr (kept (List.mem_of_mem_filter member))

theorem now_le_of_serve {request : Request} (served : w.serve request = some w') :
    w.now ≤ w'.now := by
  rcases serve_eq_some served with idles | ⟨_, _, grows, _⟩
  · exact idles.now
  · exact Int.le_of_eq grows.now.symm

theorem Guarded.serve (guarded : Guarded w) {request : Request}
    (served : w.serve request = some w') : Guarded w' where
  started t' member := by
    rcases transaction_of_serve served member with ⟨start, _⟩ | ⟨t, old, start, _⟩
    · rw [start]
      exact now_le_of_serve served
    · rw [← start]
      exact Int.le_trans (guarded.started t old) (now_le_of_serve served)
  checked t' member row here channel := by
    rcases transaction_of_serve served member with ⟨_, none⟩ | ⟨t, old, start, rows⟩
    · rw [none] at here
      cases here
    · rw [← start]
      rcases rows row here with before | passes
      · exact guarded.checked t old row before channel
      · have started := guarded.started t old
        simp only [Row.floorGuard, Bool.or_eq_true, Option.isNone_iff_eq_none,
          decide_eq_true_eq] at passes
        -- The guard let the row pass by the clock of its check, which is not before the start.
        rcases passes with none | late
        · rw [none] at channel
          cases channel
        · omega

theorem Since.serve (since : Since w instant base) (guarded : Guarded w) {request : Request}
    (served : w.serve request = some w') : Since w' instant base where
  now := Int.le_trans since.now (now_le_of_serve served)
  started t' member := by
    rcases transaction_of_serve served member with ⟨start, _⟩ | ⟨t, old, start, _⟩
    · rw [start]
      exact since.now
    · rw [← start]
      exact since.started t old
  log := by
    obtain ⟨newer, split, rows⟩ := since.log
    rcases serve_eq_some served with idles | ⟨head, c, grows, _, _, _, ⟨t, old, checked⟩, _⟩
    · exact ⟨newer, idles.log.trans split, rows⟩
    · -- What commits now has started at the instant or later.
      refine ⟨c :: newer, ?_, fun d member row here channel => ?_⟩
      · rw [grows.log, split]
        rfl
      · rcases List.mem_cons.mp member with rfl | earlier
        · rw [checked] at here
          have start := since.started t old
          have := guarded.checked t old row here channel
          omega
        · exact rows d earlier row here channel

theorem Since.beat (since : Since w instant base) (grows : Grows w w' head c) (empty : c.rows = [])
    (same : w'.transactions = w.transactions) : Since w' instant base where
  now := by
    rw [grows.now]
    exact since.now
  started := by
    rw [same]
    exact since.started
  log := by
    obtain ⟨newer, split, rows⟩ := since.log
    refine ⟨c :: newer, ?_, fun d member row here channel => ?_⟩
    · rw [grows.log, split]
      rfl
    · rcases List.mem_cons.mp member with rfl | earlier
      · rw [empty] at here
        cases here
      · exact rows d earlier row here channel

theorem Guarded.beat (guarded : Guarded w) (grows : Grows w w' head c)
    (same : w'.transactions = w.transactions) : Guarded w' where
  started := by
    rw [same, grows.now]
    exact guarded.started
  checked := by
    rw [same]
    exact guarded.checked

/-- The scan sees every transaction that is open. -/
theorem since_scan {sampledAt : Int} (sampled : sampledAt ≤ w.now) :
    Since w (scanInstant sampledAt w.oldestXactStart) w.log where
  now := by
    unfold scanInstant
    cases w.oldestXactStart with
    | none => exact sampled
    | some oldest => exact Int.le_trans (Int.min_le_right _ _) sampled
  started t member := by
    have start : t.start ∈ w.transactions.map (·.start) := List.mem_map_of_mem member
    -- The scan returns the oldest start of what is open, if anything is.
    cases oldest : w.oldestXactStart with
    | none =>
      rw [oldestXactStart, List.min?_eq_none_iff] at oldest
      rw [oldest] at start
      cases start
    | some first =>
      have least : first ≤ t.start := (List.min?_eq_some_iff.mp oldest).2 t.start start
      exact Int.le_trans (Int.min_le_left _ _) least
  log := ⟨[], rfl, fun _ member => by cases member⟩

/-- The token has been committed after a scan whose wall it proves. -/
def Covers (w : Writer) (wall : Int) (own : Commit) : Prop :=
  ∃ instant base older, wall < instant - secs createdAtFloorSecs ∧ Since w instant base ∧
    own :: older <:+ w.log ∧ base <:+ older

theorem Covers.serve {wall : Int} {own : Commit} (covers : Covers w wall own) (guarded : Guarded w)
    {request : Request} (served : w.serve request = some w') : Covers w' wall own := by
  obtain ⟨instant, base, older, below, since, suffix, part⟩ := covers
  refine ⟨instant, base, older, below, since.serve guarded served, ?_, part⟩
  rcases serve_eq_some served with idles | ⟨head, c, grows, -⟩
  · rw [idles.log]
    exact suffix
  · rw [grows.log]
    exact suffix.trans (List.suffix_cons _ _)

theorem Covers.beat {wall : Int} {own : Commit} (covers : Covers w wall own)
    (grows : Grows w w' head c) (empty : c.rows = []) (same : w'.transactions = w.transactions) :
    Covers w' wall own := by
  obtain ⟨instant, base, older, below, since, suffix, part⟩ := covers
  refine ⟨instant, base, older, below, since.beat grows empty same, ?_, part⟩
  rw [grows.log]
  exact suffix.trans (List.suffix_cons _ _)

/-- The token of a probe covers what its scan does. -/
theorem Since.covers (since : Since w instant base) {wall : Int}
    (below : wall < instant - secs createdAtFloorSecs) (grows : Grows w w' head c)
    (empty : c.rows = []) (same : w'.transactions = w.transactions) : Covers w' wall c := by
  refine ⟨instant, base, w.log, below, since.beat grows empty same, ?_, ?_⟩
  · exact grows.log ▸ List.suffix_refl _
  · obtain ⟨newer, split, -⟩ := since.log
    rw [split]
    exact List.suffix_append _ _

/-- A snapshot with the token contains the base: the token occurs once. -/
theorem Covers.base_suffix {wall : Int} {own : Commit} (covers : Covers w wall own)
    (counted : Counted (·.token) (·.beats = true) w.log) (beats : own.beats = true)
    {snapshot : List Commit} (earlier : snapshot <:+ w.log) (here : own ∈ snapshot) :
    ∃ instant base, wall < instant - secs createdAtFloorSecs ∧ Since w instant base ∧
      base <:+ snapshot := by
  obtain ⟨instant, base, older, below, since, suffix, part⟩ := covers
  refine ⟨instant, base, below, since, ?_⟩
  -- The snapshot reaches beyond the token, or it is cut within what is older.
  rcases List.suffix_or_suffix_of_suffix suffix earlier with within | cut
  · exact (part.trans (List.suffix_cons _ _)).trans within
  · rcases List.suffix_cons_iff.mp cut with whole | short
    · rw [whole]
      exact part.trans (List.suffix_cons _ _)
    · -- The token would be larger than itself.
      have order := (List.pairwise_cons.mp (counted.suffix suffix)).1 own (short.subset here)
      exact absurd (order.2 beats) (Int.lt_irrefl _)

/-- What lasts while others move on. -/
structure Lasts (w w' : Writer) : Prop where
  now : w.now ≤ w'.now
  log : w.log <:+ w'.log
  since : ∀ instant base, w.Since instant base → w'.Since instant base
  covers : ∀ wall own, w.Covers wall own → w'.Covers wall own

namespace Lasts

variable {w'' : Writer}

theorem refl (w : Writer) : Lasts w w :=
  ⟨Int.le_refl _, List.suffix_refl _, fun _ _ since => since, fun _ _ covers => covers⟩

theorem trans (first : Lasts w w') (second : Lasts w' w'') : Lasts w w'' where
  now := Int.le_trans first.now second.now
  log := first.log.trans second.log
  since instant base since := second.since instant base (first.since instant base since)
  covers wall own covers := second.covers wall own (first.covers wall own covers)

theorem of_serve (guarded : Guarded w) {request : Request} (served : w.serve request = some w') :
    Lasts w w' where
  now := now_le_of_serve served
  log := by
    rcases serve_eq_some served with idles | ⟨head, c, grows, -⟩
    · exact idles.log ▸ List.suffix_refl _
    · rw [grows.log]
      exact List.suffix_cons _ _
  since _ _ since := since.serve guarded served
  covers _ _ covers := covers.serve guarded served

theorem of_updateHeartbeat {epoch : Option Uuid} {beat : Commit}
    (updated : w.updateHeartbeat epoch = some (w', beat)) : Lasts w w' := by
  obtain ⟨head, grows, _, _, _, empty, same⟩ := updateHeartbeat_eq_some updated
  refine ⟨Int.le_of_eq grows.now.symm, ?_, fun _ _ since => since.beat grows empty same,
    fun _ _ covers => covers.beat grows empty same⟩
  rw [grows.log]
  exact List.suffix_cons _ _

end Lasts

end Writer

/-! ### Pods -/

namespace Pod

variable {w w' : Writer} {p p' : Pod}

/-- What a probe that has come this far has seen. -/
def Seen (w : Writer) : Phase → Prop
  | .idle => True
  | .sampled sampledAt => sampledAt ≤ w.now
  | .scanned sampledAt oldest => ∃ base, w.Since (scanInstant sampledAt oldest) base
  | .beaten wall _ beat => beat.beats = true ∧ w.Covers wall beat ∧
      ∃ instant base, wall < instant - secs createdAtFloorSecs ∧ w.Since instant base
  | .regressed wall => ∃ instant base, wall < instant - secs createdAtFloorSecs ∧ w.Since instant base
  | .rotated wall _ beat => beat.beats = true ∧ w.Covers wall beat

/-- Every entry is covered by the commit of its token. -/
structure Covering (w : Writer) (p : Pod) : Prop where
  cited : ∀ pair ∈ p.cited, pair.1.token = pair.2.token ∧ pair.2.beats = true ∧
    w.Covers pair.1.fenceWall pair.2
  length : p.fence.ring.length ≤ p.recorded.length
  seen : Seen w p.phase

theorem Seen.last {phase : Phase} (seen : Seen w phase) (lasts : Writer.Lasts w w') : Seen w' phase := by
  cases phase with
  | idle => trivial
  | sampled sampledAt => exact Int.le_trans seen lasts.now
  | scanned sampledAt oldest =>
    obtain ⟨base, since⟩ := seen
    exact ⟨base, lasts.since _ _ since⟩
  | beaten wall committedAt beat =>
    obtain ⟨beats, covers, instant, base, below, since⟩ := seen
    exact ⟨beats, lasts.covers _ _ covers, instant, base, below, lasts.since _ _ since⟩
  | regressed wall =>
    obtain ⟨instant, base, below, since⟩ := seen
    exact ⟨instant, base, below, lasts.since _ _ since⟩
  | rotated wall committedAt beat => exact ⟨seen.1, lasts.covers _ _ seen.2⟩

theorem Covering.last (covering : Covering w p) (lasts : Writer.Lasts w w') : Covering w' p where
  cited pair member := by
    obtain ⟨token, beats, covers⟩ := covering.cited pair member
    exact ⟨token, beats, lasts.covers _ _ covers⟩
  length := covering.length
  seen := covering.seen.last lasts

theorem Covering.record (covering : Covering w p) {fence : ReplicaFence} {wall committedAt : Int}
    {beat : Commit} (beats : beat.beats = true) (covers : w.Covers wall beat)
    (record : p.fence.record beat.token beat.epoch committedAt wall = (fence, .recorded)) :
    Covering w ⟨fence, .idle, beat :: p.recorded⟩ where
  cited pair member := by
    rcases mem_cited_record record member with rfl | ⟨old, _⟩
    · exact ⟨rfl, beats, covers⟩
    · exact covering.cited pair old
  length := length_record record covering.length
  seen := trivial

theorem covering_of_empty {p' : Pod} (empty : p'.fence.ring = [])
    (seen : Seen w p'.phase) : Covering w p' where
  cited pair member := by
    rw [cited_eq_nil empty] at member
    cases member
  length := by
    rw [empty]
    exact Nat.zero_le _
  seen := seen

theorem probe_writer {statement : Statement} (probed : p.probe w statement = some (p', w')) :
    w' = w ∨ ∃ epoch beat, w.updateHeartbeat epoch = some (w', beat) := by
  -- Two statements write, and both of them the heartbeat.
  cases statement with
  | beat =>
    simp only [Pod.probe] at probed
    split at probed
    next =>
      simp only [Option.bind_eq_bind, Option.bind_eq_some_iff, Prod.exists] at probed
      obtain ⟨w₁, beat, updated, probed⟩ := probed
      cases probed
      exact Or.inr ⟨none, beat, updated⟩
    next => cases probed
  | rotate committedAt epoch =>
    simp only [Pod.probe] at probed
    split at probed
    next =>
      simp only [Option.ite_none_left_eq_some, Option.bind_eq_bind, Option.bind_eq_some_iff,
        Prod.exists] at probed
      obtain ⟨_, w₁, beat, updated, probed⟩ := probed
      cases probed
      exact Or.inr ⟨some epoch, beat, updated⟩
    next => cases probed
  | fail =>
    cases probed
    exact Or.inl rfl
  | _ =>
    left
    simp only [Pod.probe] at probed
    split at probed
    · first
        | (cases probed; rfl)
        | (split at probed <;> (cases probed; rfl))
    · cases probed

theorem Covering.probe (covering : Covering w p) {statement : Statement}
    (probed : p.probe w statement = some (p', w')) : Covering w' p' := by
  have seen := covering.seen
  -- Each statement hands on what the one before it has seen.
  cases statement with
  | sample =>
    simp only [Pod.probe] at probed
    split at probed
    next =>
      cases probed
      exact { covering with seen := Int.le_refl _ }
    next => cases probed
  | scan =>
    simp only [Pod.probe] at probed
    split at probed
    next phase =>
      cases probed
      rw [phase] at seen
      exact { covering with seen := ⟨w.log, Writer.since_scan seen⟩ }
    next => cases probed
  | beat committedAt =>
    simp only [Pod.probe] at probed
    split at probed
    next sampledAt oldest phase =>
      simp only [Option.bind_eq_bind, Option.bind_eq_some_iff, Prod.exists] at probed
      obtain ⟨w₁, beat, updated, probed⟩ := probed
      cases probed
      have lasts := Writer.Lasts.of_updateHeartbeat updated
      obtain ⟨head, grows, _, _, beats, empty, same⟩ := Writer.updateHeartbeat_eq_some updated
      rw [phase] at seen
      obtain ⟨base, since⟩ := seen
      -- The wall is a margin below what the scan has seen.
      have below := fenceWall_lt_scanInstant sampledAt oldest
      exact { covering.last lasts with
        seen := ⟨beats, since.covers below grows empty same, _, base, below, lasts.since _ _ since⟩ }
    next => cases probed
  | receive =>
    simp only [Pod.probe] at probed
    split at probed
    next wall committedAt beat phase =>
      rw [phase] at seen
      obtain ⟨beats, covers, since⟩ := seen
      split at probed
      next fence record =>
        cases probed
        exact covering.record beats covers record
      next fence record =>
        cases probed
        exact covering_of_empty (ReplicaFence.ring_of_tokenRegression record) since
    next => cases probed
  | rotate committedAt epoch =>
    simp only [Pod.probe] at probed
    split at probed
    next phase =>
      simp only [Option.ite_none_left_eq_some, Option.bind_eq_bind, Option.bind_eq_some_iff,
        Prod.exists] at probed
      obtain ⟨_, w₁, beat, updated, probed⟩ := probed
      cases probed
      have lasts := Writer.Lasts.of_updateHeartbeat updated
      obtain ⟨head, grows, _, _, beats, empty, same⟩ := Writer.updateHeartbeat_eq_some updated
      rw [phase] at seen
      obtain ⟨instant, base, below, since⟩ := seen
      exact { covering.last lasts with seen := ⟨beats, since.covers below grows empty same⟩ }
    next => cases probed
  | receiveRotated =>
    simp only [Pod.probe] at probed
    split at probed
    next wall committedAt beat phase =>
      rw [phase] at seen
      cases probed
      cases record : p.fence.record beat.token beat.epoch committedAt wall with
      | mk fence outcome =>
        cases outcome with
        | recorded => exact covering.record seen.1 seen.2 record
        | tokenRegression =>
          exact covering_of_empty (ReplicaFence.ring_of_tokenRegression record) trivial
    next => cases probed
  | fail =>
    cases probed
    exact covering_of_empty rfl trivial

end Pod

/-! ### Runs -/

namespace System

variable {ι : Type} [DecidableEq ι] {s s' : System ι}

/-- On one timeline nothing is restored. -/
def oneTimeline (_ : System ι) : Action ι → Bool
  | .restore _ => false
  | _ => true

structure Covered (s : System ι) : Prop where
  sane : s.writer.Sane
  keyed : Keyed s.writer.log
  guarded : s.writer.Guarded
  pods : ∀ pod, (s.pods pod).Covering s.writer

omit [DecidableEq ι] in
theorem covered_initial (now : Int) (epoch : Uuid) {rows : List Row}
    (keyed : (rows.map Row.key).Nodup) : Covered (ι := ι) (.initial now epoch rows) where
  sane := Writer.sane_initial now epoch rows
  keyed := keyed
  guarded := ⟨fun _ member => (by cases member), fun _ member => by cases member⟩
  pods _ := ⟨fun _ member => (by cases member), Nat.le_refl _, trivial⟩

theorem lasts_of_step {action : Action ι}
    (stepped : Trace.restrict oneTimeline step s action = some s') (guarded : s.writer.Guarded) :
    Writer.Lasts s.writer s'.writer := by
  obtain ⟨timeline, stepped⟩ := Trace.restrict_eq_some.mp stepped
  cases action with
  | serve request =>
    simp only [step, Option.bind_eq_bind, Option.bind_eq_some_iff] at stepped
    obtain ⟨w, served, stepped⟩ := stepped
    cases stepped
    exact .of_serve guarded served
  | probe pod statement =>
    simp only [step, Option.bind_eq_bind, Option.bind_eq_some_iff, Prod.exists] at stepped
    obtain ⟨p, w, probed, stepped⟩ := stepped
    cases stepped
    rcases Pod.probe_writer probed with same | ⟨epoch, beat, updated⟩
    · rw [same]
      exact .refl _
    · exact Writer.Lasts.of_updateHeartbeat updated
  | restore => cases timeline

theorem Covered.step {action : Action ι}
    (stepped : Trace.restrict oneTimeline System.step s action = some s') (covered : Covered s) :
    Covered s' := by
  -- The other pods keep what they know.
  have lasts := lasts_of_step stepped covered.guarded
  obtain ⟨timeline, stepped⟩ := Trace.restrict_eq_some.mp stepped
  cases action with
  | serve request =>
    simp only [System.step, Option.bind_eq_bind, Option.bind_eq_some_iff] at stepped
    obtain ⟨w, served, stepped⟩ := stepped
    cases stepped
    refine ⟨covered.sane.serve served, ?_, covered.guarded.serve served,
      fun pod => (covered.pods pod).last lasts⟩
    rcases Writer.serve_eq_some served with idles | ⟨_, _, _, _, _, _, _, keyed⟩
    · rw [idles.log]
      exact covered.keyed
    · exact keyed
  | probe pod statement =>
    simp only [System.step, Option.bind_eq_bind, Option.bind_eq_some_iff, Prod.exists] at stepped
    obtain ⟨p, w, probed, stepped⟩ := stepped
    cases stepped
    refine ⟨?_, ?_, ?_, fun other => ?_⟩
    · rcases Pod.probe_writer probed with same | ⟨epoch, beat, updated⟩
      · exact same ▸ covered.sane
      · exact covered.sane.updateHeartbeat updated
    · rcases Pod.probe_writer probed with same | ⟨epoch, beat, updated⟩
      · exact same ▸ covered.keyed
      · obtain ⟨head, grows, _, _, _, empty, _⟩ := Writer.updateHeartbeat_eq_some updated
        show Keyed w.log
        rw [grows.log, Keyed, stored, empty, List.append_nil]
        exact covered.keyed
    · rcases Pod.probe_writer probed with same | ⟨epoch, beat, updated⟩
      · exact same ▸ covered.guarded
      · obtain ⟨head, grows, _, _, _, _, same⟩ := Writer.updateHeartbeat_eq_some updated
        exact covered.guarded.beat grows same
    · show Pod.Covering w (Function.update s.pods pod p other)
      by_cases own : other = pod
      · subst own
        rw [Function.update_self]
        exact (covered.pods other).probe probed
      · rw [Function.update_of_ne own]
        exact (covered.pods other).last lasts
  | restore => cases timeline

theorem Covered.run (covered : Covered s) {actions : List (Action ι)}
    (ran : Trace.after (Trace.restrict oneTimeline System.step) s actions = some s') :
    Covered s' ∧ Writer.Lasts s.writer s'.writer := by
  -- By induction on the run: the invariant, and what lasts from its first state.
  refine Trace.after_invariant (I := fun t => Covered t ∧ Writer.Lasts s.writer t.writer)
    (fun t a t' stepped kept => ?_) ran ⟨covered, .refl _⟩
  exact ⟨kept.1.step stepped, kept.2.trans (lasts_of_step stepped kept.1.guarded)⟩

/-- What a proved entry covers: whatever is committed after the snapshot is above the wall. -/
theorem Covered.proved (covered : Covered s) {actions : List (Action ι)}
    (ran : Trace.after (Trace.restrict oneTimeline System.step) s actions = some s') {pod : ι}
    {snapshot : List Commit} {newest : Commit} {entry : TokenEntry}
    (earlier : snapshot <:+ s.writer.log) (first : snapshot.head? = some newest)
    (proved : (s.pods pod).fence.resolve newest.token newest.epoch = .proved entry) :
    ∃ newer, s'.writer.log = newer ++ snapshot ∧ ∀ c ∈ newer, ∀ row ∈ c.rows,
      row.channelId.isSome = true → entry.fenceWall < row.createdAt := by
  obtain ⟨retained, reached, -⟩ := ReplicaFence.resolve_eq_proved proved
  obtain ⟨own, cited⟩ := Pod.exists_own (covered.pods pod).length retained
  obtain ⟨token, beats, covers⟩ := (covered.pods pod).cited _ cited
  have counted := covered.sane.counted s.writer.log List.mem_cons_self
  obtain ⟨_, _, older, _, _, suffix, _⟩ := covers
  have logged : own ∈ s.writer.log := suffix.subset List.mem_cons_self
  -- A snapshot that has reached the token contains its commit.
  have here : own ∈ snapshot := counted.mem_of_le earlier first logged beats (token ▸ reached)
  obtain ⟨instant, base, below, since, ⟨between, cut⟩⟩ :=
    ((covered.pods pod).cited _ cited).2.2.base_suffix counted beats earlier here
  have lasts := (covered.run ran).2
  obtain ⟨later, split⟩ := earlier.trans lasts.log
  refine ⟨later, split.symm, fun c member row inside channel => ?_⟩
  obtain ⟨newer, split', rows⟩ := (lasts.since _ _ since).log
  -- The snapshot reaches down to the base, so what is later than it is newer than the base.
  have among : newer = later ++ between := by
    rw [← split, ← cut, ← List.append_assoc] at split'
    exact (List.append_cancel_right split').symm
  have late := rows c (among ▸ List.mem_append_left _ member) row inside channel
  exact Int.lt_of_lt_of_le below late

end System

end Replica
