import Buzz.Replica.Writer

/-!
# Abandoned timelines

What a fence proves to a reader that may still serve what a restored writer has abandoned. A
snapshot is an earlier state of one of the timelines. The newest retained token tells the probe
that the writer has been rewound, but closing the fence forgets it.
-/
namespace Replica

open Lib Nostr

namespace Writer

variable {w w' : Writer} {own head c : Commit}

/-- The observation of any snapshot that reaches the commit's token is of one that contains it. -/
def Holds (w : Writer) (own : Commit) : Prop :=
  ∀ log ∈ w.timelines, ∀ snapshot, snapshot <:+ log → ∀ newest, snapshot.head? = some newest →
    newest.epoch = own.epoch → own.token ≤ newest.token → own ∈ snapshot

/-- The commit is not lost, or the writer has not caught up with it. -/
def Past (w : Writer) (own : Commit) : Prop :=
  own ∈ w.log ∨ ∀ newest, w.log.head? = some newest → newest.token < own.token

/-! ### What the writer does to its timelines -/

theorem restore_eq_some {dropped : Nat} (restored : w.restore dropped = some w') :
    w'.log = w.log.drop dropped ∧ w'.abandoned = w.log :: w.abandoned ∧
      w'.nextSerial = w.nextSerial ∧ w'.restoredAt = w.nextSerial := by
  unfold restore at restored
  split at restored
  · cases restored
    exact ⟨rfl, rfl, rfl, rfl⟩
  · cases restored

/-- Every timeline of a restored writer is an earlier state of one that there was. -/
theorem mem_timelines_of_restore {dropped : Nat} (restored : w.restore dropped = some w')
    {log : List Commit} (member : log ∈ w'.timelines) :
    ∃ old ∈ w.timelines, log <:+ old := by
  obtain ⟨kept, left, -, -⟩ := restore_eq_some restored
  unfold timelines at member ⊢
  rw [kept, left] at member
  rcases List.mem_cons.mp member with rfl | other
  · exact ⟨w.log, List.mem_cons_self, List.drop_suffix _ _⟩
  · exact ⟨log, other, List.suffix_refl _⟩

theorem Sane.restore (sane : Sane w) {dropped : Nat} (restored : w.restore dropped = some w') :
    Sane w' where
  counted log member := by
    obtain ⟨old, there, earlier⟩ := mem_timelines_of_restore restored member
    exact (sane.counted old there).suffix earlier
  serial log member c here := by
    obtain ⟨old, there, earlier⟩ := mem_timelines_of_restore restored member
    rw [(restore_eq_some restored).2.2.1]
    exact sane.serial old there c (earlier.subset here)
  restoredAt := by
    rw [(restore_eq_some restored).2.2.1, (restore_eq_some restored).2.2.2]

/-! ### Holding a commit -/

private theorem snapshot_of_grows (grows : Grows w w' head c) {log snapshot : List Commit}
    {newest : Commit} (member : log ∈ w'.timelines) (earlier : snapshot <:+ log)
    (first : snapshot.head? = some newest) :
    (snapshot = c :: w.log ∧ newest = c) ∨ ∃ old ∈ w.timelines, snapshot <:+ old := by
  rcases mem_timelines_of_grows grows member with rfl | old
  · rcases List.suffix_cons_iff.mp earlier with rfl | older
    · exact Or.inl ⟨rfl, (Option.some.inj first).symm⟩
    · exact Or.inr ⟨w.log, List.mem_cons_self, older⟩
  · exact Or.inr ⟨log, old, earlier⟩

theorem Holds.idle (holds : Holds w own) (idles : Idles w w') : Holds w' own := by
  unfold Holds timelines at holds ⊢
  rw [idles.log, idles.abandoned]
  exact holds

theorem Holds.grow (holds : Holds w own) (grows : Grows w w' head c)
    (sameToken : c.token = head.token) (sameEpoch : c.epoch = head.epoch) : Holds w' own := by
  intro log member snapshot earlier newest first epoch reaches
  rcases snapshot_of_grows grows member earlier first with ⟨rfl, rfl⟩ | ⟨old, there, part⟩
  · rw [sameToken] at reaches
    rw [sameEpoch] at epoch
    exact List.mem_cons_of_mem _
      (holds w.log List.mem_cons_self w.log (List.suffix_refl _) head grows.head epoch reaches)
  · exact holds old there snapshot part newest first epoch reaches

theorem Holds.grow_mem (holds : Holds w own) (grows : Grows w w' head c) (here : own ∈ w.log) :
    Holds w' own := by
  intro log member snapshot earlier newest first epoch reaches
  rcases snapshot_of_grows grows member earlier first with ⟨rfl, rfl⟩ | ⟨old, there, part⟩
  · exact List.mem_cons_of_mem _ here
  · exact holds old there snapshot part newest first epoch reaches

theorem holds_of_grows (grows : Grows w w' head c)
    (ahead : ∀ log ∈ w.timelines, ∀ d ∈ log, d.epoch = c.epoch → d.token < c.token) :
    Holds w' c := by
  intro log member snapshot earlier newest first epoch reaches
  rcases snapshot_of_grows grows member earlier first with ⟨rfl, rfl⟩ | ⟨old, there, part⟩
  · exact List.mem_cons_self
  · have inside : newest ∈ old := part.subset (List.mem_of_mem_head? (Option.mem_def.mpr first))
    have := ahead old there newest inside epoch
    omega

theorem Holds.restore (holds : Holds w own) {dropped : Nat}
    (restored : w.restore dropped = some w') : Holds w' own := by
  intro log member snapshot earlier
  obtain ⟨old, there, part⟩ := mem_timelines_of_restore restored member
  exact holds old there snapshot (earlier.trans part)

/-! ### Being past a commit -/

theorem Past.idle (past : Past w own) (idles : Idles w w') : Past w' own := by
  unfold Past at past ⊢
  rw [idles.log]
  exact past

theorem Past.grow (past : Past w own) (grows : Grows w w' head c)
    (sameToken : c.token = head.token) : Past w' own := by
  unfold Past
  rw [grows.log]
  rcases past with here | behind
  · exact Or.inl (List.mem_cons_of_mem _ here)
  · refine Or.inr fun newest first => ?_
    obtain rfl := Option.some.inj first
    rw [sameToken]
    exact behind head grows.head

theorem Past.restore (past : Past w own) (sane : Sane w) (beats : own.beats = true) {dropped : Nat}
    (restored : w.restore dropped = some w') : Past w' own := by
  have earlier : w'.log <:+ w.log := by
    rw [(restore_eq_some restored).1]
    exact List.drop_suffix _ _
  -- A commit that the rewound log has lost is beyond its heartbeat.
  by_cases kept : own ∈ w'.log
  · exact Or.inl kept
  · refine Or.inr fun newest first => ?_
    rcases past with here | behind
    · by_contra reached
      exact kept ((sane.counted w.log List.mem_cons_self).mem_of_le earlier first here beats
        (Int.not_lt.mp reached))
    · cases top : w.log.head? with
      | none =>
        rw [List.head?_eq_none_iff.mp top] at earlier
        rw [List.suffix_nil.mp earlier] at first
        cases first
      | some head =>
        -- A rewind leads to an earlier token of the same log.
        have below := (sane.counted w.log List.mem_cons_self).le_head top
          (earlier.subset (List.mem_of_mem_head? (Option.mem_def.mpr first)))
        have := behind head top
        omega

/-- What a pod that is not looking can rely on. -/
structure Moves (w w' : Writer) : Prop where
  sane : Sane w'
  holds : ∀ own, Holds w own → Holds w' own
  past : ∀ own, own.beats = true → Past w own → Past w' own
  nextSerial : w.nextSerial ≤ w'.nextSerial
  restoredAt : w.restoredAt ≤ w'.restoredAt
  log : ∀ own ∈ w.log, w'.restoredAt ≤ own.serial → own ∈ w'.log

theorem Sane.moves (sane : Sane w) {request : Request} (served : w.serve request = some w') :
    Moves w w' := by
  -- The writer idles, or it commits with the token it has.
  rcases serve_eq_some served with idles | ⟨head, c, grows, sameToken, sameEpoch, -⟩
  · refine ⟨sane.serve served, fun _ holds => holds.idle idles, fun _ _ past => past.idle idles,
      Nat.le_of_eq idles.nextSerial.symm, Nat.le_of_eq idles.restoredAt.symm, fun own here _ => ?_⟩
    rw [idles.log]
    exact here
  · refine ⟨sane.serve served, fun _ holds => holds.grow grows sameToken sameEpoch,
      fun _ _ past => past.grow grows sameToken, ?_, Nat.le_of_eq grows.restoredAt.symm,
      fun own here _ => ?_⟩
    · rw [grows.nextSerial]
      exact Nat.le_succ _
    · rw [grows.log]
      exact List.mem_cons_of_mem _ here

theorem Sane.rewind (sane : Sane w) {dropped : Nat} (restored : w.restore dropped = some w') :
    Moves w w' where
  sane := sane.restore restored
  holds _ holds := holds.restore restored
  past _ beats past := past.restore sane beats restored
  nextSerial := Nat.le_of_eq (restore_eq_some restored).2.2.1.symm
  restoredAt := by
    rw [(restore_eq_some restored).2.2.2]
    exact sane.restoredAt
  log own here since := by
    -- What has been committed is older than the restore.
    have older := sane.serial w.log List.mem_cons_self own here
    rw [(restore_eq_some restored).2.2.2] at since
    exact absurd older (Nat.not_lt.mpr since)

end Writer

/-! ### What a pod has retained -/

namespace Pod

variable {w w' : Writer} {p : Pod} {pair : TokenEntry × Commit} {beat : Commit}

/-- A probe that followed the last restore has been recorded. -/
def Settled (w : Writer) (p : Pod) : Prop := ∃ c ∈ p.recorded, w.restoredAt ≤ c.serial

structure Keeps (w : Writer) (p : Pod) : Prop where
  cited : ∀ pair ∈ p.cited, pair.1.token = pair.2.token ∧ pair.2.beats = true ∧
    p.fence.epoch = some pair.2.epoch
  length : p.fence.ring.length ≤ p.recorded.length
  sorted : p.fence.ring.Pairwise fun a b => a.token < b.token
  order : p.recorded.Pairwise fun newer older => older.serial < newer.serial
  known : ∀ own ∈ p.recorded, own.serial < w.nextSerial ∧ (w.restoredAt ≤ own.serial → own ∈ w.log)

/-- A token has been committed and what its statement returned has not been read yet. -/
structure Pending (w : Writer) (p : Pod) (beat : Commit) : Prop where
  beats : beat.beats = true
  newer : ∀ own ∈ p.recorded, own.serial < beat.serial
  serial : beat.serial < w.nextSerial
  known : w.restoredAt ≤ beat.serial → beat ∈ w.log

/-- The snapshots that prove the commit contain it. -/
def Safe (w : Writer) (own : Commit) : Prop := w.Holds own ∧ w.Past own

/-- The record is going to be refused. -/
def Detects (p : Pod) (beat : Commit) : Prop :=
  p.fence.epoch = some beat.epoch ∧ ∃ last, p.fence.ring.getLast? = some last ∧ beat.token ≤ last.token

def Fits (w : Writer) (p : Pod) : Phase → Prop
  | .idle | .sampled _ | .scanned _ _ => ∀ pair ∈ p.cited, Safe w pair.2
  | .beaten _ _ beat => Pending w p beat ∧
      (∀ pair ∈ p.cited, pair.2.token < beat.token → Safe w pair.2) ∧
      (Settled w p → ∀ pair ∈ p.cited, w.Holds pair.2) ∧ (Safe w beat ∨ Detects p beat)
  | .regressed _ => p.fence.ring = []
  | .rotated _ _ beat => Pending w p beat ∧ p.fence.ring = [] ∧ Safe w beat

theorem Keeps.clear (keeps : Keeps w p) {p' : Pod} (empty : p'.fence.ring = [])
    (same : p'.recorded = p.recorded) : Keeps w p' where
  cited pair member := by
    rw [cited_eq_nil empty] at member
    cases member
  length := by
    rw [empty]
    exact Nat.zero_le _
  sorted := by
    rw [empty]
    exact List.Pairwise.nil
  order := by
    rw [same]
    exact keeps.order
  known := by
    rw [same]
    exact keeps.known

theorem Settled.earlier (moves : Writer.Moves w w') (settled : Settled w' p) : Settled w p := by
  obtain ⟨c, member, since⟩ := settled
  exact ⟨c, member, Nat.le_trans moves.restoredAt since⟩

theorem Keeps.move (keeps : Keeps w p) (moves : Writer.Moves w w') : Keeps w' p :=
  { keeps with
    known := fun own member => by
      obtain ⟨serial, here⟩ := keeps.known own member
      exact ⟨Nat.lt_of_lt_of_le serial moves.nextSerial,
        fun since => moves.log own (here (Nat.le_trans moves.restoredAt since)) since⟩ }

theorem Pending.move (pending : Pending w p beat) (moves : Writer.Moves w w') : Pending w' p beat :=
  { pending with
    serial := Nat.lt_of_lt_of_le pending.serial moves.nextSerial
    known := fun since => moves.log beat (pending.known (Nat.le_trans moves.restoredAt since)) since }

theorem Safe.move {own : Commit} (safe : Safe w own) (beats : own.beats = true)
    (moves : Writer.Moves w w') : Safe w' own :=
  ⟨moves.holds own safe.1, moves.past own beats safe.2⟩

theorem Fits.move {phase : Phase} (fits : Fits w p phase) (keeps : Keeps w p)
    (moves : Writer.Moves w w') : Fits w' p phase := by
  have kept (before : ∀ pair ∈ p.cited, Safe w pair.2) : ∀ pair ∈ p.cited, Safe w' pair.2 :=
    fun pair member => (before pair member).move (keeps.cited pair member).2.1 moves
  -- What a phase knows speaks of timelines, and these only grow or are cut.
  cases phase with
  | idle => exact kept fits
  | sampled => exact kept fits
  | scanned => exact kept fits
  | beaten wall committedAt beat =>
    obtain ⟨pending, safe, settled, outcome⟩ := fits
    refine ⟨pending.move moves, fun pair member below => ?_, fun since pair member => ?_, ?_⟩
    · exact (safe pair member below).move (keeps.cited pair member).2.1 moves
    · exact moves.holds _ (settled (since.earlier moves) pair member)
    · exact outcome.imp_left fun safe => safe.move pending.beats moves
  | regressed => exact fits
  | rotated wall committedAt beat =>
    obtain ⟨pending, empty, safe⟩ := fits
    exact ⟨pending.move moves, empty, safe.move pending.beats moves⟩

/-! ### What a statement of the pod does -/

theorem Keeps.le_newest (keeps : Keeps w p) {last : TokenEntry}
    (newest : p.fence.ring.getLast? = some last) {entry : TokenEntry} (member : entry ∈ p.fence.ring) :
    entry.token ≤ last.token := by
  obtain ⟨older, split⟩ := List.getLast?_eq_some_iff.mp newest
  -- The ring is sorted by token, so its last entry is the largest.
  have sorted := keeps.sorted
  rw [split] at member sorted
  rcases List.mem_append.mp member with before | same
  · exact Int.le_of_lt ((List.pairwise_append.mp sorted).2.2 entry before last List.mem_cons_self)
  · exact List.mem_singleton.mp same ▸ Int.le_refl _

theorem Keeps.lt_of_newest (keeps : Keeps w p) {token : Int}
    (larger : ∀ last ∈ p.fence.ring.getLast?, last.token < token) {entry : TokenEntry}
    (member : entry ∈ p.fence.ring) : entry.token < token := by
  cases newest : p.fence.ring.getLast? with
  | none =>
    rw [List.getLast?_eq_none_iff.mp newest] at member
    cases member
  | some last => exact Int.lt_of_le_of_lt (keeps.le_newest newest member) (larger last newest)

/-- A commit that has been recorded after a cited one is cited, too, by a larger token. -/
theorem Keeps.token_lt (keeps : Keeps w p) (member : pair ∈ p.cited) {c : Commit}
    (recorded : c ∈ p.recorded) (newer : pair.2.serial < c.serial) : pair.2.token < c.token := by
  obtain ⟨j, bound, here⟩ := List.mem_iff_getElem.mp member
  obtain ⟨k, inside, there⟩ := List.mem_iff_getElem.mp recorded
  have ranges : j < p.fence.ring.reverse.length ∧ j < p.recorded.length := by
    rw [Pod.cited, List.length_zip] at bound
    omega
  have own : p.recorded[j] = pair.2 := by rw [← here]; simp only [Pod.cited, List.getElem_zip]
  -- The newer commit stands before the older one.
  have before : k < j := by
    by_contra after
    rcases Nat.lt_or_eq_of_le (Nat.not_lt.mp after) with later | rfl
    · have older := List.pairwise_iff_getElem.mp keeps.order j k ranges.2 inside later
      rw [own, there] at older
      omega
    · rw [own] at there
      rw [there] at newer
      exact Nat.lt_irrefl _ newer
  -- So it is within the ring as well, and the tokens decrease along it.
  have first : (p.fence.ring.reverse[k], c) ∈ p.cited := by
    have inside' : k < p.cited.length := by omega
    have position : p.cited[k] = (p.fence.ring.reverse[k], c) := by
      simp only [Pod.cited, List.getElem_zip, there]
    rw [← position]
    exact List.getElem_mem _
  have decreasing : p.fence.ring.reverse.Pairwise fun a b => b.token < a.token :=
    List.pairwise_reverse.mpr keeps.sorted
  have larger := List.pairwise_iff_getElem.mp decreasing k j (by omega) ranges.1 before
  have entry : p.fence.ring.reverse[j] = pair.1 := by rw [← here]; simp only [Pod.cited, List.getElem_zip]
  rw [entry, (keeps.cited pair member).1, (keeps.cited _ first).1] at larger
  exact larger

private theorem sorted_retain {f : ReplicaFence} {entry : TokenEntry}
    (sorted : f.ring.Pairwise fun a b => a.token < b.token)
    (largest : ∀ e ∈ f.ring, e.token < entry.token) :
    (f.retain entry).ring.Pairwise fun a b => a.token < b.token := by
  unfold ReplicaFence.retain
  have kept : (if f.ring.length = ringCapacity then f.ring.tail else f.ring).Sublist f.ring := by
    split
    · exact List.tail_sublist _
    · exact List.Sublist.refl _
  refine List.pairwise_append.mpr ⟨sorted.sublist kept, List.pairwise_singleton _ _, ?_⟩
  intro e member last same
  rw [List.mem_singleton.mp same]
  exact largest e (kept.subset member)

theorem Keeps.record (keeps : Keeps w p) (pending : Pending w p beat) {fence : ReplicaFence}
    {wall committedAt : Int}
    (record : p.fence.record beat.token beat.epoch committedAt wall = (fence, .recorded)) :
    Keeps w ⟨fence, .idle, beat :: p.recorded⟩ ∧
      ∀ pair ∈ (⟨fence, .idle, beat :: p.recorded⟩ : Pod).cited,
        pair.2 = beat ∨ pair ∈ p.cited ∧ pair.2.token < beat.token := by
  have order : (beat :: p.recorded).Pairwise fun newer older => older.serial < newer.serial :=
    List.pairwise_cons.mpr ⟨pending.newer, keeps.order⟩
  have known : ∀ own ∈ beat :: p.recorded,
      own.serial < w.nextSerial ∧ (w.restoredAt ≤ own.serial → own ∈ w.log) := by
    intro own member
    rcases List.mem_cons.mp member with rfl | old
    · exact ⟨pending.serial, pending.known⟩
    · exact keeps.known own old
  have epoch : fence.epoch = some beat.epoch := ReplicaFence.epoch_of_recorded record
  -- What stays in the ring has a smaller token.
  have below : ∀ pair ∈ p.cited, (∀ last ∈ p.fence.ring.getLast?, last.token < beat.token) →
      pair.2.token < beat.token := by
    intro pair old larger
    have member : pair.1 ∈ p.fence.ring := List.mem_reverse.mp (List.of_mem_zip old).1
    rw [← (keeps.cited pair old).1]
    exact keeps.lt_of_newest larger member
  refine ⟨⟨fun pair member => ?_, ?_, ?_, order, known⟩, fun pair member => ?_⟩
  · rcases mem_cited_record record member with rfl | ⟨old, same, _⟩
    · exact ⟨rfl, pending.beats, epoch⟩
    · obtain ⟨token, beats, own⟩ := keeps.cited pair old
      exact ⟨token, beats, epoch.trans (same.symm.trans own)⟩
  · exact length_record record keeps.length
  · rcases p.fence.record_cases beat.token beat.epoch committedAt wall with
      ⟨_, same⟩ | ⟨_, larger, same⟩ | ⟨_, _, same⟩
    · rw [same] at record
      cases record
      exact List.pairwise_singleton _ _
    · rw [same] at record
      cases record
      exact sorted_retain keeps.sorted fun e member => keeps.lt_of_newest larger member
    · rw [same] at record
      cases record
  · rcases mem_cited_record record member with rfl | ⟨old, _, larger⟩
    · exact Or.inl rfl
    · exact Or.inr ⟨old, below pair old larger⟩

theorem Keeps.grow (keeps : Keeps w p) {head c : Commit} (grows : Writer.Grows w w' head c)
    (phase : Phase) : Keeps w' { p with phase } where
  cited := keeps.cited
  length := keeps.length
  sorted := keeps.sorted
  order := keeps.order
  known own member := by
    obtain ⟨serial, here⟩ := keeps.known own member
    rw [grows.nextSerial, grows.restoredAt, grows.log]
    exact ⟨Nat.lt_succ_of_lt serial, fun since => List.mem_cons_of_mem _ (here since)⟩

theorem Keeps.pending (keeps : Keeps w p) {head : Commit} (grows : Writer.Grows w w' head beat)
    (beats : beat.beats = true) (phase : Phase) : Pending w' { p with phase } beat where
  beats := beats
  newer own member := by
    rw [grows.serial]
    exact (keeps.known own member).1
  serial := by
    rw [grows.serial, grows.nextSerial]
    exact Nat.lt_succ_self _
  known _ := by
    rw [grows.log]
    exact List.mem_cons_self

theorem Safe.grow_mem {own : Commit} (safe : Safe w own) {head c : Commit}
    (grows : Writer.Grows w w' head c) (here : own ∈ w.log) : Safe w' own := by
  refine ⟨safe.1.grow_mem grows here, Or.inl ?_⟩
  rw [grows.log]
  exact List.mem_cons_of_mem _ here

theorem safe_of_grows {head : Commit} (grows : Writer.Grows w w' head beat)
    (ahead : ∀ log ∈ w.timelines, ∀ d ∈ log, d.epoch = beat.epoch → d.token < beat.token) :
    Safe w' beat := by
  refine ⟨Writer.holds_of_grows grows ahead, Or.inl ?_⟩
  rw [grows.log]
  exact List.mem_cons_self

/-- After a settled probe the log contains every commit that is cited. -/
theorem Keeps.mem_log (keeps : Keeps w p) (sane : w.Sane) (member : pair ∈ p.cited)
    (past : w.Past pair.2) (settled : Settled w p) : pair.2 ∈ w.log := by
  obtain ⟨c, recorded, since⟩ := settled
  have own : pair.2 ∈ p.recorded := (List.of_mem_zip member).2
  rcases past with here | behind
  · exact here
  · -- A lost commit is older than the restore, and so than the settled probe's, whose token is
    -- larger.
    by_contra lost
    have before : pair.2.serial < w.restoredAt := by
      by_contra after
      exact lost ((keeps.known _ own).2 (Nat.not_lt.mp after))
    have smaller := keeps.token_lt member recorded (Nat.lt_of_lt_of_le before since)
    have here := (keeps.known c recorded).2 since
    cases first : w.log.head? with
    | none =>
      rw [List.head?_eq_none_iff.mp first] at here
      cases here
    | some head =>
      have below := (sane.counted w.log List.mem_cons_self).le_head first here
      have := behind head first
      omega

end Pod

/-! ### The condition -/

namespace Writer

/-- An abandoned timeline has a larger token of the writer's epoch. -/
def outrun (w : Writer) : Bool :=
  match w.log.head? with
  | some head => w.abandoned.any (·.any fun c => c.epoch = head.epoch ∧ head.token < c.token)
  | none => false

end Writer

/-- The newest retained token shows that the writer has been rewound. -/
def ReplicaFence.detects (f : ReplicaFence) (w : Writer) : Bool :=
  match w.log.head? with
  | some head => f.epoch = some head.epoch && f.ring.getLast?.any (head.token < ·.token)
  | none => false

/-- The statement commits a token that an abandoned timeline has reached, and the fence has
nothing to tell it by. -/
def Statement.repeats (p : Pod) (w : Writer) : Statement → Bool
  | .beat _ => w.outrun && !p.fence.detects w
  | _ => false

namespace Pod

variable {w w' : Writer} {p p' : Pod} {beat : Commit}

structure Faithful (w : Writer) (p : Pod) : Prop where
  sane : w.Sane
  keeps : Keeps w p
  fits : Fits w p p.phase

theorem Faithful.move (faithful : Faithful w p) (moves : Writer.Moves w w') : Faithful w' p where
  sane := moves.sane
  keeps := faithful.keeps.move moves
  fits := faithful.fits.move faithful.keeps moves

private theorem Faithful.commitToken {head : Commit} {sampledAt : Int} {oldest : Option Int}
    (faithful : Faithful w p) (scanned : p.phase = .scanned sampledAt oldest)
    (grows : Writer.Grows w w' head beat) (token : beat.token = head.token + 1)
    (epoch : beat.epoch = head.epoch) (beats : beat.beats = true)
    (seen : w.outrun = true → p.fence.detects w = true) (wall committedAt : Int) :
    Faithful w' { p with phase := .beaten wall committedAt beat } := by
  obtain ⟨sane, keeps, fits⟩ := faithful
  rw [scanned] at fits
  have safe : ∀ pair ∈ p.cited, Safe w pair.2 := fits
  have counted := sane.counted w.log List.mem_cons_self
  refine ⟨sane.grow grows (by omega) fun _ => by omega, keeps.grow grows _,
    keeps.pending grows beats _, fun pair member below => ?_, fun settled pair member => ?_, ?_⟩
  · refine (safe pair member).grow_mem grows ?_
    rcases (safe pair member).2 with here | behind
    · exact here
    · have := behind head grows.head
      omega
  · refine (safe pair member).1.grow_mem grows ?_
    refine keeps.mem_log sane member (safe pair member).2 ?_
    obtain ⟨c, recorded, since⟩ := settled
    rw [grows.restoredAt] at since
    exact ⟨c, recorded, since⟩
  · -- Either the fence will notice, or no timeline has reached the token.
    cases runs : w.outrun with
    | true =>
      have detected := seen runs
      simp only [ReplicaFence.detects, grows.head, Bool.and_eq_true, decide_eq_true_eq,
        Option.any_eq_true] at detected
      obtain ⟨same, last, newest, larger⟩ := detected
      refine Or.inr ⟨same.trans (congrArg some epoch.symm), last, newest, ?_⟩
      omega
    | false =>
      refine Or.inl (safe_of_grows grows fun log member d here sameEpoch => ?_)
      have below : d.token ≤ head.token := by
        rcases List.mem_cons.mp member with rfl | other
        · exact counted.le_head grows.head here
        · by_contra above
          have runs' : w.outrun = true := by
            simp only [Writer.outrun, grows.head, List.any_eq_true, decide_eq_true_eq]
            exact ⟨log, other, d, here, sameEpoch.trans epoch, Int.not_le.mp above⟩
          rw [runs] at runs'
          cases runs'
      omega

/-- The fence refuses what it detects. -/
private theorem Detects.not_recorded (detects : Detects p beat) {fence : ReplicaFence}
    {wall committedAt : Int} :
    p.fence.record beat.token beat.epoch committedAt wall ≠ (fence, .recorded) := by
  obtain ⟨epoch, last, newest, larger⟩ := detects
  intro record
  rcases p.fence.record_cases beat.token beat.epoch committedAt wall with
    ⟨other, _⟩ | ⟨_, smaller, _⟩ | ⟨_, _, same⟩
  · exact other epoch
  · have := smaller last newest
    omega
  · rw [same] at record
    cases record

theorem Faithful.probe (faithful : Faithful w p) {statement : Statement}
    (probed : p.probe w statement = some (p', w')) (repeats : statement.repeats p w = false) :
    Faithful w' p' := by
  obtain ⟨sane, keeps, fits⟩ := faithful
  -- One case for each statement of the loop, in its order.
  cases statement with
  | sample =>
    simp only [Pod.probe] at probed
    split at probed
    next phase =>
      cases probed
      rw [phase] at fits
      exact ⟨sane, { keeps with }, fits⟩
    next => cases probed
  | scan =>
    simp only [Pod.probe] at probed
    split at probed
    next phase =>
      cases probed
      rw [phase] at fits
      exact ⟨sane, { keeps with }, fits⟩
    next => cases probed
  | beat committedAt =>
    simp only [Pod.probe] at probed
    split at probed
    next phase =>
      simp only [Option.bind_eq_bind, Option.bind_eq_some_iff, Prod.exists] at probed
      obtain ⟨w₁, c, updated, probed⟩ := probed
      cases probed
      obtain ⟨head, grows, token, epoch, beats, -⟩ := Writer.updateHeartbeat_eq_some updated
      refine Faithful.commitToken ⟨sane, keeps, fits⟩ phase grows token epoch beats (fun runs => ?_) _ _
      simpa [Statement.repeats, runs] using repeats
    next => cases probed
  | receive =>
    simp only [Pod.probe] at probed
    split at probed
    next wall committedAt beat phase =>
      rw [phase] at fits
      obtain ⟨pending, safe, -, outcome⟩ := fits
      split at probed
      next fence record =>
        cases probed
        obtain ⟨keeps', split⟩ := keeps.record pending record
        refine ⟨sane, keeps', fun pair member => ?_⟩
        rcases split pair member with new | ⟨old, below⟩
        · rw [new]
          -- What has been recorded was not detected, so it is safe.
          exact outcome.resolve_right fun detects => detects.not_recorded record
        · exact safe pair old below
      next fence record =>
        cases probed
        have empty := ReplicaFence.ring_of_tokenRegression record
        exact ⟨sane, keeps.clear empty rfl, empty⟩
    next => cases probed
  | rotate committedAt epoch =>
    simp only [Pod.probe] at probed
    split at probed
    next phase =>
      rw [phase] at fits
      simp only [Option.ite_none_left_eq_some, Option.bind_eq_bind, Option.bind_eq_some_iff,
        Prod.exists] at probed
      obtain ⟨unknown, w₁, c, updated, probed⟩ := probed
      cases probed
      obtain ⟨head, grows, token, own, beats, -⟩ := Writer.updateHeartbeat_eq_some updated
      refine ⟨sane.grow grows (by omega) fun _ => by omega, keeps.grow grows _,
        keeps.pending grows beats _, fits, safe_of_grows grows fun log member d here same => ?_⟩
      -- No timeline knows the new epoch.
      refine absurd ?_ unknown
      rw [Writer.knows, List.any_eq_true]
      refine ⟨log, member, List.any_eq_true.mpr ⟨d, here, decide_eq_true ?_⟩⟩
      exact same.trans own
    next => cases probed
  | receiveRotated =>
    simp only [Pod.probe] at probed
    split at probed
    next wall committedAt beat phase =>
      rw [phase] at fits
      obtain ⟨pending, empty, safe⟩ := fits
      cases probed
      -- An empty ring refuses nothing.
      have record : p.fence.record beat.token beat.epoch committedAt wall =
          ((p.fence.record beat.token beat.epoch committedAt wall).1, .recorded) := by
        rcases p.fence.record_cases beat.token beat.epoch committedAt wall with
          ⟨_, same⟩ | ⟨_, _, same⟩ | ⟨_, ⟨last, newest, _⟩, _⟩
        · rw [same]
        · rw [same]
        · rw [empty] at newest
          cases newest
      obtain ⟨keeps', split⟩ := keeps.record pending record
      refine ⟨sane, keeps', fun pair member => ?_⟩
      rcases split pair member with new | ⟨old, _⟩
      · rw [new]
        exact safe
      · rw [cited_eq_nil empty] at old
        cases old
    next => cases probed
  | fail =>
    cases probed
    refine ⟨sane, keeps.clear rfl rfl, fun pair member => ?_⟩
    rw [cited_eq_nil rfl] at member
    cases member

end Pod

/-! ### Runs -/

namespace System

/-- The action does not repeat a token. -/
def advances (s : System Unit) : Action Unit → Bool
  | .probe _ statement => !statement.repeats (s.pods ()) s.writer
  | _ => true

theorem faithful_initial (now : Int) (epoch : Uuid) (rows : List Row) :
    Pod.Faithful (.initial now epoch rows) {} where
  sane := Writer.sane_initial now epoch rows
  keeps := {
    cited := fun pair member => by cases member
    length := Nat.le_refl _
    sorted := List.Pairwise.nil
    order := List.Pairwise.nil
    known := fun own member => by cases member }
  fits pair member := by cases member

theorem faithful_step {s s' : System Unit} {action : Action Unit}
    (stepped : Trace.restrict advances step s action = some s')
    (faithful : (s.pods ()).Faithful s.writer) : (s'.pods ()).Faithful s'.writer := by
  obtain ⟨advances, stepped⟩ := Trace.restrict_eq_some.mp stepped
  -- Only a probe changes the pod; for the others the writer moves under it.
  cases action with
  | serve request =>
    simp only [step, Option.bind_eq_bind, Option.bind_eq_some_iff] at stepped
    obtain ⟨w, served, stepped⟩ := stepped
    cases stepped
    exact faithful.move (faithful.sane.moves served)
  | probe pod statement =>
    simp only [step, Option.bind_eq_bind, Option.bind_eq_some_iff, Prod.exists] at stepped
    obtain ⟨p, w, probed, stepped⟩ := stepped
    cases stepped
    simp only [System.advances, Bool.not_eq_true'] at advances
    show Pod.Faithful w (Function.update s.pods () p ())
    rw [Function.update_self]
    exact faithful.probe probed advances
  | restore dropped =>
    simp only [step, Option.bind_eq_bind, Option.bind_eq_some_iff] at stepped
    obtain ⟨w, restored, stepped⟩ := stepped
    cases stepped
    exact faithful.move (faithful.sane.rewind restored)

end System

/-- What a settled pod proves: its entry's own token commit is in the snapshot. -/
def ProvesOwn (s : System Unit) : Prop :=
  (s.pods ()).Settled s.writer → ∀ log ∈ s.writer.timelines, ∀ snapshot, snapshot <:+ log →
    ∀ newest entry, snapshot.head? = some newest →
      (s.pods ()).fence.resolve newest.token newest.epoch = .proved entry →
      ∃ own, (entry, own) ∈ (s.pods ()).cited ∧ own ∈ snapshot

namespace Pod

variable {w : Writer} {p : Pod}

theorem Faithful.holds (faithful : Faithful w p) (settled : p.Settled w) :
    ∀ pair ∈ p.cited, w.Holds pair.2 := by
  have fits := faithful.fits
  -- In the middle of a probe, too: the token that is pending is not cited yet.
  cases phase : p.phase with
  | idle =>
    rw [phase] at fits
    exact fun pair member => (fits pair member).1
  | sampled =>
    rw [phase] at fits
    exact fun pair member => (fits pair member).1
  | scanned =>
    rw [phase] at fits
    exact fun pair member => (fits pair member).1
  | beaten =>
    rw [phase] at fits
    exact fits.2.2.1 settled
  | regressed =>
    rw [phase] at fits
    intro pair member
    rw [cited_eq_nil fits] at member
    cases member
  | rotated =>
    rw [phase] at fits
    intro pair member
    rw [cited_eq_nil fits.2.1] at member
    cases member

end Pod

/-- In a run that never repeats an abandoned token unseen, no proof covers an abandoned timeline. -/
theorem fence_proves_own_timeline (now : Int) (epoch : Uuid) (rows : List Row)
    (actions : List (Action Unit)) (s : System Unit)
    (ran : Trace.after (Trace.restrict System.advances System.step) (.initial now epoch rows)
      actions = some s) : ProvesOwn s := by
  have faithful : (s.pods ()).Faithful s.writer :=
    Trace.after_invariant (I := fun s : System Unit => (s.pods ()).Faithful s.writer)
      (fun _ _ _ stepped => System.faithful_step stepped) ran
      (System.faithful_initial now epoch rows)
  intro settled log member snapshot earlier newest entry first proved
  -- The entry that is proved is retained, and the snapshot has reached its token.
  obtain ⟨retained, reached, sameEpoch⟩ := ReplicaFence.resolve_eq_proved proved
  obtain ⟨own, cited⟩ := Pod.exists_own faithful.keeps.length retained
  obtain ⟨token, -, ownEpoch⟩ := faithful.keeps.cited _ cited
  refine ⟨own, cited, faithful.holds settled _ cited log member snapshot earlier newest first ?_ ?_⟩
  · exact (sameEpoch _ ownEpoch).symm
  · rw [← token]
    exact reached

namespace Sample

def oldEpoch : Uuid := ⟨1⟩

/-- A probe that goes through. -/
def probe : List (Action Unit) :=
  [.probe () .sample, .probe () .scan, .probe () (.beat 0), .probe () .receive]

/-- Two probes, a restore to the start and the probe that notices it. -/
def noticed : List (Action Unit) :=
  probe ++ probe ++ [Action.restore 2] ++ probe ++
    [Action.probe () (.rotate 0 ⟨2⟩), Action.probe () .receiveRotated]

/-- The fence is closed by a failure before the restore. -/
def unnoticed : List (Action Unit) :=
  probe ++ probe ++ [Action.probe () .fail, Action.restore 2] ++ probe

/-- What the restore abandons. -/
def lost : List Commit :=
  [⟨2, 2, oldEpoch, true, [], []⟩, ⟨1, 1, oldEpoch, true, [], []⟩, ⟨0, 0, oldEpoch, false, [], []⟩]

/-- The token of the new timeline. -/
def entry : TokenEntry := ⟨1, 0, fenceWall 0 none⟩

end Sample

theorem fence_proves_own_timeline_noticed : ∃ s : System Unit, ProvesOwn s ∧
    (s.pods ()).fence.resolve 2 ⟨2⟩ = .proved ⟨2, 0, fenceWall 0 none⟩ := by
  have resolved : (Trace.after (Trace.restrict System.advances System.step)
      (.initial 0 Sample.oldEpoch []) Sample.noticed).map
      (fun s : System Unit => (s.pods ()).fence.resolve 2 ⟨2⟩) =
        some (.proved ⟨2, 0, fenceWall 0 none⟩) := by decide
  obtain ⟨s, ran, proved⟩ := Option.map_eq_some_iff.mp resolved
  exact ⟨s, fence_proves_own_timeline 0 Sample.oldEpoch [] Sample.noticed s ran, proved⟩

/-- After a failed probe the token of an abandoned timeline proves the entry of the new one. -/
theorem abandoned_timeline_proved : ∃ s : System Unit,
    Trace.after System.step (.initial 0 Sample.oldEpoch []) Sample.unnoticed = some s ∧
      ¬ ProvesOwn s := by
  have reached : (Trace.after System.step (.initial 0 Sample.oldEpoch []) Sample.unnoticed).map
      (fun s : System Unit => (s.writer.restoredAt, s.writer.abandoned, s.pods ())) =
        some (3, [Sample.lost], ⟨⟨some Sample.oldEpoch, [Sample.entry]⟩, .idle,
          ⟨3, 1, Sample.oldEpoch, true, [], []⟩ ::
            [⟨2, 2, Sample.oldEpoch, true, [], []⟩, ⟨1, 1, Sample.oldEpoch, true, [], []⟩]⟩) := by
    decide
  obtain ⟨s, ran, facts⟩ := Option.map_eq_some_iff.mp reached
  obtain ⟨restoredAt, abandoned, pod⟩ := Prod.mk.inj facts |>.imp_right Prod.mk.inj
  refine ⟨s, ran, fun proves => ?_⟩
  unfold ProvesOwn at proves
  rw [pod] at proves
  have settled : Pod.Settled s.writer ⟨⟨some Sample.oldEpoch, [Sample.entry]⟩, .idle,
      ⟨3, 1, Sample.oldEpoch, true, [], []⟩ ::
        [⟨2, 2, Sample.oldEpoch, true, [], []⟩, ⟨1, 1, Sample.oldEpoch, true, [], []⟩]⟩ := by
    refine ⟨_, List.mem_cons_self, ?_⟩
    rw [restoredAt]
  have member : Sample.lost ∈ s.writer.timelines := by
    rw [Writer.timelines, abandoned]
    exact List.mem_cons_of_mem _ List.mem_cons_self
  obtain ⟨own, cited, inside⟩ := proves settled Sample.lost member Sample.lost
    (List.suffix_refl _) _ Sample.entry rfl (by decide)
  -- The entry that is proved cites the commit of the new timeline.
  have only : own = ⟨3, 1, Sample.oldEpoch, true, [], []⟩ := by
    simpa [Pod.cited] using cited
  rw [only] at inside
  exact absurd inside (by decide)

end Replica
