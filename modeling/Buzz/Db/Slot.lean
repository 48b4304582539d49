import Buzz.Db.Replace

/-!
# One replacement alone

What the changes of a transaction do to the rows of a slot, and what a call of a replace function
does with nobody else around. With the head as the greatest version of the slot, the call is
accepted exactly when its event is greater, and then it is the head.

`Settled` is the invariant. That no row of the slot and no watermark is above the head is what
keeps the insert from a conflict and the triggers from refusing it.
-/
namespace Db

open Lib Nostr Relay

variable {slot : Slot} {t t' : Tables} {row row' : EventRow} {key : CommunityId × Stamp}

/-! ### Changes of the tables -/

namespace Slot

/-- The watermarks of the slot. -/
def owns (key : MarkKey) : Slot → Bool
  | parameterized community kind pubkey dTag => key = ⟨community, kind, pubkey, dTag⟩
  | addressable community kind pubkey _ =>
    key.communityId = community ∧ key.kind = kind ∧ key.pubkey = pubkey

theorem owns_of_covers {dTag : String} (covers : slot.covers row = true)
    (tagged : row.dTag = some dTag) :
    slot.owns ⟨row.communityId, row.event.kind, row.event.pubkey, dTag⟩ = true := by
  cases slot <;> simp_all [Slot.covers, owns]

@[simp] theorem covers_deleted (slot : Slot) (row : EventRow) (deleted : Bool) :
    slot.covers { row with deleted := deleted } = slot.covers row := by cases slot <;> rfl

end Slot

namespace Tables

/-- All rows of a slot. -/
def rowsOf (t : Tables) (slot : Slot) : List EventRow := t.events.filter fun row => slot.covers row

theorem mem_live : row ∈ t.live slot ↔
    row ∈ t.events ∧ slot.covers row = true ∧ row.deleted = false := by
  simp [live]

theorem mem_rowsOf : row ∈ t.rowsOf slot ↔ row ∈ t.events ∧ slot.covers row = true := by
  simp [rowsOf]

theorem live_eq (t : Tables) (slot : Slot) : t.live slot = (t.rowsOf slot).filter (!·.deleted) := by
  unfold live rowsOf
  rw [List.filter_filter]
  congr
  funext row
  exact Bool.and_comm _ _

@[simp] theorem rowsOf_put (t : Tables) (row : EventRow) :
    (t.apply (.put row)).rowsOf slot =
      (t.rowsOf slot).filter (·.key ≠ row.key) ++ if slot.covers row then [row] else [] := by
  simp only [rowsOf, apply, List.filter_append, List.filter_filter]
  congr 1
  · exact List.filter_congr fun row' _ => Bool.and_comm _ _
  · cases covered : slot.covers row <;> simp [covered]

@[simp] theorem rowsOf_remove (t : Tables) (key : CommunityId × Stamp) :
    (t.apply (.remove key)).rowsOf slot = (t.rowsOf slot).filter (·.key ≠ key) := by
  simp only [rowsOf, apply, List.filter_filter]
  exact List.filter_congr fun row' _ => Bool.and_comm _ _

@[simp] theorem rowsOf_mark (t : Tables) (m : Watermark) :
    (t.apply (.mark m)).rowsOf slot = t.rowsOf slot := rfl

@[simp] theorem events_mention (t : Tables) (m : Mention) :
    (t.apply (.mention m)).events = t.events := by
  simp only [apply]
  split <;> rfl

@[simp] theorem rowsOf_mention (t : Tables) (m : Mention) :
    (t.apply (.mention m)).rowsOf slot = t.rowsOf slot := by simp [rowsOf]

@[simp] theorem rowsOf_removeMentions (t : Tables) (community : CommunityId) (id : EventId) :
    (t.apply (.removeMentions community id)).rowsOf slot = t.rowsOf slot := rfl

@[simp] theorem watermark_put (t : Tables) (row : EventRow) (mark : MarkKey) :
    (t.apply (.put row)).watermark mark = t.watermark mark := rfl

@[simp] theorem watermark_remove (t : Tables) (key : CommunityId × Stamp) (mark : MarkKey) :
    (t.apply (.remove key)).watermark mark = t.watermark mark := rfl

@[simp] theorem watermark_mention (t : Tables) (m : Mention) (mark : MarkKey) :
    (t.apply (.mention m)).watermark mark = t.watermark mark := by
  simp only [apply]
  split <;> rfl

@[simp] theorem watermark_removeMentions (t : Tables) (community : CommunityId) (id : EventId)
    (mark : MarkKey) : (t.apply (.removeMentions community id)).watermark mark = t.watermark mark :=
  rfl

@[simp] theorem watermark_mark (t : Tables) (m : Watermark) (mark : MarkKey) :
    (t.apply (.mark m)).watermark mark = if m.key = mark then some m.stamp else t.watermark mark := by
  unfold apply watermark
  rw [List.find?_append]
  by_cases same : m.key = mark
  · subst same
    have gone : (t.watermarks.filter (·.key ≠ m.key)).find? (·.key = m.key) = none := by
      rw [List.find?_eq_none]
      intro other member
      simpa using (List.mem_filter.mp member).2
    rw [gone]
    simp
  · have kept : (t.watermarks.filter (·.key ≠ m.key)).find? (·.key = mark) =
        t.watermarks.find? (·.key = mark) := by
      rw [List.find?_filter]
      congr
      funext other
      by_cases mine : other.key = mark
      · simp [mine, Ne.symm same]
      · simp [mine]
    rw [kept]
    simp [same]

theorem taken_iff : t.taken key = true ↔ ∃ row ∈ t.events, row.key = key := by simp [taken]

end Tables

/-! ### The invariant of a slot -/

variable {keys : Set (CommunityId × Stamp)} {head : Option EventRow} {x : Stamp}

/-- No version of the slot and no watermark is above the bound, and nobody else uses the primary
keys `keys`. -/
structure Bounded (slot : Slot) (keys : Set (CommunityId × Stamp)) (bound : Stamp → Prop)
    (t : Tables) : Prop where
  rows : ∀ row ∈ t.rowsOf slot, bound row.stamp
  marks : ∀ mark stamp, slot.owns mark = true → t.watermark mark = some stamp → bound stamp
  own : ∀ row ∈ t.events, row.key ∈ keys → slot.covers row = true

/-- The head is the one live row, and the greatest version. -/
structure Settled (slot : Slot) (keys : Set (CommunityId × Stamp)) (head : Option EventRow)
    (t : Tables) : Prop where
  live : t.live slot = head.toList
  bounded : Bounded slot keys (fun stamp => ∃ h ∈ head, stamp ≤ h.stamp) t

/-- No row is live, and every version is below `x`. -/
structure Cleared (slot : Slot) (keys : Set (CommunityId × Stamp)) (x : Stamp) (t : Tables) :
    Prop where
  live : t.live slot = []
  bounded : Bounded slot keys (· < x) t

namespace Bounded

variable {bound bound' : Stamp → Prop}

theorem mono (bounded : Bounded slot keys bound t) (weaker : ∀ stamp, bound stamp → bound' stamp) :
    Bounded slot keys bound' t where
  rows row member := weaker _ (bounded.rows row member)
  marks mark stamp mine found := weaker _ (bounded.marks mark stamp mine found)
  own := bounded.own

theorem remove (bounded : Bounded slot keys bound t) (key : CommunityId × Stamp) :
    Bounded slot keys bound (t.apply (.remove key)) where
  rows row member := by
    rw [Tables.rowsOf_remove] at member
    exact bounded.rows row (List.mem_filter.mp member).1
  marks mark stamp mine found := bounded.marks mark stamp mine found
  own row member := bounded.own row (List.mem_filter.mp member).1

theorem put (bounded : Bounded slot keys bound t) (covers : slot.covers row = true)
    (below : bound row.stamp) : Bounded slot keys bound (t.apply (.put row)) where
  rows row' member := by
    rw [Tables.rowsOf_put, if_pos covers, List.mem_append, List.mem_singleton] at member
    rcases member with member | rfl
    · exact bounded.rows row' (List.mem_filter.mp member).1
    · exact below
  marks mark stamp mine found := bounded.marks mark stamp mine found
  own row' member submitted := by
    rcases List.mem_append.mp member with member | member
    · exact bounded.own row' (List.mem_filter.mp member).1 submitted
    · rw [List.mem_singleton.mp member]
      exact covers

theorem mark (bounded : Bounded slot keys bound t) {m : Watermark} (below : bound m.stamp) :
    Bounded slot keys bound (t.apply (.mark m)) where
  rows := bounded.rows
  marks mark stamp mine found := by
    rw [Tables.watermark_mark] at found
    split at found
    next =>
      cases found
      exact below
    next => exact bounded.marks mark stamp mine found
  own := bounded.own

theorem mention (bounded : Bounded slot keys bound t) (m : Mention) :
    Bounded slot keys bound (t.apply (.mention m)) where
  rows := by
    rw [Tables.rowsOf_mention]
    exact bounded.rows
  marks mark stamp mine found := by
    rw [Tables.watermark_mention] at found
    exact bounded.marks mark stamp mine found
  own := by
    rw [Tables.events_mention]
    exact bounded.own

theorem removeMentions (bounded : Bounded slot keys bound t) (community : CommunityId)
    (id : EventId) : Bounded slot keys bound (t.apply (.removeMentions community id)) :=
  ⟨bounded.rows, bounded.marks, bounded.own⟩

end Bounded

/-! ### The statements, one by one -/

theorem live_remove (t : Tables) (key : CommunityId × Stamp) :
    (t.apply (.remove key)).live slot = (t.live slot).filter (·.key ≠ key) := by
  rw [Tables.live_eq, Tables.rowsOf_remove, Tables.live_eq, List.filter_filter, List.filter_filter]
  exact List.filter_congr fun row _ => Bool.and_comm _ _

theorem live_put (t : Tables) (row : EventRow) :
    (t.apply (.put row)).live slot = (t.live slot).filter (·.key ≠ row.key) ++
      if slot.covers row && !row.deleted then [row] else [] := by
  rw [Tables.live_eq, Tables.rowsOf_put, Tables.live_eq, List.filter_append, List.filter_filter,
    List.filter_filter]
  congr 1
  · exact List.filter_congr fun row _ => Bool.and_comm _ _
  · cases slot.covers row <;> cases live : row.deleted <;> simp [live]

theorem live_of_rowsOf (same : t'.rowsOf slot = t.rowsOf slot) : t'.live slot = t.live slot := by
  rw [Tables.live_eq, same, ← Tables.live_eq]

namespace Settled

theorem selectHead (settled : Settled slot keys head t) :
    (Tables.exec (.selectHead slot) t).1 = head.map EventRow.stamp := by
  change (sortBy Stamp.newestFirst ((t.live slot).map EventRow.stamp)).head? = _
  rw [settled.live]
  cases head <;> rfl

theorem watermark_lt (settled : Settled slot keys head t) {mark : MarkKey} {stamp : Stamp}
    (newer : ∀ h ∈ head, h.stamp < x) (mine : slot.owns mark = true)
    (found : t.watermark mark = some stamp) : stamp < x := by
  obtain ⟨h, member, below⟩ := settled.bounded.marks mark stamp mine found
  exact lt_of_le_of_lt below (newer h member)

theorem bounded_lt (settled : Settled slot keys head t) (newer : ∀ h ∈ head, h.stamp < x) :
    Bounded slot keys (· < x) t :=
  settled.bounded.mono fun _ ⟨h, member, below⟩ => lt_of_le_of_lt below (newer h member)

theorem cleared_of_none (settled : Settled slot keys none t) : Cleared slot keys x t :=
  ⟨settled.live, settled.bounded_lt nofun⟩

theorem cleared_softDelete {h : EventRow} (settled : Settled slot keys (some h) t)
    (newer : h.stamp < x) :
    Cleared slot keys x (postgres.view t (Tables.exec (.softDelete slot) t).2) := by
  have bounded : Bounded slot keys (· < x) t :=
    settled.bounded_lt fun _ same => Option.some.inj same ▸ newer
  have covers : slot.covers h = true := by
    have member : h ∈ t.live slot := by simp [settled.live]
    exact (Tables.mem_live.mp member).2.1
  have live : (t.apply (.put { h with deleted := true })).live slot = [] := by
    rw [live_put, settled.live]
    simp [EventRow.key, EventRow.stamp]
  have bounded' : Bounded slot keys (· < x) (t.apply (.put { h with deleted := true })) :=
    bounded.put (by simpa using covers) newer
  have changes : (Tables.exec (.softDelete slot) t).2 = h.softDelete := by
    change (t.live slot).flatMap EventRow.softDelete = _
    rw [settled.live]
    simp
  rw [changes]
  unfold EventRow.softDelete
  split
  · refine ⟨?_, (bounded'.remove _).removeMentions _ _⟩
    change (((t.apply (.put { h with deleted := true })).apply (.remove h.key)).live slot) = []
    rw [live_remove, live]
    rfl
  · exact ⟨live, bounded'⟩

theorem cleared_hardDelete {h : EventRow} (settled : Settled slot keys (some h) t)
    (newer : h.stamp < x) {optIn : Bool} (allowed : optIn = true ∨ h.guardsHardDelete = false) :
    (Tables.exec (.hardDelete slot optIn) t).1 = .ok () ∧
      Cleared slot keys x (postgres.view t (Tables.exec (.hardDelete slot optIn) t).2) := by
  have bounded : Bounded slot keys (· < x) t :=
    settled.bounded_lt fun _ same => Option.some.inj same ▸ newer
  have unguarded : (!optIn && (t.live slot).any EventRow.guardsHardDelete) = false := by
    rw [settled.live]
    rcases allowed with rfl | unguarded
    · rfl
    · simp [unguarded]
  have done : Tables.exec (.hardDelete slot optIn) t = (.ok (), [.remove h.key]) := by
    change t.hardDelete slot optIn = _
    unfold Tables.hardDelete
    rw [unguarded, settled.live]
    rfl
  rw [done]
  refine ⟨rfl, ?_, bounded.remove _⟩
  change (t.apply (.remove h.key)).live slot = []
  rw [live_remove, settled.live]
  simp

theorem of_mark (settled : Settled slot keys head t) {m : Watermark}
    (below : ∃ h ∈ head, m.stamp ≤ h.stamp) : Settled slot keys head (t.apply (.mark m)) :=
  ⟨(live_of_rowsOf rfl).trans settled.live, settled.bounded.mark below⟩

theorem of_mentions (settled : Settled slot keys head t) (community : CommunityId) (event : Event) :
    Settled slot keys head
      (postgres.view t (Tables.exec (.insertMentions community event) t).2) := by
  change Settled slot keys head ((t.insertMentions community event).foldl Tables.apply t)
  unfold Tables.insertMentions
  split
  next => exact settled
  next others =>
    clear others
    induction mentionPubkeys event generalizing t with
    | nil => exact settled
    | cons pubkey rest ih =>
      apply ih
      exact ⟨(live_of_rowsOf (Tables.rowsOf_mention t _)).trans settled.live,
        settled.bounded.mention _⟩

end Settled

namespace Cleared

theorem removeMentions (cleared : Cleared slot keys x t) (community : CommunityId) (id : EventId) :
    Cleared slot keys x (t.apply (.removeMentions community id)) :=
  ⟨cleared.live, cleared.bounded.removeMentions community id⟩

theorem guard (cleared : Cleared slot keys row.stamp t) (covers : slot.covers row = true) :
    ∃ changes, t.guardNipRsWatermark row = .ok (true, changes) ∧
      (changes = [] ∨ ∃ mark, changes = [.mark ⟨mark, row.stamp⟩]) := by
  unfold Tables.guardNipRsWatermark
  split
  next => exact ⟨[], rfl, Or.inl rfl⟩
  next dTag tagged =>
    split
    next =>
      dsimp only
      split
      next => exact ⟨_, rfl, Or.inr ⟨_, rfl⟩⟩
      next accepted found =>
        have below := cleared.bounded.marks _ accepted (Slot.owns_of_covers covers tagged) found
        have passes : ¬ row.stamp.dominatedBy accepted := by
          rw [Stamp.dominatedBy_iff]
          exact not_le_of_gt below
        rw [if_pos passes]
        exact ⟨_, rfl, Or.inr ⟨_, rfl⟩⟩
    next => exact ⟨[], rfl, Or.inl rfl⟩

theorem not_taken (cleared : Cleared slot keys row.stamp t) (submitted : row.key ∈ keys) :
    t.taken row.key = false := by
  rw [Bool.eq_false_iff]
  intro taken
  obtain ⟨row', member, same⟩ := Tables.taken_iff.mp taken
  have covers := cleared.bounded.own row' member (same ▸ submitted)
  have below := cleared.bounded.rows row' (Tables.mem_rowsOf.mpr ⟨member, covers⟩)
  have stamps : row'.stamp = row.stamp := congrArg Prod.snd same
  rw [stamps] at below
  exact lt_irrefl _ below

theorem put (cleared : Cleared slot keys row.stamp t) (covers : slot.covers row = true)
    (live : row.deleted = false) : Settled slot keys (some row) (t.apply (.put row)) where
  live := by
    rw [live_put, cleared.live]
    simp [covers, live]
  bounded := by
    apply Bounded.put _ covers ⟨row, rfl, le_refl _⟩
    exact cleared.bounded.mono fun stamp below => ⟨row, rfl, le_of_lt below⟩

theorem of_mark (cleared : Cleared slot keys row.stamp t) (covers : slot.covers row = true)
    (live : row.deleted = false) (m : MarkKey) :
    Settled slot keys (some row) ((t.apply (.mark ⟨m, row.stamp⟩)).apply (.put row)) :=
  -- The two changes are to different tables.
  (cleared.put covers live).of_mark (m := ⟨m, row.stamp⟩) ⟨row, rfl, le_refl _⟩

theorem insert (cleared : Cleared slot keys row.stamp t) (covers : slot.covers row = true)
    (live : row.deleted = false) (submitted : row.key ∈ keys) :
    (Tables.exec (.insert row) t).1 = .ok true ∧
      Settled slot keys (some row) (postgres.view t (Tables.exec (.insert row) t).2) := by
  obtain ⟨changes, passed, shape⟩ := cleared.guard covers
  have done : Tables.exec (.insert row) t = (.ok true, changes ++ [Change.put row]) := by
    change t.insert row = _
    simp [Tables.insert, passed, cleared.not_taken submitted]
  rw [done]
  refine ⟨rfl, ?_⟩
  rcases shape with rfl | ⟨m, rfl⟩
  · exact cleared.put covers live
  · exact cleared.of_mark covers live m

end Cleared

/-! ### One call alone -/

theorem eval_ask (stmt : Stmt) (t : Tables) :
    (ask stmt).run.eval postgres.serve t =
      (.ok (Tables.exec stmt t).1, postgres.view t (Tables.exec stmt t).2) := rfl

theorem eval_inTransaction {α : Type} {task : Task Stmt Reply DbError (Ending α)}
    {e : Ending α} (run : task.run.eval postgres.serve t = (.ok e, t')) :
    (inTransaction task).eval postgres.serve t = (e.map .ok, t') := by
  unfold inTransaction
  rw [Prog.eval_bind, run]
  rfl

theorem withCreatedAt_of_some {event : Event} {createdAt : Int}
    {body : Int → Prog Stmt Reply (Ending (Except DbError Replaced))}
    (time : fromTimestamp (asI64 event.createdAt) = some createdAt) :
    withCreatedAt event body = body createdAt := by
  rw [withCreatedAt, time, okOrInvalid]

theorem withCreatedAt_of_none {event : Event}
    {body : Int → Prog Stmt Reply (Ending (Except DbError Replaced))}
    (time : fromTimestamp (asI64 event.createdAt) = none) :
    withCreatedAt event body =
      .pure (.rollback (.error (.invalidTimestamp (asI64 event.createdAt)))) := by
  rw [withCreatedAt, time, okOrInvalid]

theorem withCreatedAt_cases {event : Event}
    {body : Int → Prog Stmt Reply (Ending (Except DbError Replaced))}
    {Q : Prog Stmt Reply (Ending (Except DbError Replaced)) → Prop}
    (refused : fromTimestamp (asI64 event.createdAt) = none →
      Q (.pure (.rollback (.error (.invalidTimestamp (asI64 event.createdAt))))))
    (taken : ∀ createdAt, fromTimestamp (asI64 event.createdAt) = some createdAt →
      Q (body createdAt)) : Q (withCreatedAt event body) := by
  cases time : fromTimestamp (asI64 event.createdAt) with
  | none =>
    rw [withCreatedAt_of_none time]
    exact refused time
  | some createdAt =>
    rw [withCreatedAt_of_some time]
    exact taken createdAt time

theorem Settled.eval_opening {α : Type} {k : Option Stamp → Task Stmt Reply DbError α}
    (settled : Settled slot keys head t) (lock : Int64) :
    (ask (.advisoryXactLock lock) >>= fun _ => ask (.selectHead slot) >>= k).run.eval
      postgres.serve t = (k (head.map EventRow.stamp)).run.eval postgres.serve t := by
  rw [Task.eval_bind_ok (eval_ask (.advisoryXactLock lock) t)]
  rw [← settled.selectHead]
  exact Task.eval_bind_ok (eval_ask (.selectHead slot) t)

/-- What a call for a version of the slot does in a settled state. -/
structure Replaces (slot : Slot) (keys : Set (CommunityId × Stamp)) (row : EventRow)
    (body : Prog Stmt Reply (Ending (Except DbError Replaced))) : Prop where
  stale : ∀ t h, Settled slot keys (some h) t → row.stamp ≤ h.stamp →
    ∃ t', body.eval postgres.serve t =
      (.rollback (.ok (⟨row.event, row.channelId⟩, false)), t')
  newer : ∀ t head, Settled slot keys head t → (∀ h ∈ head, h.stamp < row.stamp) →
    ∃ t', body.eval postgres.serve t =
      (.commit (.ok (⟨row.event, row.channelId⟩, true)), t') ∧ Settled slot keys (some row) t'

theorem eval_insertVersion (after : Task Stmt Reply DbError Unit)
    (cleared : Cleared slot keys row.stamp t) (covers : slot.covers row = true)
    (live : row.deleted = false) (submitted : row.key ∈ keys)
    (kept : ∀ t, Settled slot keys (some row) t →
      ∃ t', after.run.eval postgres.serve t = (.ok (), t') ∧ Settled slot keys (some row) t') :
    ∃ t', (insertVersion row after).run.eval postgres.serve t =
      (.ok (.commit (⟨row.event, row.channelId⟩, true)), t') ∧ Settled slot keys (some row) t' := by
  obtain ⟨inserted, settled⟩ := cleared.insert covers live submitted
  obtain ⟨t', ran, settled'⟩ := kept _ settled
  refine ⟨t', ?_, settled'⟩
  have first : (Task.reply (ask (.insert row))).run.eval postgres.serve t =
      (.ok true, postgres.view t (Tables.exec (.insert row) t).2) := by
    change ((Tables.exec (.insert row) t).1.mapError id, _) = _
    rw [inserted]
    rfl
  unfold insertVersion
  rw [Task.eval_bind_ok first, if_pos rfl, Task.eval_bind_ok ran]
  rfl

section

variable {communityId : CommunityId} {event : Event} {dTag : String} {channelId : Option Uuid}
  {createdAt : Int}

theorem eval_supersede {existing : EventRow} {nipRs meshStatus : Bool}
    (settled : Settled slot keys (some existing) t) (newer : existing.stamp < x)
    (allowed : nipRs = true ∨ (meshStatus = true → existing.guardsHardDelete = false)) :
    ∃ t', (supersede slot communityId (some existing.stamp) nipRs meshStatus).run.eval
      postgres.serve t = (.ok (), t') ∧ Cleared slot keys x t' := by
  simp only [supersede]
  split
  next hard =>
    have opted : nipRs = true ∨ existing.guardsHardDelete = false := by
      rcases allowed with nipRs | unguarded
      · exact Or.inl nipRs
      · cases nipRs with
        | true => exact Or.inl rfl
        | false => exact Or.inr (unguarded hard)
    obtain ⟨deleted, cleared⟩ := settled.cleared_hardDelete newer opted
    have first : (Task.reply (ask (.hardDelete slot nipRs))).run.eval postgres.serve t =
        (.ok (), postgres.view t (Tables.exec (.hardDelete slot nipRs) t).2) := by
      change ((Tables.exec (.hardDelete slot nipRs) t).1.mapError id, _) = _
      rw [deleted]
      rfl
    rw [Task.eval_bind_ok first]
    exact ⟨_, rfl, cleared.removeMentions _ _⟩
  next => exact ⟨_, rfl, settled.cleared_softDelete newer⟩

theorem guardsHardDelete_of_meshStatus
    (meshStatus : isBuzzMeshStatus event.kind event.tags dTag = true)
    (covers : (Slot.parameterized communityId event.kind event.pubkey dTag).covers row = true) :
    row.guardsHardDelete = false := by
  have kind : row.event.kind = kindBookmarkSet := by
    simp [isBuzzMeshStatus] at meshStatus
    simp [Slot.covers] at covers
    rw [covers.2.1, meshStatus.1.1]
  unfold EventRow.guardsHardDelete
  rw [kind]
  rfl

theorem eval_readWatermark (nipRs : Bool) (mark : MarkKey) (t : Tables) :
    (readWatermark nipRs mark).run.eval postgres.serve t =
      (.ok (if nipRs then t.watermark mark else none), t) := by
  cases nipRs <;> rfl

private theorem any_dominatedBy_of_stale {h : EventRow} (stale : x ≤ h.stamp) :
    ((some h).map EventRow.stamp).any x.dominatedBy = true := by
  simpa using Stamp.dominatedBy_iff.mpr stale

private theorem any_dominatedBy_of_newer (newer : ∀ h ∈ head, h.stamp < x) :
    (head.map EventRow.stamp).any x.dominatedBy = false := by
  cases head with
  | none => rfl
  | some h =>
    rw [Bool.eq_false_iff]
    intro dominated
    exact not_le_of_gt (newer h rfl) (Stamp.dominatedBy_iff.mp (by simpa using dominated))

private theorem watermark_passes (settled : Settled slot keys head t)
    (newer : ∀ h ∈ head, h.stamp < x) {mark : MarkKey} (mine : slot.owns mark = true)
    (nipRs : Bool) : (if nipRs then t.watermark mark else none).any x.dominatedBy = false := by
  cases nipRs with
  | false => rfl
  | true =>
    rw [if_pos rfl]
    cases found : t.watermark mark with
    | none => rfl
    | some stamp =>
      have below := settled.watermark_lt newer mine found
      rw [Bool.eq_false_iff]
      intro dominated
      exact not_le_of_gt below (Stamp.dominatedBy_iff.mp (by simpa using dominated))

theorem replaces_parameterized (time : fromTimestamp (asI64 event.createdAt) = some createdAt)
    (submitted : (communityId, ⟨createdAt, event.id⟩) ∈ keys) :
    Replaces (.parameterized communityId event.kind event.pubkey dTag) keys
      { communityId, event, createdAt, channelId, dTag := some dTag }
      (replaceParameterizedEvent communityId event dTag channelId) := by
  unfold replaceParameterizedEvent
  rw [withCreatedAt_of_some time]
  constructor
  · intro t h settled (stale : ⟨createdAt, event.id⟩ ≤ h.stamp)
    refine ⟨t, eval_inTransaction (e := .rollback _) ?_⟩
    refine (settled.eval_opening _).trans ?_
    rw [Task.eval_bind_ok (eval_readWatermark _ _ t)]
    rw [any_dominatedBy_of_stale stale]
    rfl
  · intro t head settled (newer : ∀ h ∈ head, h.stamp < ⟨createdAt, event.id⟩)
    have mine : (Slot.parameterized communityId event.kind event.pubkey dTag).owns
        ⟨communityId, event.kind, event.pubkey, dTag⟩ = true := by simp [Slot.owns]
    have covers : (Slot.parameterized communityId event.kind event.pubkey dTag).covers
        { communityId, event, createdAt, channelId, dTag := some dTag } = true := by
      simp [Slot.covers]
    -- The head, if there is one, makes room.
    obtain ⟨t₁, superseded, cleared⟩ : ∃ t₁, (supersede
        (.parameterized communityId event.kind event.pubkey dTag) communityId
        (head.map EventRow.stamp) (isNipRs event.kind event.tags dTag)
        (isBuzzMeshStatus event.kind event.tags dTag)).run.eval postgres.serve t = (.ok (), t₁) ∧
        Cleared (.parameterized communityId event.kind event.pubkey dTag) keys
          ⟨createdAt, event.id⟩ t₁ := by
      cases head with
      | none => exact ⟨t, rfl, settled.cleared_of_none⟩
      | some h =>
        have live : h ∈ t.live (.parameterized communityId event.kind event.pubkey dTag) := by
          simp [settled.live]
        apply eval_supersede settled (newer h rfl)
        exact Or.inr fun meshStatus =>
          guardsHardDelete_of_meshStatus meshStatus (Tables.mem_live.mp live).2.1
    obtain ⟨t₂, inserted, settled₂⟩ := eval_insertVersion
      (keepWatermark (isNipRs event.kind event.tags dTag)
        ⟨⟨communityId, event.kind, event.pubkey, dTag⟩, ⟨createdAt, event.id⟩⟩)
      cleared covers rfl submitted (by
        intro t settled
        unfold keepWatermark
        split
        · exact ⟨_, rfl, settled.of_mark ⟨_, rfl, le_refl _⟩⟩
        · exact ⟨t, rfl, settled⟩)
    refine ⟨t₂, eval_inTransaction (e := .commit _) ?_, settled₂⟩
    refine (settled.eval_opening _).trans ?_
    rw [Task.eval_bind_ok (eval_readWatermark _ _ t), any_dominatedBy_of_newer newer,
      watermark_passes settled newer mine]
    exact (Task.eval_bind_ok superseded).trans inserted

theorem replaces_addressable (time : fromTimestamp (asI64 event.createdAt) = some createdAt)
    (submitted : (communityId, ⟨createdAt, event.id⟩) ∈ keys) :
    Replaces (.addressable communityId event.kind event.pubkey channelId) keys
      { communityId, event, createdAt, channelId, dTag := extractDTag event }
      (replaceAddressableEvent communityId event channelId) := by
  unfold replaceAddressableEvent
  rw [withCreatedAt_of_some time]
  constructor
  · intro t h settled (stale : ⟨createdAt, event.id⟩ ≤ h.stamp)
    refine ⟨t, eval_inTransaction (e := .rollback _) ?_⟩
    refine (settled.eval_opening _).trans ?_
    rw [any_dominatedBy_of_stale stale]
    rfl
  · intro t head settled (newer : ∀ h ∈ head, h.stamp < ⟨createdAt, event.id⟩)
    have covers : (Slot.addressable communityId event.kind event.pubkey channelId).covers
        { communityId, event, createdAt, channelId, dTag := extractDTag event } = true := by
      simp [Slot.covers]
    have cleared : Cleared (.addressable communityId event.kind event.pubkey channelId) keys
        ⟨createdAt, event.id⟩ (postgres.view t (Tables.exec (.softDelete
          (.addressable communityId event.kind event.pubkey channelId)) t).2) := by
      cases head with
      | none =>
        have nothing : (Tables.exec (.softDelete
            (.addressable communityId event.kind event.pubkey channelId)) t).2 = [] := by
          change (t.live _).flatMap EventRow.softDelete = _
          rw [settled.live]
          rfl
        rw [nothing]
        exact settled.cleared_of_none
      | some h => exact settled.cleared_softDelete (newer h rfl)
    obtain ⟨t₂, inserted, settled₂⟩ := eval_insertVersion (ask (.insertMentions communityId event))
      cleared covers rfl submitted fun t settled => ⟨_, rfl, settled.of_mentions communityId event⟩
    refine ⟨t₂, eval_inTransaction (e := .commit _) ?_, settled₂⟩
    refine (settled.eval_opening _).trans ?_
    rw [any_dominatedBy_of_newer newer]
    exact (Task.eval_bind_ok (eval_ask (.softDelete _) _)).trans inserted

end

end Db
