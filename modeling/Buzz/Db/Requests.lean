import Buzz.Db.Slot

/-!
# Requests at one coordinate

Replacements and deletions of the events of one coordinate, each run alone, and what each of them
does to the rows: a replacement changes nothing or makes its version the head (`Accepts`), and a
deletion soft-deletes some live rows, of which the triggers remove some for good.
-/
namespace Db

open Lib Nostr Relay

structure Coordinate where
  communityId : CommunityId
  kind : Kind
  pubkey : PublicKey
  dTag : String

namespace Coordinate

def slot (c : Coordinate) : Slot := .parameterized c.communityId c.kind c.pubkey c.dTag

def mark (c : Coordinate) : MarkKey := ⟨c.communityId, c.kind, c.pubkey, c.dTag⟩

/-- An event of the coordinate, with any tags. -/
abbrev Version (c : Coordinate) := { event : Event // event.kind = c.kind ∧ event.pubkey = c.pubkey }

end Coordinate

/-- The row of a version. -/
def Coordinate.row (c : Coordinate) (version : c.Version) (channelId : Option Uuid) : EventRow where
  communityId := c.communityId
  event := version.val
  createdAt := asI64 version.val.createdAt
  channelId := channelId
  dTag := some c.dTag

namespace Coordinate

theorem slot_eq (c : Coordinate) (version : c.Version) :
    Slot.parameterized c.communityId version.val.kind version.val.pubkey c.dTag = c.slot := by
  rw [version.property.1, version.property.2]
  rfl

theorem mark_eq (c : Coordinate) (version : c.Version) :
    (⟨c.communityId, version.val.kind, version.val.pubkey, c.dTag⟩ : MarkKey) = c.mark := by
  rw [version.property.1, version.property.2]
  rfl

theorem covers_row (c : Coordinate) (version : c.Version) (channelId : Option Uuid) :
    c.slot.covers (c.row version channelId) = true := by
  simp [slot, row, Slot.covers, version.property]

/-- The event is a read state of the coordinate. -/
def readState (c : Coordinate) (event : Event) : Bool := isNipRs event.kind event.tags c.dTag

end Coordinate

inductive Request (c : Coordinate) where
  | replace (version : c.Version) (channelId : Option Uuid)
  | deleteByCoordinate (deletionCreatedAtSecs : Int)
  | deleteEvent (eventId : EventId)

variable {c : Coordinate} {t t' : Tables} {row r : EventRow} {rows : List EventRow}

/-- The tables when a transaction has run alone. -/
def Tables.after (t : Tables) (program : Prog Stmt Reply (Ending (Except DbError Replaced))) :
    Tables :=
  match program.eval postgres.serve t with
  | (.commit _, t') => t'
  | (.rollback _, _) => t

/-- The tables after the request. -/
def perform (c : Coordinate) (t : Tables) : Request c → Tables
  | .replace version channelId =>
    t.after (replaceParameterizedEvent c.communityId version.val c.dTag channelId)
  | .deleteByCoordinate secs =>
    match softDeleteByCoordinate c.communityId c.kind c.pubkey c.dTag secs t with
    | .ok (_, t') => t'
    | .error _ => t
  | .deleteEvent eventId => (softDeleteEvent c.communityId eventId t).2

/-- A live row of the coordinate holds the event. -/
def Live (c : Coordinate) (t : Tables) (event : Event) : Prop :=
  ∃ row ∈ t.live c.slot, row.event = event

instance (c : Coordinate) (t : Tables) (event : Event) : Decidable (Live c t event) :=
  inferInstanceAs (Decidable (∃ row ∈ t.live c.slot, row.event = event))

/-! ### Primary keys -/

/-- The primary key of `events`. -/
def Tables.Unique (t : Tables) : Prop := (t.events.map EventRow.key).Nodup

namespace Tables.Unique

theorem apply (unique : t.Unique) (change : Change) : (t.apply change).Unique := by
  have filtered (key : CommunityId × Stamp) :
      ((t.events.filter (·.key ≠ key)).map EventRow.key).Nodup :=
    unique.sublist (List.filter_sublist.map _)
  cases change with
  | put row =>
    unfold Tables.Unique Tables.apply
    rw [List.map_append, List.nodup_append]
    refine ⟨filtered row.key, List.nodup_singleton _, ?_⟩
    intro key member other single
    obtain ⟨r, inside, rfl⟩ := List.mem_map.mp member
    obtain rfl : other = row.key := by simpa using single
    simpa using (List.mem_filter.mp inside).2
  | remove key => exact filtered key
  | mark m => exact unique
  | mention m =>
    unfold Tables.Unique
    rw [events_mention]
    exact unique
  | removeMentions community id => exact unique

theorem view (unique : t.Unique) (changes : List Change) : (postgres.view t changes).Unique := by
  induction changes generalizing t with
  | nil => exact unique
  | cons change changes ih => exact ih (unique.apply change)

theorem eq_of_key (unique : t.Unique) (one : r ∈ t.events) (other : row ∈ t.events)
    (same : r.key = row.key) : r = row :=
  List.inj_on_of_nodup_map unique one other same

end Tables.Unique

/-! ### Soft deletions -/

/-- The row does not outlive its soft deletion. -/
def EventRow.purged (row : EventRow) : Bool := row.conformsNipRs || row.holdsMeshStatus

theorem mem_put : r ∈ (t.apply (.put row)).events ↔
    (r ∈ t.events ∧ r.key ≠ row.key) ∨ r = row := by
  simp [Tables.apply]

theorem mem_remove {key : CommunityId × Stamp} : r ∈ (t.apply (.remove key)).events ↔
    r ∈ t.events ∧ r.key ≠ key := by
  simp [Tables.apply]

theorem mem_softDelete : r ∈ (postgres.view t row.softDelete).events ↔
    (r ∈ t.events ∧ r.key ≠ row.key) ∨
      (r = { row with deleted := true } ∧ row.purged = false) := by
  have put : r ∈ (t.apply (.put { row with deleted := true })).events ↔
      (r ∈ t.events ∧ r.key ≠ row.key) ∨ r = { row with deleted := true } := mem_put
  unfold EventRow.softDelete EventRow.purged
  -- A read state or a mesh status is removed behind its soft deletion.
  cases row.conformsNipRs || row.holdsMeshStatus with
  | false =>
    change r ∈ (t.apply (.put { row with deleted := true })).events ↔ _
    simp [put]
  | true =>
    change r ∈ ((t.apply (.put { row with deleted := true })).apply (.remove row.key)).events ↔ _
    rw [mem_remove, put]
    constructor
    · rintro ⟨old | rfl, differs⟩
      · exact Or.inl old
      · exact absurd rfl differs
    · rintro (⟨member, differs⟩ | ⟨-, kept⟩)
      · exact ⟨Or.inl ⟨member, differs⟩, differs⟩
      · cases kept

theorem watermark_softDelete (t : Tables) (row : EventRow) (mark : MarkKey) :
    (postgres.view t row.softDelete).watermark mark = t.watermark mark := by
  unfold EventRow.softDelete
  split <;> rfl

/-- Rows that are soft-deleted one after the other. -/
def softDeletes (t : Tables) (rows : List EventRow) : Tables :=
  postgres.view t (rows.flatMap EventRow.softDelete)

theorem softDeletes_cons (t : Tables) (row : EventRow) (rows : List EventRow) :
    softDeletes t (row :: rows) = softDeletes (postgres.view t row.softDelete) rows :=
  Server.view_append postgres t row.softDelete _

theorem watermark_softDeletes (t : Tables) (rows : List EventRow) (mark : MarkKey) :
    (softDeletes t rows).watermark mark = t.watermark mark := by
  induction rows generalizing t with
  | nil => rfl
  | cons row rows ih => rw [softDeletes_cons, ih, watermark_softDelete]

theorem mem_of_softDeletes (member : r ∈ (softDeletes t rows).events) :
    (r ∈ t.events ∧ ∀ row ∈ rows, r.key ≠ row.key) ∨
      ∃ row ∈ rows, r = { row with deleted := true } := by
  -- Row by row: a row that is left has not been touched, or it is the mark of one of them.
  induction rows generalizing t with
  | nil => exact Or.inl ⟨member, nofun⟩
  | cons row rows ih =>
    rw [softDeletes_cons] at member
    rcases ih member with ⟨before, differs⟩ | ⟨row', later, rfl⟩
    · rcases mem_softDelete.mp before with ⟨old, differs'⟩ | ⟨rfl, -⟩
      · refine Or.inl ⟨old, fun row' among => ?_⟩
        rcases List.mem_cons.mp among with rfl | among
        · exact differs'
        · exact differs row' among
      · exact Or.inr ⟨row, List.mem_cons_self, rfl⟩
    · exact Or.inr ⟨row', List.mem_cons_of_mem _ later, rfl⟩

theorem mem_softDeletes_of_ne (member : r ∈ t.events) (differs : ∀ row ∈ rows, r.key ≠ row.key) :
    r ∈ (softDeletes t rows).events := by
  induction rows generalizing t with
  | nil => exact member
  | cons row rows ih =>
    rw [softDeletes_cons]
    exact ih (mem_softDelete.mpr (Or.inl ⟨member, differs row List.mem_cons_self⟩))
      fun row' among => differs row' (List.mem_cons_of_mem _ among)

theorem mem_softDeletes_of_mem (distinct : (rows.map EventRow.key).Nodup) (member : row ∈ rows)
    (stays : row.purged = false) :
    { row with deleted := true } ∈ (softDeletes t rows).events := by
  induction rows generalizing t with
  | nil => cases member
  | cons first rows ih =>
    rw [softDeletes_cons]
    rw [List.map_cons, List.nodup_cons] at distinct
    -- The later ones have other keys and leave the first one alone.
    rcases List.mem_cons.mp member with rfl | later
    · apply mem_softDeletes_of_ne
      · exact mem_softDelete.mpr (Or.inr ⟨rfl, stays⟩)
      · intro row' among same
        exact distinct.1 (List.mem_map.mpr ⟨row', among, same.symm⟩)
    · exact ih distinct.2 later

/-! ### What a replacement does -/

variable {slot : Slot} {version : Event} {channelId : Option Uuid}

/-- The live rows of the slot are gone or soft-deleted. -/
structure Removed (slot : Slot) (t t' : Tables) : Prop where
  kept : ∀ r ∈ t.events, r ∉ t.live slot → r ∈ t'.events
  only : ∀ r ∈ t'.events, (r ∈ t.events ∧ r ∉ t.live slot) ∨ r.deleted = true
  marks : ∀ mark, t'.watermark mark = t.watermark mark
  unique : t'.Unique

private theorem mem_removes : r ∈ (postgres.view t (rows.map fun row => .remove row.key)).events ↔
    r ∈ t.events ∧ ∀ row ∈ rows, r.key ≠ row.key := by
  induction rows generalizing t with
  | nil => simp [Server.view]
  | cons row rows ih =>
    change r ∈ (postgres.view (t.apply (.remove row.key)) _).events ↔ _
    rw [ih, mem_remove]
    simp [and_assoc]

private theorem watermark_removes (t : Tables) (rows : List EventRow) (mark : MarkKey) :
    (postgres.view t (rows.map fun row => .remove row.key)).watermark mark = t.watermark mark := by
  induction rows generalizing t with
  | nil => rfl
  | cons row rows ih => exact ih (t.apply (.remove row.key))

private theorem key_ne_of_not_live (unique : t.Unique) (member : r ∈ t.events)
    (other : r ∉ t.live slot) : ∀ row ∈ t.live slot, r.key ≠ row.key := by
  intro row live same
  have there := (Tables.mem_live.mp live).1
  exact other (unique.eq_of_key member there same ▸ live)

private theorem not_live_of_key_ne (differs : ∀ row ∈ t.live slot, r.key ≠ row.key) :
    r ∉ t.live slot := fun live => differs r live rfl

private theorem removed_refl (unique : t.Unique) (empty : t.live slot = []) : Removed slot t t where
  kept _ member _ := member
  only _ member := Or.inl ⟨member, by simp [empty]⟩
  marks _ := rfl
  unique := unique

private theorem removed_softDelete (unique : t.Unique) :
    Removed slot t (softDeletes t (t.live slot)) where
  kept r member other :=
    mem_softDeletes_of_ne member (key_ne_of_not_live unique member other)
  only r member := by
    rcases mem_of_softDeletes member with ⟨old, differs⟩ | ⟨row, -, rfl⟩
    · exact Or.inl ⟨old, not_live_of_key_ne differs⟩
    · exact Or.inr rfl
  marks := watermark_softDeletes t (t.live slot)
  unique := unique.view _

private theorem removed_hardDelete (unique : t.Unique) (community : CommunityId) (id : EventId) :
    Removed slot t ((postgres.view t ((t.live slot).map fun row => .remove row.key)).apply
      (.removeMentions community id)) where
  kept r member other :=
    mem_removes.mpr ⟨member, key_ne_of_not_live unique member other⟩
  only r member := by
    obtain ⟨old, differs⟩ := mem_removes.mp member
    exact Or.inl ⟨old, not_live_of_key_ne differs⟩
  marks mark := watermark_removes t (t.live slot) mark
  unique := (unique.view _).apply _

theorem live_eq_nil_of_selectHead (none : (Tables.exec (.selectHead slot) t).1 = none) :
    t.live slot = [] := by
  have sorted : (sortBy Stamp.newestFirst ((t.live slot).map EventRow.stamp)).head? = .none := none
  rw [List.head?_eq_none_iff] at sorted
  have perm := sortBy_perm Stamp.newestFirst ((t.live slot).map EventRow.stamp)
  rw [sorted] at perm
  simpa using perm.nil_eq

theorem supersede_cases (unique : t.Unique) (community : CommunityId) (nipRs meshStatus : Bool)
    {existing : Option Stamp} (head : (Tables.exec (.selectHead slot) t).1 = existing) :
    (∃ e t₁, (supersede slot community existing nipRs meshStatus).run.eval postgres.serve t =
      (.error e, t₁)) ∨
    ∃ t₁, (supersede slot community existing nipRs meshStatus).run.eval postgres.serve t =
      (.ok (), t₁) ∧ Removed slot t t₁ := by
  cases existing with
  | none => exact Or.inr ⟨t, rfl, removed_refl unique (live_eq_nil_of_selectHead head)⟩
  | some stamp =>
    simp only [supersede]
    split
    next =>
      have first : (Task.reply (ask (.hardDelete slot nipRs))).run.eval postgres.serve t =
          ((t.hardDelete slot nipRs).1, postgres.view t (t.hardDelete slot nipRs).2) := by
        change ((t.hardDelete slot nipRs).1.mapError id, _) = _
        cases (t.hardDelete slot nipRs).1 <;> rfl
      unfold Tables.hardDelete at first
      split at first
      next => exact Or.inl ⟨_, _, Task.eval_bind_error first⟩
      next => exact Or.inr ⟨_, Task.eval_bind_ok first, removed_hardDelete unique _ _⟩
    next => exact Or.inr ⟨_, rfl, removed_softDelete unique⟩

instance : Std.TransCmp Stamp.newestFirst := by
  unfold Stamp.newestFirst
  infer_instance

theorem Stamp.newestFirst_isLE {a b : Stamp} : (a.newestFirst b).isLE = true ↔ b ≤ a := by
  rw [Stamp.le_iff]
  unfold Stamp.newestFirst
  rcases lt_trichotomy b.createdAt a.createdAt with less | same | greater
  · rw [compare_lt_iff_lt.mpr less]
    simp [less]
  · rw [compare_eq_iff_eq.mpr same]
    rcases lt_trichotomy a.id.toHex b.id.toHex with less | equal | greater
    · rw [compare_lt_iff_lt.mpr less]
      simp [same, less.le, Ordering.then]
    · rw [compare_eq_iff_eq.mpr equal]
      simp [same, equal, Ordering.then]
    · rw [compare_gt_iff_gt.mpr greater]
      simp [same, not_le_of_gt greater, Ordering.then]
  · rw [compare_gt_iff_gt.mpr greater]
    simp [Ordering.then, not_lt_of_gt greater, (ne_of_gt greater)]

theorem le_of_selectHead {head : Stamp} (found : (Tables.exec (.selectHead slot) t).1 = some head)
    (live : r ∈ t.live slot) : r.stamp ≤ head := by
  have first : (sortBy Stamp.newestFirst ((t.live slot).map EventRow.stamp)).head? = some head :=
    found
  obtain ⟨rest, sorted⟩ := List.head?_eq_some_iff.mp first
  have member : r.stamp ∈ head :: rest := by
    rw [← sorted, (sortBy_perm _ _).mem_iff]
    exact List.mem_map_of_mem live
  have pairwise : (sortBy Stamp.newestFirst ((t.live slot).map EventRow.stamp)).Pairwise
      fun a b => (a.newestFirst b).isLE = true := sorted_sortBy _
  rw [sorted, List.pairwise_cons] at pairwise
  rcases List.mem_cons.mp member with same | later
  · exact le_of_eq same
  · exact Stamp.newestFirst_isLE.mp (pairwise.1 _ later)

/-- The version is in the table now, next to what was there. -/
structure Inserted (row : EventRow) (t t' : Tables) : Prop where
  free : ∀ r ∈ t.events, r.key ≠ row.key
  mem : ∀ r, r ∈ t'.events ↔ r ∈ t.events ∨ r = row
  unique : t'.Unique

/-- The trigger touches the watermark only. -/
private theorem guard_changes {changes : List Change} {inserts : Bool}
    (passed : t.guardNipRsWatermark row = .ok (inserts, changes)) :
    changes = [] ∨ row.conformsNipRs = true ∧ ∃ m, changes = [.mark m] := by
  -- The guard writes a mark or nothing, whichever of its branches is taken.
  unfold Tables.guardNipRsWatermark at passed
  split at passed
  next =>
    cases passed
    exact Or.inl rfl
  next =>
    split at passed
    next conforms =>
      dsimp only at passed
      split at passed
      next =>
        cases passed
        exact Or.inr ⟨conforms, _, rfl⟩
      next =>
        split at passed
        next =>
          cases passed
          exact Or.inr ⟨conforms, _, rfl⟩
        next =>
          split at passed
          next =>
            cases passed
            exact Or.inl rfl
          next => cases passed
    next =>
      cases passed
      exact Or.inl rfl

private theorem inserted_view (unique : t.Unique) {changes : List Change}
    (shape : changes = [] ∨ ∃ m, changes = [.mark m]) (free : t.taken row.key = false) :
    Inserted row t (postgres.view t (changes ++ [Change.put row])) := by
  have differs : ∀ r ∈ t.events, r.key ≠ row.key := by
    intro r member same
    have taken := Tables.taken_iff.mpr ⟨r, member, same⟩
    rw [free] at taken
    cases taken
  have put (t' : Tables) (events : t'.events = t.events) (r : EventRow) :
      r ∈ (t'.apply (.put row)).events ↔ r ∈ t.events ∨ r = row := by
    rw [mem_put, events]
    constructor
    · rintro (⟨member, -⟩ | same)
      · exact Or.inl member
      · exact Or.inr same
    · rintro (member | same)
      · exact Or.inl ⟨member, differs r member⟩
      · exact Or.inr same
  refine ⟨differs, ?_, unique.view _⟩
  rcases shape with rfl | ⟨m, rfl⟩
  · exact put t rfl
  · exact put (t.apply (.mark m)) rfl

theorem insertVersion_cases (unique : t.Unique) {nipRs : Bool} (conforms : row.conformsNipRs = nipRs)
    (mark : MarkKey) :
    (∃ e t₂, (insertVersion row (keepWatermark nipRs ⟨mark, row.stamp⟩)).run.eval postgres.serve t =
      (.error e, t₂)) ∨
    (∃ value t₂, (insertVersion row (keepWatermark nipRs ⟨mark, row.stamp⟩)).run.eval
      postgres.serve t = (.ok (.rollback value), t₂)) ∨
    ∃ value t₂, (insertVersion row (keepWatermark nipRs ⟨mark, row.stamp⟩)).run.eval
        postgres.serve t = (.ok (.commit value), t₂) ∧ Inserted row t t₂ ∧
      t₂.watermark mark = if nipRs then some row.stamp else t.watermark mark := by
  unfold insertVersion
  -- The reply of the insertion and the tables behind it.
  have first : (Task.reply (ask (.insert row))).run.eval postgres.serve t =
      ((t.insert row).1, postgres.view t (t.insert row).2) := by
    change ((t.insert row).1.mapError id, _) = _
    cases (t.insert row).1 <;> rfl
  cases passed : t.guardNipRsWatermark row with
  | error e =>
    rw [Tables.insert, passed] at first
    exact Or.inl ⟨_, _, Task.eval_bind_error first⟩
  | ok guard =>
    obtain ⟨inserts, changes⟩ := guard
    rw [Tables.insert, passed] at first
    -- A row that the trigger skips, or whose key is taken, is a rollback.
    cases inserts with
    | false =>
      rw [Task.eval_bind_ok first]
      exact Or.inr (Or.inl ⟨_, _, rfl⟩)
    | true =>
      cases free : t.taken row.key with
      | true =>
        simp only [free, ↓reduceIte] at first
        rw [Task.eval_bind_ok first]
        exact Or.inr (Or.inl ⟨_, _, rfl⟩)
      | false =>
        simp only [free, Bool.false_eq_true, ↓reduceIte] at first
        rw [Task.eval_bind_ok first]
        have shape := guard_changes passed
        have inserted := inserted_view unique (shape.imp_right And.right) free
        refine Or.inr (Or.inr ?_)
        cases nipRs with
        | true =>
          refine ⟨_, _, rfl, ⟨inserted.free, inserted.mem, inserted.unique⟩, ?_⟩
          exact (Tables.watermark_mark _ _ _).trans (if_pos rfl)
        | false =>
          -- Only a read state moves a mark.
          obtain rfl : changes = [] := by
            rcases shape with none | ⟨yes, -⟩
            · exact none
            · rw [conforms] at yes
              cases yes
          exact ⟨_, _, rfl, inserted, rfl⟩

/-- The version has become the head. -/
structure Accepts (c : Coordinate) (row : EventRow) (t t' : Tables) : Prop where
  newer : ∀ r ∈ t.live c.slot, r.stamp < row.stamp
  passed : c.readState row.event = true → ∀ stamp, t.watermark c.mark = some stamp →
    stamp < row.stamp
  free : ∀ r ∈ t.events, r ∉ t.live c.slot → r.key ≠ row.key
  kept : ∀ r ∈ t.events, r ∉ t.live c.slot → r ∈ t'.events
  here : row ∈ t'.events
  only : ∀ r ∈ t'.events, r = row ∨ (r ∈ t.events ∧ r ∉ t.live c.slot) ∨ r.deleted = true
  mark : t'.watermark c.mark =
    if c.readState row.event then some row.stamp else t.watermark c.mark
  unique : t'.Unique

theorem accepts_of_steps {t₁ : Tables} (removed : Removed c.slot t t₁) (inserted : Inserted row t₁ t')
    (newer : ∀ r ∈ t.live c.slot, r.stamp < row.stamp)
    (passed : c.readState row.event = true → ∀ stamp, t.watermark c.mark = some stamp →
      stamp < row.stamp)
    (mark : t'.watermark c.mark =
      if c.readState row.event then some row.stamp else t₁.watermark c.mark) :
    Accepts c row t t' where
  newer := newer
  passed := passed
  free r member other := inserted.free r (removed.kept r member other)
  kept r member other := (inserted.mem r).mpr (Or.inl (removed.kept r member other))
  here := (inserted.mem row).mpr (Or.inr rfl)
  only r member := by
    rcases (inserted.mem r).mp member with before | same
    · exact Or.inr (removed.only r before)
    · exact Or.inl same
  mark := by rw [mark, removed.marks]
  unique := inserted.unique

private theorem after_of_commit {task : Task Stmt Reply DbError (Ending Replaced)}
    {value : Replaced} (run : task.run.eval postgres.serve t = (.ok (.commit value), t')) :
    t.after (inTransaction task) = t' := by
  unfold Tables.after
  rw [eval_inTransaction run]
  rfl

private theorem after_of_rollback {task : Task Stmt Reply DbError (Ending Replaced)}
    {value : Replaced} (run : task.run.eval postgres.serve t = (.ok (.rollback value), t')) :
    t.after (inTransaction task) = t := by
  unfold Tables.after
  rw [eval_inTransaction run]
  rfl

private theorem after_of_error {task : Task Stmt Reply DbError (Ending Replaced)} {e : DbError}
    (run : task.run.eval postgres.serve t = (.error e, t')) : t.after (inTransaction task) = t := by
  have evaluated : (inTransaction task).eval postgres.serve t = (.rollback (.error e), t') := by
    unfold inTransaction
    rw [Prog.eval_bind, run]
    rfl
  unfold Tables.after
  rw [evaluated]

private theorem newer_of_passed {x : Stamp}
    (passed : ((Tables.exec (.selectHead slot) t).1 : Option Stamp).any x.dominatedBy = false) :
    ∀ r ∈ t.live slot, r.stamp < x := by
  intro r live
  cases found : (Tables.exec (.selectHead slot) t).1 with
  | none =>
    rw [live_eq_nil_of_selectHead found] at live
    cases live
  | some head =>
    have below := le_of_selectHead found live
    rw [found] at passed
    have greater : ¬ x ≤ head := by
      intro dominated
      have yes := Stamp.dominatedBy_iff.mpr dominated
      simp [yes] at passed
    exact lt_of_le_of_lt below (lt_of_not_ge greater)

private theorem lt_of_watermark_passed {x stamp : Stamp} {mark : MarkKey}
    (passed : (t.watermark mark).any x.dominatedBy = false)
    (found : t.watermark mark = some stamp) : stamp < x := by
  rw [found] at passed
  apply lt_of_not_ge
  intro dominated
  have yes := Stamp.dominatedBy_iff.mpr dominated
  simp [yes] at passed

/-- After the two reads the transaction is a check, the removal and the insert. -/
private def replaceFrom (c : Coordinate) (version : c.Version) (channelId : Option Uuid)
    (existing watermark : Option Stamp) : Task Stmt Reply DbError (Ending Replaced) :=
  let row := c.row version channelId
  if existing.any row.stamp.dominatedBy || watermark.any row.stamp.dominatedBy then
    pure (.rollback (⟨version.val, channelId⟩, false))
  else do
    supersede c.slot c.communityId existing (c.readState version.val)
      (isBuzzMeshStatus version.val.kind version.val.tags c.dTag)
    insertVersion row (keepWatermark (c.readState version.val) ⟨c.mark, row.stamp⟩)

private theorem eval_replaceParameterizedAt (c : Coordinate) (version : c.Version)
    (channelId : Option Uuid) (t : Tables) :
    (replaceParameterizedAt c.communityId version.val c.dTag channelId
      (asI64 version.val.createdAt)).run.eval postgres.serve t =
    (replaceFrom c version channelId (Tables.exec (.selectHead c.slot) t).1
      (if c.readState version.val then t.watermark c.mark else none)).run.eval postgres.serve t := by
  unfold replaceParameterizedAt
  dsimp only
  rw [c.slot_eq version, c.mark_eq version]
  refine (Task.eval_bind_ok (eval_ask (.advisoryXactLock _) t)).trans ?_
  refine (Task.eval_bind_ok (eval_ask (.selectHead c.slot) t)).trans ?_
  exact Task.eval_bind_ok (eval_readWatermark _ _ t)

private theorem replaceFrom_cases (unique : t.Unique) (version : c.Version)
    (channelId : Option Uuid) {task : Task Stmt Reply DbError (Ending Replaced)}
    {watermark : Option Stamp}
    (read : watermark = if c.readState version.val then t.watermark c.mark else none)
    (run : task.run.eval postgres.serve t =
      (replaceFrom c version channelId (Tables.exec (.selectHead c.slot) t).1 watermark).run.eval
        postgres.serve t) :
    t.after (inTransaction task) = t ∨
      Accepts c (c.row version channelId) t (t.after (inTransaction task)) := by
  unfold replaceFrom at run
  dsimp only at run
  split at run
  next => exact Or.inl (after_of_rollback run)
  next passed =>
    rw [Bool.not_eq_true, Bool.or_eq_false_iff] at passed
    obtain ⟨newer, unmarked⟩ := passed
    -- Behind the checks: the old head goes first, and then the version is inserted.
    rcases supersede_cases unique c.communityId (c.readState version.val)
        (isBuzzMeshStatus version.val.kind version.val.tags c.dTag) rfl with
      ⟨e, t₁, failed⟩ | ⟨t₁, superseded, removed⟩
    · exact Or.inl (after_of_error (run.trans (Task.eval_bind_error failed)))
    · rw [Task.eval_bind_ok superseded] at run
      have conforms : (c.row version channelId).conformsNipRs = c.readState version.val := rfl
      rcases insertVersion_cases removed.unique conforms c.mark with
        ⟨e, t₂, failed⟩ | ⟨value, t₂, conflict⟩ | ⟨value, t₂, done, inserted, mark⟩
      · exact Or.inl (after_of_error (run.trans failed))
      · exact Or.inl (after_of_rollback (run.trans conflict))
      · rw [after_of_commit (run.trans done)]
        right
        apply accepts_of_steps removed inserted (newer_of_passed newer) _ mark
        intro (readState : c.readState version.val = true) stamp found
        rw [read, if_pos readState] at unmarked
        exact lt_of_watermark_passed unmarked found

theorem perform_replace_cases (unique : t.Unique) (version : c.Version) (channelId : Option Uuid) :
    perform c t (.replace version channelId) = t ∨
      Accepts c (c.row version channelId) t (perform c t (.replace version channelId)) := by
  simp only [perform, replaceParameterizedEvent]
  cases time : fromTimestamp (asI64 version.val.createdAt) with
  | none =>
    left
    rw [withCreatedAt_of_none time]
    rfl
  | some createdAt =>
    rw [withCreatedAt_of_some time, ← (fromTimestamp_eq_some.mp time).1]
    exact replaceFrom_cases unique version channelId rfl (eval_replaceParameterizedAt c version _ t)

/-! ### What a deletion does -/

/-- The deletion is meant for the row. -/
def Takes (row : EventRow) : Request c → Prop
  | .replace _ _ => False
  | .deleteByCoordinate secs => ∃ time, fromTimestamp secs = some time ∧ row.createdAt ≤ time
  | .deleteEvent eventId => row.event.id = eventId

instance (row : EventRow) : (request : Request c) → Decidable (Takes row request)
  | .replace _ _ => isFalse id
  | .deleteByCoordinate secs =>
    decidable_of_iff (∃ time ∈ fromTimestamp secs, row.createdAt ≤ time) Iff.rfl
  | .deleteEvent eventId => inferInstanceAs (Decidable (row.event.id = eventId))

def Request.deletes : Request c → Prop
  | .replace _ _ => False
  | .deleteByCoordinate _ | .deleteEvent _ => True

theorem perform_delete (t : Tables) (request : Request c) (deletes : request.deletes) :
    ∃ rows, perform c t request = softDeletes t rows ∧ rows.Sublist t.events ∧
      ∀ r ∈ rows, r.deleted = false ∧ Takes r request := by
  -- Both deletions soft-delete what meets a condition.
  have filtered (condition : EventRow → Bool) (takes : ∀ r, condition r = true → Takes r request) :
      ∃ rows, (t.softDeleteWhere condition).2 = softDeletes t rows ∧ rows.Sublist t.events ∧
        ∀ r ∈ rows, r.deleted = false ∧ Takes r request := by
    refine ⟨_, rfl, List.filter_sublist, fun r member => ?_⟩
    have holds := (List.mem_filter.mp member).2
    simp only [Bool.and_eq_true, Bool.not_eq_true'] at holds
    exact ⟨holds.2, takes r holds.1⟩
  cases request with
  | replace version channelId => cases deletes
  | deleteByCoordinate secs =>
    cases time : fromTimestamp secs with
    | none =>
      simp only [perform, softDeleteByCoordinate, time]
      exact ⟨[], rfl, List.nil_sublist _, nofun⟩
    | some deletionCreatedAt =>
      simp only [perform, softDeleteByCoordinate, time]
      apply filtered
      intro r holds
      simp only [Bool.and_eq_true, decide_eq_true_eq] at holds
      exact ⟨deletionCreatedAt, time, holds.2⟩
  | deleteEvent eventId =>
    apply filtered
    intro r holds
    simp only [decide_eq_true_eq] at holds
    exact holds.2

end Db
