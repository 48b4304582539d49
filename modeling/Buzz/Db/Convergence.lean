import Buzz.Db.Slot

/-!
# Replaceable events converge

Any number of calls of a replace function for one slot, in any interleaving, while the rest of
the relay works on other rows. Under the advisory lock each call is atomic, so that the state of
the slot is the one that single calls make of it.
-/
namespace Db

open Lib Nostr Relay

/-- A call of one of the two functions. -/
inductive Call where
  | parameterized (communityId : CommunityId) (event : Event) (dTag : String)
      (channelId : Option Uuid)
  | addressable (communityId : CommunityId) (event : Event) (channelId : Option Uuid)

namespace Call

def event : Call → Event
  | parameterized _ event _ _ => event
  | addressable _ event _ => event

def slot : Call → Slot
  | parameterized communityId event dTag _ =>
    .parameterized communityId event.kind event.pubkey dTag
  | addressable communityId event channelId =>
    .addressable communityId event.kind event.pubkey channelId

/-- The row that the call inserts. -/
def row : Call → EventRow
  | parameterized communityId event dTag channelId =>
    { communityId, event, createdAt := asI64 event.createdAt, channelId, dTag := some dTag }
  | addressable communityId event channelId =>
    { communityId, event, createdAt := asI64 event.createdAt, channelId,
      dTag := extractDTag event }

def body : Call → Prog Stmt Reply (Ending (Except DbError Replaced))
  | parameterized communityId event dTag channelId =>
    replaceParameterizedEvent communityId event dTag channelId
  | addressable communityId event channelId =>
    replaceAddressableEvent communityId event channelId

end Call

variable {slot : Slot} {t t' : Tables} {row : EventRow} {key : CommunityId × Stamp}
  {keys : Set (CommunityId × Stamp)} {head : Option EventRow}

/-! ### The rest of the relay -/

/-- Others leave the versions of the slot and these primary keys alone. -/
structure Elsewhere (slot : Slot) (keys : Set (CommunityId × Stamp)) (t t' : Tables) : Prop where
  rows : t.rowsOf slot = t'.rowsOf slot
  marks : ∀ mark, slot.owns mark = true → t.watermark mark = t'.watermark mark
  keys : ∀ key ∈ keys, t.events.filter (·.key = key) = t'.events.filter (·.key = key)

/-- The statements that a call for the slot sends. -/
def Confined (slot : Slot) (keys : Set (CommunityId × Stamp)) : Stmt → Prop
  | .advisoryXactLock _ | .deleteMentions _ _ | .upsertWatermark _ => True
  | .selectHead other | .softDelete other | .hardDelete other _ => other = slot
  | .selectWatermark mark => slot.owns mark = true
  | .insert row => slot.covers row = true ∧ row.key ∈ keys
  | .insertMentions community event => (community, ⟨asI64 event.createdAt, event.id⟩) ∈ keys

namespace Elsewhere

theorem live (elsewhere : Elsewhere slot keys t t') : t.live slot = t'.live slot :=
  live_of_rowsOf elsewhere.rows

theorem mem_iff (elsewhere : Elsewhere slot keys t t') (submitted : row.key ∈ keys) :
    row ∈ t.events ↔ row ∈ t'.events := by
  have same : row ∈ t.events.filter (·.key = row.key) ↔ row ∈ t'.events.filter (·.key = row.key) := by
    rw [elsewhere.keys row.key submitted]
  simpa using same

theorem taken (elsewhere : Elsewhere slot keys t t') (submitted : key ∈ keys) :
    t.taken key = t'.taken key := by
  rw [Bool.eq_iff_iff, Tables.taken_iff, Tables.taken_iff]
  constructor
  · rintro ⟨row, member, rfl⟩
    exact ⟨row, (elsewhere.mem_iff submitted).mp member, rfl⟩
  · rintro ⟨row, member, rfl⟩
    exact ⟨row, (elsewhere.mem_iff submitted).mpr member, rfl⟩

theorem guard (elsewhere : Elsewhere slot keys t t') (covers : slot.covers row = true) :
    t.guardNipRsWatermark row = t'.guardNipRsWatermark row := by
  unfold Tables.guardNipRsWatermark
  split
  next => rfl
  next dTag tagged =>
    dsimp only
    -- The trigger looks up the watermark of the row's own coordinate.
    rw [elsewhere.marks _ (Slot.owns_of_covers covers tagged)]

theorem settled (elsewhere : Elsewhere slot keys t t') (settled : Settled slot keys head t) :
    Settled slot keys head t' where
  live := elsewhere.live ▸ settled.live
  bounded :=
    { rows := elsewhere.rows ▸ settled.bounded.rows
      marks := fun mark stamp mine found =>
        settled.bounded.marks mark stamp mine ((elsewhere.marks mark mine).trans found)
      own := fun row member submitted =>
        settled.bounded.own row ((elsewhere.mem_iff submitted).mpr member) submitted }

private theorem mentionable (elsewhere : Elsewhere slot keys t t') {community : CommunityId}
    {event : Event} {createdAt : Int} (submitted : (community, ⟨createdAt, event.id⟩) ∈ keys) :
    t.events.any (fun row => row.communityId = community ∧ row.event.id = event.id ∧
      row.createdAt = createdAt ∧ !row.deleted) =
    t'.events.any (fun row => row.communityId = community ∧ row.event.id = event.id ∧
      row.createdAt = createdAt ∧ !row.deleted) := by
  have moved {t t' : Tables} (elsewhere : Elsewhere slot keys t t')
      (found : ∃ row ∈ t.events, row.communityId = community ∧ row.event.id = event.id ∧
        row.createdAt = createdAt ∧ row.deleted = false) :
      ∃ row ∈ t'.events, row.communityId = community ∧ row.event.id = event.id ∧
        row.createdAt = createdAt ∧ row.deleted = false := by
    obtain ⟨row, member, rfl, same, rfl, live⟩ := found
    rw [← same] at submitted
    exact ⟨row, (elsewhere.mem_iff submitted).mp member, rfl, same, rfl, live⟩
  -- The relation is symmetric, so one direction is enough.
  have back : Elsewhere slot keys t' t :=
    ⟨elsewhere.rows.symm, fun mark mine => (elsewhere.marks mark mine).symm,
      fun key submitted => (elsewhere.keys key submitted).symm⟩
  rw [Bool.eq_iff_iff]
  simpa using ⟨moved elsewhere, moved back⟩

theorem exec (elsewhere : Elsewhere slot keys t t') {stmt : Stmt} (confined : Confined slot keys stmt) :
    Tables.exec stmt t = Tables.exec stmt t' := by
  -- Each statement of a call looks at the slot, its marks or its keys only.
  cases stmt with
  | advisoryXactLock key => rfl
  | deleteMentions community id => rfl
  | upsertWatermark m => rfl
  | selectHead other =>
    cases confined
    simp only [Tables.exec, elsewhere.live]
  | softDelete other =>
    cases confined
    simp only [Tables.exec, elsewhere.live]
  | hardDelete other optIn =>
    cases confined
    simp only [Tables.exec, Tables.hardDelete, elsewhere.live]
  | selectWatermark mark => simp only [Tables.exec, elsewhere.marks mark confined]
  | insert row =>
    simp only [Tables.exec, Tables.insert, elsewhere.guard confined.1, elsewhere.taken confined.2]
  | insertMentions community event =>
    simp only [Tables.exec, Tables.insertMentions]
    rw [elsewhere.mentionable confined]

theorem apply (elsewhere : Elsewhere slot keys t t') (change : Change) :
    Elsewhere slot keys (t.apply change) (t'.apply change) := by
  have filters (a b : CommunityId × Stamp) (t : Tables) :
      (t.events.filter (·.key ≠ a)).filter (·.key = b) =
        (t.events.filter (·.key = b)).filter (·.key ≠ a) := by
    rw [List.filter_filter, List.filter_filter]
    exact List.filter_congr fun row _ => Bool.and_comm _ _
  constructor
  · cases change <;> simp [elsewhere.rows]
  · intro mark mine
    cases change <;> simp [elsewhere.marks mark mine]
  · intro key submitted
    cases change with
    | put row =>
      simp only [Tables.apply, List.filter_append]
      rw [filters, elsewhere.keys key submitted, ← filters]
    | remove other =>
      simp only [Tables.apply]
      rw [filters, elsewhere.keys key submitted, ← filters]
    | mark m => exact elsewhere.keys key submitted
    | mention m =>
      rw [Tables.events_mention, Tables.events_mention]
      exact elsewhere.keys key submitted
    | removeMentions community id => exact elsewhere.keys key submitted

end Elsewhere

theorem isolated (slot : Slot) (keys : Set (CommunityId × Stamp)) :
    postgres.Isolated (Confined slot keys) (Elsewhere slot keys) where
  exec _ confined _ _ elsewhere := elsewhere.exec confined
  apply change _ _ elsewhere := elsewhere.apply change

/-! ### Any interleaving -/

variable {ι : Type} {calls : ι → Call}

/-- The primary keys that the calls may use. -/
def submitted (calls : ι → Call) : Set (CommunityId × Stamp) :=
  Set.range fun i => (calls i).row.key

/-- Nothing is stored for the slot, and the primary keys are free. -/
structure Unused (slot : Slot) (keys : Set (CommunityId × Stamp)) (t : Tables) : Prop where
  rows : t.rowsOf slot = []
  marks : ∀ mark, slot.owns mark = true → t.watermark mark = none
  keys : ∀ row ∈ t.events, row.key ∉ keys

/-- The calls at work on the tables. -/
abbrev Writers (ι : Type) := Sessions Stmt Reply Int64 Change Tables ι (Except DbError Replaced)

/-- The call has returned, with this `was_inserted`. -/
def Returned (result : ι → Option (Option (Except DbError Replaced))) (i : ι) (was : Bool) : Prop :=
  ∃ stored, result i = some (some (.ok (stored, was)))

/-- The slot when some calls have returned. -/
structure Converged (slot : Slot) (calls : ι → Call) (c : Outcomes Tables ι (Except DbError Replaced)) :
    Prop where
  /-- Nothing is live until a call was accepted. -/
  none : (∀ i, ¬ Returned c.result i true) → c.db.live slot = []
  /-- One row is live: the best of the accepted events. -/
  best : (∃ i, Returned c.result i true) → ∃ i, Returned c.result i true ∧
    c.db.live slot = [(calls i).row] ∧
    ∀ j, Returned c.result j true → (calls j).row.stamp ≤ (calls i).row.stamp
  /-- When all calls have returned, it is the best of all events. -/
  all : Nonempty ι → (∀ i, ∃ was, Returned c.result i was) → ∃ i,
    c.db.live slot = [(calls i).row] ∧ ∀ j, (calls j).row.stamp ≤ (calls i).row.stamp
  /-- Only a call whose `created_at` is no timestamp is refused. -/
  refused : ∀ i e, c.result i = some (some (.error e)) →
    fromTimestamp (asI64 (calls i).event.createdAt) = .none

/-- The head with the calls that have made it. -/
structure Kept (slot : Slot) (calls : ι → Call) (head : Option EventRow)
    (c : Outcomes Tables ι (Except DbError Replaced)) : Prop where
  settled : Settled slot (submitted calls) head c.db
  accepted : ∀ h ∈ head, ∃ i, Returned c.result i true ∧ (calls i).row = h
  below : ∀ i was, Returned c.result i was → ∃ h ∈ head, (calls i).row.stamp ≤ h.stamp
  refused : ∀ i e, c.result i = some (some (.error e)) →
    fromTimestamp (asI64 (calls i).event.createdAt) = .none

/-- A call is refused at once, or it replaces. -/
inductive Serves (slot : Slot) (calls : ι → Call) (call : Call) : Prop where
  | refuse {e : DbError} (body : call.body = .pure (.rollback (.error e)))
      (time : fromTimestamp (asI64 call.event.createdAt) = none)
  | replace (replaces : Replaces slot (submitted calls) call.row call.body)

section

variable [DecidableEq ι] {result : ι → Option (Option (Except DbError Replaced))} {i j : ι}
  {was was' : Bool}

theorem returned_update_ok {stored : StoredEvent} (waiting : result i = none) :
    Returned (Function.update result i (some (some (.ok (stored, was))))) j was' ↔
      (j = i ∧ was' = was) ∨ Returned result j was' := by
  unfold Returned
  -- Only the result of `i` is new.
  by_cases same : j = i
  · subst same
    rw [Function.update_self, waiting]
    constructor
    · rintro ⟨_, found⟩
      cases found
      exact Or.inl ⟨rfl, rfl⟩
    · rintro (⟨-, rfl⟩ | ⟨_, found⟩)
      · exact ⟨stored, rfl⟩
      · cases found
  · rw [Function.update_of_ne same]
    simp [same]

theorem returned_update_other {value : Option (Except DbError Replaced)} (waiting : result i = none)
    (other : ∀ replaced, value ≠ some (.ok replaced)) :
    Returned (Function.update result i (some value)) j was' ↔ Returned result j was' := by
  unfold Returned
  by_cases same : j = i
  · subst same
    rw [Function.update_self, waiting]
    constructor
    · rintro ⟨_, found⟩
      exact absurd (Option.some.inj found) (other _)
    · rintro ⟨_, found⟩
      cases found
  · rw [Function.update_of_ne same]

end

namespace Kept

variable {c c' : Outcomes Tables ι (Except DbError Replaced)}

private theorem of_returned (kept : Kept slot calls head c) (settled : Settled slot (submitted calls) head c'.db)
    (same : ∀ i was, Returned c'.result i was ↔ Returned c.result i was)
    (refused : ∀ i e, c'.result i = some (some (.error e)) →
      fromTimestamp (asI64 (calls i).event.createdAt) = none) :
    ∃ head', Kept slot calls head' c' ∧
      (c'.db.live slot ≠ c.db.live slot ↔
        ∃ i, ¬ Returned c.result i true ∧ Returned c'.result i true) := by
  refine ⟨head, ⟨settled, ?_, ?_, refused⟩, ?_⟩
  · intro h member
    obtain ⟨i, returned, row⟩ := kept.accepted h member
    exact ⟨i, (same i true).mpr returned, row⟩
  · intro i was returned
    exact kept.below i was ((same i was).mp returned)
  · have live : c'.db.live slot = c.db.live slot := settled.live.trans kept.settled.live.symm
    constructor
    · exact fun changed => absurd live changed
    · rintro ⟨i, before, after⟩
      exact absurd ((same i true).mp after) before

variable [DecidableEq ι]

private theorem refused_update (kept : Kept slot calls head c) {i : ι}
    {value : Option (Except DbError Replaced)}
    (own : ∀ e, value = some (.error e) →
      fromTimestamp (asI64 (calls i).event.createdAt) = none) (j : ι) (e : DbError)
    (found : Function.update c.result i (some value) j = some (some (.error e))) :
    fromTimestamp (asI64 (calls j).event.createdAt) = none := by
  by_cases same : j = i
  · subst same
    rw [Function.update_self] at found
    exact own e (Option.some.inj found)
  · rw [Function.update_of_ne same] at found
    exact kept.refused j e found

private theorem stale (kept : Kept slot calls head c) {i : ι} (waiting : c.result i = none)
    {h : EventRow} (member : h ∈ head) (below : (calls i).row.stamp ≤ h.stamp)
    (stored : StoredEvent) : ∃ head', Kept slot calls head' ⟨c.db,
        Function.update c.result i (some (some (.ok (stored, false))))⟩ ∧
      (c.db.live slot ≠ c.db.live slot ↔ ∃ j, ¬ Returned c.result j true ∧
        Returned (Function.update c.result i (some (some (.ok (stored, false))))) j true) := by
  refine ⟨head, ⟨kept.settled, ?_, ?_, kept.refused_update nofun⟩, ?_⟩
  · intro h' member'
    obtain ⟨j, returned, row⟩ := kept.accepted h' member'
    exact ⟨j, (returned_update_ok waiting).mpr (Or.inr returned), row⟩
  · intro j was returned
    -- The call that has just returned is below the head, and the others were.
    rcases (returned_update_ok waiting).mp returned with ⟨rfl, -⟩ | before
    · exact ⟨h, member, below⟩
    · exact kept.below j was before
  · constructor
    · exact fun changed => absurd rfl changed
    · rintro ⟨j, before, after⟩
      rcases (returned_update_ok waiting).mp after with ⟨-, untrue⟩ | same
      · cases untrue
      · exact absurd same before

private theorem newer (kept : Kept slot calls head c) {i : ι} (waiting : c.result i = none)
    (greater : ∀ h ∈ head, h.stamp < (calls i).row.stamp) {db : Tables}
    (settled : Settled slot (submitted calls) (some (calls i).row) db) (stored : StoredEvent) :
    ∃ head', Kept slot calls head' ⟨db,
        Function.update c.result i (some (some (.ok (stored, true))))⟩ ∧
      (db.live slot ≠ c.db.live slot ↔ ∃ j, ¬ Returned c.result j true ∧
        Returned (Function.update c.result i (some (some (.ok (stored, true))))) j true) := by
  have returned : Returned (Function.update c.result i (some (some (.ok (stored, true))))) i true :=
    (returned_update_ok waiting).mpr (Or.inl ⟨rfl, rfl⟩)
  refine ⟨some (calls i).row, ⟨settled, ?_, ?_, kept.refused_update nofun⟩, ?_⟩
  · intro h member
    cases member
    exact ⟨i, returned, rfl⟩
  · intro j was later
    refine ⟨(calls i).row, rfl, ?_⟩
    rcases (returned_update_ok waiting).mp later with ⟨rfl, -⟩ | before
    · exact le_refl _
    · obtain ⟨h, member, below⟩ := kept.below j was before
      exact le_trans below (le_of_lt (greater h member))
  · -- A head that is greater is another row.
    have changed : db.live slot ≠ c.db.live slot := by
      rw [settled.live, kept.settled.live]
      cases head with
      | none => simp
      | some h =>
        intro same
        have rows : (calls i).row = h := by simpa using same
        exact lt_irrefl _ (rows ▸ greater h rfl)
    -- The call had not returned before.
    have unreturned : ¬ Returned c.result i true := by
      rintro ⟨_, found⟩
      rw [waiting] at found
      cases found
    exact ⟨fun _ => ⟨i, unreturned, returned⟩, fun _ => changed⟩

theorem step (serves : ∀ i, Serves slot calls (calls i)) (kept : Kept slot calls head c)
    (moved : postgres.Atomic (fun i => (calls i).body) (Elsewhere slot (submitted calls)) c c') :
    ∃ head', Kept slot calls head' c' ∧
      (c'.db.live slot ≠ c.db.live slot ↔
        ∃ i, ¬ Returned c.result i true ∧ Returned c'.result i true) := by
  cases moved with
  | quiet => exact kept.of_returned kept.settled (fun _ _ => Iff.rfl) kept.refused
  | others elsewhere =>
    exact kept.of_returned (elsewhere.settled kept.settled) (fun _ _ => Iff.rfl) kept.refused
  | failed waiting =>
    exact kept.of_returned kept.settled (fun _ _ => returned_update_other waiting nofun)
      (kept.refused_update nofun)
  | @ended i ending db waiting alone =>
    cases serves i with
    | @refuse e body time =>
      rw [body] at alone
      cases alone
      exact kept.of_returned kept.settled (fun _ _ => returned_update_other waiting nofun)
        (kept.refused_update fun _ _ => time)
    | replace replaces =>
      -- The call replaces the head, or it finds that it comes too late.
      by_cases greater : ∀ h ∈ head, h.stamp < (calls i).row.stamp
      · obtain ⟨db', run, settled⟩ := replaces.newer c.db head kept.settled greater
        rw [run] at alone
        cases alone
        exact kept.newer waiting greater settled _
      · push Not at greater
        obtain ⟨h, member, below⟩ := greater
        cases member
        obtain ⟨db', run⟩ := replaces.stale c.db h kept.settled below
        rw [run] at alone
        cases alone
        exact kept.stale waiting rfl below _

omit [DecidableEq ι] in
theorem converged (kept : Kept slot calls head c) : Converged slot calls c where
  none unaccepted := by
    cases head with
    | none => exact kept.settled.live
    | some h =>
      obtain ⟨i, returned, -⟩ := kept.accepted h rfl
      exact absurd returned (unaccepted i)
  best := by
    rintro ⟨i, returned⟩
    -- Somebody was accepted, so there is a head, and an accepted call has made it.
    obtain ⟨h, member, -⟩ := kept.below i true returned
    cases member
    obtain ⟨k, accepted, rfl⟩ := kept.accepted h rfl
    refine ⟨k, accepted, kept.settled.live, fun j later => ?_⟩
    obtain ⟨h, member, below⟩ := kept.below j true later
    cases member
    exact below
  all := by
    rintro ⟨i⟩ returned
    obtain ⟨was, first⟩ := returned i
    obtain ⟨h, member, -⟩ := kept.below i was first
    cases member
    obtain ⟨k, -, rfl⟩ := kept.accepted h rfl
    refine ⟨k, kept.settled.live, fun j => ?_⟩
    obtain ⟨was, later⟩ := returned j
    obtain ⟨h, member, below⟩ := kept.below j was later
    cases member
    exact below
  refused := kept.refused

end Kept

/-! ### The two functions under the lock -/

theorem calls_inTransaction {α : Type} {P : Stmt → Prop} {task : Task Stmt Reply DbError (Ending α)}
    (first : task.run.Calls P) : (inTransaction task).Calls P := by
  unfold inTransaction
  apply first.bind
  intro result
  cases result <;> exact .pure _

theorem calls_insertVersion {P : Stmt → Prop} {after : Task Stmt Reply DbError Unit}
    (insert : P (.insert row)) (later : after.run.Calls P) :
    (insertVersion row after).run.Calls P := by
  unfold insertVersion
  apply Task.calls_bind (Task.calls_reply (Task.calls_ask insert))
  intro wasInserted
  split
  · exact Task.calls_bind later fun _ => .pure _
  · exact .pure _

namespace Call

variable {call : Call}

theorem guarded (call : Call) : postgres.Guarded call.slot.lockKey call.body := by
  cases call with
  | parameterized communityId event dTag channelId =>
    simp only [body, replaceParameterizedEvent]
    exact withCreatedAt_cases (Q := postgres.Guarded _) (fun _ => .refuse _)
      fun _ _ => .enter fun _ => rfl
  | addressable communityId event channelId =>
    simp only [body, replaceAddressableEvent]
    exact withCreatedAt_cases (Q := postgres.Guarded _) (fun _ => .refuse _)
      fun _ _ => .enter fun _ => rfl

private theorem createdAt_eq {event : Event} {createdAt : Int}
    (time : fromTimestamp (asI64 event.createdAt) = some createdAt) :
    createdAt = asI64 event.createdAt := (fromTimestamp_eq_some.mp time).1.symm

theorem confined (call : Call) (submitted : call.row.key ∈ keys) :
    call.body.Calls (Confined call.slot keys) := by
  cases call with
  | parameterized communityId event dTag channelId =>
    simp only [body, replaceParameterizedEvent]
    refine withCreatedAt_cases (Q := Prog.Calls _) ?_ ?_
    · exact fun _ => .pure _
    · intro createdAt time
      -- The time of the row is a part of the key.
      have timed : (communityId, ⟨createdAt, event.id⟩) ∈ keys := by
        rw [createdAt_eq time]
        exact submitted
      clear time
      -- Statement by statement, in the order of the source.
      apply calls_inTransaction
      apply Task.calls_bind
      · exact Task.calls_ask trivial
      intro _
      apply Task.calls_bind
      · exact Task.calls_ask rfl
      intro existing
      apply Task.calls_bind
      · unfold readWatermark
        split
        · exact Task.calls_ask (by simp [Confined, slot, Slot.owns])
        · exact .pure _
      intro watermark
      split
      · exact .pure _
      · apply Task.calls_bind
        · unfold supersede
          split
          · exact .pure _
          · split
            · apply Task.calls_bind
              · exact Task.calls_reply (Task.calls_ask rfl)
              · exact fun _ => Task.calls_ask trivial
            · exact Task.calls_ask rfl
        · intro _
          apply calls_insertVersion
          · exact ⟨by simp [slot, Slot.covers], timed⟩
          · unfold keepWatermark
            split
            · exact Task.calls_ask trivial
            · exact .pure _
  | addressable communityId event channelId =>
    simp only [body, replaceAddressableEvent]
    refine withCreatedAt_cases (Q := Prog.Calls _) ?_ ?_
    · exact fun _ => .pure _
    · intro createdAt time
      have timed : (communityId, ⟨createdAt, event.id⟩) ∈ keys := by
        rw [createdAt_eq time]
        exact submitted
      clear time
      apply calls_inTransaction
      apply Task.calls_bind
      · exact Task.calls_ask trivial
      intro _
      apply Task.calls_bind
      · exact Task.calls_ask rfl
      intro existing
      split
      · exact .pure _
      · apply Task.calls_bind
        · exact Task.calls_ask rfl
        intro _
        apply calls_insertVersion
        · exact ⟨by simp [slot, Slot.covers], timed⟩
        · exact Task.calls_ask submitted

theorem serves {i : ι} : Serves (calls i).slot calls (calls i) := by
  have mine : (calls i).row.key ∈ submitted calls := ⟨i, rfl⟩
  generalize calls i = call at mine
  cases call with
  | parameterized communityId event dTag channelId =>
    cases time : fromTimestamp (asI64 event.createdAt) with
    | none => exact .refuse (withCreatedAt_of_none time) time
    | some createdAt =>
      apply Serves.replace
      simp only [row, ← createdAt_eq time]
      exact replaces_parameterized time (createdAt_eq time ▸ mine)
  | addressable communityId event channelId =>
    cases time : fromTimestamp (asI64 event.createdAt) with
    | none => exact .refuse (withCreatedAt_of_none time) time
    | some createdAt =>
      apply Serves.replace
      simp only [row, ← createdAt_eq time]
      exact replaces_addressable time (createdAt_eq time ▸ mine)

end Call

section

variable [DecidableEq ι] {start : Tables} {s : Writers ι}

/-- What the rest of the relay may commit. -/
def others (slot : Slot) (calls : ι → Call) (s : Writers ι) (db : Tables) : Prop :=
  Elsewhere slot (submitted calls) s.committed db

/-- All calls before their first statement. -/
def writers (start : Tables) (calls : ι → Call) : Writers ι :=
  Sessions.init start fun i => (calls i).body

omit [DecidableEq ι] in
private theorem kept_init (unused : Unused slot (submitted calls) start) :
    Kept slot calls none (writers start calls).outcomes where
  settled :=
    { live := by
        change start.live slot = []
        rw [Tables.live_eq, unused.rows]
        rfl
      bounded :=
        { rows := fun row member => by
            change row ∈ start.rowsOf slot at member
            rw [unused.rows] at member
            cases member
          marks := fun mark stamp mine found => by
            change start.watermark mark = some stamp at found
            rw [unused.marks mark mine] at found
            cases found
          own := fun row member mine => absurd mine (unused.keys row member) } }
  accepted := nofun
  below := by rintro i was ⟨_, found⟩; cases found
  refused := nofun

/-- One move of the calls is a move of calls that run alone. -/
private theorem atomic_of_moves (one : ∀ i, (calls i).slot = slot) {s' : Writers ι}
    (serial : postgres.Serial slot.lockKey (fun i => (calls i).body) s)
    (moved : postgres.Moves (others slot calls) s s') :
    postgres.Serial slot.lockKey (fun i => (calls i).body) s' ∧
      postgres.Atomic (fun i => (calls i).body) (Elsewhere slot (submitted calls)) s.outcomes
        s'.outcomes := by
  apply Server.refines _ _ (isolated slot (submitted calls)) _ serial moved
  · intro i
    rw [← one i]
    exact (calls i).guarded
  · intro i
    rw [← one i]
    exact (calls i).confined ⟨i, rfl⟩
  · exact fun _ _ elsewhere => elsewhere

private theorem kept_of_reaches (one : ∀ i, (calls i).slot = slot)
    (unused : Unused slot (submitted calls) start)
    (reached : postgres.Reaches (others slot calls) (writers start calls) s) :
    postgres.Serial slot.lockKey (fun i => (calls i).body) s ∧
      ∃ head, Kept slot calls head s.outcomes := by
  -- On the moves: each is one of calls that run alone, which keeps the head.
  induction reached with
  | refl => exact ⟨Server.serial_init start, none, kept_init unused⟩
  | tail _ moved ih =>
    obtain ⟨serial, head, kept⟩ := ih
    obtain ⟨serial', atomic⟩ := atomic_of_moves one serial moved
    obtain ⟨head', kept', -⟩ := kept.step (fun i => one i ▸ Call.serves) atomic
    exact ⟨serial', head', kept'⟩

/-- Whatever the interleaving, the slot holds the best of the events that were accepted, and a
call returns `was_inserted` exactly when it has changed the live head. -/
theorem replace_converges (one : ∀ i, (calls i).slot = slot)
    (unused : Unused slot (submitted calls) start)
    (reached : postgres.Reaches (others slot calls) (writers start calls) s) :
    Converged slot calls s.outcomes ∧
      ∀ s', postgres.Moves (others slot calls) s s' →
        (s'.committed.live slot ≠ s.committed.live slot ↔
          ∃ i, ¬ Returned s.outcomes.result i true ∧ Returned s'.outcomes.result i true) := by
  obtain ⟨serial, head, kept⟩ := kept_of_reaches one unused reached
  refine ⟨kept.converged, fun s' moved => ?_⟩
  obtain ⟨-, atomic⟩ := atomic_of_moves one serial moved
  obtain ⟨-, -, changed⟩ := kept.step (fun i => one i ▸ Call.serves) atomic
  exact changed

end

/-! ### Two read states -/

namespace Sample

def community : CommunityId := ⟨⟨1⟩⟩
def author : PublicKey := Hex64.repeated 'a' (Eq.refl true)
def dTag : String := "read-state:00000000000000000000000000000000"

def readState (id : EventId) (createdAt : Nat) : Event where
  id := id
  pubkey := author
  createdAt := createdAt
  kind := kindReadState
  tags := [["d", dTag], ["t", "read-state"]]
  content := ""

def versions (i : Fin 2) : Call :=
  .parameterized community
    (if i = 0 then readState (Hex64.repeated '1' (Eq.refl true)) 10
      else readState (Hex64.repeated '2' (Eq.refl true)) 20) dTag none

def coordinate : Slot := .parameterized community kindReadState author dTag

/-- The first call, then the second one, which removes the row of the first. -/
def turns : List (Turn (Fin 2)) := List.replicate 6 (.go 0) ++ List.replicate 8 (.go 1)

end Sample

theorem replace_converges_readStates : ∃ s : Writers (Fin 2),
    postgres.run (writers {} Sample.versions) Sample.turns = some s ∧
    s.committed.events = [(Sample.versions 1).row] ∧ Converged Sample.coordinate Sample.versions s.outcomes := by
  have finished : ((postgres.run (writers {} Sample.versions) Sample.turns).map
      (·.committed.events)) = some [(Sample.versions 1).row] := by decide +kernel
  obtain ⟨s, ran, events⟩ := Option.map_eq_some_iff.mp finished
  refine ⟨s, ran, events, (replace_converges ?_ ?_ (Server.reaches_of_run postgres ran)).1⟩
  · decide
  · exact ⟨rfl, fun _ _ => rfl, nofun⟩

end Db
