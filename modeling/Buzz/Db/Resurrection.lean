import Buzz.Db.Requests
import Buzz.Lib.Run

/-!
# Events that come back

Sequences of replacements and deletions at one coordinate. An earlier version is kept from coming
back by its soft-deleted row, which has its primary key, by the watermark of a read state, or only
by a live head that is newer. A version of the last kind is exposed by a deletion that takes the
head: `Spares` is the condition on a step that excludes this.
-/
namespace Db

open Lib Nostr Relay

/-- An event that was live and is not live any more is not live at any later time. -/
def NoReturn (c : Coordinate) (start : Tables) (requests : List (Request c)) : Prop :=
  ∀ early middle late, requests = early ++ middle ++ late → ∀ event,
    Live c (early.foldl (perform c) start) event →
    ¬ Live c ((early ++ middle).foldl (perform c) start) event →
    ¬ Live c (requests.foldl (perform c) start) event

variable {c : Coordinate} {slot : Slot} {t t' : Tables} {row r : EventRow}

/-! ### What keeps an event from coming back -/

def stampOf (event : Event) : Stamp := ⟨asI64 event.createdAt, event.id⟩

namespace Coordinate

/-- A soft-deleted row has the primary key of the event. -/
def Entombed (c : Coordinate) (t : Tables) (event : Event) : Prop :=
  ∃ r ∈ t.events, r.deleted = true ∧ r.key = (c.communityId, stampOf event)

instance (c : Coordinate) (t : Tables) (event : Event) : Decidable (c.Entombed t event) :=
  inferInstanceAs (Decidable (∃ r ∈ t.events, _))

end Coordinate

/-- The tables, with the events of the coordinate that have been live. -/
structure History where
  tables : Tables
  past : List Event := []

def History.perform (c : Coordinate) (h : History) (request : Request c) : History where
  tables := Db.perform c h.tables request
  past := h.past ++ ((Db.perform c h.tables request).live c.slot).map (·.event)

/-- A deletion that takes the live head finds no mesh status there, and every event that has been
live before is a read state or has left its soft-deleted row. -/
def Spares (c : Coordinate) (h : History) (request : Request c) : Prop :=
  ∀ row ∈ h.tables.live c.slot, Takes row request → row.holdsMeshStatus = false ∧
    ∀ event ∈ h.past, Live c h.tables event ∨ c.readState event = true ∨ c.Entombed h.tables event

instance (c : Coordinate) (h : History) (request : Request c) : Decidable (Spares c h request) :=
  inferInstanceAs (Decidable (∀ row ∈ h.tables.live c.slot, _))

/-- An event that has been live is live, or one of three things is in its way. -/
structure Shielded (c : Coordinate) (h : History) : Prop where
  unique : h.tables.Unique
  keys : ∀ row ∈ h.tables.live c.slot, row.key = (c.communityId, stampOf row.event)
  live : ∀ row ∈ h.tables.live c.slot, row.event ∈ h.past
  marked : ∀ event ∈ h.past, c.readState event = true →
    ∃ stamp, h.tables.watermark c.mark = some stamp ∧ stampOf event ≤ stamp
  shield : ∀ event ∈ h.past, ¬ Live c h.tables event →
    c.readState event = true ∨ c.Entombed h.tables event ∨
      ∃ row ∈ h.tables.live c.slot, stampOf event ≤ row.stamp

namespace Shielded

variable {h : History} {request : Request c}

private theorem stamp_eq (shielded : Shielded c h) (live : row ∈ h.tables.live c.slot) :
    row.stamp = stampOf row.event := congrArg Prod.snd (shielded.keys row live)

private theorem not_live_of_deleted (deleted : r.deleted = true) : r ∉ t.live slot := by
  intro live
  rw [(Tables.mem_live.mp live).2.2] at deleted
  cases deleted

private theorem mem_live_of_accepts (accepts : Accepts c row t t')
    (covers : c.slot.covers row = true) (live : row.deleted = false) :
    r ∈ t'.live c.slot ↔ r = row := by
  rw [Tables.mem_live]
  constructor
  · rintro ⟨member, mine, alive⟩
    rcases accepts.only r member with same | ⟨old, other⟩ | deleted
    · exact same
    · exact absurd (Tables.mem_live.mpr ⟨old, mine, alive⟩) other
    · rw [alive] at deleted
      cases deleted
  · rintro rfl
    exact ⟨accepts.here, covers, live⟩

private theorem ne_of_accepts (shielded : Shielded c h) (accepts : Accepts c row h.tables t')
    (key : row.key = (c.communityId, stampOf row.event)) {event : Event} (past : event ∈ h.past)
    (unlive : ¬ Live c h.tables event) : row.event ≠ event := by
  rintro rfl
  have stamp : row.stamp = stampOf row.event := congrArg Prod.snd key
  rcases shielded.shield row.event past unlive with readState | ⟨r, member, deleted, same⟩ |
    ⟨r, live, below⟩
  · obtain ⟨mark, found, below⟩ := shielded.marked row.event past readState
    have above := accepts.passed readState mark found
    rw [stamp] at above
    exact absurd below (not_le_of_gt above)
  · exact accepts.free r member (not_live_of_deleted deleted) (same.trans key.symm)
  · have above := accepts.newer r live
    rw [stamp] at above
    exact absurd below (not_le_of_gt above)

private theorem mem_past {event : Event} (member : event ∈ (h.perform c request).past) :
    event ∈ h.past ∨ Live c (h.perform c request).tables event := by
  rcases List.mem_append.mp member with past | now
  · exact Or.inl past
  · obtain ⟨row, live, rfl⟩ := List.mem_map.mp now
    exact Or.inr ⟨row, live, rfl⟩

private theorem live_mem_past (live : row ∈ (h.perform c request).tables.live c.slot) :
    row.event ∈ (h.perform c request).past :=
  List.mem_append_right _ (List.mem_map_of_mem live)

private theorem unchanged (shielded : Shielded c h) (same : perform c h.tables request = h.tables) :
    Shielded c (h.perform c request) := by
  have tables : (h.perform c request).tables = h.tables := same
  have past {event : Event} (member : event ∈ (h.perform c request).past) : event ∈ h.past := by
    rcases mem_past member with before | ⟨row, live, rfl⟩
    · exact before
    · rw [tables] at live
      exact shielded.live row live
  constructor
  · rw [tables]
    exact shielded.unique
  · rw [tables]
    exact shielded.keys
  · exact fun row live => live_mem_past live
  · rw [tables]
    exact fun event member => shielded.marked event (past member)
  · rw [tables]
    exact fun event member => shielded.shield event (past member)

private theorem accepted (shielded : Shielded c h)
    (accepts : Accepts c row h.tables (h.perform c request).tables)
    (covers : c.slot.covers row = true) (alive : row.deleted = false)
    (key : row.key = (c.communityId, stampOf row.event)) : Shielded c (h.perform c request) := by
  have stamp : row.stamp = stampOf row.event := congrArg Prod.snd key
  have head {r : EventRow} : r ∈ (h.perform c request).tables.live c.slot ↔ r = row :=
    mem_live_of_accepts accepts covers alive
  have past {event : Event} (member : event ∈ (h.perform c request).past) :
      event ∈ h.past ∨ event = row.event := by
    rcases mem_past member with before | ⟨r, live, rfl⟩
    · exact Or.inl before
    · exact Or.inr (congrArg EventRow.event (head.mp live))
  constructor
  · exact accepts.unique
  · intro r live
    rw [head.mp live]
    exact key
  · exact fun r live => live_mem_past live
  · -- The watermark of a read state only moves up.
    intro event member readState
    rw [accepts.mark]
    rcases past member with before | rfl
    · obtain ⟨mark, found, below⟩ := shielded.marked event before readState
      split
      next conforms =>
        have above := accepts.passed conforms mark found
        exact ⟨_, rfl, le_trans below (le_of_lt above)⟩
      next => exact ⟨mark, found, below⟩
    · rw [if_pos readState]
      exact ⟨_, rfl, le_of_eq stamp.symm⟩
  · intro event member unlive
    rcases past member with before | rfl
    · by_cases live : Live c h.tables event
      · -- It was live until now, so it is older than the new head.
        obtain ⟨r, live, rfl⟩ := live
        refine Or.inr (Or.inr ⟨row, head.mpr rfl, ?_⟩)
        rw [← shielded.stamp_eq live]
        exact le_of_lt (accepts.newer r live)
      · rcases shielded.shield event before live with readState | ⟨r, there, deleted, same⟩ |
          ⟨r, live, below⟩
        · exact Or.inl readState
        · exact Or.inr (Or.inl
            ⟨r, accepts.kept r there (not_live_of_deleted deleted), deleted, same⟩)
        · exact Or.inr (Or.inr
            ⟨row, head.mpr rfl, le_trans below (le_of_lt (accepts.newer r live))⟩)
    · exact absurd ⟨row, head.mpr rfl, rfl⟩ unlive

/-- A live row with the shape of a read state holds one. -/
private theorem readState_of_conforms (covers : c.slot.covers row = true)
    (conforms : row.conformsNipRs = true) : c.readState row.event = true := by
  simp only [Coordinate.slot, Slot.covers, decide_eq_true_eq] at covers
  rw [EventRow.conformsNipRs, covers.2.2.2] at conforms
  exact conforms

private theorem deleted (shielded : Shielded c h) (spares : Spares c h request)
    {rows : List EventRow} (removed : perform c h.tables request = softDeletes h.tables rows)
    (sublist : rows.Sublist h.tables.events)
    (taken : ∀ r ∈ rows, r.deleted = false ∧ Takes r request) :
    Shielded c (h.perform c request) ∧
      ∀ event, Live c (h.perform c request).tables event → Live c h.tables event := by
  have tables : (h.perform c request).tables = softDeletes h.tables rows := removed
  have distinct : (rows.map EventRow.key).Nodup := shielded.unique.sublist (sublist.map _)
  have live {r : EventRow} (now : r ∈ (h.perform c request).tables.live c.slot) :
      r ∈ h.tables.live c.slot := by
    rw [tables, Tables.mem_live] at now
    obtain ⟨member, covers, alive⟩ := now
    rcases mem_of_softDeletes member with ⟨old, -⟩ | ⟨row, -, rfl⟩
    · exact Tables.mem_live.mpr ⟨old, covers, alive⟩
    · cases alive
  have stays {r : EventRow} (there : r ∈ h.tables.events) (spared : r ∉ rows) :
      r ∈ (h.perform c request).tables.events := by
    rw [tables]
    apply mem_softDeletes_of_ne there
    intro row among same
    exact spared (shielded.unique.eq_of_key there (sublist.subset among) same ▸ among)
  have tomb {event : Event} (entombed : c.Entombed h.tables event) :
      c.Entombed (h.perform c request).tables event := by
    obtain ⟨r, there, deleted, same⟩ := entombed
    refine ⟨r, stays there ?_, deleted, same⟩
    intro among
    rw [(taken r among).1] at deleted
    cases deleted
  have past {event : Event} (member : event ∈ (h.perform c request).past) : event ∈ h.past := by
    rcases mem_past member with before | ⟨row, now, rfl⟩
    · exact before
    · exact shielded.live row (live now)
  refine ⟨⟨?_, ?_, ?_, ?_, ?_⟩, ?_⟩
  · rw [tables]
    exact shielded.unique.view _
  · exact fun row now => shielded.keys row (live now)
  · exact fun row now => live_mem_past now
  · intro event member readState
    rw [tables, watermark_softDeletes]
    exact shielded.marked event (past member) readState
  · intro event member unlive
    by_cases before : Live c h.tables event
    · -- The deletion has taken it: it is guarded, or it has left its row.
      obtain ⟨r, alive, rfl⟩ := before
      obtain ⟨there, covers, undeleted⟩ := Tables.mem_live.mp alive
      have among : r ∈ rows := by
        by_contra spared
        exact unlive ⟨r, Tables.mem_live.mpr ⟨stays there spared, covers, undeleted⟩, rfl⟩
      obtain ⟨plain, -⟩ := spares r alive (taken r among).2
      cases conforms : r.conformsNipRs with
      | true => exact Or.inl (readState_of_conforms covers conforms)
      | false =>
        refine Or.inr (Or.inl ⟨{ r with deleted := true }, ?_, rfl, shielded.keys r alive⟩)
        rw [tables]
        exact mem_softDeletes_of_mem distinct among (by simp [EventRow.purged, conforms, plain])
    · rcases shielded.shield event (past member) before with readState | entombed |
        ⟨r, alive, below⟩
      · exact Or.inl readState
      · exact Or.inr (Or.inl (tomb entombed))
      · obtain ⟨there, covers, undeleted⟩ := Tables.mem_live.mp alive
        by_cases among : r ∈ rows
        · rcases (spares r alive (taken r among).2).2 event (past member) with
            contradiction | readState | entombed
          · exact absurd contradiction before
          · exact Or.inl readState
          · exact Or.inr (Or.inl (tomb entombed))
        · exact Or.inr (Or.inr
            ⟨r, Tables.mem_live.mpr ⟨stays there among, covers, undeleted⟩, below⟩)
  · rintro event ⟨row, now, same⟩
    exact ⟨row, live now, same⟩

/-- One request keeps the shields, and does not bring an event back. -/
theorem step (shielded : Shielded c h) (spares : Spares c h request) :
    Shielded c (h.perform c request) ∧ ∀ event ∈ h.past, ¬ Live c h.tables event →
      ¬ Live c (h.perform c request).tables event := by
  cases request with
  | replace version channelId =>
    rcases perform_replace_cases shielded.unique version channelId with same | accepts
    · refine ⟨shielded.unchanged same, fun event _ unlive now => unlive ?_⟩
      have tables : (h.perform c (.replace version channelId)).tables = h.tables := same
      rw [tables] at now
      exact now
    · have covers := c.covers_row version channelId
      refine ⟨shielded.accepted accepts covers rfl rfl, ?_⟩
      rintro event past unlive ⟨r, now, same⟩
      obtain rfl := (mem_live_of_accepts accepts covers rfl).mp now
      exact shielded.ne_of_accepts accepts rfl past unlive same
  | deleteByCoordinate secs =>
    obtain ⟨rows, removed, sublist, taken⟩ :=
      perform_delete h.tables (.deleteByCoordinate secs) trivial
    obtain ⟨kept, live⟩ := shielded.deleted spares removed sublist taken
    exact ⟨kept, fun event _ unlive now => unlive (live event now)⟩
  | deleteEvent eventId =>
    obtain ⟨rows, removed, sublist, taken⟩ :=
      perform_delete h.tables (.deleteEvent eventId) trivial
    obtain ⟨kept, live⟩ := shielded.deleted spares removed sublist taken
    exact ⟨kept, fun event _ unlive now => unlive (live event now)⟩

end Shielded

/-! ### Whole runs -/

variable {h : History} {requests : List (Request c)}

theorem tables_foldl (c : Coordinate) (h : History) (requests : List (Request c)) :
    (requests.foldl (History.perform c) h).tables = requests.foldl (perform c) h.tables := by
  induction requests generalizing h with
  | nil => rfl
  | cons request requests ih => exact ih (h.perform c request)

theorem Shielded.run (shielded : Shielded c h)
    (spares : Along (History.perform c) (Spares c) h requests) :
    Shielded c (requests.foldl (History.perform c) h) :=
  spares.invariant (fun _ _ here kept => (kept.step here).1) shielded

theorem mem_past_foldl {event : Event} (member : event ∈ h.past) (requests : List (Request c)) :
    event ∈ (requests.foldl (History.perform c) h).past := by
  induction requests generalizing h with
  | nil => exact member
  | cons request requests ih => exact ih (List.mem_append_left _ member)

theorem Shielded.not_live_run (shielded : Shielded c h)
    (spares : Along (History.perform c) (Spares c) h requests) {event : Event}
    (past : event ∈ h.past) (unlive : ¬ Live c h.tables event) :
    ¬ Live c (requests.foldl (History.perform c) h).tables event := by
  induction requests generalizing h with
  | nil => exact unlive
  | cons request requests ih =>
    obtain ⟨here, later⟩ := spares
    obtain ⟨kept, absent⟩ := shielded.step here
    exact ih kept later (List.mem_append_left _ past) (absent event past unlive)

/-- In a run whose deletions spare the exposed events no event comes back. -/
theorem noReturn_of_spares {start : Tables} (unique : start.Unique)
    (vacant : start.live c.slot = [])
    (spares : Along (History.perform c) (Spares c) ⟨start, []⟩ requests) :
    NoReturn c start requests := by
  rintro early middle late rfl event live unlive
  have fresh : Shielded c ⟨start, []⟩ :=
    ⟨unique, by simp [vacant], by simp [vacant], nofun, nofun⟩
  rw [List.append_assoc, Along.append_iff, Along.append_iff] at spares
  obtain ⟨first, second, third⟩ := spares
  have shielded := fresh.run first
  rw [← tables_foldl c ⟨start, []⟩] at live unlive ⊢
  rw [List.foldl_append] at unlive
  rw [List.foldl_append, List.foldl_append]
  have past : event ∈ (early.foldl (History.perform c) ⟨start, []⟩).past := by
    obtain ⟨row, alive, rfl⟩ := live
    exact shielded.live row alive
  exact (shielded.run second).not_live_run third (mem_past_foldl past middle) unlive

namespace ReadState

def coordinate : Coordinate where
  communityId := ⟨⟨1⟩⟩
  kind := kindReadState
  pubkey := Hex64.repeated 'a' (Eq.refl true)
  dTag := "read-state:00000000000000000000000000000000"

def readState (id : EventId) (createdAt : Nat) : coordinate.Version where
  val :=
    { id, createdAt, pubkey := coordinate.pubkey, kind := coordinate.kind,
      tags := [["d", coordinate.dTag], ["t", "read-state"]], content := "" }
  property := ⟨rfl, rfl⟩

def old : coordinate.Version := readState (Hex64.repeated '1' (Eq.refl true)) 10
def new : coordinate.Version := readState (Hex64.repeated '2' (Eq.refl true)) 20

/-- The old one is superseded, the new one deleted, and the old one submitted again. -/
def replay : List (Request coordinate) :=
  [.replace old none, .replace new none, .deleteByCoordinate 30, .replace old none]

end ReadState

theorem noReturn_readState : ReadState.replay.foldl (perform ReadState.coordinate) {} =
      { watermarks := [⟨ReadState.coordinate.mark, stampOf ReadState.new.val⟩] } ∧
    NoReturn ReadState.coordinate {} ReadState.replay :=
  ⟨by decide +kernel, noReturn_of_spares List.nodup_nil rfl (by decide +kernel)⟩

/-! ### A mesh status comes back -/

namespace Mesh

def coordinate : Coordinate where
  communityId := ⟨⟨1⟩⟩
  kind := kindBookmarkSet
  pubkey := Hex64.repeated 'a' (Eq.refl true)
  dTag := "buzz-mesh-member-status:0"

def status (id : EventId) (createdAt : Nat) : coordinate.Version where
  val :=
    { id, createdAt, pubkey := coordinate.pubkey, kind := coordinate.kind,
      tags := [["d", coordinate.dTag], ["k", "buzz-mesh-status"]], content := "" }
  property := ⟨rfl, rfl⟩

def old : coordinate.Version := status (Hex64.repeated '1' (Eq.refl true)) 10
def new : coordinate.Version := status (Hex64.repeated '2' (Eq.refl true)) 20

end Mesh

/-- The old status is superseded, the new one deleted, and the old one submitted again. -/
theorem meshStatus_returns : ¬ NoReturn Mesh.coordinate {}
    [.replace Mesh.old none, .replace Mesh.new none, .deleteByCoordinate 30,
      .replace Mesh.old none] := by
  intro noReturn
  apply noReturn [.replace Mesh.old none] [.replace Mesh.new none]
    [.deleteByCoordinate 30, .replace Mesh.old none] rfl Mesh.old.val
  · decide +kernel
  · decide +kernel
  · decide +kernel

end Db
