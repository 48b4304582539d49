import Buzz.Lib.Serial
import Buzz.Push.Lease

/-!
# Concurrent acceptance

Calls of `accept_lease_event` with any interleaving. All that a call reads belongs to its author
or carries its event id, and the author's lock is held from before the first read. An event id is
a hash over the author's key, so calls of different authors do not meet.
-/
namespace Push

open Lib Nostr Relay Db

/-- What the relay passes on of a validated event. -/
structure Call where
  communityId : CommunityId
  event : Event
  installationId : String
  generation : Int
  expiresAt : Int
  active : Option ActiveLease

namespace Call

variable (call : Call)

def author : PublicKey := call.event.pubkey

def address : Address := ⟨call.communityId, call.event.pubkey, call.installationId⟩

def version : LeaseVersion :=
  ⟨call.event.id, asI64 call.event.createdAt, call.generation, call.expiresAt⟩

def transaction (hash : LockHash) (maxActiveLeases now : Int) : Prog Stmt Reply (Ending Exit) :=
  acceptLeaseEvent hash now call.communityId call.event call.installationId call.version
    call.active maxActiveLeases

def lock (hash : LockHash) : Int64 := hash.authorLock call.communityId call.author

/-! ### What a call asks -/

/-- The statements that a call can make. -/
def Asks : Stmt → Prop
  | .advisoryXactLock _ => True
  | .selectSource communityId id => communityId = call.communityId ∧ id = call.event.id
  | .selectCurrent address | .countActive address | .existsEndpoint address _ _
  | .retireSource address => address = call.address
  | .deactivateExpired communityId author _ =>
    communityId = call.communityId ∧ author = call.author
  | .insertEvent row => row.communityId = call.communityId ∧ row.pubkey = call.author ∧
    row.id = call.event.id ∧ row.kind = kindPushLease
  | .upsertLease row => row.address = call.address ∧ row.sourceEventId = call.event.id
  | .backfillPushMatchJobs communityId _ => communityId = call.communityId

variable {call} {P : Stmt → Prop}

theorem lockGate_calls {hash : LockHash}
    (asks : P (.advisoryXactLock (hash.gateLock call.communityId))) :
    (lockGate hash call.communityId call.active).run.Calls P := by
  unfold lockGate
  split
  next => exact Task.calls_ask asks
  next => exact .pure _

theorem checkSource_calls (asks : P (.selectSource call.communityId call.event.id)) :
    (checkSource call.address call.event.id).run.Calls P := by
  refine Task.calls_bind (Task.calls_ask asks) fun existing => ?_
  cases existing with
  | none => exact .pure _
  | some other => exact .pure _

theorem checkOrder_calls (asks : P (.selectCurrent call.address)) :
    (checkOrder call.address call.version).run.Calls P := by
  refine Task.calls_bind (Task.calls_ask asks) fun current => ?_
  match current with
  | none => exact .pure _
  | some (stamp, generation) =>
    exact Task.calls_bind Task.calls_guard fun _ => Task.calls_guard

theorem checkActivation_calls {maxActiveLeases : Int} (counts : P (.countActive call.address))
    (exists_ : ∀ appProfile endpointHash, P (.existsEndpoint call.address appProfile endpointHash)) :
    (checkActivation call.address maxActiveLeases call.active).run.Calls P := by
  cases call.active with
  | none => exact .pure _
  | some active =>
    refine Task.calls_bind (Task.calls_ask counts) fun count => ?_
    refine Task.calls_bind Task.calls_guard fun _ => ?_
    exact Task.calls_bind (Task.calls_ask (exists_ _ _)) fun duplicate => Task.calls_guard

theorem replaceLease_calls (now : Int) :
    (replaceLease now call.address call.event.id call.version call.active).run.Calls call.Asks := by
  refine Task.calls_bind (Task.calls_ask rfl) fun _ => ?_
  refine Task.calls_bind Task.calls_ofExcept fun createdAt => ?_
  refine Task.calls_bind (Task.calls_ask ⟨rfl, rfl, rfl, rfl⟩) fun inserted => ?_
  refine Task.calls_bind Task.calls_ofExcept fun _ => ?_
  refine Task.calls_bind (Task.calls_ask ⟨rfl, rfl⟩) fun upserted => ?_
  refine Task.calls_bind Task.calls_ofExcept fun _ => ?_
  split
  next => exact Task.calls_ask rfl
  next => exact .pure _

theorem transaction_calls (call : Call) (hash : LockHash) (maxActiveLeases now : Int) :
    (call.transaction hash maxActiveLeases now).Calls call.Asks := by
  refine Prog.Calls.bind ?_ fun ending => ?_
  · refine Task.calls_bind (Task.calls_ask trivial) fun _ => ?_
    refine Task.calls_bind (Task.calls_ask trivial) fun _ => ?_
    refine Task.calls_bind (lockGate_calls trivial) fun _ => ?_
    refine Task.calls_bind (checkSource_calls ⟨rfl, rfl⟩) fun _ => ?_
    refine Task.calls_bind (checkOrder_calls rfl) fun _ => ?_
    refine Task.calls_bind (Task.calls_ask ⟨rfl, rfl⟩) fun cleaned => ?_
    refine Task.calls_bind Task.calls_ofExcept fun _ => ?_
    exact Task.calls_bind (checkActivation_calls rfl fun _ _ => rfl) fun _ => replaceLease_calls now
  · cases ending with
    | ok done => exact .pure _
    | error exit => exact .pure _

/-- Nothing is read before the author's lock. -/
theorem transaction_enters (call : Call) (hash : LockHash) (maxActiveLeases now : Int) :
    postgres.Enters (call.lock hash) (call.transaction hash maxActiveLeases now) :=
  .mute () (fun _ => rfl) (.take fun _ => rfl)

/-! ### What a call sees -/

variable (call) in
def seesLease (row : Lease) : Bool :=
  row.address.communityId = call.communityId ∧
    (row.address.author = call.author ∨ row.sourceEventId = call.event.id)

variable (call) in
def seesEvent (row : EventRow) : Bool :=
  row.communityId = call.communityId ∧
    (row.pubkey = call.author ∨ row.id = call.event.id ∨ row.kind ∈ pushKinds)

/-- The tables are the same as far as the call sees them. -/
structure Agree (call : Call) (t t' : Tables) : Prop where
  leases : t.leases.filter call.seesLease = t'.leases.filter call.seesLease
  events : t.events.filter call.seesEvent = t'.events.filter call.seesEvent

variable {t t' t'' : Tables}

theorem Agree.refl (t : Tables) : call.Agree t t := ⟨rfl, rfl⟩

theorem Agree.trans (first : call.Agree t t') (second : call.Agree t' t'') : call.Agree t t'' :=
  ⟨first.leases.trans second.leases, first.events.trans second.events⟩

theorem Agree.activeLeases (agrees : call.Agree t t') :
    t.activeLeases call.communityId call.author = t'.activeLeases call.communityId call.author := by
  refine Table.filter_of_seen agrees.leases fun row holds => ?_
  simp only [Lease.belongsTo, Bool.and_eq_true, decide_eq_true_eq] at holds
  simp [seesLease, holds]

theorem Agree.leasesAt (agrees : call.Agree t t') :
    t.leasesAt call.address = t'.leasesAt call.address := by
  refine Table.filter_of_seen agrees.leases fun row holds => ?_
  rw [decide_eq_true_eq] at holds
  simp [seesLease, holds, address, author]

theorem Agree.sources (agrees : call.Agree t t') :
    t.sources call.address = t'.sources call.address := by
  refine Table.filter_of_seen agrees.events fun row holds => ?_
  obtain ⟨community, -, author, -⟩ := of_decide_eq_true holds
  exact decide_eq_true ⟨community, Or.inl author⟩

theorem Agree.insertEvent (agrees : call.Agree t t') {row : EventRow}
    (asks : call.Asks (.insertEvent row)) : t.insertEvent row = t'.insertEvent row := by
  have taken : t.events.any (·.key = row.key) = t'.events.any (·.key = row.key) := by
    refine Table.any_of_seen agrees.events fun other holds => ?_
    simp only [EventRow.key, EventRow.stamp, decide_eq_true_eq, Prod.mk.injEq,
      Stamp.mk.injEq] at holds
    simp [seesEvent, holds, asks.1, asks.2.2.1]
  unfold Tables.insertEvent
  rw [taken]

theorem Agree.upsertLease (agrees : call.Agree t t') {row : Lease}
    (asks : call.Asks (.upsertLease row)) : t.upsertLease row = t'.upsertLease row := by
  obtain ⟨place, source⟩ := asks
  -- A row that collides has the event of the call as its source, so the call sees it.
  have collides : (t.leases.filter (·.address ≠ row.address)).any (fun other =>
        other.address.communityId = row.address.communityId ∧
          other.sourceEventId = row.sourceEventId) =
      (t'.leases.filter (·.address ≠ row.address)).any fun other =>
        other.address.communityId = row.address.communityId ∧
          other.sourceEventId = row.sourceEventId := by
    simp only [List.any_filter]
    refine Table.any_of_seen agrees.leases fun other holds => ?_
    simp only [Bool.and_eq_true, decide_eq_true_eq] at holds
    simp [seesLease, holds, place, source, address]
  -- So does one of its author.
  have leased : (t.leases.filter (·.address ≠ row.address)).any (fun other => other.active &&
        other.belongsTo row.address.communityId row.address.author &&
        other.endpoint.isSome && other.endpoint == row.endpoint) =
      (t'.leases.filter (·.address ≠ row.address)).any fun other => other.active &&
        other.belongsTo row.address.communityId row.address.author &&
        other.endpoint.isSome && other.endpoint == row.endpoint := by
    simp only [List.any_filter]
    refine Table.any_of_seen agrees.leases fun other holds => ?_
    simp only [Lease.belongsTo, Bool.and_eq_true, decide_eq_true_eq] at holds
    simp [seesLease, holds, place, address, author]
  unfold Tables.upsertLease
  dsimp only
  rw [collides, leased]

theorem Agree.exec (agrees : call.Agree t t') {stmt : Stmt} (asks : call.Asks stmt) :
    Tables.exec stmt t = Tables.exec stmt t' := by
  -- A statement looks at what the call sees, and at nothing else.
  cases stmt with
  | advisoryXactLock key => rfl
  | selectSource communityId id =>
    obtain ⟨rfl, rfl⟩ := asks
    have found : t.leases.find? (fun row => row.address.communityId = call.communityId ∧
          row.sourceEventId = call.event.id) =
        t'.leases.find? fun row => row.address.communityId = call.communityId ∧
          row.sourceEventId = call.event.id := by
      rw [← List.head?_filter, ← List.head?_filter]
      refine congrArg _ (Table.filter_of_seen agrees.leases fun row holds => ?_)
      rw [decide_eq_true_eq] at holds
      simp [seesLease, holds]
    simp only [Tables.exec, found]
  | selectCurrent address =>
    obtain rfl := asks
    simp only [Tables.exec, agrees.leasesAt]
  | deactivateExpired communityId author now =>
    obtain ⟨rfl, rfl⟩ := asks
    simp only [Tables.exec, Tables.deactivateExpired, agrees.activeLeases]
  | countActive address =>
    obtain rfl := asks
    exact congrArg (fun rows : List Lease => ((rows.filter
      (·.address.installationId ≠ call.address.installationId)).length, ([] : List Change)))
      agrees.activeLeases
  | existsEndpoint address appProfile endpointHash =>
    obtain rfl := asks
    exact congrArg (fun rows : List Lease => (rows.any fun row =>
      row.address.installationId ≠ call.address.installationId ∧
        row.endpoint = some (appProfile, endpointHash), ([] : List Change))) agrees.activeLeases
  | retireSource address =>
    obtain rfl := asks
    simp only [Tables.exec, agrees.sources]
  | insertEvent row => exact agrees.insertEvent asks
  | upsertLease row => exact agrees.upsertLease asks
  | backfillPushMatchJobs communityId now =>
    obtain rfl := asks
    have recent : t.backfillPushMatchJobs call.communityId now =
        t'.backfillPushMatchJobs call.communityId now := by
      refine congrArg (List.map _) (Table.filter_of_seen agrees.events fun row holds => ?_)
      rw [decide_eq_true_eq] at holds
      simp [seesEvent, holds]
    simp only [Tables.exec, recent]

theorem Agree.apply (agrees : call.Agree t t') (change : Change) :
    call.Agree (t.apply change) (t'.apply change) := by
  cases change with
  | putLease row =>
    exact ⟨Table.filter_put agrees.leases row, agrees.events⟩
  | putEvent row =>
    exact ⟨agrees.leases, Table.filter_put agrees.events row⟩
  | enqueue job => exact ⟨agrees.leases, agrees.events⟩

theorem isolated (call : Call) : postgres.Isolated call.Asks call.Agree where
  exec _ asks _ _ agrees := agrees.exec asks
  apply change _ _ agrees := agrees.apply change

end Call

/-! ### Whose rows change -/

/-- The rows belong to those whose key their event ids are made with. -/
structure Tables.Owned (owner : EventId → PublicKey → Prop) (t : Tables) : Prop where
  leases : ∀ row ∈ t.leases, owner row.sourceEventId row.address.author
  events : ∀ row ∈ t.events, owner row.id row.pubkey ∧ row.kind = kindPushLease

/-- The change is to the author's rows in the community. -/
def Change.OwnedBy (owner : EventId → PublicKey → Prop) (communityId : CommunityId)
    (author : PublicKey) : Change → Prop
  | .putLease row => row.address.communityId = communityId ∧ row.address.author = author ∧
    owner row.sourceEventId author
  | .putEvent row => row.communityId = communityId ∧ row.pubkey = author ∧
    owner row.id author ∧ row.kind = kindPushLease
  | .enqueue _ => True

section

variable {owner : EventId → PublicKey → Prop} {t : Tables} {call other : Call} {change : Change}

theorem Tables.Owned.apply (owned : t.Owned owner) {communityId : CommunityId}
    {author : PublicKey} (ownedBy : change.OwnedBy owner communityId author) :
    (t.apply change).Owned owner := by
  cases change with
  | putLease row =>
    obtain ⟨-, rfl, source⟩ := ownedBy
    refine ⟨fun old member => ?_, owned.events⟩
    rcases Table.mem_put.mp member with rfl | ⟨stored, -⟩
    · exact source
    · exact owned.leases old stored
  | putEvent row =>
    obtain ⟨-, rfl, source, kind⟩ := ownedBy
    refine ⟨owned.leases, fun old member => ?_⟩
    rcases Table.mem_put.mp member with rfl | ⟨stored, -⟩
    · exact ⟨source, kind⟩
    · exact owned.events old stored
  | enqueue job => exact ⟨owned.leases, owned.events⟩

theorem Call.Asks.ownedBy {stmt : Stmt} (asks : call.Asks stmt) (owned : t.Owned owner)
    (mine : owner call.event.id call.author) :
    ∀ change ∈ (Tables.exec stmt t).2, change.OwnedBy owner call.communityId call.author := by
  intro change member
  -- Four statements write, and each writes rows of the call's own author.
  cases stmt with
  | deactivateExpired communityId author now =>
    obtain ⟨rfl, rfl⟩ := asks
    simp only [Tables.exec, Tables.deactivateExpired] at member
    split at member
    next =>
      obtain ⟨_, there, rfl⟩ := List.mem_map.mp member
      obtain ⟨row, expired, rfl⟩ := List.mem_map.mp there
      have active := List.mem_filter.mp (List.mem_of_mem_filter expired)
      simp only [Lease.belongsTo, Bool.and_eq_true, decide_eq_true_eq] at active
      obtain ⟨stored, -, community, author⟩ := active
      exact ⟨community, author, author ▸ owned.leases row stored⟩
    next => cases member
  | retireSource address =>
    obtain rfl := asks
    obtain ⟨row, source, rfl⟩ := List.mem_map.mp member
    obtain ⟨stored, covered⟩ := List.mem_filter.mp source
    obtain ⟨community, kind, author, -⟩ := of_decide_eq_true covered
    exact ⟨community, author, author ▸ (owned.events row stored).1, kind⟩
  | insertEvent row =>
    obtain ⟨community, author, id, kind⟩ := asks
    simp only [Tables.exec, Tables.insertEvent] at member
    split at member
    next => cases member
    next =>
      obtain rfl := List.mem_singleton.mp member
      exact ⟨community, author, id ▸ mine, kind⟩
  | upsertLease row =>
    obtain ⟨place, source⟩ := asks
    -- Only the branch that passes the checks writes the lease.
    have put : change = .putLease row := by
      simp only [Tables.exec, Tables.upsertLease] at member
      split at member
      next => cases member
      next =>
        split at member
        next => cases member
        next =>
          split at member
          next => cases member
          next => exact List.mem_singleton.mp member
    subst put
    refine ⟨by rw [place]; rfl, by rw [place]; rfl, ?_⟩
    rw [source]
    exact mine
  | backfillPushMatchJobs communityId now =>
    obtain ⟨row, -, rfl⟩ := List.mem_map.mp member
    trivial
  | _ => cases member

/-- A call does not see what changes for another author. -/
theorem Call.Agree.foreign (unique : ∀ id author author', owner id author → owner id author' →
      author = author') (owned : t.Owned owner) (mine : owner call.event.id call.author)
    (elsewhere : ¬ (other.communityId = call.communityId ∧ other.author = call.author))
    (ownedBy : change.OwnedBy owner other.communityId other.author) :
    call.Agree t (t.apply change) := by
  -- What another author's call writes, this one does not see.
  cases change with
  | putLease row =>
    obtain ⟨community, author, source⟩ := ownedBy
    have unseen {old : Lease} (same : old.address = row.address)
        (theirs : owner old.sourceEventId old.address.author) : call.seesLease old = false := by
      refine decide_eq_false ?_
      rw [same, author] at theirs
      -- It would have to be of this author, or of this event, which has one author.
      rintro ⟨here, byAuthor | bySource⟩
      · exact elsewhere ⟨by rw [← community, ← same, here], by rw [← author, ← same, byAuthor]⟩
      · rw [bySource] at theirs
        exact elsewhere ⟨by rw [← community, ← same, here], unique _ _ _ theirs mine⟩
    refine ⟨(Table.filter_put_unseen ?_ fun old member same => ?_).symm, rfl⟩
    · exact unseen rfl (author ▸ source)
    · exact unseen same (owned.leases old member)
  | putEvent row =>
    obtain ⟨community, author, source, kind⟩ := ownedBy
    have unseen {old : EventRow} (here : old.communityId = row.communityId)
        (theirs : owner old.id row.pubkey) (byThem : owner old.id old.pubkey)
        (lease : old.kind = kindPushLease) : call.seesEvent old = false := by
      refine decide_eq_false ?_
      rw [author] at theirs
      rintro ⟨seen, byAuthor | byId | byKind⟩
      · refine elsewhere ⟨by rw [← community, ← here, seen], ?_⟩
        rw [← byAuthor, unique _ _ _ theirs byThem]
      · rw [byId] at theirs
        exact elsewhere ⟨by rw [← community, ← here, seen], unique _ _ _ theirs mine⟩
      · rw [lease] at byKind
        exact absurd byKind (by decide)
    refine ⟨rfl, (Table.filter_put_unseen ?_ fun old member same => ?_).symm⟩
    · exact unseen rfl (author ▸ source) (author ▸ source) kind
    · simp only [EventRow.key, EventRow.stamp, Prod.mk.injEq, Stamp.mk.injEq] at same
      refine unseen same.1 ?_ (owned.events old member).1 (owned.events old member).2
      rw [same.2.2, author]
      exact source
  | enqueue job => exact ⟨rfl, rfl⟩

end

/-! ### The calls are serializable -/

section

variable {ι : Type} {call : ι → Call}

/-- The author whose event has the id. -/
def Owner (call : ι → Call) (id : EventId) (author : PublicKey) : Prop :=
  ∃ i, (call i).event.id = id ∧ (call i).author = author

/-- One event id has one author: it is a hash over the author's key. -/
def Hashed (call : ι → Call) : Prop :=
  ∀ i j, (call i).event.id = (call j).event.id → (call i).author = (call j).author

theorem Hashed.unique (hashed : Hashed call) {id : EventId} {author author' : PublicKey}
    (first : Owner call id author) (second : Owner call id author') : author = author' := by
  obtain ⟨i, rfl, rfl⟩ := first
  obtain ⟨j, same, rfl⟩ := second
  exact hashed i j same.symm

theorem serve_owned {i : ι} {stmt : Stmt} (asks : (call i).Asks stmt) {t : Tables}
    (owned : t.Owned (Owner call)) : (postgres.serve stmt t).2.Owned (Owner call) := by
  have along : ∀ (changes : List Change) (t : Tables), t.Owned (Owner call) →
      (∀ change ∈ changes, change.OwnedBy (Owner call) (call i).communityId (call i).author) →
      (postgres.view t changes).Owned (Owner call) := by
    intro changes
    induction changes with
    | nil => exact fun t owned _ => owned
    | cons change changes ih =>
      intro t owned ownedBy
      exact ih (t.apply change) (owned.apply (ownedBy change List.mem_cons_self))
        fun change member => ownedBy change (List.mem_cons_of_mem _ member)
  exact along _ t owned (asks.ownedBy owned ⟨i, rfl, rfl⟩)

theorem serve_foreign (hashed : Hashed call) {i j : ι}
    (elsewhere : ¬ ((call j).communityId = (call i).communityId ∧
      (call j).author = (call i).author)) {stmt : Stmt} (asks : (call j).Asks stmt) {t : Tables}
    (owned : t.Owned (Owner call)) : (call i).Agree t (postgres.serve stmt t).2 := by
  have unique (id : EventId) (author author' : PublicKey) (first : Owner call id author)
      (second : Owner call id author') : author = author' := hashed.unique first second
  have along : ∀ (changes : List Change) (t : Tables), t.Owned (Owner call) →
      (∀ change ∈ changes, change.OwnedBy (Owner call) (call j).communityId (call j).author) →
      (call i).Agree t (postgres.view t changes) := by
    intro changes
    induction changes with
    | nil => exact fun t _ _ => .refl t
    | cons change changes ih =>
      intro t owned ownedBy
      have first := ownedBy change List.mem_cons_self
      have foreign : (call i).Agree t (t.apply change) :=
        .foreign unique owned ⟨i, rfl, rfl⟩ elsewhere first
      exact foreign.trans (ih (t.apply change) (owned.apply first)
        fun change member => ownedBy change (List.mem_cons_of_mem _ member))
  exact along _ t owned (asks.ownedBy owned ⟨j, rfl, rfl⟩)

theorem apart (hash : LockHash) (maxActiveLeases : Int) (now : ι → Int) (hashed : Hashed call) :
    postgres.Apart (fun i => (call i).lock hash)
      (fun i => (call i).transaction hash maxActiveLeases (now i)) (fun i => (call i).Asks)
      (fun i => (call i).Agree) (Tables.Owned (Owner call)) where
  enters i := (call i).transaction_enters hash maxActiveLeases (now i)
  calls i := (call i).transaction_calls hash maxActiveLeases (now i)
  isolated i := (call i).isolated
  keeps i t value t' owned alone := by
    have kept := ((call i).transaction_calls hash maxActiveLeases (now i)).eval_inv
      (fun stmt asks t owned => serve_owned asks owned) owned
    rwa [alone] at kept
  foreign i j different t value t' owned alone := by
    -- Two calls with different locks are about different authors.
    have elsewhere : ¬ ((call j).communityId = (call i).communityId ∧
        (call j).author = (call i).author) := by
      rintro ⟨community, author⟩
      refine different ?_
      rw [Call.lock, Call.lock, community, author]
    have started : t.Owned (Owner call) ∧ (call i).Agree t t := ⟨owned, .refl t⟩
    have kept := ((call j).transaction_calls hash maxActiveLeases (now j)).eval_inv
      (I := fun t' => t'.Owned (Owner call) ∧ (call i).Agree t t') (fun stmt asks t owned =>
        ⟨serve_owned asks owned.1, owned.2.trans (serve_foreign hashed elsewhere asks owned.1)⟩)
      started
    rw [alone] at kept
    exact kept.2

end

end Push
