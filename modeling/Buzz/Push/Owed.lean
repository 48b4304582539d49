import Buzz.Push.Outbox

/-!
# Wakes that are owed

An answer `Duplicate` is harmless as long as the row in the way was asked for by the same lease and
can still be sent. A lease that is activated on an endpoint with an undelivered wake finds that wake
in its way: it names another lease or another generation, so nobody can claim it, and no other wake
takes its place. A row that has failed or is past its deadline is as much in the way:
`enqueue_wakes` looks at neither.
-/
namespace Push

open Lib Nostr Relay Db

/-- The wake was asked for by the lease, in its present generation. -/
structure Wake.AskedBy (wake : Wake) (lease : Lease) : Prop where
  address : wake.address = lease.address
  generation : wake.leaseGeneration = lease.generation
  endpoint : lease.endpointHash = some wake.endpointHash

/-! ### New rows -/

theorem mem_newWakes {outbox wakes : List Wake} {wake : Wake}
    (member : wake ∈ newWakes outbox wakes) : wake ∈ wakes := by
  induction wakes generalizing outbox with
  | nil => exact member
  | cons first rest ih =>
    rw [newWakes] at member
    split at member
    next => exact List.mem_cons_of_mem _ (ih member)
    next =>
      rcases List.mem_cons.mp member with rfl | later
      · exact List.mem_cons_self
      · exact List.mem_cons_of_mem _ (ih later)

theorem nodup_newWakes {outbox wakes : List Wake} (nodup : (outbox.map Wake.dedupKey).Nodup) :
    ((outbox ++ newWakes outbox wakes).map Wake.dedupKey).Nodup := by
  induction wakes generalizing outbox with
  | nil => rwa [newWakes, List.append_nil]
  | cons wake rest ih =>
    rw [newWakes]
    split
    next => exact ih nodup
    next free =>
      have fresh : wake.dedupKey ∉ outbox.map Wake.dedupKey := by
        intro taken
        obtain ⟨row, stored, same⟩ := List.mem_map.mp taken
        exact free (List.any_eq_true.mpr ⟨row, stored, decide_eq_true same⟩)
      have nodup' : ((outbox ++ [wake]).map Wake.dedupKey).Nodup := by
        rw [List.map_append, List.nodup_append]
        refine ⟨nodup, List.pairwise_singleton _ _, ?_⟩
        rintro _ kept _ single rfl
        rw [List.map_singleton, List.mem_singleton] at single
        exact fresh (single ▸ kept)
      have whole := ih nodup'
      rwa [List.append_assoc, List.singleton_append] at whole

/-! ### Answers -/

/-- A duplicate has a row, and if the row is of this insert then an earlier request has its key. -/
theorem report_duplicate {jobId : CommunityId × List UInt8 × EventId → Option Uuid}
    {inserted reported : List (CommunityId × List UInt8 × EventId)}
    {keys : List (Option (CommunityId × List UInt8 × EventId))}
    {outcomes : List EnqueueWakeOutcome} (ok : report jobId inserted reported keys = .ok outcomes)
    {n : Nat} {id : Uuid} (answered : outcomes[n]? = some (.duplicate id)) :
    ∃ key, keys[n]? = some (some key) ∧ jobId key = some id ∧
      (key ∈ inserted → key ∈ reported ∨ ∃ m < n, keys[m]? = some (some key)) := by
  -- The answers are those of the keys in their order.
  induction keys generalizing reported outcomes n with
  | nil =>
    cases ok
    simp at answered
  | cons key rest ih =>
    have later {reported' : List (CommunityId × List UInt8 × EventId)}
        {outcome : EnqueueWakeOutcome}
        (mapped : (report jobId inserted reported' rest).map (outcome :: ·) = .ok outcomes)
        (first : n = 0 → outcome = .duplicate id → ∃ own, key = some own ∧ jobId own = some id ∧
          (own ∈ inserted → own ∈ reported))
        (before : ∀ own ∈ reported', own ∈ reported ∨ key = some own) :
        ∃ own, (key :: rest)[n]? = some (some own) ∧ jobId own = some id ∧
          (own ∈ inserted → own ∈ reported ∨ ∃ m < n, (key :: rest)[m]? = some (some own)) := by
      cases ran : report jobId inserted reported' rest with
      | error e =>
        rw [ran] at mapped
        cases mapped
      | ok answers =>
        rw [ran] at mapped
        cases mapped
        cases n with
        | zero =>
          rw [List.getElem?_cons_zero] at answered
          obtain ⟨own, here, job, known⟩ := first rfl (Option.some.inj answered)
          exact ⟨own, by rw [List.getElem?_cons_zero, here], job, fun row => Or.inl (known row)⟩
        | succ n =>
          rw [List.getElem?_cons_succ] at answered
          obtain ⟨own, position, job, known⟩ := ih ran answered
          refine ⟨own, position, job, fun row => ?_⟩
          rcases known row with told | ⟨m, earlier, same⟩
          · rcases before own told with known | here
            · exact Or.inl known
            · exact Or.inr ⟨0, Nat.succ_pos n, by rw [List.getElem?_cons_zero, here]⟩
          · exact Or.inr ⟨m + 1, Nat.succ_lt_succ earlier, same⟩
    cases key with
    | none =>
      rw [report] at ok
      exact later ok nofun fun own told => Or.inl told
    | some key =>
      rw [report] at ok
      split at ok
      next => cases ok
      next job found =>
        split at ok
        next fresh =>
          refine later ok nofun fun own told => ?_
          rcases List.mem_cons.mp told with rfl | known
          · exact Or.inr rfl
          · exact Or.inl known
        next stale =>
          refine later ok (fun _ same => ⟨key, rfl, ?_, ?_⟩) fun own told => Or.inl told
          · rw [found, EnqueueWakeOutcome.duplicate.inj same]
          · intro row
            by_contra unknown
            exact stale ⟨row, unknown⟩

namespace Store

/-- The keys of the tables. -/
structure WellFormed (s : Store) : Prop where
  tables : Push.WellFormed s.tables
  ids : (s.outbox.map Wake.key).Nodup
  dedup : (s.outbox.map Wake.dedupKey).Nodup

/-- An undelivered wake was asked for by the current lease of its endpoint, and there is only
one. A worker holds a wake for a time. -/
structure Covered (s : Store) : Prop extends WellFormed s where
  held : ∀ wake ∈ s.outbox, wake.state = .sending → wake.leaseUntil.isSome = true
  asked : ∀ lease ∈ s.tables.leases, lease.current s.now = true → ∀ wake ∈ s.outbox,
    wake.address.communityId = lease.address.communityId →
    lease.endpointHash = some wake.endpointHash → wake.state ≠ .delivered → wake.AskedBy lease
  single : ∀ lease ∈ s.tables.leases, lease.current s.now = true →
    ∀ lease' ∈ s.tables.leases, lease'.current s.now = true →
      lease.address.communityId = lease'.address.communityId →
      lease.endpointHash = lease'.endpointHash → lease = lease'

variable {s s' : Store} {communityId : CommunityId}

theorem covered_init (now : Int) : Covered { now } where
  tables := ⟨List.nodup_nil, List.nodup_nil, fun _ member => (List.not_mem_nil member).elim⟩
  ids := List.nodup_nil
  dedup := List.nodup_nil
  held _ member := (List.not_mem_nil member).elim
  asked _ member := (List.not_mem_nil member).elim
  single _ member := (List.not_mem_nil member).elim

theorem currentLease_eq_some {address : Address} {lease : Lease}
    (found : s.currentLease address = some lease) :
    lease ∈ s.tables.leases ∧ lease.address = address ∧ lease.current s.now = true := by
  have holds := List.find?_some found
  rw [Bool.and_eq_true, decide_eq_true_eq] at holds
  exact ⟨List.mem_of_find?_eq_some found, holds.1, holds.2⟩

theorem resolve_eq_some {request : WakeRequest} {endpointHash : List UInt8}
    (resolved : s.resolve communityId request = some endpointHash) :
    ∃ lease ∈ s.tables.leases, lease.address = request.address communityId ∧
      lease.current s.now = true ∧ lease.generation = request.leaseGeneration ∧
      lease.endpointHash = some endpointHash := by
  obtain ⟨lease, found, rest⟩ := Option.bind_eq_some_iff.mp resolved
  obtain ⟨stored, address, current⟩ := currentLease_eq_some found
  split at rest
  next generation => exact ⟨lease, stored, address, current, generation, rest⟩
  next => cases rest

theorem exists_request_of_mem_wakesOf {requests : List WakeRequest} {genRandomUuid : Nat → Uuid}
    {wake : Wake} (member : wake ∈ s.wakesOf communityId requests genRandomUuid) :
    ∃ (n : Nat) (request : WakeRequest) (endpointHash : List UInt8), requests[n]? = some request ∧
      s.resolve communityId request = some endpointHash ∧
      wake = s.wakeOf communityId request endpointHash (genRandomUuid n) := by
  obtain ⟨⟨request, n⟩, listed, made⟩ := List.mem_filterMap.mp member
  obtain ⟨endpointHash, resolved, rfl⟩ := Option.map_eq_some_iff.mp made
  exact ⟨n, request, endpointHash, List.mk_mem_zipIdx_iff_getElem?.mp listed, resolved, rfl⟩

theorem mem_wakesOf {requests : List WakeRequest} {genRandomUuid : Nat → Uuid} {wake : Wake}
    (member : wake ∈ s.wakesOf communityId requests genRandomUuid) :
    wake.state = .pending ∧ wake.address.communityId = communityId ∧
      ∃ lease ∈ s.tables.leases, lease.current s.now = true ∧ wake.AskedBy lease := by
  obtain ⟨n, request, endpointHash, -, resolved, rfl⟩ := exists_request_of_mem_wakesOf member
  obtain ⟨lease, stored, address, current, generation, endpoint⟩ := resolve_eq_some resolved
  exact ⟨rfl, rfl, lease, stored, current, address.symm, generation.symm, endpoint⟩

theorem enqueueWakes_store {requests : List WakeRequest} {genRandomUuid : Nat → Uuid} :
    (s.enqueueWakes communityId requests genRandomUuid).2 = s ∨
      let outbox := s.outbox ++
        newWakes s.outbox (s.wakesOf communityId requests genRandomUuid)
      (outbox.map Wake.key).Nodup ∧
        (s.enqueueWakes communityId requests genRandomUuid).2 = { s with outbox } := by
  unfold enqueueWakes
  dsimp only
  split
  next => exact Or.inl rfl
  next =>
    split
    next => exact Or.inl rfl
    next unique => exact Or.inr ⟨not_not.mp unique, rfl⟩

theorem Covered.enqueue (covered : s.Covered) (requests : List WakeRequest)
    (genRandomUuid : Nat → Uuid) :
    (s.enqueueWakes communityId requests genRandomUuid).2.Covered := by
  rcases @enqueueWakes_store s communityId requests genRandomUuid with same | ⟨ids, same⟩
  · rw [same]
    exact covered
  · rw [same]
    exact {
      tables := covered.tables
      ids
      dedup := nodup_newWakes covered.dedup
      held := fun wake member sending => by
        rcases List.mem_append.mp member with old | new
        · exact covered.held wake old sending
        · rw [(mem_wakesOf (mem_newWakes new)).1] at sending
          cases sending
      asked := fun lease stored current wake member community endpoint undelivered => by
        rcases List.mem_append.mp member with old | new
        · exact covered.asked lease stored current wake old community endpoint undelivered
        · -- The lease that has asked has the endpoint, so it is this one.
          obtain ⟨-, -, other, stored', current', asked⟩ := mem_wakesOf (mem_newWakes new)
          have one : other = lease := covered.single other stored' current' lease stored current
            (by rw [← asked.address, community]) (by rw [asked.endpoint, endpoint])
          exact one ▸ asked
      single := covered.single }

/-! ### Claims -/

/-- An update of rows that keeps what they are keyed by, and leaves a delivered one alone. -/
structure Keeps (s : Store) (update : Wake → Wake) : Prop where
  id : ∀ row, (update row).id = row.id
  address : ∀ row, (update row).address = row.address
  generation : ∀ row, (update row).leaseGeneration = row.leaseGeneration
  endpoint : ∀ row, (update row).endpointHash = row.endpointHash
  event : ∀ row, (update row).eventId = row.eventId
  state : ∀ row ∈ s.outbox, (update row).state ≠ .delivered → row.state ≠ .delivered
  held : ∀ row ∈ s.outbox, (update row).state = .sending → (update row).leaseUntil.isSome = true

theorem Covered.update (covered : s.Covered) {update : Wake → Wake} (keeps : s.Keeps update) :
    Covered { s with outbox := s.outbox.map update } where
  tables := covered.tables
  ids := by
    rw [List.map_map]
    refine (List.map_congr_left fun row _ => ?_) ▸ covered.ids
    simp [Wake.key, keeps.id, keeps.address]
  dedup := by
    rw [List.map_map]
    refine (List.map_congr_left fun row _ => ?_) ▸ covered.dedup
    simp [Wake.dedupKey, keeps.address, keeps.endpoint, keeps.event]
  held wake member := by
    obtain ⟨row, old, rfl⟩ := List.mem_map.mp member
    exact keeps.held row old
  asked lease stored current wake member community endpoint undelivered := by
    obtain ⟨row, old, rfl⟩ := List.mem_map.mp member
    rw [keeps.address] at community
    rw [keeps.endpoint] at endpoint
    have asked := covered.asked lease stored current row old community endpoint
      (keeps.state row old undelivered)
    refine ⟨?_, ?_, ?_⟩
    · rw [keeps.address, asked.address]
    · rw [keeps.generation, asked.generation]
    · rw [keeps.endpoint, asked.endpoint]
  single := covered.single

theorem Covered.updateClaim (covered : s.Covered) {id claimId : Uuid} {update : Wake → Wake}
    (same : ∀ row, (update row).id = row.id ∧ (update row).address = row.address ∧
      (update row).leaseGeneration = row.leaseGeneration ∧
      (update row).endpointHash = row.endpointHash ∧ (update row).eventId = row.eventId ∧
      (update row).state ≠ .sending) :
    (s.updateClaim communityId id claimId update).2.Covered := by
  refine covered.update ⟨fun row => ?_, fun row => ?_, fun row => ?_, fun row => ?_, fun row => ?_,
    fun row _ undelivered delivered => ?_, fun row stored sending => ?_⟩
  · split <;> simp [same row]
  · split <;> simp [same row]
  · split <;> simp [same row]
  · split <;> simp [same row]
  · split <;> simp [same row]
  · split at undelivered
    next held =>
      simp only [Bool.and_eq_true, decide_eq_true_eq] at held
      rw [held.2] at delivered
      cases delivered
    next => exact undelivered delivered
  · split at sending
    next => exact absurd sending (same row).2.2.2.2.2
    next free =>
      rw [if_neg free]
      exact covered.held row stored sending

theorem mem_candidates {limit : Nat} {row : Wake} (member : row ∈ s.candidates communityId limit) :
    row ∈ s.outbox ∧ s.claimable communityId row = true :=
  List.mem_filter.mp ((sortBy_perm _ _).mem_iff.mp (List.mem_of_mem_take member))

theorem claimable_state {row : Wake} (claimable : s.claimable communityId row = true) :
    row.state = .pending ∨ row.state = .sending := by
  simp only [Store.claimable, Bool.and_eq_true, Bool.or_eq_true, decide_eq_true_eq] at claimable
  rcases claimable.1.2 with pending | sending
  · exact Or.inl pending
  · exact Or.inr sending.1

theorem Covered.claim (covered : s.Covered) (limit : Nat) (leaseUntil : Int) (claimId : Uuid) :
    (s.claimDueWakes communityId limit leaseUntil claimId).2.Covered := by
  refine covered.update ⟨fun row => ?_, fun row => ?_, fun row => ?_, fun row => ?_, fun row => ?_,
    fun row stored undelivered delivered => ?_, fun row stored sending => ?_⟩
  · split <;> rfl
  · split <;> rfl
  · split <;> rfl
  · split <;> rfl
  · split <;> rfl
  · split at undelivered
    next taken =>
      obtain ⟨candidate, member, same⟩ := List.mem_map.mp taken
      obtain ⟨stored', claimable⟩ := mem_candidates member
      obtain rfl := Table.eq_of_key covered.ids stored' stored same
      rcases claimable_state claimable with state | state <;>
        rw [state] at delivered <;> cases delivered
    next => exact undelivered delivered
  · split at sending
    next taken =>
      rw [if_pos taken]
      rfl
    next free =>
      rw [if_neg free]
      exact covered.held row stored sending

/-! ### Leases -/

theorem Covered.disable (covered : s.Covered) (address : Address) (generation : Int) :
    (s.disableEndpointGeneration address generation).2.Covered := by
  have mem {lease : Lease}
      (stored : lease ∈ (s.disableEndpointGeneration address generation).2.tables.leases)
      (current : lease.current s.now = true) : lease ∈ s.tables.leases := by
    obtain ⟨old, member, rfl⟩ := List.mem_map.mp stored
    split at current
    next => simp [Lease.current] at current
    next missed =>
      rw [if_neg missed]
      exact member
  exact {
    tables := {
      addresses := by
        change ((s.tables.leases.map _).map Lease.address).Nodup
        rw [List.map_map]
        refine (List.map_congr_left fun row _ => ?_) ▸ covered.tables.addresses
        simp only [Function.comp]
        split <;> rfl
      keys := covered.tables.keys
      checked := fun row member => by
        obtain ⟨old, stored, rfl⟩ := List.mem_map.mp member
        have checked := covered.tables.checked old stored
        split
        next => exact checked
        next => exact checked }
    ids := covered.ids
    dedup := covered.dedup
    held := covered.held
    asked := fun lease stored current => covered.asked lease (mem stored current) current
    single := fun lease stored current lease' stored' current' =>
      covered.single lease (mem stored current) current lease' (mem stored' current') current' }

variable {hash : LockHash} {maxActiveLeases : Int} {call : Call}

/-- The activation takes an endpoint that nobody has: no undelivered wake of the community and no
other current lease. -/
structure FreeEndpoint (s : Store) (call : Call) (columns : ActiveLease) : Prop where
  wakes : ∀ wake ∈ s.outbox, wake.address.communityId = call.communityId →
    wake.endpointHash = columns.endpointHash → wake.state = .delivered
  leases : ∀ lease ∈ s.tables.leases, lease.current s.now = true →
    lease.address.communityId = call.communityId → lease.address ≠ call.address →
      lease.endpointHash ≠ some columns.endpointHash

/-- The call is accepted. -/
def Accepts (hash : LockHash) (maxActiveLeases : Int) (s : Store) (call : Call) : Prop :=
  postgres.answer (transactions hash maxActiveLeases (fun _ : Unit => s.now) fun _ => call)
    s.tables () = .ok .accepted

theorem Covered.accept (covered : s.Covered)
    (free : ∀ columns, call.active = some columns → epoch s.now < call.expiresAt →
      s.Accepts hash maxActiveLeases call → s.FreeEndpoint call columns) :
    (s.accept hash maxActiveLeases call).Covered := by
  rcases @after_or Unit (fun _ => call) hash maxActiveLeases (fun _ => s.now) s.tables
    covered.tables () with ⟨same, -⟩ | ⟨accepted, replaced⟩
  · unfold Store.accept
    rw [same]
    exact covered
  · generalize after : postgres.after (transactions hash maxActiveLeases (fun _ : Unit => s.now)
      fun _ => call) s.tables () = t' at replaced
    have new_free {columns : ActiveLease} (activates : call.active = some columns)
        (current : (leaseOf call.address call.version call.active).current s.now = true) :
        s.FreeEndpoint call columns := by
      simp only [Lease.current, leaseOf, Bool.and_eq_true] at current
      exact free columns activates (of_decide_eq_true current.2) accepted
    have new_endpoint
        (current : (leaseOf call.address call.version call.active).current s.now = true) :
        ∃ columns, call.active = some columns ∧
          (leaseOf call.address call.version call.active).endpointHash =
            some columns.endpointHash := by
      simp only [Lease.current, leaseOf, Bool.and_eq_true] at current
      obtain ⟨columns, activates⟩ := Option.isSome_iff_exists.mp current.1.1
      exact ⟨columns, activates, by rw [activates]; rfl⟩
    have wellFormed := replaced.wellFormed covered.tables
    unfold Store.accept
    rw [after]
    refine {
      tables := wellFormed
      ids := covered.ids
      dedup := covered.dedup
      held := covered.held
      asked := fun lease stored current wake member community endpoint undelivered => ?_
      single := fun lease stored current lease' stored' current' community endpoint => ?_ }
    · rcases replaced.mem_leases.mp stored with rfl | ⟨old, -⟩
      · obtain ⟨columns, activates, hash'⟩ := new_endpoint current
        rw [hash'] at endpoint
        exact absurd ((new_free activates current).wakes wake member community
          (Option.some.inj endpoint).symm) undelivered
      · exact covered.asked lease old current wake member community endpoint undelivered
    · rcases replaced.mem_leases.mp stored with rfl | ⟨old, elsewhere⟩ <;>
        rcases replaced.mem_leases.mp stored' with rfl | ⟨old', elsewhere'⟩
      · rfl
      · obtain ⟨columns, activates, hash'⟩ := new_endpoint current
        exact absurd (endpoint.symm.trans hash')
          ((new_free activates current).leases lease' old' current' community.symm elsewhere')
      · obtain ⟨columns, activates, hash'⟩ := new_endpoint current'
        exact absurd (endpoint.trans hash')
          ((new_free activates current').leases lease old current community elsewhere)
      · exact covered.single lease old current lease' old' current' community endpoint

/-! ### Events and time -/

theorem Covered.insertEvent (covered : s.Covered) (row : EventRow) :
    (s.step hash maxActiveLeases (.insertEvent row)).Covered := by
  have written : (postgres.view s.tables (s.tables.insertEvent row).2).leases = s.tables.leases ∧
      ((postgres.view s.tables (s.tables.insertEvent row).2).events.map EventRow.key).Nodup := by
    unfold Tables.insertEvent
    split
    next => exact ⟨rfl, covered.tables.keys⟩
    next => exact ⟨rfl, Table.nodup_put covered.tables.keys row⟩
  exact {
    tables := {
      addresses := by
        rw [step, written.1]
        exact covered.tables.addresses
      keys := written.2
      checked := by
        rw [step, written.1]
        exact covered.tables.checked }
    ids := covered.ids
    dedup := covered.dedup
    held := covered.held
    asked := by
      rw [step, written.1]
      exact covered.asked
    single := by
      rw [step, written.1]
      exact covered.single }

theorem Covered.deleteEvent (covered : s.Covered) (key : CommunityId × Stamp) :
    (s.step hash maxActiveLeases (.deleteEvent key)).Covered where
  tables := {
    addresses := covered.tables.addresses
    keys := by
      change ((s.tables.events.map _).map EventRow.key).Nodup
      rw [List.map_map]
      refine (List.map_congr_left fun row _ => ?_) ▸ covered.tables.keys
      simp only [Function.comp]
      split <;> rfl
    checked := covered.tables.checked }
  ids := covered.ids
  dedup := covered.dedup
  held := covered.held
  asked := covered.asked
  single := covered.single

theorem epoch_mono {now now' : Int} (later : now ≤ now') : epoch now ≤ epoch now' := by
  unfold epoch
  omega

theorem Covered.tick (covered : s.Covered) (now : Int) :
    (s.step hash maxActiveLeases (.tick now)).Covered := by
  have before {lease : Lease} (current : lease.current (max s.now now) = true) :
      lease.current s.now = true := by
    have later := epoch_mono (le_max_left s.now now)
    simp only [Lease.current, Bool.and_eq_true, decide_eq_true_eq] at current ⊢
    exact ⟨current.1, by omega⟩
  exact {
    tables := covered.tables
    ids := covered.ids
    dedup := covered.dedup
    held := covered.held
    asked := fun lease stored current => covered.asked lease stored (before current)
    single := fun lease stored current lease' stored' current' =>
      covered.single lease stored (before current) lease' stored' (before current') }

/-! ### A covered wake can be sent -/

/-- The wake's time has come: it has a live event, it is before its deadline and no worker has
it. -/
structure Due (s : Store) (wake : Wake) : Prop where
  event : (s.liveEvent wake).isSome = true
  deadline : epoch s.now < wake.expiresAt
  next : wake.nextAttemptAt ≤ s.now
  state : wake.state = .pending ∨
    wake.state = .sending ∧ wake.leaseUntil.any (· < s.now) = true

/-- Any worker that claims now gets the wake, and may send it. -/
def Sends (s : Store) (wake : Wake) : Prop :=
  ∀ (limit : Nat) (leaseUntil : Int) (claimId : Uuid), s.outbox.length ≤ limit →
    s.now ≤ leaseUntil → ∃ claimed : ClaimedWake, claimed.id = wake.id ∧
      claimed ∈ (s.claimDueWakes wake.address.communityId limit leaseUntil claimId).1 ∧
      (s.claimDueWakes wake.address.communityId limit leaseUntil claimId).2.revalidateWakeForSend
        wake.address.communityId wake.id claimId = .deliver claimed

theorem joined_eq_some (wellFormed : s.WellFormed) {wake : Wake} {lease : Lease}
    (leased : lease ∈ s.tables.leases) (asked : wake.AskedBy lease) :
    s.joined wake = some lease := by
  refine Table.find?_eq_some leased ?_ fun other stored same => ?_
  · exact decide_eq_true ⟨asked.address.symm, asked.generation.symm, asked.endpoint⟩
  · have place := (of_decide_eq_true same).1
    exact Table.eq_of_key wellFormed.tables.addresses stored leased (place.trans asked.address)

theorem revalidate_eq_deliver {id claimId : Uuid} {row : Wake} {lease : Lease} {event : EventRow}
    (found : s.outbox.find? (s.sendable communityId id claimId) = some row)
    (joined : s.joined row = some lease) (live : s.liveEvent row = some event) :
    s.revalidateWakeForSend communityId id claimId =
      .deliver (claimedWake row claimId lease event) := by
  unfold revalidateWakeForSend
  simp only [found, joined, live, Option.bind_some, Option.map_some]

theorem sends_of_due (wellFormed : s.WellFormed) {wake : Wake} {lease : Lease}
    (stored : wake ∈ s.outbox) (leased : lease ∈ s.tables.leases)
    (current : lease.current s.now = true) (asked : wake.AskedBy lease) (due : s.Due wake) :
    s.Sends wake := by
  intro limit leaseUntil claimId room inTime
  have joined := joined_eq_some wellFormed leased asked
  obtain ⟨event, live⟩ := Option.isSome_iff_exists.mp due.event
  have claimable : s.claimable wake.address.communityId wake = true := by
    simp only [Store.claimable, joined, Option.any_some, current, Bool.and_true, due.event,
      Bool.and_eq_true, Bool.or_eq_true, decide_eq_true_eq]
    exact ⟨⟨⟨trivial, due.deadline⟩, due.next⟩, due.state⟩
  have candidate : wake ∈ s.candidates wake.address.communityId limit := by
    unfold Store.candidates
    rw [List.take_of_length_le]
    · exact (sortBy_perm _ _).mem_iff.mpr (List.mem_filter.mpr ⟨stored, claimable⟩)
    · rw [(sortBy_perm _ _).length_eq]
      exact (List.length_filter_le _ _).trans room
  have key : wake.key ∈ (s.candidates wake.address.communityId limit).map Wake.key :=
    List.mem_map_of_mem candidate
  -- The row as the claim leaves it.
  have claimed : wake.claim claimId leaseUntil ∈
      (s.claimDueWakes wake.address.communityId limit leaseUntil claimId).2.outbox :=
    List.mem_map.mpr ⟨wake, stored, if_pos key⟩
  refine ⟨claimedWake (wake.claim claimId leaseUntil) claimId lease event, rfl, ?_, ?_⟩
  · refine List.mem_filterMap.mpr ⟨_, List.mem_filter.mpr ⟨claimed, decide_eq_true key⟩, ?_⟩
    change ((s.joined wake).bind fun lease => (s.liveEvent wake).map _) = _
    rw [joined, live]
    rfl
  · have ids : ((s.claimDueWakes wake.address.communityId limit leaseUntil
        claimId).2.outbox.map Wake.key).Nodup := by
      change ((s.outbox.map _).map Wake.key).Nodup
      rw [List.map_map]
      refine (List.map_congr_left fun row _ => ?_) ▸ wellFormed.ids
      simp only [Function.comp]
      split <;> rfl
    refine revalidate_eq_deliver (Table.find?_eq_some claimed ?_ fun other member same => ?_)
      joined live
    · have joined' : s.joined (wake.claim claimId leaseUntil) = some lease := joined
      have live' : s.liveEvent (wake.claim claimId leaseUntil) = some event := live
      change Store.sendable { s with outbox := _ } _ _ _ _ = true
      simp only [Store.sendable, Bool.and_eq_true, decide_eq_true_eq]
      refine ⟨⟨⟨⟨⟨⟨rfl, rfl⟩, rfl⟩, ?_⟩, due.deadline⟩, ?_⟩, ?_⟩
      · simpa [Wake.claim] using inTime
      · change ((s.joined (wake.claim claimId leaseUntil)).any _) = true
        rw [joined']
        exact current
      · change ((s.liveEvent (wake.claim claimId leaseUntil)).isSome) = true
        rw [live']
        rfl
    · simp only [Store.sendable, Bool.and_eq_true, decide_eq_true_eq] at same
      exact Table.eq_of_key ids member claimed same.1.1.1.1.1.1

/-! ### Runs -/

/-- The event of a wake is stored and not deleted. -/
def HasEvent (s : Store) (communityId : CommunityId) (eventId : EventId) : Prop :=
  ∃ event ∈ s.tables.events,
    event.communityId = communityId ∧ event.id = eventId ∧ event.deleted = false

/-- From when on a worker can have the row: after its next attempt, and after the time of the worker
that holds it. -/
def freeFrom (s : Store) (wake : Wake) : Int :=
  max s.now (max wake.nextAttemptAt
    (if wake.state = .sending then wake.leaseUntil.getD s.now + 1 else s.now))

/-- The row has not failed, and its deadline leaves time for a worker to have it. -/
structure Open (s : Store) (wake : Wake) : Prop where
  event : s.HasEvent wake.address.communityId wake.eventId
  deadline : epoch (s.freeFrom wake) < wake.expiresAt
  state : wake.state = .pending ∨ wake.state = .sending

/-- The request comes before its own deadline and for an event that is there. -/
structure InTime (s : Store) (communityId : CommunityId) (request : WakeRequest) : Prop where
  event : s.HasEvent communityId request.eventId
  deadline : epoch s.now < request.expiresAt

/-- The two requests are for one endpoint and one event. -/
def SameWake (s : Store) (communityId : CommunityId) (request request' : WakeRequest) : Prop :=
  request.eventId = request'.eventId ∧ ∃ endpointHash,
    s.resolve communityId request = some endpointHash ∧
    s.resolve communityId request' = some endpointHash

/-- The condition on a step: an accepted activation takes a free endpoint, and what is requested
when there is a row for it already, or twice in one batch, is delivered or still open. -/
def Meets (hash : LockHash) (maxActiveLeases : Int) (s : Store) : Op → Prop
  | .accept call => ∀ columns, call.active = some columns → epoch s.now < call.expiresAt →
    s.Accepts hash maxActiveLeases call → s.FreeEndpoint call columns
  | .enqueue communityId requests _ =>
    (∀ request ∈ requests, ∀ wake ∈ s.outbox,
      wake.address.communityId = communityId → wake.eventId = request.eventId →
        s.resolve communityId request = some wake.endpointHash →
          wake.state = .delivered ∨ s.Open wake) ∧
    requests.Pairwise fun request request' => s.SameWake communityId request request' →
      s.InTime communityId request ∧ s.InTime communityId request'
  | _ => True

/-- Every step of the run meets the condition. -/
def AllMeet (hash : LockHash) (maxActiveLeases : Int) : Store → List Op → Prop
  | _, [] => True
  | s, op :: ops => Meets hash maxActiveLeases s op ∧
    AllMeet hash maxActiveLeases (s.step hash maxActiveLeases op) ops

theorem Covered.step (covered : s.Covered) {op : Op} (meets : Meets hash maxActiveLeases s op) :
    (s.step hash maxActiveLeases op).Covered := by
  cases op with
  | accept call => exact covered.accept meets
  | enqueue communityId requests genRandomUuid => exact covered.enqueue requests genRandomUuid
  | claim communityId limit leaseUntil claimId => exact covered.claim limit leaseUntil claimId
  | revalidate communityId id claimId => exact covered
  | complete communityId id claimId =>
    exact covered.updateClaim fun row => ⟨rfl, rfl, rfl, rfl, rfl, nofun⟩
  | retry communityId id claimId nextAttemptAt =>
    exact covered.updateClaim fun row => ⟨rfl, rfl, rfl, rfl, rfl, nofun⟩
  | fail communityId id claimId => exact covered.updateClaim fun row => ⟨rfl, rfl, rfl, rfl, rfl, nofun⟩
  | disable address generation => exact covered.disable address generation
  | insertEvent row => exact covered.insertEvent row
  | deleteEvent key => exact covered.deleteEvent key
  | tick now => exact covered.tick now

theorem Covered.run (covered : s.Covered) {ops : List Op}
    (meet : AllMeet hash maxActiveLeases s ops) : (s.run hash maxActiveLeases ops).Covered := by
  induction ops generalizing s with
  | nil => exact covered
  | cons op ops ih => exact ih (covered.step meet.1) meet.2

theorem liveEvent_isSome_iff {wake : Wake} : (s.liveEvent wake).isSome = true ↔
    s.HasEvent wake.address.communityId wake.eventId := by
  simp [liveEvent, HasEvent, List.find?_isSome]

/-- The wake is delivered, or the lease has asked for it, a time comes when it is due and can be
claimed and sent if the lease is still current, and so it can in every later state in which it is
due and the lease is current. -/
def Owed (s : Store) (lease : Lease) (wake : Wake) : Prop :=
  wake.state = .delivered ∨
    (wake.AskedBy lease ∧
      (∃ now, s.now ≤ now ∧ ({ s with now } : Store).Due wake ∧
        (lease.current now = true → ({ s with now } : Store).Sends wake)) ∧
      ∀ later : Store, later.WellFormed → wake ∈ later.outbox → lease ∈ later.tables.leases →
        lease.current later.now = true → later.Due wake → later.Sends wake)

theorem Open.exists_due {wake : Wake} (open_ : s.Open wake)
    (held : wake.state = .sending → wake.leaseUntil.isSome = true) :
    ∃ now, s.now ≤ now ∧ ({ s with now } : Store).Due wake := by
  refine ⟨s.freeFrom wake, le_max_left _ _, liveEvent_isSome_iff.mpr open_.event, open_.deadline,
    (le_max_left _ _).trans (le_max_right _ _), ?_⟩
  rcases open_.state with pending | sending
  · exact Or.inl pending
  · obtain ⟨leaseUntil, until_⟩ := Option.isSome_iff_exists.mp (held sending)
    have free : leaseUntil + 1 ≤ s.freeFrom wake := by
      refine le_trans ?_ ((le_max_right _ _).trans (le_max_right _ _))
      rw [if_pos sending, until_, Option.getD_some]
    refine Or.inr ⟨sending, ?_⟩
    rw [until_, Option.any_some, decide_eq_true_eq]
    exact Int.lt_of_add_one_le free

theorem InTime.due {request : WakeRequest} (inTime : s.InTime communityId request)
    (endpointHash : List UInt8) (id : Uuid) :
    s.Due (s.wakeOf communityId request endpointHash id) where
  event := liveEvent_isSome_iff.mpr inTime.event
  deadline := inTime.deadline
  next := le_refl s.now
  state := Or.inl rfl

/-- The row of a duplicate was there before, or it is of this batch and repeats an earlier
request. -/
theorem enqueueWakes_duplicate {requests : List WakeRequest} {genRandomUuid : Nat → Uuid}
    {outcomes : List EnqueueWakeOutcome}
    (ok : s.enqueueWakes communityId requests genRandomUuid = (.ok outcomes, s')) {n : Nat}
    {id : Uuid} (answered : outcomes[n]? = some (.duplicate id)) :
    ∃ request, requests[n]? = some request ∧ ∃ lease ∈ s'.tables.leases,
      lease.address = request.address communityId ∧ lease.current s'.now = true ∧
      lease.generation = request.leaseGeneration ∧ ∃ wake ∈ s'.outbox,
        wake.key = (communityId, id) ∧ wake.eventId = request.eventId ∧
        lease.endpointHash = some wake.endpointHash ∧
        s.resolve communityId request = some wake.endpointHash ∧
        (wake ∈ s.outbox ∨ wake ∈ s.wakesOf communityId requests genRandomUuid ∧
          ∃ m < n, ∃ earlier, requests[m]? = some earlier ∧
            s.SameWake communityId earlier request) := by
  unfold enqueueWakes at ok
  dsimp only at ok
  split at ok
  next => cases ok
  next =>
    split at ok
    next => cases ok
    next =>
      obtain ⟨reported, rfl⟩ := Prod.mk.inj ok
      obtain ⟨key, position, job, repeated⟩ := report_duplicate reported answered
      rw [List.getElem?_map] at position
      obtain ⟨request, requested, keyed⟩ := Option.map_eq_some_iff.mp position
      obtain ⟨endpointHash, resolved, rfl⟩ := Option.map_eq_some_iff.mp keyed
      obtain ⟨wake, found, rfl⟩ := Option.map_eq_some_iff.mp job
      have stored : wake ∈ s.outbox ∨
          wake ∈ newWakes s.outbox (s.wakesOf communityId requests genRandomUuid) := by
        rcases List.mem_append.mp (List.mem_of_find?_eq_some found) with new | member
        · exact Or.inr new
        · split at member
          next => exact List.mem_append.mp member
          next => cases member
      have same : wake.dedupKey = (communityId, endpointHash, request.eventId) := by
        simpa using List.find?_some found
      have parts := same
      simp only [Wake.dedupKey, Prod.mk.injEq] at parts
      obtain ⟨community, endpoint, event⟩ := parts
      obtain ⟨lease, leased, address, current, generation, hash'⟩ := resolve_eq_some resolved
      refine ⟨request, requested, lease, leased, address, current, generation, wake,
        List.mem_append.mpr stored, ?_, event, ?_, ?_, ?_⟩
      · rw [Wake.key, community]
      · rw [hash', endpoint]
      · rw [resolved, endpoint]
      · refine stored.imp_right fun new => ⟨mem_newWakes new, ?_⟩
        have inserted := List.mem_map_of_mem (f := Wake.dedupKey) new
        rw [same] at inserted
        obtain ⟨m, before, there⟩ := (repeated inserted).resolve_left nofun
        rw [List.getElem?_map] at there
        obtain ⟨earlier, requested', keyed'⟩ := Option.map_eq_some_iff.mp there
        obtain ⟨endpointHash', resolved', same'⟩ := Option.map_eq_some_iff.mp keyed'
        obtain ⟨-, rfl, event'⟩ := (Prod.mk.injEq ..).mp same' |>.imp_right (Prod.mk.injEq ..).mp
        exact ⟨m, before, earlier, requested', event', _, resolved', resolved⟩

/-- A row of this batch that a second request asks for is due at once. -/
private theorem due_of_repeated {requests : List WakeRequest} {genRandomUuid : Nat → Uuid}
    (inTime : requests.Pairwise fun request request' => s.SameWake communityId request request' →
      s.InTime communityId request ∧ s.InTime communityId request')
    {wake : Wake} (new : wake ∈ s.wakesOf communityId requests genRandomUuid) {n m : Nat}
    {request earlier : WakeRequest} (requested : requests[n]? = some request)
    (event : wake.eventId = request.eventId)
    (resolved : s.resolve communityId request = some wake.endpointHash) (before : m < n)
    (requested' : requests[m]? = some earlier) (same : s.SameWake communityId earlier request) :
    s.Due wake := by
  obtain ⟨k, own, endpointHash, position, resolved', rfl⟩ := exists_request_of_mem_wakesOf new
  have pair {i j : Nat} {r r' : WakeRequest} (order : i < j) (first : requests[i]? = some r)
      (second : requests[j]? = some r') (one : s.SameWake communityId r r') :
      s.InTime communityId r ∧ s.InTime communityId r' := by
    obtain ⟨inside, rfl⟩ := List.getElem?_eq_some_iff.mp first
    obtain ⟨inside', rfl⟩ := List.getElem?_eq_some_iff.mp second
    exact List.pairwise_iff_getElem.mp inTime i j inside inside' order one
  have here : s.SameWake communityId own request := ⟨event, endpointHash, resolved', resolved⟩
  have own_inTime : s.InTime communityId own := by
    rcases Nat.lt_trichotomy k n with earlier | rfl | later
    · exact (pair earlier position requested here).1
    · obtain rfl := Option.some.inj (position.symm.trans requested)
      exact (pair before requested' position same).2
    · exact (pair later requested position ⟨event.symm, endpointHash, resolved, resolved'⟩).2
  exact own_inTime.due endpointHash _

/-- In a run whose steps meet the condition, an answer `Duplicate` names a wake that is delivered
or owed to the lease that asks. -/
theorem enqueueWakes_owed (hash : LockHash) (maxActiveLeases now : Int) (ops : List Op)
    (communityId : CommunityId) (requests : List WakeRequest) (genRandomUuid : Nat → Uuid)
    (meet : AllMeet hash maxActiveLeases { now }
      (ops ++ [Op.enqueue communityId requests genRandomUuid]))
    (outcomes : List EnqueueWakeOutcome) (s' : Store)
    (ok : (Store.run hash maxActiveLeases { now } ops).enqueueWakes communityId requests
      genRandomUuid = (.ok outcomes, s')) (n : Nat) (id : Uuid)
    (answered : outcomes[n]? = some (.duplicate id)) :
    ∃ request, requests[n]? = some request ∧ ∃ lease ∈ s'.tables.leases,
      lease.address = request.address communityId ∧ lease.current s'.now = true ∧
      lease.generation = request.leaseGeneration ∧ ∃ wake ∈ s'.outbox,
        wake.key = (communityId, id) ∧ wake.eventId = request.eventId ∧
        s'.Owed lease wake := by
  have split : ∀ (ops : List Op) (s : Store),
      AllMeet hash maxActiveLeases s (ops ++ [Op.enqueue communityId requests genRandomUuid]) →
      AllMeet hash maxActiveLeases s ops ∧
        Meets hash maxActiveLeases (s.run hash maxActiveLeases ops)
          (.enqueue communityId requests genRandomUuid) := by
    intro ops
    induction ops with
    | nil => exact fun s meet => ⟨trivial, meet.1⟩
    | cons op ops ih =>
      intro s meet
      obtain ⟨first, last⟩ := ih _ meet.2
      exact ⟨⟨meet.1, first⟩, last⟩
  obtain ⟨before, rows, repeats⟩ := split ops { now } meet
  have covered := (covered_init now).run before
  generalize run hash maxActiveLeases { now } ops = s at ok rows repeats covered
  have after : s'.Covered := by
    have kept : (s.enqueueWakes communityId requests genRandomUuid).2.Covered :=
      covered.enqueue requests genRandomUuid
    rwa [ok] at kept
  obtain ⟨request, requested, lease, leased, address, current, generation, wake, stored, key, event,
    endpoint, resolved, source⟩ := enqueueWakes_duplicate ok answered
  refine ⟨request, requested, lease, leased, address, current, generation, wake, stored, key, event,
    ?_⟩
  have community : wake.address.communityId = communityId := (Prod.mk.inj key).1
  by_cases delivered : wake.state = .delivered
  · exact Or.inl delivered
  · have asked := after.asked lease leased current wake stored
      (by rw [community, address]; rfl) endpoint delivered
    have sends (later : Store) (wellFormed : later.WellFormed) (stored' : wake ∈ later.outbox)
        (leased' : lease ∈ later.tables.leases) (current' : lease.current later.now = true)
        (due : later.Due wake) : later.Sends wake :=
      sends_of_due wellFormed stored' leased' current' asked due
    suffices comes : ∃ now, s'.now ≤ now ∧ ({ s' with now } : Store).Due wake by
      obtain ⟨now, later, due⟩ := comes
      have wellFormed : ({ s' with now } : Store).WellFormed :=
        ⟨after.tables, after.ids, after.dedup⟩
      exact Or.inr ⟨asked, ⟨now, later, due, fun current' =>
        sends _ wellFormed stored leased current' due⟩, sends⟩
    -- Neither the clock nor the events are changed by the insert.
    have same : s'.now = s.now ∧ s'.tables = s.tables := by
      have outcome := @enqueueWakes_store s communityId requests genRandomUuid
      rw [ok] at outcome
      rcases outcome with rfl | ⟨-, rfl⟩ <;> exact ⟨rfl, rfl⟩
    have due_iff {now : Int} : ({ s' with now } : Store).Due wake ↔
        ({ s with now } : Store).Due wake := by
      have live : ({ s' with now } : Store).liveEvent wake =
          ({ s with now } : Store).liveEvent wake := by
        unfold liveEvent
        rw [same.2]
      constructor
      · rintro ⟨found, deadline, next, state⟩
        exact ⟨live ▸ found, deadline, next, state⟩
      · rintro ⟨found, deadline, next, state⟩
        exact ⟨live ▸ found, deadline, next, state⟩
    simp only [due_iff, same.1]
    rcases source with old | ⟨new, m, before, earlier, requested', one⟩
    · have open_ := (rows request (List.mem_of_getElem? requested) wake old community event
        resolved).resolve_left delivered
      exact open_.exists_due (covered.held wake old)
    · exact ⟨s.now, le_refl _,
        due_of_repeated repeats new requested event resolved before requested' one⟩

/-- An event of the community, that the installation `phone` wants to hear of. -/
def sampleEvent : EventRow where
  communityId := ⟨⟨0⟩⟩
  id := .repeated 'e' (Eq.refl true)
  pubkey := .repeated 'b' (Eq.refl true)
  createdAt := 90
  kind := 9
  dTag := none
  receivedAt := 90000000

def sampleRequest (leaseGeneration : Int) : WakeRequest where
  author := .repeated 'a' (Eq.refl true)
  installationId := "phone"
  leaseGeneration := leaseGeneration
  eventId := .repeated 'e' (Eq.refl true)
  wakeClass := "default"
  expiresAt := 1000

/-- The lease is accepted and the wake is enqueued for it. -/
def sampleOps : List Op :=
  [.insertEvent sampleEvent, .accept (sampleCall false),
    .enqueue ⟨⟨0⟩⟩ [sampleRequest 1] fun _ => ⟨7⟩]

/-- A second request of the same generation finds the pending wake. -/
theorem enqueueWakes_owed_repeated :
    ∃ s' : Store, ∃ lease wake, wake.key = (⟨⟨0⟩⟩, ⟨7⟩) ∧ lease.generation = 1 ∧
      s'.Owed lease wake := by
  have meet : AllMeet sampleHash 16 { now := 100000000 }
      (sampleOps ++ [Op.enqueue ⟨⟨0⟩⟩ [sampleRequest 1] fun _ => ⟨8⟩]) := by
    refine ⟨trivial, fun columns _ _ _ => ⟨?_, ?_⟩, ⟨?_, List.pairwise_singleton _ _⟩,
      ⟨?_, List.pairwise_singleton _ _⟩, trivial⟩
    · intro wake (stored : wake ∈ [])
      cases stored
    · intro lease (stored : lease ∈ [])
      cases stored
    · intro request _ wake (stored : wake ∈ [])
      cases stored
    intro request _ wake stored _ _ _
    have rows : ∀ wake ∈ (Store.run sampleHash 16 { now := 100000000 } sampleOps).outbox,
        (Store.run sampleHash 16 { now := 100000000 } sampleOps).tables.events.any (fun event =>
          event.communityId = wake.address.communityId && event.id = wake.eventId &&
            event.deleted = false) = true ∧
        epoch ((Store.run sampleHash 16 { now := 100000000 } sampleOps).freeFrom wake) <
          wake.expiresAt ∧ wake.state = .pending := by decide +kernel
    obtain ⟨event, deadline, pending⟩ := rows wake stored
    obtain ⟨row, member, holds⟩ := List.any_eq_true.mp event
    simp only [Bool.and_eq_true, decide_eq_true_eq] at holds
    exact Or.inr ⟨⟨row, member, holds.1.1, holds.1.2, holds.2⟩, deadline, Or.inl pending⟩
  have answer : ((Store.run sampleHash 16 { now := 100000000 } sampleOps).enqueueWakes ⟨⟨0⟩⟩
      [sampleRequest 1] fun _ => ⟨8⟩).1 = .ok [.duplicate ⟨7⟩] := by decide +kernel
  obtain ⟨request, requested, lease, -, -, -, generation, wake, -, key, -, owed⟩ :=
    enqueueWakes_owed sampleHash 16 100000000 sampleOps ⟨⟨0⟩⟩ [sampleRequest 1] (fun _ => ⟨8⟩) meet
      [.duplicate ⟨7⟩] _ (Prod.ext answer rfl) 0 ⟨7⟩ rfl
  obtain rfl := Option.some.inj requested
  exact ⟨_, lease, wake, key, generation, owed⟩

/-- The lease is rotated on its own endpoint while the wake is pending: the wake of the rotated
lease is a duplicate of one that nobody can claim. -/
theorem rotation_swallows_wake :
    let s := Store.run sampleHash 16 { now := 100000000 } (sampleOps ++ [Op.accept (sampleCall true)])
    (s.enqueueWakes ⟨⟨0⟩⟩ [sampleRequest 2] fun _ => ⟨8⟩).1 = .ok [.duplicate ⟨7⟩] ∧
      (s.claimDueWakes ⟨⟨0⟩⟩ 10 200000000 ⟨9⟩).1 = [] ∧
      ∃ lease ∈ s.tables.leases, lease.address = (sampleRequest 2).address ⟨⟨0⟩⟩ ∧
        lease.current s.now = true ∧ lease.generation = 2 ∧
        ∀ wake ∈ s.outbox, wake.key = (⟨⟨0⟩⟩, ⟨7⟩) → ¬ s.Owed lease wake := by
  intro s
  have leased : s.tables.leases.any (fun lease => lease.address = (sampleRequest 2).address ⟨⟨0⟩⟩ &&
      lease.current s.now && lease.generation = 2) = true := by decide +kernel
  have stale : ∀ wake ∈ s.outbox, wake.state ≠ .delivered ∧ wake.leaseGeneration = 1 := by
    decide +kernel
  obtain ⟨lease, stored, holds⟩ := List.any_eq_true.mp leased
  simp only [Bool.and_eq_true, decide_eq_true_eq] at holds
  refine ⟨by decide +kernel, by decide +kernel, lease, stored, holds.1.1, holds.1.2, holds.2, ?_⟩
  rintro wake member - (delivered | ⟨asked, -⟩)
  · exact (stale wake member).1 delivered
  · have same := asked.generation
    rw [(stale wake member).2, holds.2] at same
    cases same

end Store

end Push
