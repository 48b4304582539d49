import Buzz.Push.Acceptance

/-!
# The effective leases

What one call of `accept_lease_event` that runs alone makes of consistent tables, and what follows
for every run: the effective lease of an address is that of the accepted version that comes last,
and its source event is the only live one of the address.
-/
namespace Push

open Lib Nostr Relay Db

/-- The keys and the `CHECK` constraints. -/
structure WellFormed (t : Tables) : Prop where
  addresses : (t.leases.map Lease.address).Nodup
  keys : (t.events.map EventRow.key).Nodup
  checked : ∀ row ∈ t.leases, row.checked = true

/-- What holds of the tables between two calls. -/
structure Consistent (maxActiveLeases : Int) (t : Tables) : Prop extends WellFormed t where
  /-- The live source events are those of the effective rows. -/
  source : ∀ address stamp, (∃ row ∈ t.sources address, row.stamp = stamp) ↔
    ∃ row ∈ t.leasesAt address, row.stamp = stamp
  quota : ∀ communityId author,
    (t.activeLeases communityId author).length ≤ maxActiveLeases.toNat
  endpoint : ∀ row ∈ t.leases, ∀ row' ∈ t.leases, row.active = true → row'.active = true →
    row.address.communityId = row'.address.communityId →
    row.address.author = row'.address.author → row.endpoint = row'.endpoint → row = row'

theorem consistent_empty (maxActiveLeases : Int) : Consistent maxActiveLeases {} where
  addresses := List.nodup_nil
  keys := List.nodup_nil
  checked row member := by cases member
  source address stamp := by simp [Tables.sources, Tables.leasesAt]
  quota communityId author := by simp [Tables.activeLeases]
  endpoint row member := by cases member

/-! ### One call -/

/-- What an accepted call has found, and what it leaves. -/
structure Replaced (maxActiveLeases : Int) (address : Address) (version : LeaseVersion)
    (active : Option ActiveLease) (t t' : Tables) : Prop where
  order : ∀ row ∈ t.leases, row.address = address →
    row.stamp < version.stamp ∧ row.generation < version.generation
  quota : active.isSome = true →
    (((t.activeLeases address.communityId address.author).filter
      (·.address.installationId ≠ address.installationId)).length : Int) < maxActiveLeases
  endpoint : ∀ columns, active = some columns →
    ∀ row ∈ t.activeLeases address.communityId address.author,
      row.address.installationId ≠ address.installationId →
        row.endpoint ≠ some (columns.appProfile, columns.endpointHash)
  checked : (leaseOf address version active).checked = true
  leases : t'.leases = Table.put Lease.address t.leases (leaseOf address version active)
  keys : (t'.events.map EventRow.key).Nodup
  source : ∀ other stamp, (∃ row ∈ t'.sources other, row.stamp = stamp) ↔
    if other = address then stamp = version.stamp else ∃ row ∈ t.sources other, row.stamp = stamp

/-- Nobody but a call that commits answers so. -/
def Turned (exit : Exit) : Prop := exit ≠ .ok .accepted

section

variable {maxActiveLeases now : Int} {address : Address} {version : LeaseVersion}
  {active : Option ActiveLease} {t : Tables} {Q : Unit → Tables → Prop}

theorem turned_raised (error : SqlError) : Turned error.raised := nofun

theorem turned_refused (error : SqlError) : Turned error.refused := by
  unfold SqlError.refused constraintAcceptanceOutcome
  split
  next outcome given =>
    split at given
    next => cases given; exact nofun
    next =>
      split at given
      next => cases given; exact nofun
      next =>
        split at given
        next => cases given; exact nofun
        next => cases given
  next => exact turned_raised error

theorem checkSource_yields {id : EventId} (holds : Q () t) :
    (checkSource address id).Yields postgres.serve Q Turned t := by
  refine Task.yields_bind (Task.yields_ask ?_)
  change Task.Yields _ _ _ _ t
  split
  next => exact Task.yields_pure holds
  next other _ =>
    refine Task.yields_throw ?_
    by_cases same : other = address <;> simp [same, Turned]

theorem checkOrder_yields (nodup : (t.leases.map Lease.address).Nodup)
    (holds : (∀ row ∈ t.leases, row.address = address →
      row.stamp < version.stamp ∧ row.generation < version.generation) → Q () t) :
    (checkOrder address version).Yields postgres.serve Q Turned t := by
  refine Task.yields_bind (Task.yields_ask ?_)
  change Task.Yields _ _ _ _ t
  split
  next missing =>
    refine Task.yields_pure (holds fun row member place => ?_)
    have found : row ∈ t.leasesAt address := List.mem_filter.mpr ⟨member, decide_eq_true place⟩
    change ((t.leasesAt address).head?.map fun row => (row.stamp, row.generation)) = none at missing
    rw [Option.map_eq_none_iff, List.head?_eq_none_iff] at missing
    rw [missing] at found
    cases found
  next stamp generation given =>
    change ((t.leasesAt address).head?.map fun row => (row.stamp, row.generation)) = some _ at given
    obtain ⟨current, first, same⟩ := Option.map_eq_some_iff.mp given
    obtain ⟨rfl, rfl⟩ := Prod.mk.inj same
    have there := List.mem_filter.mp (List.mem_of_mem_head? first)
    refine Task.yields_bind (Task.yields_guard (fun wins => ?_) fun _ => nofun)
    refine Task.yields_guard (fun later => holds fun row member place => ?_) fun _ => nofun
    obtain rfl := Table.eq_of_key nodup member there.1 (place.trans (of_decide_eq_true there.2).symm)
    exact ⟨winsEvent_iff.mp wins, later⟩

/-- An expired active lease makes the cleanup fail, so that it changes nothing. -/
theorem deactivateExpired_yields {communityId : CommunityId} {author : PublicKey}
    (checked : ∀ row ∈ t.leases, row.checked = true) {k : Unit → Task Stmt Reply Exit Unit}
    (holds : (k ()).Yields postgres.serve Q Turned t) :
    (ask (.deactivateExpired communityId author now) >>= fun cleaned =>
      (Task.ofExcept SqlError.raised cleaned : Task Stmt Reply Exit Unit) >>= k).Yields
        postgres.serve Q Turned t := by
  refine Task.yields_bind (Task.yields_ask ?_)
  refine Task.yields_bind (Task.yields_ofExcept (fun _ cleaned => ?_) fun error _ =>
    turned_raised error)
  change (t.deactivateExpired communityId author now).1 = .ok _ at cleaned
  have unchanged : (t.deactivateExpired communityId author now).2 = [] := by
    unfold Tables.deactivateExpired at cleaned ⊢
    dsimp only at cleaned ⊢
    split at cleaned
    next passes =>
      rw [if_pos passes, List.map_map, List.map_eq_nil_iff, List.eq_nil_iff_forall_not_mem]
      intro row expired
      -- The row would be inactive and keep its columns.
      have stored := List.mem_filter.mp (List.mem_of_mem_filter expired)
      have before := checked row stored.1
      have after := List.all_eq_true.mp passes _ (List.mem_map_of_mem expired)
      simp only [Bool.and_eq_true] at stored
      simp only [Lease.checked, stored.2.1, Bool.and_eq_true, beq_iff_eq] at before after
      rw [← before.2] at after
      cases after.2
    next => cases cleaned
  change (k ()).Yields postgres.serve Q Turned
    (postgres.view t (t.deactivateExpired communityId author now).2)
  rw [unchanged]
  exact holds

theorem checkActivation_yields
    (holds : (active.isSome = true →
      (((t.activeLeases address.communityId address.author).filter
        (·.address.installationId ≠ address.installationId)).length : Int) < maxActiveLeases) →
      (∀ columns, active = some columns →
        ∀ row ∈ t.activeLeases address.communityId address.author,
          row.address.installationId ≠ address.installationId →
            row.endpoint ≠ some (columns.appProfile, columns.endpointHash)) → Q () t) :
    (checkActivation address maxActiveLeases active).Yields postgres.serve Q Turned t := by
  cases active with
  | none => exact Task.yields_pure (holds nofun nofun)
  | some columns =>
    refine Task.yields_bind (Task.yields_ask ?_)
    refine Task.yields_bind (Task.yields_guard (fun room => ?_) fun _ => nofun)
    refine Task.yields_bind (Task.yields_ask ?_)
    refine Task.yields_guard (fun free => holds (fun _ => room) ?_) fun _ => nofun
    rintro _ ⟨⟩ row member elsewhere same
    have taken : (t.activeLeases address.communityId address.author).any (fun row =>
        row.address.installationId ≠ address.installationId ∧
          row.endpoint = some (columns.appProfile, columns.endpointHash)) = true :=
      List.any_eq_true.mpr ⟨row, member, decide_eq_true ⟨elsewhere, same⟩⟩
    change (!(t.activeLeases address.communityId address.author).any _) = true at free
    rw [taken] at free
    cases free

/-! ### The writes -/

/-- The events after the retirement. -/
def Tables.retired (t : Tables) (address : Address) : Tables :=
  { t with
    events := Table.putAll EventRow.key t.events
      ((t.sources address).map fun row => { row with deleted := true }) }

theorem view_putEvents (t : Tables) (rows : List EventRow) :
    postgres.view t (rows.map .putEvent) =
      { t with events := Table.putAll EventRow.key t.events rows } := by
  induction rows generalizing t with
  | nil => rfl
  | cons row rows ih => exact ih (t.apply (.putEvent row))

theorem view_enqueue (t : Tables) (jobs : List (CommunityId × EventId)) :
    (postgres.view t (jobs.map .enqueue)).leases = t.leases ∧
      (postgres.view t (jobs.map .enqueue)).events = t.events := by
  induction jobs generalizing t with
  | nil => exact ⟨rfl, rfl⟩
  | cons job jobs ih => exact ih (t.apply (.enqueue job))

theorem EventRow.isSourceOf_unique {row : EventRow} {other : Address}
    (first : row.isSourceOf address = true) (second : row.isSourceOf other = true) :
    other = address := by
  obtain ⟨community, -, author, installation, -⟩ := of_decide_eq_true first
  obtain ⟨community', -, author', installation', -⟩ := of_decide_eq_true second
  rw [installation] at installation'
  cases address
  cases other
  simp_all

theorem mem_sources_retired (keys : (t.events.map EventRow.key).Nodup) {other : Address}
    {row : EventRow} :
    row ∈ (t.retired address).sources other ↔ row ∈ t.sources other ∧ other ≠ address := by
  have kept : ((t.sources address).map fun row => { row with deleted := true }).map
      EventRow.key = (t.sources address).map EventRow.key := by
    rw [List.map_map]
    rfl
  have nodup : (((t.sources address).map fun row => { row with deleted := true }).map
      EventRow.key).Nodup := by
    rw [kept]
    exact keys.sublist (List.filter_sublist.map _)
  change row ∈ (t.retired address).events.filter (·.isSourceOf other) ↔
    row ∈ t.events.filter (·.isSourceOf other) ∧ other ≠ address
  rw [List.mem_filter, List.mem_filter, Tables.retired, Table.mem_putAll nodup, kept]
  constructor
  · rintro ⟨new | ⟨stored, unretired⟩, live⟩
    · obtain ⟨old, -, rfl⟩ := List.mem_map.mp new
      exact absurd (of_decide_eq_true live).2.2.2.2 (by simp)
    · refine ⟨⟨stored, live⟩, ?_⟩
      rintro rfl
      exact unretired (List.mem_map_of_mem (List.mem_filter.mpr ⟨stored, live⟩))
  · rintro ⟨⟨stored, live⟩, different⟩
    refine ⟨Or.inr ⟨stored, fun retired => ?_⟩, live⟩
    obtain ⟨old, source, same⟩ := List.mem_map.mp retired
    obtain ⟨stored', live'⟩ := List.mem_filter.mp source
    obtain rfl := Table.eq_of_key keys stored' stored same
    exact different (EventRow.isSourceOf_unique live' live)

theorem insertEvent_ok {row : EventRow} (ok : (t.insertEvent row).1 = .ok ()) :
    (∀ old ∈ t.events, old.key ≠ row.key) ∧ (t.insertEvent row).2 = [.putEvent row] := by
  unfold Tables.insertEvent at ok ⊢
  split at ok
  next => cases ok
  next free =>
    rw [if_neg free]
    refine ⟨fun old member same => free ?_, rfl⟩
    exact List.any_eq_true.mpr ⟨old, member, decide_eq_true same⟩

theorem upsertLease_ok {row : Lease} (ok : (t.upsertLease row).1 = .ok ()) :
    row.checked = true ∧ (t.upsertLease row).2 = [.putLease row] := by
  unfold Tables.upsertLease at ok ⊢
  dsimp only at ok ⊢
  split at ok
  next => cases ok
  next passes =>
    split at ok
    next => cases ok
    next unbound =>
      split at ok
      next => cases ok
      next free =>
        rw [if_neg passes, if_neg unbound, if_neg free]
        exact ⟨by simpa using passes, rfl⟩

/-- The source event that an accepted call inserts. -/
def sourceRow (now : Int) (address : Address) (version : LeaseVersion) : EventRow where
  communityId := address.communityId
  id := version.sourceEventId
  pubkey := address.author
  createdAt := version.sourceCreatedAt
  kind := kindPushLease
  dTag := some address.installationId
  receivedAt := now

theorem source_put (keys : (t.events.map EventRow.key).Nodup)
    (fresh : ∀ old ∈ (t.retired address).events, old.key ≠ (sourceRow now address version).key)
    {t' : Tables}
    (events : t'.events = Table.put EventRow.key (t.retired address).events
      (sourceRow now address version)) (other : Address) (stamp : Stamp) :
    (∃ row ∈ t'.sources other, row.stamp = stamp) ↔
      if other = address then stamp = version.stamp
      else ∃ row ∈ t.sources other, row.stamp = stamp := by
  have mem (row : EventRow) : row ∈ t'.sources other ↔
      (row = sourceRow now address version ∧ other = address) ∨
        row ∈ t.sources other ∧ other ≠ address := by
    rw [← mem_sources_retired keys]
    simp only [Tables.sources, List.mem_filter, events, Table.mem_put]
    constructor
    · rintro ⟨rfl | ⟨stored, -⟩, live⟩
      · refine Or.inl ⟨rfl, EventRow.isSourceOf_unique ?_ live⟩
        exact decide_eq_true ⟨rfl, rfl, rfl, rfl, rfl⟩
      · exact Or.inr ⟨stored, live⟩
    · rintro (⟨rfl, rfl⟩ | ⟨stored, live⟩)
      · exact ⟨Or.inl rfl, decide_eq_true ⟨rfl, rfl, rfl, rfl, rfl⟩⟩
      · exact ⟨Or.inr ⟨stored, fresh row stored⟩, live⟩
  simp only [mem]
  split
  next same =>
    subst same
    constructor
    · rintro ⟨row, ⟨rfl, -⟩ | ⟨-, different⟩, rfl⟩
      · rfl
      · exact absurd rfl different
    · rintro rfl
      exact ⟨_, Or.inl ⟨rfl, rfl⟩, rfl⟩
  next different =>
    constructor
    · rintro ⟨row, ⟨-, same⟩ | ⟨source, -⟩, stamped⟩
      · exact absurd same different
      · exact ⟨row, source, stamped⟩
    · rintro ⟨row, source, stamped⟩
      exact ⟨row, Or.inr ⟨source, different⟩, stamped⟩

theorem replaceLease_yields (keys : (t.events.map EventRow.key).Nodup)
    (holds : ∀ t', (leaseOf address version active).checked = true →
      t'.leases = Table.put Lease.address t.leases (leaseOf address version active) →
      (t'.events.map EventRow.key).Nodup →
      (∀ other stamp, (∃ row ∈ t'.sources other, row.stamp = stamp) ↔
        if other = address then stamp = version.stamp
        else ∃ row ∈ t.sources other, row.stamp = stamp) → Q () t') :
    (replaceLease now address version.sourceEventId version active).Yields postgres.serve Q
      Turned t := by
  have retired : (postgres.serve (.retireSource address) t).2 = t.retired address := by
    change postgres.view t ((t.sources address).map _) = _
    rw [Tables.retired, ← view_putEvents, List.map_map]
    rfl
  refine Task.yields_bind (Task.yields_ask ?_)
  rw [retired]
  refine Task.yields_bind (Task.yields_ofExcept (fun createdAt time => ?_) fun exit bad => ?_)
  · obtain rfl : createdAt = version.sourceCreatedAt := by
      split at time
      next given =>
        cases time
        exact (fromTimestamp_eq_some.mp given).1.symm
      next => cases time
    refine Task.yields_bind (Task.yields_ask ?_)
    refine Task.yields_bind (Task.yields_ofExcept (fun _ inserted => ?_) fun error _ =>
      turned_refused error)
    obtain ⟨fresh, put⟩ :=
      @insertEvent_ok (t.retired address) (sourceRow now address version) inserted
    have second : (postgres.serve (.insertEvent (sourceRow now address version))
        (t.retired address)).2 =
          (t.retired address).apply (.putEvent (sourceRow now address version)) := by
      change postgres.view _ ((t.retired address).insertEvent _).2 = _
      rw [put]
      rfl
    change Task.Yields _ _ _ _ (postgres.serve (.insertEvent (sourceRow now address version))
      (t.retired address)).2
    rw [second]
    refine Task.yields_bind (Task.yields_ask ?_)
    refine Task.yields_bind (Task.yields_ofExcept (fun _ upserted => ?_) fun error _ =>
      turned_refused error)
    obtain ⟨checked, put'⟩ := upsertLease_ok upserted
    generalize third : (postgres.serve (.upsertLease (leaseOf address version active))
      ((t.retired address).apply (.putEvent (sourceRow now address version)))).2 = written
    replace third : ((t.retired address).apply (.putEvent (sourceRow now address version))).apply
        (.putLease (leaseOf address version active)) = written := by
      rw [← third]
      change _ = postgres.view _ (Tables.upsertLease _ _).2
      rw [put']
      rfl
    have end_ (t' : Tables) (leases : t'.leases = written.leases)
        (events : t'.events = written.events) : Q () t' := by
      refine holds t' checked ?_ ?_ ?_
      · rw [leases, ← third]
        rfl
      · rw [events, ← third]
        exact Table.nodup_put (Table.nodup_putAll keys _) _
      · refine fun other stamp => source_put keys fresh ?_ other stamp
        rw [events, ← third]
        rfl
    split
    next =>
      refine Task.yields_ask ?_
      have jobs : (Tables.exec (.backfillPushMatchJobs address.communityId now) written).2 =
          ((written.events.filter fun row => row.communityId = address.communityId ∧
            row.kind ∈ pushKinds ∧ row.deleted = false ∧
              now - pushGateBackfillSecs * 1000000 < row.receivedAt).map
                fun row => (row.communityId, row.id)).map .enqueue := by
        rw [List.map_map]
        rfl
      have untouched := view_enqueue written ((written.events.filter fun row =>
        row.communityId = address.communityId ∧ row.kind ∈ pushKinds ∧ row.deleted = false ∧
          now - pushGateBackfillSecs * 1000000 < row.receivedAt).map
            fun row => (row.communityId, row.id))
      rw [← jobs] at untouched
      exact end_ _ untouched.1 untouched.2
    next => exact Task.yields_pure (end_ written rfl rfl)
  · split at bad
    next => cases bad
    next =>
      cases bad
      exact nofun

theorem lockGate_yields {hash : LockHash} {communityId : CommunityId} (holds : Q () t) :
    (lockGate hash communityId active).Yields postgres.serve Q Turned t := by
  unfold lockGate
  split
  next => exact Task.yields_ask holds
  next => exact Task.yields_pure holds

end

namespace Call

variable {call : Call} {maxActiveLeases now : Int} {t t' : Tables}

theorem acceptLease_yields (hash : LockHash) (wellFormed : WellFormed t) :
    (acceptLease hash now call.communityId call.event call.installationId call.version call.active
      maxActiveLeases).Yields postgres.serve
        (fun _ t' => Replaced maxActiveLeases call.address call.version call.active t t')
        Turned t := by
  refine Task.yields_bind (Task.yields_ask ?_)
  refine Task.yields_bind (Task.yields_ask ?_)
  refine Task.yields_bind (lockGate_yields ?_)
  refine Task.yields_bind (checkSource_yields ?_)
  refine Task.yields_bind (checkOrder_yields wellFormed.addresses fun order => ?_)
  refine deactivateExpired_yields wellFormed.checked ?_
  refine Task.yields_bind (checkActivation_yields fun quota endpoint => ?_)
  exact replaceLease_yields wellFormed.keys fun t' checked leases keys source =>
    { order, quota, endpoint, checked, leases, keys, source }

/-- A call that runs alone changes nothing, or it is accepted. -/
theorem transaction_eval (hash : LockHash) (wellFormed : WellFormed t) :
    (∃ exit t', Turned exit ∧
      (call.transaction hash maxActiveLeases now).eval postgres.serve t = (.rollback exit, t')) ∨
    ∃ t', Replaced maxActiveLeases call.address call.version call.active t t' ∧
      (call.transaction hash maxActiveLeases now).eval postgres.serve t =
        (.commit (.ok .accepted), t') := by
  have yields := @acceptLease_yields call maxActiveLeases now t hash wellFormed
  unfold Task.Yields at yields
  unfold transaction acceptLeaseEvent
  cases ran : (acceptLease hash now call.communityId call.event call.installationId call.version
    call.active maxActiveLeases).run.eval postgres.serve t with
  | mk result t' =>
    rw [ran] at yields
    rw [Prog.eval_bind, ran]
    cases result with
    | ok done => exact Or.inr ⟨t', yields, rfl⟩
    | error exit => exact Or.inl ⟨exit, t', yields, rfl⟩

end Call

/-! ### What a call keeps -/

section

variable {maxActiveLeases : Int} {address : Address} {version : LeaseVersion}
  {active : Option ActiveLease} {t t' : Tables}

theorem Replaced.mem_leases (replaced : Replaced maxActiveLeases address version active t t')
    {row : Lease} : row ∈ t'.leases ↔ row = leaseOf address version active ∨
      row ∈ t.leases ∧ row.address ≠ address := by
  rw [replaced.leases, Table.mem_put]
  rfl

theorem Lease.elsewhere_iff {row : Lease}
    (theirs : row.belongsTo address.communityId address.author = true) :
    row.address ≠ address ↔ row.address.installationId ≠ address.installationId := by
  obtain ⟨community, author⟩ := of_decide_eq_true theirs
  obtain ⟨⟨_, _, _⟩, _⟩ := row
  cases address
  subst community author
  simp

theorem mem_activeLeases {communityId : CommunityId} {author : PublicKey} {row : Lease} :
    row ∈ t.activeLeases communityId author ↔
      row ∈ t.leases ∧ row.active = true ∧ row.belongsTo communityId author = true := by
  rw [Tables.activeLeases, List.mem_filter, Bool.and_eq_true]

theorem Replaced.quota_kept (replaced : Replaced maxActiveLeases address version active t t')
    (before : ∀ communityId author,
      (t.activeLeases communityId author).length ≤ maxActiveLeases.toNat)
    (communityId : CommunityId) (author : PublicKey) :
    (t'.activeLeases communityId author).length ≤ maxActiveLeases.toNat := by
  have split : t'.activeLeases communityId author =
      (t.activeLeases communityId author).filter (·.address ≠ address) ++
        [leaseOf address version active].filter fun row =>
          row.active && row.belongsTo communityId author := by
    rw [Tables.activeLeases, replaced.leases, Table.put, List.filter_append, List.filter_comm]
    rfl
  rw [split, List.length_append, List.filter_singleton]
  cases mine : ((leaseOf address version active).active &&
    (leaseOf address version active).belongsTo communityId author) with
  | false =>
    have fewer := List.length_filter_le (fun row : Lease => decide (row.address ≠ address))
      (t.activeLeases communityId author)
    exact le_trans (by simpa using fewer) (before communityId author)
  | true =>
    -- The others were fewer than the maximum.
    obtain ⟨activates, belongs⟩ := Bool.and_eq_true_iff.mp mine
    obtain ⟨rfl, rfl⟩ := of_decide_eq_true belongs
    have others : (t.activeLeases address.communityId address.author).filter
          (·.address ≠ address) =
        (t.activeLeases address.communityId address.author).filter
          (·.address.installationId ≠ address.installationId) := by
      refine List.filter_congr fun row member => ?_
      exact decide_eq_decide.mpr (Lease.elsewhere_iff (mem_activeLeases.mp member).2.2)
    have room := replaced.quota activates
    change (((t.activeLeases address.communityId address.author).filter
      (·.address ≠ address)).length + 1) ≤ _
    rw [others]
    omega

theorem Replaced.endpoint_new (replaced : Replaced maxActiveLeases address version active t t')
    {row : Lease} (member : row ∈ t.leases) (elsewhere : row.address ≠ address)
    (isActive : row.active = true) (activates : active.isSome = true)
    (community : row.address.communityId = address.communityId)
    (author : row.address.author = address.author) :
    row.endpoint ≠ (leaseOf address version active).endpoint := by
  obtain ⟨columns, rfl⟩ := Option.isSome_iff_exists.mp activates
  have theirs : row.belongsTo address.communityId address.author = true :=
    decide_eq_true ⟨community, author⟩
  exact replaced.endpoint columns rfl row (mem_activeLeases.mpr ⟨member, isActive, theirs⟩)
    ((Lease.elsewhere_iff theirs).mp elsewhere)

theorem Replaced.wellFormed (replaced : Replaced maxActiveLeases address version active t t')
    (before : WellFormed t) : WellFormed t' where
  addresses := by
    rw [replaced.leases]
    exact Table.nodup_put before.addresses _
  keys := replaced.keys
  checked row member := by
    rcases replaced.mem_leases.mp member with rfl | ⟨stored, -⟩
    · exact replaced.checked
    · exact before.checked row stored

theorem Replaced.consistent (replaced : Replaced maxActiveLeases address version active t t')
    (before : Consistent maxActiveLeases t) : Consistent maxActiveLeases t' where
  toWellFormed := replaced.wellFormed before.toWellFormed
  source other stamp := by
    rw [replaced.source other stamp]
    simp only [Tables.leasesAt, List.mem_filter, replaced.mem_leases, decide_eq_true_eq]
    split
    next same =>
      subst same
      constructor
      · rintro rfl
        exact ⟨_, ⟨Or.inl rfl, rfl⟩, rfl⟩
      · rintro ⟨row, ⟨rfl | ⟨-, different⟩, place⟩, rfl⟩
        · rfl
        · exact absurd place different
    next different =>
      rw [before.source other stamp]
      simp only [Tables.leasesAt, List.mem_filter, decide_eq_true_eq]
      constructor
      · rintro ⟨row, ⟨stored, rfl⟩, stamped⟩
        exact ⟨row, ⟨Or.inr ⟨stored, different⟩, rfl⟩, stamped⟩
      · rintro ⟨row, ⟨rfl | ⟨stored, -⟩, place⟩, stamped⟩
        · exact absurd place.symm different
        · exact ⟨row, ⟨stored, place⟩, stamped⟩
  quota := replaced.quota_kept before.quota
  endpoint row member row' member' isActive isActive' community author same := by
    rcases replaced.mem_leases.mp member with rfl | ⟨stored, elsewhere⟩ <;>
      rcases replaced.mem_leases.mp member' with rfl | ⟨stored', elsewhere'⟩
    · rfl
    · exact absurd same.symm
        (replaced.endpoint_new stored' elsewhere' isActive' isActive community.symm author.symm)
    · exact absurd same
        (replaced.endpoint_new stored elsewhere isActive isActive' community author)
    · exact before.endpoint row stored row' stored' isActive isActive' community author same

end

/-! ### Every run -/

section

variable {ι : Type} {call : ι → Call} {hash : LockHash} {maxActiveLeases : Int} {now : ι → Int}
  {t : Tables}

/-- The transactions of the calls. -/
def transactions (hash : LockHash) (maxActiveLeases : Int) (now : ι → Int) (call : ι → Call)
    (i : ι) : Prog Stmt Reply (Ending Exit) :=
  (call i).transaction hash maxActiveLeases (now i)

theorem after_or (wellFormed : WellFormed t) (i : ι) :
    let after := postgres.after (transactions hash maxActiveLeases now call) t i
    let answer := postgres.answer (transactions hash maxActiveLeases now call) t i
    (after = t ∧ Turned answer) ∨ answer = .ok .accepted ∧
      Replaced maxActiveLeases (call i).address (call i).version (call i).active t after := by
  rcases @Call.transaction_eval (call i) maxActiveLeases (now i) t hash wellFormed with
    ⟨exit, t', turned, alone⟩ | ⟨t', replaced, alone⟩
  · refine Or.inl ⟨?_, ?_⟩
    · rw [Server.after, transactions, alone]
    · rw [Server.answer, transactions, alone]
      exact turned
  · refine Or.inr ⟨?_, ?_⟩
    · rw [Server.answer, transactions, alone]
      rfl
    · rw [Server.after, transactions, alone]
      exact replaced

/-- The version of the one call is before that of the other. -/
structure Before (first second : Call) : Prop where
  generation : first.generation < second.generation
  stamp : first.version.stamp < second.version.stamp

/-- The accepted calls of an address among those that have ended. -/
structure Versions (call : ι → Call) (accepted : ι → Prop) (order : List ι) (t : Tables) :
    Prop where
  increasing : order.Pairwise fun i j => accepted i → accepted j →
    (call i).address = (call j).address → Before (call i) (call j)
  /-- The effective row is not before any of them. -/
  effective : ∀ i ∈ order, accepted i → ∃ row ∈ t.leases, row.address = (call i).address ∧
    (call i).version.stamp ≤ row.stamp ∧ (call i).generation ≤ row.generation

theorem Versions.turned {accepted : ι → Prop} {order : List ι}
    (versions : Versions call accepted order t) {i : ι} (turned : ¬ accepted i) :
    Versions call accepted (order ++ [i]) t where
  increasing := by
    refine List.pairwise_append.mpr ⟨versions.increasing, List.pairwise_singleton _ i, ?_⟩
    rintro j - _ single - isAccepted
    rw [List.mem_singleton.mp single] at isAccepted
    exact absurd isAccepted turned
  effective j member isAccepted := by
    rcases List.mem_append.mp member with before | single
    · exact versions.effective j before isAccepted
    · rw [List.mem_singleton.mp single] at isAccepted
      exact absurd isAccepted turned

theorem Versions.replaced {accepted : ι → Prop} {order : List ι}
    (versions : Versions call accepted order t) {i : ι} {t' : Tables}
    (replaced : Replaced maxActiveLeases (call i).address (call i).version (call i).active t t') :
    Versions call accepted (order ++ [i]) t' where
  increasing := by
    refine List.pairwise_append.mpr ⟨versions.increasing, List.pairwise_singleton _ i, ?_⟩
    rintro j member _ single isAccepted - same
    obtain rfl := List.mem_singleton.mp single
    obtain ⟨row, stored, place, stamp, generation⟩ := versions.effective j member isAccepted
    have later := replaced.order row stored (place.trans same)
    exact ⟨lt_of_le_of_lt generation later.2, lt_of_le_of_lt stamp later.1⟩
  effective j member isAccepted := by
    by_cases same : (call j).address = (call i).address
    · refine ⟨_, replaced.mem_leases.mpr (Or.inl rfl), same.symm, ?_⟩
      rcases List.mem_append.mp member with before | single
      · obtain ⟨row, stored, place, stamp, generation⟩ := versions.effective j before isAccepted
        have later := replaced.order row stored (place.trans same)
        exact ⟨stamp.trans later.1.le, generation.trans later.2.le⟩
      · rw [List.mem_singleton.mp single]
        exact ⟨le_rfl, le_rfl⟩
    · rcases List.mem_append.mp member with before | single
      · obtain ⟨row, stored, place, follows⟩ := versions.effective j before isAccepted
        refine ⟨row, replaced.mem_leases.mpr (Or.inr ⟨stored, ?_⟩), place, follows⟩
        rw [place]
        exact same
      · exact absurd (by rw [List.mem_singleton.mp single]) same

/-- One after the other, the calls keep the tables consistent and their versions in order. -/
theorem serial_versions {c : Outcomes Tables ι Exit} {order : List ι}
    (inOrder : postgres.InOrder (transactions hash maxActiveLeases now call) {} c order)
    {earlier later : List ι} (split : order = earlier ++ later) :
    Consistent maxActiveLeases
      (earlier.foldl (postgres.after (transactions hash maxActiveLeases now call)) {}) ∧
    Versions call (fun i => c.result i = some (some (.ok .accepted))) earlier
      (earlier.foldl (postgres.after (transactions hash maxActiveLeases now call)) {}) := by
  induction earlier using List.reverseRecOn generalizing later with
  | nil => exact ⟨consistent_empty _, .nil, fun i member => by cases member⟩
  | append_singleton earlier i ih =>
    rw [List.append_assoc] at split
    obtain ⟨consistent, versions⟩ := ih split
    have value := inOrder.value earlier i later split
    rw [List.foldl_append]
    rcases @after_or ι call hash maxActiveLeases now _ consistent.toWellFormed i with
      ⟨kept, turned⟩ | ⟨-, replaced⟩
    · change Consistent _ (postgres.after _ _ i) ∧ Versions _ _ _ (postgres.after _ _ i)
      rw [kept]
      refine ⟨consistent, versions.turned fun isAccepted => turned ?_⟩
      rw [isAccepted] at value
      exact (Option.some.inj (Option.some.inj value)).symm
    · exact ⟨replaced.consistent consistent, versions.replaced replaced⟩

/-- The effective leases and their source events. The limits hold of all active leases, so also of
those that have not expired. -/
structure Effective (maxActiveLeases : Int) (t : Tables) : Prop where
  single : ∀ address, (t.leasesAt address).length ≤ 1
  source : ∀ address,
    (t.sources address).map EventRow.stamp = (t.leasesAt address).map Lease.stamp
  quota : ∀ communityId author,
    (t.activeLeases communityId author).length ≤ maxActiveLeases.toNat
  endpoint : ∀ communityId author,
    ((t.activeLeases communityId author).map Lease.endpoint).Nodup

theorem Consistent.nodup_stamps (consistent : Consistent maxActiveLeases t) (address : Address) :
    ((t.sources address).map EventRow.stamp).Nodup := by
  have rows : (t.sources address).Nodup := (consistent.keys.of_map _).filter _
  refine rows.map_on fun row member row' member' same => ?_
  obtain ⟨stored, live⟩ := List.mem_filter.mp member
  obtain ⟨stored', live'⟩ := List.mem_filter.mp member'
  have community := (of_decide_eq_true live).1.trans (of_decide_eq_true live').1.symm
  exact Table.eq_of_key consistent.keys stored stored' (Prod.ext community same)

theorem Consistent.effective (consistent : Consistent maxActiveLeases t) :
    Effective maxActiveLeases t where
  single address := Table.length_filter_key_le consistent.addresses address
  source address := by
    have stamps : ((t.leasesAt address).map Lease.stamp).length ≤ 1 := by
      rw [List.length_map]
      exact Table.length_filter_key_le consistent.addresses address
    have nodup : ((t.leasesAt address).map Lease.stamp).Nodup := by
      match (t.leasesAt address).map Lease.stamp, stamps with
      | [], _ => exact List.nodup_nil
      | [_], _ => exact List.pairwise_singleton _ _
    have same : ((t.sources address).map EventRow.stamp).Perm
        ((t.leasesAt address).map Lease.stamp) := by
      refine (List.perm_ext_iff_of_nodup (consistent.nodup_stamps address) nodup).mpr
        fun stamp => ?_
      rw [List.mem_map, List.mem_map]
      exact consistent.source address stamp
    match (t.leasesAt address).map Lease.stamp, stamps, same with
    | [], _, same => exact same.eq_nil
    | [_], _, same => exact same.eq_singleton
  quota := consistent.quota
  endpoint communityId author := by
    have rows : (t.activeLeases communityId author).Nodup :=
      (consistent.addresses.of_map _).filter _
    refine rows.map_on fun row member row' member' same => ?_
    obtain ⟨stored, active, theirs⟩ := mem_activeLeases.mp member
    obtain ⟨stored', active', theirs'⟩ := mem_activeLeases.mp member'
    obtain ⟨rfl, rfl⟩ := of_decide_eq_true theirs
    obtain ⟨community, author⟩ := of_decide_eq_true theirs'
    exact consistent.endpoint row stored row' stored' active active' community.symm author.symm same

/-- From an empty store, with any interleaving: the calls answer as they would one by one in the
order of their ends, a call that is not accepted leaves no trace, the accepted versions of an
address come in both orders, and the leases are effective. -/
theorem acceptLeaseEvent_consistent {ι : Type} [DecidableEq ι] (hash : LockHash)
    (maxActiveLeases : Int) (now : ι → Int) (call : ι → Call) (hashed : Hashed call)
    (turns : List (Turn ι)) (s : Sessions Stmt Reply Int64 Change Tables ι Exit)
    (ran : postgres.run (Sessions.init {} (transactions hash maxActiveLeases now call)) turns =
      some s) :
    let order := postgres.ends
      (Sessions.init {} (transactions hash maxActiveLeases now call) :
        Sessions Stmt Reply Int64 Change Tables ι Exit) turns
    let accepted (i : ι) := s.outcomes.result i = some (some (.ok .accepted))
    let after := List.foldl (postgres.after (transactions hash maxActiveLeases now call)) {}
    postgres.InOrder (transactions hash maxActiveLeases now call) {} s.outcomes order ∧
    (∀ earlier i later, order = earlier ++ i :: later → ¬ accepted i →
      after (earlier ++ [i]) = after earlier) ∧
    order.Pairwise (fun i j => accepted i → accepted j → (call i).address = (call j).address →
      Before (call i) (call j)) ∧
    Effective maxActiveLeases s.committed := by
  intro order accepted after
  have fine : Tables.Owned (Owner call) {} := ⟨nofun, nofun⟩
  have inOrder : postgres.InOrder (transactions hash maxActiveLeases now call) {} s.outcomes order :=
    (apart hash maxActiveLeases now hashed).inOrder fine ran
  obtain ⟨consistent, versions⟩ := serial_versions inOrder (List.append_nil order).symm
  refine ⟨inOrder, fun earlier i later split turned => ?_, versions.increasing, ?_⟩
  · have start := serial_versions inOrder split
    rcases @after_or ι call hash maxActiveLeases now _ start.1.toWellFormed i with
      ⟨kept, -⟩ | ⟨answered, -⟩
    · change List.foldl _ _ (earlier ++ [i]) = _
      rw [List.foldl_append]
      exact kept
    · refine absurd ?_ turned
      change s.outcomes.result i = _
      rw [inOrder.value earlier i later split]
      exact congrArg (fun exit => some (some exit)) answered
  · rw [← inOrder.db] at consistent
    exact consistent.effective

/-- The hash functions on the locks of one author's installation `phone`. -/
def sampleHash : LockHash where
  digest bytes :=
    if bytes = List.replicate 16 0 ++ List.replicate 32 0xaa then 1834260431508428746
    else -5479457257683446215
  text _ := -5531406845587885019

/-- A lease of the installation and its rotation. -/
def sampleCall (second : Bool) : Call where
  communityId := ⟨⟨0⟩⟩
  event := {
    id := .repeated (if second then '2' else '1') (by cases second <;> rfl)
    pubkey := .repeated 'a' (Eq.refl true)
    createdAt := if second then 200 else 100
    kind := kindPushLease
    tags := [["d", "phone"]]
    content := "" }
  installationId := "phone"
  generation := if second then 2 else 1
  expiresAt := 1000
  active := some ⟨"buzz-ios-production", List.replicate 32 7, "grant", "default", .arr []⟩

/-- The second call waits for the first one. -/
theorem acceptLeaseEvent_consistent_rotation :
    let body := transactions sampleHash 16 (fun _ => 100000000) sampleCall
    let start : Sessions Stmt Reply Int64 Change Tables Bool Exit := Sessions.init {} body
    let turns := List.replicate 13 (Turn.go false) ++ List.replicate 13 (Turn.go true)
    ∃ s, postgres.run start turns = some s ∧ postgres.ends start turns = [false, true] ∧
      Effective 16 s.committed := by
  intro body start turns
  obtain ⟨ended, order⟩ : (postgres.run start turns).isSome = true ∧
      postgres.ends start turns = [false, true] := by decide +kernel
  obtain ⟨s, ran⟩ := Option.isSome_iff_exists.mp ended
  have author (second : Bool) : (sampleCall second).author = .repeated 'a' rfl := rfl
  have hashed : Hashed sampleCall := fun i j _ => (author i).trans (author j).symm
  have holds := acceptLeaseEvent_consistent sampleHash 16 (fun _ => 100000000) sampleCall hashed
    turns s ran
  exact ⟨s, ran, order, holds.2.2.2⟩

end

end Push
