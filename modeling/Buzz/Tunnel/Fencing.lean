import Buzz.Tunnel.Directory

/-!
# Fencing

Every run of acquisitions, takeovers, renewals, releases and expiries of any number of runtimes
on any sessions. A lease is live from the call that creates it for as long as its Redis key is
there. `Fenced` is what the directory is for: one live lease a session, generations that only
grow, and frames accepted from the holder of the live lease alone.

The generation reaches the lease through a Lua number. From the hundred trillionth lease of a
session on its text is no longer the number, so this is how far the fence holds
(`fenced_of_withinDigits`).
-/
namespace Tunnel

open Lib Nostr Relay

/-! ### Runs -/

inductive Action where
  | acquire (directory : SessionDirectory) (communityId : CommunityId) (sessionId : Uuid)
      (ownerRuntimeId : RuntimeId) (profile : Profile) (fault : Option Fault)
  | takeover (directory : SessionDirectory) (communityId : CommunityId) (sessionId : Uuid)
      (ownerRuntimeId : RuntimeId) (profile : Profile) (fault : Option Fault)
  | renew (directory : SessionDirectory) (lease : SessionLease) (fault : Option Fault)
  | release (lease : SessionLease) (fault : Option Fault)
  | validate (communityId : CommunityId) (fenced : FencedHeader)
  /-- The key of a lease goes some time after its time to live. -/
  | expire (communityId : CommunityId) (sessionId : Uuid)
  | tick (ms : Nat)

def perform (r : Redis) : Action → Option Redis
  | .acquire d community session owner profile fault =>
    some (d.acquire community session owner profile fault r).2
  | .takeover d community session owner profile fault =>
    some (d.takeover community session owner profile fault r).2
  | .renew d lease fault => some (d.renew lease fault r).2
  | .release lease fault => some (SessionDirectory.release lease fault r).2
  | .validate _ _ => some r
  | .expire community session => r.expire (SessionKeys.new community session).lease
  | .tick ms => some (r.tick ms)

/-- Nobody has owned a session yet. -/
def Fresh (r : Redis) : Prop :=
  ∀ community session, r.keys (SessionKeys.new community session).lease = none ∧
    r.keys (SessionKeys.new community session).generation = none

abbrev Run := Trace perform

/-- The owner and the profile that an action asks a lease for. -/
def Action.asksFor (community : CommunityId) (session : Uuid) : Action → Option (RuntimeId × Profile)
  | .acquire _ c s owner profile _ | .takeover _ c s owner profile _ =>
    if c = community ∧ s = session then some (owner, profile) else none
  | _ => none

namespace Run

variable (run : Run)

/-- Whether a lease key is there before the action `n`. -/
def Taken (n : Nat) (community : CommunityId) (session : Uuid) : Prop :=
  ((run.state n).get (SessionKeys.new community session).lease).isSome

/-- Action `n` creates the lease. -/
structure Grants (n : Nat) (lease : SessionLease) : Prop where
  asked : (run.action n).asksFor lease.communityId lease.sessionId =
    some (lease.ownerRuntimeId, lease.profile)
  free : ¬ run.Taken n lease.communityId lease.sessionId
  taken : run.Taken (n + 1) lease.communityId lease.sessionId
  generation : knownGeneration (run.state (n + 1)) lease.communityId lease.sessionId =
    .ok (some lease.generation)

/-- The lease was created, and its key has been there ever since. -/
def Live (n : Nat) (lease : SessionLease) : Prop :=
  ∃ m < n, run.Grants m lease ∧
    ∀ k, m < k → k ≤ n → run.Taken k lease.communityId lease.sessionId

/-- The holder of the live lease sends this fence. -/
def Holds (n : Nat) (community : CommunityId) (fenced : FencedHeader) : Prop :=
  ∃ lease, run.Live n lease ∧ lease.communityId = community ∧ lease.fencedHeader = fenced

/-- A lease of the session with a higher generation has been created before. -/
def Outdated (n : Nat) (community : CommunityId) (fenced : FencedHeader) : Prop :=
  ∃ m < n, ∃ lease, run.Grants m lease ∧ lease.communityId = community ∧
    lease.sessionId = fenced.sessionId ∧ fenced.generation < lease.generation

/-- The reason a frame is rejected for. -/
inductive Classified (n : Nat) (community : CommunityId) (fenced : FencedHeader) :
    MeshError → Prop where
  | stale {known : Nat} (outdated : run.Outdated n community fenced)
      (counted : knownGeneration (run.state n) community fenced.sessionId = .ok (some known)) :
      Classified n community fenced
        (.staleGeneration fenced.sessionId fenced.generation known)
  | noLease {known : Option Nat} (current : ¬ run.Outdated n community fenced)
      (none : ¬ run.Taken n community fenced.sessionId)
      (counted : knownGeneration (run.state n) community fenced.sessionId = .ok known) :
      Classified n community fenced
        (.noActiveLease fenced.sessionId fenced.generation (known.getD 0) fenced.ownerRuntimeId)
  | future {header : FencedHeader} (current : ¬ run.Outdated n community fenced)
      (live : run.Holds n community header) (session : header.sessionId = fenced.sessionId)
      (ahead : header.generation < fenced.generation) :
      Classified n community fenced
        (.futureGeneration fenced.sessionId fenced.generation header.generation)
  | ownerMismatch {header : FencedHeader} (live : run.Holds n community header)
      (session : header.sessionId = fenced.sessionId)
      (same : header.generation = fenced.generation)
      (other : header.ownerRuntimeId ≠ fenced.ownerRuntimeId) :
      Classified n community fenced
        (.ownerMismatch fenced.sessionId fenced.generation fenced.ownerRuntimeId
          header.ownerRuntimeId)

/-- What the directory is for. -/
structure Fenced : Prop where
  unique : ∀ n community a b, run.Holds n community a → run.Holds n community b →
    a.sessionId = b.sessionId → a = b
  increasing : ∀ m n a b, run.Grants m a → run.Grants n b → a.communityId = b.communityId →
    a.sessionId = b.sessionId → m < n → a.generation < b.generation
  /-- A lease that is over stays over. -/
  lapsed : ∀ m n k community fenced, run.Holds m community fenced → m ≤ n →
    ¬ run.Holds n community fenced → n ≤ k → ¬ run.Holds k community fenced
  /-- Who does not hold the live lease changes nothing. -/
  late : ∀ n lease d fault, ¬ run.Holds n lease.communityId lease.fencedHeader →
    (SessionDirectory.renew d lease fault (run.state n)).2 = run.state n ∧
      (SessionDirectory.release lease fault (run.state n)).2 = run.state n
  accepts : ∀ n community fenced,
    validateFencedHeader (run.state n) community fenced = .ok () ↔ run.Holds n community fenced
  /-- No frame of a lease that is over, or of an earlier one, is accepted again. -/
  never_again : ∀ m n k community held fenced, run.Holds m community held → m ≤ n →
    ¬ run.Holds n community held → n ≤ k → fenced.sessionId = held.sessionId →
    fenced.generation ≤ held.generation →
    validateFencedHeader (run.state k) community fenced ≠ .ok ()
  classified : ∀ n community fenced e,
    validateFencedHeader (run.state n) community fenced = .error e →
    run.Classified n community fenced e

end Run

/-! ### What one action does to a session -/

theorem mutate_snd {α : Type} (fault : Option Fault)
    (script : Except DirectoryError (Redis → Except RedisError ScriptReply × Redis))
    (read : ScriptReply → Except DirectoryError α) (r : Redis) :
    (mutate fault script read r).2 = r ∨
      ∃ body, script = .ok body ∧ (mutate fault script read r).2 = (body r).2 := by
  unfold mutate
  split
  next => exact Or.inl rfl
  next => exact Or.inl rfl
  next body => exact Or.inr ⟨body, rfl, rfl⟩
  next body =>
    refine Or.inr ⟨body, rfl, ?_⟩
    split
    next failed => rw [failed]
    next replied => rw [replied]

theorem renew_snd (d : SessionDirectory) (lease : SessionLease) (fault : Option Fault) (r : Redis) :
    (d.renew lease fault r).2 = r ∨ ∃ ttl, (d.renew lease fault r).2 =
      (renewScript (.new lease.communityId lease.sessionId) lease.ownerRuntimeId.toHex
        (toString lease.generation) ttl r).2 := by
  unfold SessionDirectory.renew
  rcases mutate_snd fault _ _ r with same | ⟨body, script, ran⟩
  · exact Or.inl same
  · obtain ⟨ttl, -, rfl⟩ : ∃ ttl, d.ttlMs = .ok ttl ∧
        renewScript (.new lease.communityId lease.sessionId) lease.ownerRuntimeId.toHex
          (toString lease.generation) ttl = body := by simpa [pure, Except.pure] using script
    exact Or.inr ⟨ttl, ran⟩

theorem release_snd (lease : SessionLease) (fault : Option Fault) (r : Redis) :
    (SessionDirectory.release lease fault r).2 = r ∨ (SessionDirectory.release lease fault r).2 =
      (releaseScript (.new lease.communityId lease.sessionId) lease.ownerRuntimeId.toHex
        (toString lease.generation) r).2 := by
  unfold SessionDirectory.release
  rcases mutate_snd fault _ _ r with same | ⟨body, script, ran⟩
  · exact Or.inl same
  · cases script
    exact Or.inr ran

theorem holderScript_snd (done : String) (act : Redis → Redis) (keys : SessionKeys)
    (owner generation : String) (r : Redis) :
    (holderScript done act keys owner generation r).2 = r ∨
      ∃ current profile, r.get keys.lease = some current ∧
        matchLease current = some (owner, generation, profile) ∧
        (holderScript done act keys owner generation r).2 = act r := by
  unfold holderScript
  split
  next => exact Or.inl rfl
  next current held =>
    split
    next currentOwner currentGeneration profile parts =>
      simp only
      split
      next own =>
        obtain ⟨rfl, rfl⟩ := own
        exact Or.inr ⟨current, profile, held, parts, rfl⟩
      next => exact Or.inl rfl
    next => exact Or.inl rfl

/-- What an action can do to the two keys of a session. -/
inductive Effect (community : CommunityId) (session : Uuid) (r : Redis) (a : Action) (r' : Redis) :
    Prop where
  | kept (lease : r'.get (SessionKeys.new community session).lease =
        r.get (SessionKeys.new community session).lease)
      (generation : r'.get (SessionKeys.new community session).generation =
        r.get (SessionKeys.new community session).generation)
  | granted {owner : RuntimeId} {profile : Profile} {count : Int}
      (asked : a.asksFor community session = some (owner, profile))
      (free : r.get (SessionKeys.new community session).lease = none)
      (counted : string2ll ((r.get (SessionKeys.new community session).generation).getD "0") =
        some count)
      (lease : r'.get (SessionKeys.new community session).lease =
        some (owner.toHex ++ "|" ++ Lua.tostring (count + 1) ++ "|" ++ profile.asWireStr))
      (generation : r'.get (SessionKeys.new community session).generation =
        some (toString (count + 1)))
  | removed (held : (r.get (SessionKeys.new community session).lease).isSome)
      (lease : r'.get (SessionKeys.new community session).lease = none)
      (generation : r'.get (SessionKeys.new community session).generation =
        r.get (SessionKeys.new community session).generation)

namespace Effect

variable {community community' : CommunityId} {session session' : Uuid} {r r' : Redis} {a : Action}

theorem of_pexpire (ttl : Nat) :
    Effect community session r a (r.pexpire (SessionKeys.new community' session').lease ttl) :=
  .kept (Redis.get_pexpire ..) (Redis.get_pexpire ..)

theorem of_del (held : (r.get (SessionKeys.new community' session').lease).isSome) :
    Effect community session r a (r.del (SessionKeys.new community' session').lease) := by
  have generation : (r.del (SessionKeys.new community' session').lease).get
      (SessionKeys.new community session).generation =
      r.get (SessionKeys.new community session).generation := by
    rw [Redis.get_del, if_neg SessionKeys.generation_ne_lease]
  by_cases same : (SessionKeys.new community session).lease =
      (SessionKeys.new community' session').lease
  · obtain ⟨rfl, rfl⟩ := SessionKeys.lease_inj same
    exact .removed held (by simp) generation
  · exact .kept (by rw [Redis.get_del, if_neg same]) generation

theorem of_acquireScript {owner : RuntimeId} {profile : Profile} (ttl : Nat)
    (asked : a.asksFor community' session' = some (owner, profile)) :
    Effect community session r a
      (acquireScript (.new community' session') owner.toHex profile.asWireStr ttl r).2 := by
  unfold acquireScript
  split
  next => exact .kept rfl rfl
  next free =>
    rcases r.incr_cases (SessionKeys.new community' session').generation with
      ⟨e, failed⟩ | ⟨count, counted, reply, generation⟩
    · rw [failed]
      exact .kept rfl rfl
    · have split : r.incr (SessionKeys.new community' session').generation =
          (.ok (count + 1), (r.incr (SessionKeys.new community' session').generation).2) := by
        rw [← reply]
      rw [split]
      simp only
      by_cases same : (SessionKeys.new community session).lease =
          (SessionKeys.new community' session').lease
      · obtain ⟨rfl, rfl⟩ := SessionKeys.lease_inj same
        refine .granted asked free counted (by simp) ?_
        rw [Redis.get_setPx, if_neg SessionKeys.generation_ne_lease, generation]
      · -- Another session: neither of its keys is written.
        have apart : (SessionKeys.new community session).generation ≠
            (SessionKeys.new community' session').generation := by
          intro equal
          obtain ⟨rfl, rfl⟩ := SessionKeys.generation_inj equal
          exact same rfl
        refine .kept ?_ ?_
        · rw [Redis.get_setPx, if_neg same,
            Redis.get_incr_of_ne _ SessionKeys.generation_ne_lease.symm]
        · rw [Redis.get_setPx, if_neg SessionKeys.generation_ne_lease,
            Redis.get_incr_of_ne _ apart]

theorem of_acquire {d : SessionDirectory} {owner : RuntimeId} {profile : Profile}
    {fault : Option Fault} (asked : a.asksFor community' session' = some (owner, profile)) :
    Effect community session r a (d.acquire community' session' owner profile fault r).2 := by
  unfold SessionDirectory.acquire
  rcases mutate_snd fault _ _ r with same | ⟨body, script, ran⟩
  · rw [same]
    exact .kept rfl rfl
  · rw [ran]
    obtain ⟨ttl, -, rfl⟩ : ∃ ttl, d.ttlMs = .ok ttl ∧ acquireScript (.new community' session')
        owner.toHex profile.asWireStr ttl = body := by simpa [pure, Except.pure] using script
    exact of_acquireScript ttl asked

theorem of_perform (community : CommunityId) (session : Uuid) (stepped : perform r a = some r') :
    Effect community session r a r' := by
  cases a with
  | acquire d community' session' owner profile fault =>
    cases stepped
    exact of_acquire (by simp [Action.asksFor])
  | takeover d community' session' owner profile fault =>
    cases stepped
    exact of_acquire (by simp [Action.asksFor])
  | renew d lease fault =>
    cases stepped
    rcases renew_snd d lease fault r with same | ⟨ttl, ran⟩
    · rw [same]
      exact .kept rfl rfl
    · rw [ran]
      unfold renewScript
      rcases holderScript_snd _ _ _ _ _ _ with same | ⟨_, _, _, _, acted⟩
      · rw [same]
        exact .kept rfl rfl
      · rw [acted]
        exact of_pexpire ttl
  | release lease fault =>
    cases stepped
    rcases release_snd lease fault r with same | ran
    · rw [same]
      exact .kept rfl rfl
    · rw [ran]
      unfold releaseScript
      rcases holderScript_snd _ _ _ _ _ _ with same | ⟨current, _, held, _, acted⟩
      · rw [same]
        exact .kept rfl rfl
      · rw [acted]
        exact of_del (by rw [held]; rfl)
  | validate =>
    cases stepped
    exact .kept rfl rfl
  | expire community' session' =>
    have gone : r' = r.del (SessionKeys.new community' session').lease :=
      Redis.eq_del_of_expire stepped
    rw [gone]
    apply of_del
    cases held : r.keys (SessionKeys.new community' session').lease with
    | none => simp [perform, Redis.expire, held] at stepped
    | some value => simp [Redis.get, held]
  | tick ms =>
    cases stepped
    exact .kept rfl rfl

end Effect

/-! ### The texts of a session -/

/-- A lease is asked for while the counter of its session has room for fourteen digits. -/
def WithinDigits (r : Redis) (a : Action) : Prop :=
  ∀ community session, (a.asksFor community session).isSome →
    ∀ known, knownGeneration r community session = .ok (some known) → known + 1 < 10 ^ 14

namespace Run

variable {run : Run} {n : Nat} {community : CommunityId} {session : Uuid}

/-- The keys of a session spell the number of its leases so far and the live one of them. -/
structure Spelled (run : Run) (n : Nat) (community : CommunityId) (session : Uuid) (count : Nat) :
    Prop where
  counter : (run.state n).get (SessionKeys.new community session).generation =
    if count = 0 then none else some (toString count)
  small : count < 10 ^ 14
  counted : ∀ m < n, ∀ lease, run.Grants m lease → lease.communityId = community →
    lease.sessionId = session → lease.generation ≤ count
  last : count ≠ 0 → ∃ m < n, ∃ lease, run.Grants m lease ∧ lease.communityId = community ∧
    lease.sessionId = session ∧ lease.generation = count
  live : ∀ value, (run.state n).get (SessionKeys.new community session).lease = some value →
    ∃ lease, run.Live n lease ∧ lease.communityId = community ∧ lease.sessionId = session ∧
      lease.generation = count ∧ lease.text = value

theorem Spelled.parse_counter {count : Nat} (spelled : run.Spelled n community session count) :
    parseOptionalGeneration community session
        (((run.state n).get (SessionKeys.new community session).generation).getD "") =
      .ok (if count = 0 then none else some count) := by
  rw [spelled.counter]
  by_cases zero : count = 0
  · simp [zero, parseOptionalGeneration]
  · have fits : count < 2 ^ 64 := lt_trans spelled.small (by decide)
    simp only [zero, if_false, Option.getD_some, parseOptionalGeneration, toString_ne_empty,
      parseU64_toString fits]

theorem Spelled.knownGeneration {count : Nat} (spelled : run.Spelled n community session count) :
    knownGeneration (run.state n) community session =
      .ok (if count = 0 then none else some count) := by
  rw [← spelled.parse_counter]
  unfold Tunnel.knownGeneration
  cases (run.state n).get (SessionKeys.new community session).generation <;> rfl

theorem Live.succ {lease : SessionLease} (live : run.Live n lease)
    (taken : run.Taken (n + 1) lease.communityId lease.sessionId) : run.Live (n + 1) lease := by
  obtain ⟨m, earlier, grants, since⟩ := live
  refine ⟨m, by omega, grants, fun k after until_ => ?_⟩
  by_cases last : k = n + 1
  · rw [last]
    exact taken
  · exact since k after (by omega)

theorem Spelled.succ_same {count : Nat} (spelled : run.Spelled n community session count)
    (counter : (run.state (n + 1)).get (SessionKeys.new community session).generation =
      (run.state n).get (SessionKeys.new community session).generation)
    (nothing : ∀ lease, lease.communityId = community → lease.sessionId = session →
      ¬ run.Grants n lease)
    (lease : ∀ value, (run.state (n + 1)).get (SessionKeys.new community session).lease =
        some value →
      (run.state n).get (SessionKeys.new community session).lease = some value) :
    run.Spelled (n + 1) community session count where
  counter := counter.trans spelled.counter
  small := spelled.small
  counted m earlier other grants here there := by
    by_cases last : m = n
    · subst last
      exact absurd grants (nothing other here there)
    · exact spelled.counted m (by omega) other grants here there
  last nonzero := by
    obtain ⟨m, earlier, lease, grants⟩ := spelled.last nonzero
    exact ⟨m, by omega, lease, grants⟩
  live value held := by
    obtain ⟨owned, live, rfl, rfl, generation, text⟩ := spelled.live value (lease value held)
    exact ⟨owned, live.succ (by rw [Taken, held]; rfl), rfl, rfl, generation, text⟩

theorem Spelled.succ_granted {count : Nat} (spelled : run.Spelled n community session count)
    (room : count + 1 < 10 ^ 14) {owner : RuntimeId} {profile : Profile}
    (asked : (run.action n).asksFor community session = some (owner, profile))
    (free : (run.state n).get (SessionKeys.new community session).lease = none)
    (lease : (run.state (n + 1)).get (SessionKeys.new community session).lease =
      some (owner.toHex ++ "|" ++ toString (count + 1) ++ "|" ++ profile.asWireStr))
    (generation : (run.state (n + 1)).get (SessionKeys.new community session).generation =
      some (toString (count + 1))) :
    run.Spelled (n + 1) community session (count + 1) := by
  have known : Tunnel.knownGeneration (run.state (n + 1)) community session =
      .ok (some (count + 1)) := by
    have fits : count + 1 < 2 ^ 64 := lt_trans room (by decide)
    simp only [Tunnel.knownGeneration, generation, parseOptionalGeneration, toString_ne_empty,
      if_false, parseU64_toString fits]
  have created : run.Grants n ⟨community, session, owner, count + 1, profile⟩ :=
    ⟨asked, by simp [Taken, free], by simp [Taken, lease], known⟩
  refine ⟨by simp [generation], room, fun m earlier other grants here there => ?_,
    fun _ => ⟨n, by omega, _, created, rfl, rfl, rfl⟩, ?_⟩
  · by_cases last : m = n
    · subst last
      have same := grants.generation
      rw [here, there, known] at same
      simp only [Except.ok.injEq, Option.some.injEq] at same
      omega
    · have bound := spelled.counted m (by omega) other grants here there
      omega
  · intro value held
    refine ⟨_, ⟨n, by omega, created, fun k after until_ => ?_⟩, rfl, rfl, rfl, ?_⟩
    · obtain rfl : k = n + 1 := by omega
      exact created.taken
    · rw [lease] at held
      exact Option.some.inj held

theorem Spelled.succ {count : Nat} (spelled : run.Spelled n community session count)
    (within : WithinDigits (run.state n) (run.action n)) :
    ∃ next, run.Spelled (n + 1) community session next ∧ (next = count + 1 ∨
      ∀ lease, lease.communityId = community → lease.sessionId = session →
        ¬ run.Grants n lease) := by
  cases Effect.of_perform community session (run.steps n) with
  | kept lease generation =>
    have nothing : ∀ other, other.communityId = community → other.sessionId = session →
        ¬ run.Grants n other := by
      rintro other rfl rfl grants
      have taken := grants.taken
      rw [Taken, lease] at taken
      exact grants.free taken
    refine ⟨count, spelled.succ_same generation nothing fun value held => ?_, Or.inr nothing⟩
    rw [← lease]
    exact held
  | @granted owner profile counted asked free read lease generation =>
    have room : count + 1 < 10 ^ 14 := by
      by_cases zero : count = 0
      · rw [zero]
        decide
      · apply within community session (by rw [asked]; rfl)
        rw [spelled.knownGeneration, if_neg zero]
    -- The counter that Redis reads is the number of leases so far.
    have same : counted = count := by
      rw [spelled.counter] at read
      by_cases zero : count = 0
      · rw [if_pos zero] at read
        have text : string2ll "0" = some 0 := by decide
        rw [Option.getD_none, text] at read
        cases read
        rw [zero]
        rfl
      · rw [if_neg zero, Option.getD_some,
          string2ll_toString (by omega) (lt_trans spelled.small (by decide))] at read
        cases read
        rfl
    subst same
    have next : ((count : Int) + 1) = ((count + 1 : Nat) : Int) := by omega
    rw [next] at lease generation
    rw [Lua.tostring_of_lt room] at lease
    exact ⟨count + 1, spelled.succ_granted room asked free lease generation, Or.inl rfl⟩
  | removed held lease generation =>
    have nothing : ∀ other, other.communityId = community → other.sessionId = session →
        ¬ run.Grants n other := by
      rintro other rfl rfl grants
      have taken := grants.taken
      rw [Taken, lease] at taken
      cases taken
    refine ⟨count, spelled.succ_same generation nothing fun value there => ?_, Or.inr nothing⟩
    rw [lease] at there
    cases there

theorem spelled_zero (start : Fresh (run.state 0)) (community : CommunityId) (session : Uuid) :
    run.Spelled 0 community session 0 where
  counter := by simp [Redis.get, (start community session).2]
  small := by decide
  counted m earlier := absurd earlier (by omega)
  last nonzero := absurd rfl nonzero
  live value held := by simp [Redis.get, (start community session).1] at held

theorem exists_spelled (start : Fresh (run.state 0))
    (within : ∀ n, WithinDigits (run.state n) (run.action n)) (n : Nat) (community : CommunityId)
    (session : Uuid) : ∃ count, run.Spelled n community session count := by
  induction n with
  | zero => exact ⟨0, spelled_zero start community session⟩
  | succ n ih =>
    obtain ⟨count, spelled⟩ := ih
    obtain ⟨next, spelled', -⟩ := spelled.succ (within n)
    exact ⟨next, spelled'⟩

/-! ### The fence -/

theorem Grants.positive {lease : SessionLease} (grants : run.Grants n lease) :
    0 < lease.generation := by
  have known := grants.generation
  unfold knownGeneration at known
  split at known
  next => cases known
  next value _ =>
    unfold parseOptionalGeneration at known
    split at known
    next => cases known
    next =>
      split at known
      next => cases known
      next => cases known
      next generation nonzero _ =>
        cases known
        exact Nat.pos_of_ne_zero nonzero

theorem Grants.eq {a b : SessionLease} (first : run.Grants n a) (second : run.Grants n b)
    (here : a.communityId = b.communityId) (there : a.sessionId = b.sessionId) : a = b := by
  have asked := first.asked
  have generation := first.generation
  rw [here, there, second.asked] at asked
  rw [here, there, second.generation] at generation
  cases a
  cases b
  simp_all

theorem Grants.le_of_taken {lease other : SessionLease} {m k : Nat}
    (since : ∀ i, m < i → i ≤ k → run.Taken i lease.communityId lease.sessionId)
    (grants : run.Grants n other) (here : other.communityId = lease.communityId)
    (there : other.sessionId = lease.sessionId) (within : n ≤ k) : n ≤ m := by
  by_contra later
  apply grants.free
  rw [here, there]
  exact since n (by omega) within

theorem Spelled.validate_of_free {count : Nat} {fenced : FencedHeader}
    (spelled : run.Spelled n community fenced.sessionId count)
    (free : (run.state n).get (SessionKeys.new community fenced.sessionId).lease = none) :
    validateFencedHeader (run.state n) community fenced = .error
      (if fenced.generation < count then
        .staleGeneration fenced.sessionId fenced.generation count
      else .noActiveLease fenced.sessionId fenced.generation count fenced.ownerRuntimeId) := by
  have known : (if count = 0 then none else some count).getD 0 = count := by
    split <;> simp_all
  unfold validateFencedHeader
  simp only [validateScript, spelled.parse_counter, free, Option.getD_none, parseOptionalLease,
    if_true, Except.mapError, bind, Except.bind, Option.map_none, known, max_self]
  by_cases stale : fenced.generation < count
  · have positive : 0 < count := by omega
    simp [ensure, stale, positive]
  · simp [ensure, stale, okOr]

theorem Spelled.validate_of_live {lease : SessionLease} {fenced : FencedHeader}
    (spelled : run.Spelled n lease.communityId fenced.sessionId lease.generation)
    (session : lease.sessionId = fenced.sessionId) (positive : 0 < lease.generation)
    (held : (run.state n).get (SessionKeys.new lease.communityId fenced.sessionId).lease =
      some lease.text) :
    validateFencedHeader (run.state n) lease.communityId fenced =
      if fenced.generation < lease.generation then
        .error (.staleGeneration fenced.sessionId fenced.generation lease.generation)
      else if fenced.generation ≠ lease.generation then
        .error (.futureGeneration fenced.sessionId fenced.generation lease.generation)
      else if fenced.ownerRuntimeId ≠ lease.ownerRuntimeId then
        .error (.ownerMismatch fenced.sessionId fenced.generation fenced.ownerRuntimeId
          lease.ownerRuntimeId)
      else .ok () := by
  have nonzero : lease.generation ≠ 0 := by omega
  have parsed : parseOptionalLease lease.communityId fenced.sessionId lease.text =
      .ok (some lease) := by
    have nonempty : lease.text ≠ "" := by
      intro empty
      have matched := matchLease_text lease
      rw [empty] at matched
      simp [matchLease] at matched
    rw [parseOptionalLease, if_neg nonempty, ← session,
      parseLease_text lease positive (lt_trans spelled.small (by decide))]
    rfl
  unfold validateFencedHeader
  simp only [validateScript, spelled.parse_counter, held, Option.getD_some, parsed, nonzero,
    if_false, Except.mapError, bind, Except.bind, Option.map_some, max_self, okOr, ensure]
  by_cases stale : fenced.generation < lease.generation
  · simp [stale, positive]
  · by_cases other : fenced.generation = lease.generation
    · by_cases owner : fenced.ownerRuntimeId = lease.ownerRuntimeId <;> simp [other, owner]
    · simp [stale, other]

section

variable (start : Fresh (run.state 0)) (within : ∀ n, WithinDigits (run.state n) (run.action n))

include start within

theorem generation_increasing {m : Nat} {a b : SessionLease} (first : run.Grants m a)
    (second : run.Grants n b) (here : a.communityId = b.communityId)
    (there : a.sessionId = b.sessionId) (earlier : m < n) : a.generation < b.generation := by
  obtain ⟨count, spelled⟩ := exists_spelled start within n b.communityId b.sessionId
  have bound := spelled.counted m earlier a first here there
  obtain ⟨next, spelled', changed⟩ := spelled.succ (within n)
  rcases changed with rfl | nothing
  · have known := spelled'.knownGeneration
    rw [second.generation, if_neg (by omega)] at known
    simp only [Except.ok.injEq, Option.some.injEq] at known
    omega
  · exact absurd second (nothing b rfl rfl)

theorem Holds.over {m k : Nat} {held fenced : FencedHeader} (holds : run.Holds m community held)
    (order : m ≤ n) (lost : ¬ run.Holds n community held) (order' : n ≤ k)
    (session : fenced.sessionId = held.sessionId) (bound : fenced.generation ≤ held.generation) :
    ¬ run.Holds k community fenced := by
  rintro ⟨b, ⟨j, before, grants', since'⟩, rfl, rfl⟩
  obtain ⟨a, ⟨i, early, grants, since⟩, here, rfl⟩ := holds
  have latest : i ≤ j := Grants.le_of_taken since' grants here session.symm (by omega)
  rcases Nat.lt_or_eq_of_le latest with earlier | rfl
  · have grown := generation_increasing start within grants grants' here session.symm earlier
    simp only [SessionLease.fencedHeader] at bound
    omega
  · -- It is the same lease, and it has been live all the time.
    obtain rfl := grants.eq grants' here session.symm
    exact lost ⟨a, ⟨i, by omega, grants, fun k after until_ => since' k after (by omega)⟩, rfl, rfl⟩

theorem unchanged_of_not_holds {lease : SessionLease} (done : String) (act : Redis → Redis)
    (stranger : ¬ run.Holds n lease.communityId lease.fencedHeader) :
    (holderScript done act (.new lease.communityId lease.sessionId) lease.ownerRuntimeId.toHex
      (toString lease.generation) (run.state n)).2 = run.state n := by
  obtain ⟨count, spelled⟩ := exists_spelled start within n lease.communityId lease.sessionId
  rcases holderScript_snd done act (.new lease.communityId lease.sessionId)
    lease.ownerRuntimeId.toHex (toString lease.generation) (run.state n) with
    same | ⟨current, profile, held, parts, -⟩
  · exact same
  · obtain ⟨owned, live, here, there, -, text⟩ := spelled.live current held
    rw [← text, matchLease_text] at parts
    simp only [Option.some.injEq, Prod.mk.injEq] at parts
    have owner := Hex64.toHex_injective parts.1
    have generation : owned.generation = lease.generation := toString_injective parts.2.1
    refine absurd ⟨owned, live, here, ?_⟩ stranger
    simp only [SessionLease.fencedHeader, there, owner, generation]

theorem free_or_live (n : Nat) (community : CommunityId) (session : Uuid) :
    ∃ count, run.Spelled n community session count ∧
      ((run.state n).get (SessionKeys.new community session).lease = none ∨
        ∃ lease, run.Live n lease ∧ lease.communityId = community ∧ lease.sessionId = session ∧
          lease.generation = count ∧
          (run.state n).get (SessionKeys.new community session).lease = some lease.text) := by
  obtain ⟨count, spelled⟩ := exists_spelled start within n community session
  refine ⟨count, spelled, ?_⟩
  cases held : (run.state n).get (SessionKeys.new community session).lease with
  | none => exact Or.inl rfl
  | some value =>
    obtain ⟨lease, live, here, there, generation, text⟩ := spelled.live value held
    exact Or.inr ⟨lease, live, here, there, generation, by rw [text]⟩

end

theorem Live.positive {lease : SessionLease} (live : run.Live n lease) : 0 < lease.generation := by
  obtain ⟨m, -, grants, -⟩ := live
  exact grants.positive

theorem Live.taken {lease : SessionLease} (live : run.Live n lease) :
    run.Taken n lease.communityId lease.sessionId := by
  obtain ⟨m, earlier, -, since⟩ := live
  exact since n earlier (le_refl n)

theorem Live.eq {a b : SessionLease} (first : run.Live n a) (second : run.Live n b)
    (here : a.communityId = b.communityId) (there : a.sessionId = b.sessionId) : a = b := by
  obtain ⟨i, before, grants, since⟩ := first
  obtain ⟨j, before', grants', since'⟩ := second
  have forward := Grants.le_of_taken since grants' here.symm there.symm (by omega)
  have backward := Grants.le_of_taken since' grants here there (by omega)
  obtain rfl : i = j := by omega
  exact grants.eq grants' here there

theorem Spelled.outdated_iff {count : Nat} {fenced : FencedHeader}
    (spelled : run.Spelled n community fenced.sessionId count) :
    run.Outdated n community fenced ↔ fenced.generation < count := by
  constructor
  · rintro ⟨m, earlier, lease, grants, here, there, above⟩
    exact lt_of_lt_of_le above (spelled.counted m earlier lease grants here there)
  · intro below
    obtain ⟨m, earlier, lease, grants, here, there, rfl⟩ := spelled.last (by omega)
    exact ⟨m, earlier, lease, grants, here, there, below⟩

section

variable (start : Fresh (run.state 0)) (within : ∀ n, WithinDigits (run.state n) (run.action n))

include start within

theorem accepts_iff_holds (n : Nat) (community : CommunityId) (fenced : FencedHeader) :
    validateFencedHeader (run.state n) community fenced = .ok () ↔
      run.Holds n community fenced := by
  obtain ⟨count, spelled, free | ⟨lease, live, rfl, there, rfl, held⟩⟩ :=
    free_or_live start within n community fenced.sessionId
  · rw [spelled.validate_of_free free]
    constructor
    · intro accepted
      cases accepted
    · rintro ⟨lease, live, rfl, rfl⟩
      have taken : ((run.state n).get (SessionKeys.new lease.communityId
        lease.fencedHeader.sessionId).lease).isSome := live.taken
      rw [free] at taken
      cases taken
  · rw [spelled.validate_of_live there live.positive held]
    constructor
    · intro accepted
      split at accepted
      next => cases accepted
      next =>
        split at accepted
        next => cases accepted
        next same =>
          split at accepted
          next => cases accepted
          next own =>
            refine ⟨lease, live, rfl, ?_⟩
            simp only [SessionLease.fencedHeader, there, ← not_not.mp same, ← not_not.mp own]
    · rintro ⟨other, live', here, rfl⟩
      obtain rfl := live'.eq live here there.symm
      simp [SessionLease.fencedHeader]

theorem classified_of_rejected {fenced : FencedHeader} {e : MeshError}
    (rejected : validateFencedHeader (run.state n) community fenced = .error e) :
    run.Classified n community fenced e := by
  obtain ⟨count, spelled, free | ⟨lease, live, rfl, there, rfl, held⟩⟩ :=
    free_or_live start within n community fenced.sessionId
  · rw [spelled.validate_of_free free] at rejected
    simp only [Except.error.injEq] at rejected
    split at rejected
    next below =>
      subst rejected
      refine .stale (spelled.outdated_iff.mpr below) ?_
      rw [spelled.knownGeneration, if_neg (by omega)]
    next above =>
      have known : count = (if count = 0 then none else some count).getD 0 := by
        split <;> simp_all
      rw [known] at rejected
      subst rejected
      exact .noLease (spelled.outdated_iff.not.mpr above) (by simp [Taken, free])
        spelled.knownGeneration
  · have positive := live.positive
    have holds : run.Holds n lease.communityId lease.fencedHeader := ⟨lease, live, rfl, rfl⟩
    rw [spelled.validate_of_live there positive held] at rejected
    split at rejected
    next below =>
      cases rejected
      refine .stale (spelled.outdated_iff.mpr below) ?_
      rw [spelled.knownGeneration, if_neg (by omega)]
    next above =>
      have current := spelled.outdated_iff.not.mpr above
      split at rejected
      next other =>
        cases rejected
        have ahead : lease.generation < fenced.generation := by omega
        exact .future current holds there ahead
      next same =>
        split at rejected
        next stranger =>
          cases rejected
          exact .ownerMismatch holds there (not_not.mp same).symm
            (Ne.symm stranger)
        next => cases rejected

end

/-- In every run that asks for its leases below the fourteenth digit the session owner is
fenced. -/
theorem fenced_of_withinDigits (run : Run) (start : Fresh (run.state 0))
    (within : ∀ n, WithinDigits (run.state n) (run.action n)) : run.Fenced where
  unique n community a b := by
    rintro ⟨first, live, rfl, rfl⟩ ⟨second, live', here, rfl⟩ there
    rw [live.eq live' here.symm there]
  increasing m n a b first second here there :=
    generation_increasing start within first second here there
  lapsed m n k community fenced holds order lost order' :=
    Holds.over start within holds order lost order' rfl (le_refl _)
  late n lease d fault stranger := by
    constructor
    · rcases renew_snd d lease fault (run.state n) with same | ⟨ttl, ran⟩
      · exact same
      · rw [ran]
        exact unchanged_of_not_holds start within _ _ stranger
    · rcases release_snd lease fault (run.state n) with same | ran
      · exact same
      · rw [ran]
        exact unchanged_of_not_holds start within _ _ stranger
  accepts n community fenced := accepts_iff_holds start within n community fenced
  never_again m n k community held fenced holds order lost order' session bound accepted :=
    Holds.over start within holds order lost order' session bound
      ((accepts_iff_holds start within k community fenced).mp accepted)
  classified n community fenced e rejected := classified_of_rejected start within rejected

end Run

/-! ### One session in use -/

section

variable {d : SessionDirectory} {community : CommunityId} {session : Uuid} {owner : RuntimeId}
  {profile : Profile} {r : Redis}

theorem get_acquire_of_free {count : Int} (valid : d.ttlMs = .ok d.leaseTtl)
    (free : r.get (SessionKeys.new community session).lease = none)
    (counted : string2ll ((r.get (SessionKeys.new community session).generation).getD "0") =
      some count) (room : count ≠ 2 ^ 63 - 1) :
    (d.acquire community session owner profile none r).2.get
        (SessionKeys.new community session).lease =
      some (owner.toHex ++ "|" ++ Lua.tostring (count + 1) ++ "|" ++ profile.asWireStr) ∧
    (d.acquire community session owner profile none r).2.get
        (SessionKeys.new community session).generation = some (toString (count + 1)) := by
  obtain ⟨reply, generation⟩ := Redis.incr_of_counted counted room
  have split : r.incr (SessionKeys.new community session).generation =
      (.ok (count + 1), (r.incr (SessionKeys.new community session).generation).2) := by
    rw [← reply]
  have stored : (d.acquire community session owner profile none r).2 =
      (r.incr (SessionKeys.new community session).generation).2.setPx
        (SessionKeys.new community session).lease
        (owner.toHex ++ "|" ++ Lua.tostring (count + 1) ++ "|" ++ profile.asWireStr)
        d.leaseTtl := by
    simp only [SessionDirectory.acquire, mutate, valid, bind, Except.bind, pure, Except.pure,
      acquireScript, free]
    rw [split]
  rw [stored, Redis.get_setPx, Redis.get_setPx, if_pos rfl,
    if_neg SessionKeys.generation_ne_lease]
  exact ⟨rfl, generation⟩

theorem release_of_held (lease : SessionLease)
    (held : r.get (SessionKeys.new lease.communityId lease.sessionId).lease = some lease.text) :
    (SessionDirectory.release lease none r).2 =
      r.del (SessionKeys.new lease.communityId lease.sessionId).lease := by
  simp [SessionDirectory.release, mutate, releaseScript, holderScript, held, matchLease_text]

end

namespace Sample

def directory : SessionDirectory := ⟨30000⟩
def community : CommunityId := ⟨⟨0xAAAA⟩⟩
def session : Uuid := ⟨0xBBBB⟩
def owner : RuntimeId := .repeated 'a' (Eq.refl true)
def successor : RuntimeId := .repeated 'b' (Eq.refl true)

def lease (generation : Nat) : SessionLease := ⟨community, session, owner, generation, .huddleControl⟩

/-- The owner gives the session back, and another runtime takes it over. -/
def handOver : Nat → Action
  | 0 => .acquire directory community session owner .huddleControl none
  | 1 => .release (lease 1) none
  | 2 => .takeover directory community session successor .huddleControl none
  | _ => .tick 0

def handedOver : Nat → Redis → Redis
  | 0, r => (directory.acquire community session owner .huddleControl none r).2
  | 1, r => (SessionDirectory.release (lease 1) none r).2
  | 2, r => (directory.takeover community session successor .huddleControl none r).2
  | _, r => r.tick 0

theorem perform_handOver (n : Nat) (r : Redis) : perform r (handOver n) = some (handedOver n r) := by
  match n with
  | 0 | 1 | 2 | _ + 3 => rfl

def handover : Run := .ofActions ⟨0, fun _ => none⟩ handOver handedOver perform_handOver

theorem eq_zero_or_two_of_asksFor {n : Nat} {community' : CommunityId} {session' : Uuid}
    (asked : ((handOver n).asksFor community' session').isSome) :
    (n = 0 ∨ n = 2) ∧ community = community' ∧ session = session' := by
  match n with
  | 0 | 2 => simpa [handOver, Action.asksFor] using asked
  | 1 | _ + 3 => cases asked

theorem handover_within (n : Nat) : WithinDigits (handover.state n) (handover.action n) := by
  intro community' session' asked known counted
  obtain ⟨rfl | rfl, rfl, rfl⟩ := eq_zero_or_two_of_asksFor asked
  · have none : knownGeneration (handover.state 0) community session = .ok none := rfl
    rw [none] at counted
    cases counted
  · have one : knownGeneration (handover.state 2) community session = .ok (some 1) := by
      decide
    rw [one] at counted
    cases counted
    decide

/-- One runtime takes the session and gives it back, over and over. -/
def turn (n : Nat) : Action :=
  if n % 2 = 0 then .acquire directory community session owner .huddleControl none
  else .release (lease (n / 2 + 1)) none

def take (r : Redis) : Redis :=
  (directory.acquire community session owner .huddleControl none r).2

def giveBack (generation : Nat) (r : Redis) : Redis :=
  (SessionDirectory.release (lease generation) none r).2

def inTurns : Run :=
  .ofActions ⟨0, fun _ => none⟩ turn
    (fun n r => if n % 2 = 0 then take r else giveBack (n / 2 + 1) r)
    (fun n r => by
      by_cases even : n % 2 = 0
      · simp only [turn, even, if_true]
        rfl
      · simp only [turn, even, if_false]
        rfl)

theorem inTurns_succ (n : Nat) : inTurns.state (n + 1) =
    if n % 2 = 0 then take (inTurns.state n) else giveBack (n / 2 + 1) (inTurns.state n) := rfl

theorem inTurns_taken (k : Nat) : inTurns.state (2 * k + 1) = take (inTurns.state (2 * k)) := by
  rw [inTurns_succ, if_pos (by omega)]

theorem inTurns_givenBack (k : Nat) :
    inTurns.state (2 * (k + 1)) = giveBack (k + 1) (inTurns.state (2 * k + 1)) := by
  have half : (2 * k + 1) / 2 = k := by omega
  rw [show 2 * (k + 1) = 2 * k + 1 + 1 by omega, inTurns_succ, if_neg (by omega), half]

theorem inTurns_held {k : Nat} (few : k < 10 ^ 14)
    (free : (inTurns.state (2 * k)).get (SessionKeys.new community session).lease = none)
    (counter : (inTurns.state (2 * k)).get (SessionKeys.new community session).generation =
      if k = 0 then none else some (toString k)) :
    (inTurns.state (2 * k + 1)).get (SessionKeys.new community session).lease =
        some (owner.toHex ++ "|" ++ Lua.tostring ((k + 1 : Nat) : Int) ++ "|" ++
          Profile.huddleControl.asWireStr) ∧
      (inTurns.state (2 * k + 1)).get (SessionKeys.new community session).generation =
        some (toString ((k + 1 : Nat) : Int)) := by
  have counted : string2ll (((inTurns.state (2 * k)).get
      (SessionKeys.new community session).generation).getD "0") = some (k : Int) := by
    rw [counter]
    by_cases zero : k = 0
    · subst zero
      decide
    · rw [if_neg zero, Option.getD_some, string2ll_toString (by omega) (by omega)]
  have next : ((k + 1 : Nat) : Int) = (k : Int) + 1 := by omega
  have valid : directory.ttlMs = .ok directory.leaseTtl := by
    simp [SessionDirectory.ttlMs, directory]
  rw [inTurns_taken, next]
  exact get_acquire_of_free valid free counted (by omega)

theorem inTurns_free {k : Nat} (few : k < 10 ^ 14) :
    (inTurns.state (2 * k)).get (SessionKeys.new community session).lease = none ∧
      (inTurns.state (2 * k)).get (SessionKeys.new community session).generation =
        if k = 0 then none else some (toString k) := by
  induction k with
  | zero => exact ⟨rfl, rfl⟩
  | succ k ih =>
    obtain ⟨free, counter⟩ := ih (by omega)
    obtain ⟨held, counter'⟩ := inTurns_held (by omega) free counter
    rw [Lua.tostring_of_lt few] at held
    have deleted : giveBack (k + 1) (inTurns.state (2 * k + 1)) =
        (inTurns.state (2 * k + 1)).del (SessionKeys.new community session).lease :=
      release_of_held (lease (k + 1)) held
    rw [inTurns_givenBack, deleted]
    constructor
    · rw [Redis.get_del, if_pos rfl]
    · rw [Redis.get_del, if_neg SessionKeys.generation_ne_lease, counter', if_neg (by omega)]
      rfl

end Sample

theorem fenced_handover : Fresh (Sample.handover.state 0) ∧ Sample.handover.Fenced :=
  ⟨fun _ _ => ⟨rfl, rfl⟩,
    Run.fenced_of_withinDigits Sample.handover (fun _ _ => ⟨rfl, rfl⟩) Sample.handover_within⟩

/-- The fence does not hold for ever: the lease with the first generation of fifteen digits
cannot be read, and its holder is turned away with an error that is not of the fence. -/
theorem not_fenced_inTurns : ¬ ∀ run : Run, Fresh (run.state 0) → run.Fenced := by
  intro claimed
  have fenced := claimed Sample.inTurns fun _ _ => ⟨rfl, rfl⟩
  obtain ⟨k, last⟩ : ∃ k, k + 1 = 10 ^ 14 := ⟨10 ^ 14 - 1, by decide⟩
  have few : k < 10 ^ 14 := by omega
  obtain ⟨free, counter⟩ := Sample.inTurns_free few
  obtain ⟨held, counter'⟩ := Sample.inTurns_held few free counter
  have text : Lua.tostring ((10 ^ 14 : Nat) : Int) = "1e+14" := by decide
  have number : toString ((10 ^ 14 : Nat) : Int) = "100000000000000" := by decide
  rw [last, text] at held
  rw [last, number] at counter'
  have rejected : validateFencedHeader (Sample.inTurns.state (2 * k + 1))
      Sample.community ⟨Sample.session, 10 ^ 14, Sample.owner⟩ =
      .error (.transport (.malformedLease Sample.community Sample.session
        (Sample.owner.toHex ++ "|1e+14|huddle-control"))) := by
    have known : parseOptionalGeneration Sample.community Sample.session "100000000000000" =
        .ok (some (10 ^ 14)) := by decide
    have malformed : parseOptionalLease Sample.community Sample.session
        (Sample.owner.toHex ++ "|" ++ "1e+14" ++ "|" ++ Profile.huddleControl.asWireStr) =
        .error (.malformedLease Sample.community Sample.session
          (Sample.owner.toHex ++ "|1e+14|huddle-control")) := by decide
    simp only [validateFencedHeader, validateScript, held, counter', Option.getD_some, known,
      malformed, Except.mapError, bind, Except.bind]
  cases fenced.classified _ _ _ _ rejected

end Tunnel
