import Buzz.Deletion.Transactions

/-!
# The contract of the deletion transactions

What a transaction may rely on while it holds its locks (`Rely`), what its commit does to the
tables (`Writes`), and what that means for the lifecycle of the communities and the requests
(`Acts`). `Writes.rely` is the link between the two sides: two sessions whose locks get along
leave each other alone.

Some mutations only look at their lease before they write. `strict` makes them part of the
contract, under the condition that nobody takes the lease in between.
-/
namespace Deletion

open Lib Nostr Relay Locking

/-- The stages from the approval on. -/
def DeletionStage.past : DeletionStage → Bool
  | .submitted | .inventoried => false
  | _ => true

/-- What holds of the tables between transactions. -/
structure Consistent (t : Tables) : Prop where
  oneOpen : ∀ id id' r r', t.requests.get id = some r → t.requests.get id' = some r' →
    r.communityId = r'.communityId → r.isOpen → r'.isOpen → id = id'
  approved : ∀ id r, t.requests.get id = some r → r.stage.past = true → t.approved r = true
  unowned : ∀ id r, t.requests.get id = some r → r.stage = .aborted → r.leaseOwner = none

/-! ### Calls -/

namespace Call

/-- The community whose lifecycle the call moves. -/
def disturbs (t : Tables) (c : CommunityId) : Call → Prop
  | beginQuiescing token => c = token.communityId
  | abort requestId _ _ _ => ∃ r, t.requests.get requestId = some r ∧ r.communityId = c
  | _ => False

/-- The request that the call takes from whoever holds its lease. -/
def supersedes (answer : Answer) : Call → Option Uuid
  | claim _ _ _ _ => match answer with
    | .claimed (some lease) => some lease.requestId
    | _ => none
  | abort requestId _ _ _ => some requestId
  | _ => none

/-- The lease token of an execution mutation. -/
def token : Call → Option LeaseToken
  | verifyExecutionToken token _ | heartbeat token _ | beginQuiescing token | fence token
  | freezeDestructiveStorageManifest token _ | clearManifestKeyChunks token
  | appendManifestKeyChunk token _ _ _ | markManifestChunkDeleted token _ | markDrained token
  | markBindingsRemoved token | purgePostgres token _ | markCachePurged token
  | markLogicallyVerified token | markRetentionPending token | recordRetry token _ _ _ _
  | block token _ _ _ => some token
  | stopExecutor token => token
  | _ => none

/-- The mutations that do not look at their lease again once they write. -/
def trusting : Call → Bool
  | beginQuiescing _ | clearManifestKeyChunks _ | appendManifestKeyChunk _ _ _ _
  | markManifestChunkDeleted _ _ | recordRetry _ _ _ _ _ | block _ _ _ _ => true
  | _ => false

end Call

def Stmt.verifies : Stmt → Bool
  | .verifyLease _ _ _ _ => true
  | _ => false

/-- The rest of a transaction does not look at a lease, and is more than a rollback. -/
structure Unchecked (rest : Program) : Prop where
  calls : rest.Calls fun stmt => stmt.verifies = false
  goesOn : ∀ value, rest ≠ .pure (.rollback value)

/-! ### Rows -/

/-- What every later version of a row keeps. -/
structure Later (r r' : DeletionRequest) : Prop where
  communityId : r'.communityId = r.communityId
  terminal : r.stage = .aborted → r'.stage = .aborted

/-- The quiescing columns. -/
structure SameQuiescing (r r' : DeletionRequest) : Prop where
  started : r'.quiescingStartedAt = r.quiescingStartedAt
  archived : r'.preQuiesceArchivedAt = r.preQuiesceArchivedAt

/-- `purge_postgres` makes a fenced community a tombstone, under its row lock only. -/
structure Buried (row row' : Community) : Prop where
  fenced : row.deletionState = .fenced
  tombstone : row'.deletionState = .tombstone
  generation : row'.deletionFenceGeneration = row.deletionFenceGeneration

theorem SameQuiescing.refl (r : DeletionRequest) : SameQuiescing r r := ⟨rfl, rfl⟩

theorem SameQuiescing.trans {r r' r'' : DeletionRequest} (first : SameQuiescing r r')
    (second : SameQuiescing r' r'') : SameQuiescing r r'' :=
  ⟨second.started.trans first.started, second.archived.trans first.archived⟩

theorem Later.refl (r : DeletionRequest) : Later r r := ⟨rfl, id⟩

theorem Later.trans {r r' r'' : DeletionRequest} (first : Later r r') (second : Later r' r'') :
    Later r r'' :=
  ⟨second.communityId.trans first.communityId, fun aborted => second.terminal (first.terminal aborted)⟩

/-- The stage moves one step, or to `aborted` before object deletion begins. -/
def StageStep (stage stage' : DeletionStage) : Prop :=
  stage' = stage ∨ stage.next = some stage' ∨
    ((stage = .approved ∨ stage = .fenced) ∧ stage' = .aborted)

theorem StageStep.terminal {stage : DeletionStage} (step : StageStep .aborted stage) :
    stage = .aborted := by
  rcases step with same | next | ⟨_, aborted⟩
  · exact same
  · cases next
  · exact aborted

/-! ### Rely -/

section

variable (strict : Prop) (call : Call)

/-- What the commits of the others do while a transaction holds its locks. -/
structure Rely (rest : Program) (held : Held Lock) (t t' : Tables) : Prop where
  advisory : ∀ c mode, held (.advisory c) mode → t'.communities.get c = t.communities.get c ∨
    ∃ row row', t.communities.get c = some row ∧ t'.communities.get c = some row' ∧ Buried row row'
  community : ∀ c, held (.community c) .exclusive → t'.communities.get c = t.communities.get c
  requestRow : ∀ id, held (.request id) .exclusive → t'.requests.get id = t.requests.get id
  request : ∀ id r, t.requests.get id = some r → ∃ r', t'.requests.get id = some r' ∧ Later r r' ∧
    (held (.advisory r.communityId) .exclusive → SameQuiescing r r' ∧
      (r.stage = .approved → r'.stage = .approved))
  activeRequest : ∀ c, held (.activeRequest c) .exclusive → ∀ id r', t'.requests.get id = some r' →
    r'.communityId = c → r'.isOpen → ∃ r, t.requests.get id = some r ∧ r.communityId = c ∧ r.isOpen
  servingLease : ∀ id, held (.servingLease id) .exclusive →
    t'.servingLeases.get id = t.servingLeases.get id
  drained : ∀ id lease, t'.servingLeases.get id = some lease →
    held (.advisory lease.communityId) .exclusive → t.servingLeases.get id = some lease
  approval : ∀ id, held (.request id) .exclusive → t'.approvals.get id = t.approvals.get id
  lease : strict → ∀ token, call.token = some token → call.trusting = true → Unchecked rest →
    ∀ r, t.requests.get token.requestId = some r → ∃ r', t'.requests.get token.requestId = some r' ∧
      r'.leaseGeneration = r.leaseGeneration ∧ (r.isOpen → r'.isOpen)

variable {strict call} {rest : Program} {held : Held Lock} {t t' t'' : Tables}

theorem Rely.refl (rest : Program) (held : Held Lock) (t : Tables) :
    Rely strict call rest held t t where
  advisory _ _ _ := Or.inl rfl
  community _ _ := rfl
  requestRow _ _ := rfl
  request _ r stored := ⟨r, stored, Later.refl r, fun _ => ⟨SameQuiescing.refl r, id⟩⟩
  activeRequest _ _ _ r stored community isOpen := ⟨r, stored, community, isOpen⟩
  servingLease _ _ := rfl
  drained _ _ stored _ := stored
  approval _ _ := rfl
  lease _ _ _ _ _ r stored := ⟨r, stored, rfl, id⟩

theorem Rely.trans (first : Rely strict call rest held t t')
    (second : Rely strict call rest held t' t'') : Rely strict call rest held t t'' where
  advisory c mode holds := by
    rcases second.advisory c mode holds with same | ⟨row, row', stored, stored', buried⟩
    · rw [same]
      exact first.advisory c mode holds
    · rcases first.advisory c mode holds with same | ⟨old, row₁, _, stored₁, buried₁⟩
      · exact Or.inr ⟨row, row', same ▸ stored, stored', buried⟩
      · obtain rfl := Option.some.inj (stored.symm.trans stored₁)
        exact absurd (buried.fenced.symm.trans buried₁.tombstone) (by decide)
  community c holds := (second.community c holds).trans (first.community c holds)
  requestRow id holds := (second.requestRow id holds).trans (first.requestRow id holds)
  request id r stored := by
    obtain ⟨r₁, stored₁, later₁, ordered₁⟩ := first.request id r stored
    obtain ⟨r₂, stored₂, later₂, ordered₂⟩ := second.request id r₁ stored₁
    refine ⟨r₂, stored₂, later₁.trans later₂, fun holds => ?_⟩
    obtain ⟨same₁, approved₁⟩ := ordered₁ holds
    obtain ⟨same₂, approved₂⟩ := ordered₂ (later₁.communityId ▸ holds)
    exact ⟨same₁.trans same₂, fun approved => approved₂ (approved₁ approved)⟩
  activeRequest c holds id r stored community isOpen := by
    obtain ⟨r', stored', community', isOpen'⟩ :=
      second.activeRequest c holds id r stored community isOpen
    exact first.activeRequest c holds id r' stored' community' isOpen'
  servingLease id holds := (second.servingLease id holds).trans (first.servingLease id holds)
  drained id lease stored holds := first.drained id lease (second.drained id lease stored holds) holds
  approval id holds := (second.approval id holds).trans (first.approval id holds)
  lease holds token mine trusting unchecked r stored := by
    obtain ⟨r₁, stored₁, same₁, isOpen₁⟩ := first.lease holds token mine trusting unchecked r stored
    obtain ⟨r₂, stored₂, same₂, isOpen₂⟩ :=
      second.lease holds token mine trusting unchecked r₁ stored₁
    exact ⟨r₂, stored₂, same₂.trans same₁, fun isOpen => isOpen₂ (isOpen₁ isOpen)⟩

theorem Rely.weaken {more : Held Lock} {other : Program} (moved : Rely strict call rest more t t')
    (less : ∀ lock mode, held lock mode → more lock mode) : Rely False call other held t t' where
  advisory c mode holds := moved.advisory c mode (less _ _ holds)
  community c holds := moved.community c (less _ _ holds)
  requestRow id holds := moved.requestRow id (less _ _ holds)
  request id r stored := by
    obtain ⟨r', stored', later, ordered⟩ := moved.request id r stored
    exact ⟨r', stored', later, fun holds => ordered (less _ _ holds)⟩
  activeRequest c holds := moved.activeRequest c (less _ _ holds)
  servingLease id holds := moved.servingLease id (less _ _ holds)
  drained id lease stored holds := moved.drained id lease stored (less _ _ holds)
  approval id holds := moved.approval id (less _ _ holds)
  lease absurd := absurd.elim

end

/-! ### Guarantee -/

/-- What a commit may do to a community: `fenced` when the advisory lock is held exclusively. -/
structure CommunityStep (fenced disturbed : Prop) (row row' : Community) : Prop where
  generation : row.deletionFenceGeneration ≤ row'.deletionFenceGeneration
  ordered : fenced ∨ Buried row row'
  active : row'.deletionState = .active → row.deletionState = .active ∨ disturbed

/-- What a commit may do to a request. -/
structure RequestStep (ordered disturbed superseded : Prop) (r r' : DeletionRequest) : Prop where
  communityId : r'.communityId = r.communityId
  stage : StageStep r.stage r'.stage
  digest : r.stage ≠ .submitted → r'.inventoryDigest = r.inventoryDigest
  unowned : r'.stage = .aborted → r'.leaseOwner = none
  generation : r'.leaseGeneration = r.leaseGeneration ∧ (r.isOpen → r'.isOpen) ∨
    superseded ∧ r.leaseGeneration ≤ r'.leaseGeneration
  quiescing : SameQuiescing r r' ∧ (r.isOpen → r'.isOpen) ∨ disturbed
  approved : (r.stage = .approved → r'.stage = .approved) ∨ ordered
  disturbing : disturbed → ordered

/-- What the commit of a call does to the requests, under its locks. -/
structure RequestWrites (held : Held Lock) (call : Call) (answer : Answer) (t t' : Tables) :
    Prop where
  request : ∀ id r, t.requests.get id = some r → ∃ r', t'.requests.get id = some r' ∧
    (r' = r ∨ held (.request id) .exclusive ∧
      RequestStep (held (.advisory r.communityId) .exclusive) (call.disturbs t r.communityId)
        (call.supersedes answer = some id) r r')
  newRequest : ∀ id r', t.requests.get id = none → t'.requests.get id = some r' →
    held (.request id) .exclusive ∧ held (.activeRequest r'.communityId) .exclusive ∧
      r'.stage = .submitted ∧ r'.quiescingStartedAt = none ∧
      ∀ id r, t.requests.get id = some r → r.communityId = r'.communityId → ¬ r.isOpen
  oneNew : ∀ id id' r r', t.requests.get id = none → t.requests.get id' = none →
    t'.requests.get id = some r → t'.requests.get id' = some r' → id = id'
  approved : ∀ id r r', t.requests.get id = some r → t'.requests.get id = some r' →
    r'.stage.past = true → r.stage.past = true ∨ t'.approved r' = true

/-- What the commit of a call does under its locks. -/
structure Writes (held : Held Lock) (call : Call) (answer : Answer) (t t' : Tables) : Prop
    extends RequestWrites held call answer t t' where
  community : ∀ c, t'.communities.get c = t.communities.get c ∨
    held (.community c) .exclusive ∧ ∃ row row', t.communities.get c = some row ∧
      t'.communities.get c = some row' ∧
      CommunityStep (held (.advisory c) .exclusive) (call.disturbs t c) row row'
  approval : ∀ id, t'.approvals.get id = t.approvals.get id ∨
    held (.request id) .exclusive ∧ t.approvals.get id = none
  servingLease : ∀ id, t'.servingLeases.get id = t.servingLeases.get id ∨
    held (.servingLease id) .exclusive ∧ ∀ lease, t'.servingLeases.get id = some lease →
      held (.advisory lease.communityId) .shared

namespace Writes

variable {held other : Held Lock} {call otherCall : Call} {answer : Answer} {t t' : Tables}
  {strict : Prop} {rest : Program}

private theorem approved_of_kept {r r' : DeletionRequest} (writes : Writes held call answer t t')
    (approved : t.approved r = true) (id : r'.id = r.id)
    (communityId : r'.communityId = r.communityId)
    (digest : r'.inventoryDigest = r.inventoryDigest) : t'.approved r' = true := by
  unfold Tables.approved at approved ⊢
  cases stored : t.approvals.get r.id with
  | none => simp [stored] at approved
  | some approval =>
    have kept : t'.approvals.get r.id = some approval := by
      rcases writes.approval r.id with same | ⟨_, none⟩
      · rw [same, stored]
      · rw [stored] at none
        cases none
    rw [id, kept, communityId, digest]
    rwa [stored] at approved

private theorem isOpen_of_after (writes : Writes held call answer t t') {id : Uuid}
    {r r' : DeletionRequest} (stored : t.requests.get id = some r)
    (stored' : t'.requests.get id = some r') :
    r'.communityId = r.communityId ∧ (r'.isOpen → r.isOpen) := by
  obtain ⟨r'', found, same | ⟨_, step⟩⟩ := writes.request id r stored
  · obtain rfl := Option.some.inj (found.symm.trans stored')
    rw [same]
    exact ⟨rfl, fun isOpen => isOpen⟩
  · obtain rfl := Option.some.inj (found.symm.trans stored')
    refine ⟨step.communityId, fun isOpen aborted => isOpen ?_⟩
    have stage := step.stage
    rw [aborted] at stage
    exact stage.terminal

theorem consistent (writes : Writes held call answer t t') (before : Consistent t) :
    Consistent t' where
  oneOpen id id' r r' stored stored' community isOpen isOpen' := by
    cases old : t.requests.get id with
    | some first =>
      obtain ⟨sameFirst, wasOpen⟩ := writes.isOpen_of_after old stored
      cases old' : t.requests.get id' with
      | some second =>
        obtain ⟨sameSecond, wasOpen'⟩ := writes.isOpen_of_after old' stored'
        exact before.oneOpen id id' first second old old'
          (sameFirst.symm.trans (community.trans sameSecond)) (wasOpen isOpen) (wasOpen' isOpen')
      | none =>
        obtain ⟨_, _, _, _, alone⟩ := writes.newRequest id' r' old' stored'
        exact absurd (wasOpen isOpen) (alone id first old (sameFirst.symm.trans community))
    | none =>
      obtain ⟨_, _, _, _, alone⟩ := writes.newRequest id r old stored
      cases old' : t.requests.get id' with
      | some second =>
        obtain ⟨sameSecond, wasOpen'⟩ := writes.isOpen_of_after old' stored'
        exact absurd (wasOpen' isOpen')
          (alone id' second old' (sameSecond.symm.trans community.symm))
      | none => exact writes.oneNew id id' r r' old old' stored stored'
  approved id r' stored' past := by
    cases old : t.requests.get id with
    | none =>
      obtain ⟨_, _, submitted, _⟩ := writes.newRequest id r' old stored'
      rw [submitted] at past
      cases past
    | some r =>
      rcases writes.approved id r r' old stored' past with wasPast | approved
      · have approved := before.approved id r old wasPast
        have sameId : r'.id = r.id := (Keyed.key_of_get stored').trans (Keyed.key_of_get old).symm
        obtain ⟨r'', found, same | ⟨_, step⟩⟩ := writes.request id r old
        · obtain rfl := Option.some.inj (found.symm.trans stored')
          subst same
          exact writes.approved_of_kept approved rfl rfl rfl
        · obtain rfl := Option.some.inj (found.symm.trans stored')
          refine writes.approved_of_kept approved sameId step.communityId (step.digest ?_)
          intro submitted
          rw [submitted] at wasPast
          cases wasPast
      · exact approved
  unowned id r' stored' aborted := by
    cases old : t.requests.get id with
    | none =>
      obtain ⟨_, _, submitted, _⟩ := writes.newRequest id r' old stored'
      rw [submitted] at aborted
      cases aborted
    | some r =>
      obtain ⟨r'', found, same | ⟨_, step⟩⟩ := writes.request id r old
      · obtain rfl := Option.some.inj (found.symm.trans stored')
        subst same
        exact before.unowned id _ old aborted
      · obtain rfl := Option.some.inj (found.symm.trans stored')
        exact step.unowned aborted

private theorem not_both {lock : Lock} {mode : Mode} (apart : held.Apart other)
    (holds : held lock .exclusive) (holds' : other lock mode) : False := by
  have := apart lock .exclusive mode holds holds'
  cases mode <;> cases this

/-- Whoever holds locks that get along sees only moves that it relies on. -/
theorem rely (writes : Writes held call answer t t') (apart : held.Apart other)
    (clear : strict → ∀ token, otherCall.token = some token → otherCall.trusting = true →
      call.supersedes answer = some token.requestId → ¬ Unchecked rest) :
    Rely strict otherCall rest other t t' where
  advisory c mode holds := by
    rcases writes.community c with same | ⟨_, row, row', stored, stored', step⟩
    · exact Or.inl same
    · rcases step.ordered with fenced | buried
      · exact (not_both apart fenced holds).elim
      · exact Or.inr ⟨row, row', stored, stored', buried⟩
  community c holds := by
    rcases writes.community c with same | ⟨locked, _⟩
    · exact same
    · exact (not_both apart locked holds).elim
  requestRow id holds := by
    cases old : t.requests.get id with
    | none =>
      cases new : t'.requests.get id with
      | none => rfl
      | some r' => exact (not_both apart (writes.newRequest id r' old new).1 holds).elim
    | some r =>
      obtain ⟨r', found, rfl | ⟨locked, _⟩⟩ := writes.request id r old
      · exact found
      · exact (not_both apart locked holds).elim
  request id r stored := by
    obtain ⟨r', found, rfl | ⟨_, step⟩⟩ := writes.request id r stored
    · exact ⟨r', found, Later.refl r', fun _ => ⟨SameQuiescing.refl r', fun same => same⟩⟩
    · refine ⟨r', found, ⟨step.communityId, fun aborted => ?_⟩, fun holds => ⟨?_, ?_⟩⟩
      · have stage := step.stage
        rw [aborted] at stage
        exact stage.terminal
      · rcases step.quiescing with ⟨same, _⟩ | disturbed
        · exact same
        · exact (not_both apart (step.disturbing disturbed) holds).elim
      · rcases step.approved with same | ordered
        · exact same
        · exact (not_both apart ordered holds).elim
  activeRequest c holds id r' stored' community isOpen := by
    cases old : t.requests.get id with
    | some r =>
      obtain ⟨same, wasOpen⟩ := writes.isOpen_of_after old stored'
      exact ⟨r, rfl, same.symm.trans community, wasOpen isOpen⟩
    | none =>
      obtain ⟨_, locked, _⟩ := writes.newRequest id r' old stored'
      rw [community] at locked
      exact (not_both apart locked holds).elim
  servingLease id holds := by
    rcases writes.servingLease id with same | ⟨locked, _⟩
    · exact same
    · exact (not_both apart locked holds).elim
  drained id lease stored' holds := by
    rcases writes.servingLease id with same | ⟨_, shared⟩
    · exact same ▸ stored'
    · have := apart (.advisory lease.communityId) .shared .exclusive (shared lease stored') holds
      cases this
  approval id holds := by
    rcases writes.approval id with same | ⟨locked, _⟩
    · exact same
    · exact (not_both apart locked holds).elim
  lease holds token mine trusting unchecked r stored := by
    obtain ⟨r', found, rfl | ⟨_, step⟩⟩ := writes.request token.requestId r stored
    · exact ⟨r', found, rfl, fun isOpen => isOpen⟩
    · rcases step.generation with ⟨same, isOpen⟩ | ⟨supersedes, _⟩
      · exact ⟨r', found, same, isOpen⟩
      · exact absurd unchecked (clear holds token mine trusting supersedes)

end Writes

/-! ### Actions -/

/-- Nothing happens to the lifecycle of the community. -/
structure Undisturbed (c : CommunityId) (t t' : Tables) : Prop where
  active : ∀ row', t'.communities.get c = some row' → row'.deletionState = .active →
    ∃ row, t.communities.get c = some row ∧ row.deletionState = .active
  kept : ∀ id r, t.requests.get id = some r → r.communityId = c → r.isOpen →
    ∃ r', t'.requests.get id = some r' ∧ r'.communityId = c ∧ r'.isOpen ∧ SameQuiescing r r'
  only : ∀ id r', t'.requests.get id = some r' → r'.communityId = c → r'.isOpen →
    r'.quiescingStartedAt = none ∨
      ∃ r, t.requests.get id = some r ∧ r.communityId = c ∧ r.isOpen ∧ SameQuiescing r r'

/-- `begin_quiescing`, with the rows before and after it. -/
structure Quiesces (token : LeaseToken) (t t' : Tables) (r r' : DeletionRequest)
    (row row' : Community) : Prop where
  request : t.requests.get token.requestId = some r
  communityId : r.communityId = token.communityId
  isOpen : r.isOpen
  community : t.communities.get token.communityId = some row
  request' : t'.requests.get token.requestId = some r'
  communityId' : r'.communityId = token.communityId
  isOpen' : r'.isOpen
  community' : t'.communities.get token.communityId = some row'
  quiescing : row'.deletionState = .quiescing
  started : r'.quiescingStartedAt.isSome = true
  archived : r'.preQuiesceArchivedAt =
    if r.quiescingStartedAt.isSome then r.preQuiesceArchivedAt else row.archivedAt
  others : ∀ id, id ≠ token.requestId → t'.requests.get id = t.requests.get id

/-- `abort`, with the rows before and after it. -/
structure Restores (requestId : Uuid) (t t' : Tables) (r r' : DeletionRequest)
    (row row' : Community) : Prop where
  request : t.requests.get requestId = some r
  isOpen : r.isOpen
  community : t.communities.get r.communityId = some row
  request' : t'.requests.get requestId = some r'
  aborted : r'.stage = .aborted
  community' : t'.communities.get r.communityId = some row'
  active : row'.deletionState = .active
  generation : row'.deletionFenceGeneration = row.deletionFenceGeneration + 1
  archived : row'.archivedAt =
    if r.quiescingStartedAt.isSome then r.preQuiesceArchivedAt else row.archivedAt
  others : ∀ id, id ≠ requestId → t'.requests.get id = t.requests.get id

/-- The fence generation of the lease is that of its community, which takes part in serving. -/
structure Admitted (lease : ServingWriteLease) (row : Community) (t : Tables) : Prop where
  community : t.communities.get lease.communityId = some row
  generation : row.deletionFenceGeneration = lease.fenceGeneration
  state : row.deletionState = .active ∨ row.deletionState = .quiescing

/-- The request of the token has the generation of the token. -/
structure Leased (token : LeaseToken) (r : DeletionRequest) (t : Tables) : Prop where
  request : t.requests.get token.requestId = some r
  generation : r.leaseGeneration = token.generation
  isOpen : r.isOpen

/-- What a commit means for each call. -/
def Effect (clock : Int) (answer : Answer) (t t' : Tables) : Call → Prop
  | .beginQuiescing token => ∃ r r' row row', Quiesces token t t' r r' row row'
  | .fence token =>
    (∀ id lease, t'.servingLeases.get id = some lease → lease.communityId = token.communityId →
      lease.leaseUntil < clock) ∧
    ∃ row row', t.communities.get token.communityId = some row ∧
      t'.communities.get token.communityId = some row' ∧
      row'.deletionFenceGeneration = row.deletionFenceGeneration + 1
  | .abort requestId _ _ _ => ∃ r r' row row', Restores requestId t t' r r' row row'
  | .claim _ _ _ _ => ∀ lease, answer = .claimed (some lease) →
    ∃ r', t'.requests.get lease.requestId = some r' ∧ r'.leaseGeneration = lease.generation
  | .acquireServingWriteLease c _ _ _ _ => ∃ lease row, answer = .serving lease ∧
    lease.communityId = c ∧ Admitted lease row t ∧ row.deletionState = .active
  | .renewServingWriteLease lease _ | .verifyServingWriteLease lease
  | .guardTransactionWithServingLease lease => ∃ row, Admitted lease row t
  | .guardTransaction c => ∃ row, t.communities.get c = some row ∧ row.deletionState = .active
  | _ => True

/-- What the commit of a call does. -/
structure Acts (strict : Prop) (call : Call) (clock : Int) (answer : Answer) (t t' : Tables) :
    Prop where
  community : ∀ c row, t.communities.get c = some row → ∃ row', t'.communities.get c = some row' ∧
    row.deletionFenceGeneration ≤ row'.deletionFenceGeneration
  request : ∀ id r, t.requests.get id = some r → ∃ r', t'.requests.get id = some r' ∧
    StageStep r.stage r'.stage ∧ r.leaseGeneration ≤ r'.leaseGeneration
  undisturbed : ∀ c, ¬ call.disturbs t c → Undisturbed c t t'
  leased : ∀ token, call.token = some token → (call.trusting = true → strict) →
    t' = t ∨ ∃ r, Leased token r t
  effect : Effect clock answer t t' call

namespace Writes

variable {held : Held Lock} {call : Call} {answer : Answer} {t t' : Tables} {strict : Prop}

theorem undisturbed (writes : Writes held call answer t t') {c : CommunityId}
    (elsewhere : ¬ call.disturbs t c) : Undisturbed c t t' where
  active row' stored' isActive := by
    rcases writes.community c with same | ⟨_, row, row₁, stored, stored₁, step⟩
    · exact ⟨row', same ▸ stored', isActive⟩
    · obtain rfl := Option.some.inj (stored'.symm.trans stored₁)
      exact ⟨row, stored, (step.active isActive).resolve_right elsewhere⟩
  kept id r stored community isOpen := by
    obtain ⟨r', found, rfl | ⟨_, step⟩⟩ := writes.request id r stored
    · exact ⟨r', found, community, isOpen, SameQuiescing.refl r'⟩
    · obtain ⟨same, stays⟩ := step.quiescing.resolve_right (community ▸ elsewhere)
      exact ⟨r', found, step.communityId.trans community, stays isOpen, same⟩
  only id r' stored' community isOpen := by
    cases old : t.requests.get id with
    | none =>
      obtain ⟨_, _, _, fresh, _⟩ := writes.newRequest id r' old stored'
      exact Or.inl fresh
    | some r =>
      obtain ⟨sameCommunity, wasOpen⟩ := writes.isOpen_of_after old stored'
      have here := sameCommunity.symm.trans community
      refine Or.inr ⟨r, rfl, here, wasOpen isOpen, ?_⟩
      obtain ⟨r'', found, same | ⟨_, step⟩⟩ := writes.request id r old
      · obtain rfl := Option.some.inj (found.symm.trans stored')
        rw [same]
        exact SameQuiescing.refl r
      · obtain rfl := Option.some.inj (found.symm.trans stored')
        exact (step.quiescing.resolve_right (here ▸ elsewhere)).1

theorem acts (writes : Writes held call answer t t') {clock : Int}
    (leased : ∀ token, call.token = some token → (call.trusting = true → strict) →
      t' = t ∨ ∃ r, Leased token r t)
    (effect : Effect clock answer t t' call) : Acts strict call clock answer t t' where
  community c row stored := by
    rcases writes.community c with same | ⟨_, row₁, row', stored₁, stored', step⟩
    · exact ⟨row, same ▸ stored, le_refl _⟩
    · obtain rfl := Option.some.inj (stored.symm.trans stored₁)
      exact ⟨row', stored', step.generation⟩
  request id r stored := by
    obtain ⟨r', found, rfl | ⟨_, step⟩⟩ := writes.request id r stored
    · exact ⟨r', found, Or.inl rfl, le_refl _⟩
    · refine ⟨r', found, step.stage, ?_⟩
      rcases step.generation with ⟨same, _⟩ | ⟨_, later⟩
      · exact same.symm.le
      · exact later
  undisturbed _ := writes.undisturbed
  leased := leased
  effect := effect

end Writes

/-! ### Sound transactions -/

section

variable {ι : Type} (calls : ι → Call) (strict : Prop)

def contract : Contract Stmt Reply Lock Tables ι (Except DbError Answer) where
  inv := Consistent
  rely i _ rest held past past' := Rely strict (calls i) rest held past.db past'.db
  act i _ clock value past t' :=
    ∃ answer, value = .ok answer ∧ Acts strict (calls i) clock answer past.db t'
  clear i value j rest := strict → ∀ token answer, value = .ok answer →
    (calls j).token = some token → (calls j).trusting = true →
    (calls i).supersedes answer = some token.requestId → ¬ Unchecked rest
  refl _ _ rest held past := Rely.refl rest held past.db
  trans _ _ _ _ _ _ _ := Rely.trans

/-- The end of a transaction, with the answer of its call. -/
def ending {α : Type} (g : α → Answer) : Except DbError α → Program
  | .ok a => .pure (.commit (.ok (g a)))
  | .error e => .pure (.rollback (.error e))

theorem finish_map {α : Type} (g : α → Answer) (tx : Tx α) :
    finish (g <$> tx) = tx.run >>= ending g := by
  rw [finish, ExceptT.run_map, bind_map_left]
  refine bind_congr fun result => ?_
  cases result <;> rfl

/-- The rest of the transaction keeps the contract. -/
def Sound (i : ι) (now : Int) {α : Type} (g : α → Answer) (tx : Tx α) (changes : List Change)
    (held : Held Lock) (t : Tables) : Prop :=
  ∀ history, Safe postgres (contract calls strict) i now (tx.run >>= ending g) changes held
    ⟨history, t⟩

variable {calls strict} {i : ι} {now : Int} {α β : Type} {g : α → Answer} {changes : List Change}
  {held : Held Lock} {t : Tables}

theorem sound_ask {stmt : Stmt} {k : Reply stmt → Tx α}
    (goesOn : ∀ t', Rely strict (calls i) ((ask stmt >>= k).run >>= ending g) held t t' →
      Consistent t' →
      Sound calls strict i now g (k (exec stmt (postgres.view t' changes)).1)
        (changes ++ (exec stmt (postgres.view t' changes)).2)
        (held.take (locks stmt (postgres.view t' changes))) t') :
    Sound calls strict i now g (ask stmt >>= k) changes held t :=
  fun _ past' moved consistent => goesOn past'.db moved consistent past'.history

theorem sound_throw {e : DbError} :
    Sound calls strict i now g (throw e : Tx α) changes held t := by
  change ∀ history, Safe postgres (contract calls strict) i now (.pure (.rollback (.error e))) changes
    held ⟨history, t⟩
  intro history value same
  cases same

theorem sound_guard {p : Prop} [Decidable p] {e : DbError} {k : Unit → Tx α}
    (goesOn : p → Sound calls strict i now g (k ()) changes held t) :
    Sound calls strict i now g (Task.guard p e >>= k) changes held t := by
  unfold Task.guard
  split
  next holds => exact goesOn holds
  next => exact sound_throw

theorem sound_found {row : Option β} {e : DbError} {k : β → Tx α}
    (goesOn : ∀ a, row = some a → Sound calls strict i now g (k a) changes held t) :
    Sound calls strict i now g (found row e >>= k) changes held t := by
  cases row with
  | some a => exact goesOn a rfl
  | none => exact sound_throw

theorem sound_accepted {result : Except DbError β} {k : β → Tx α}
    (goesOn : ∀ a, result = .ok a → Sound calls strict i now g (k a) changes held t) :
    Sound calls strict i now g (accepted result >>= k) changes held t := by
  cases result with
  | ok a => exact goesOn a rfl
  | error e => exact sound_throw

theorem sound_safely {result : Except String β} {k : β → Tx α}
    (goesOn : ∀ a, result = .ok a → Sound calls strict i now g (k a) changes held t) :
    Sound calls strict i now g (safely result >>= k) changes held t := by
  cases result with
  | ok a => exact goesOn a rfl
  | error text => exact sound_throw

theorem sound_last {tx : Tx α} (sound : Sound calls strict i now g (tx >>= pure) changes held t) :
    Sound calls strict i now g tx changes held t := by
  rwa [bind_pure] at sound

theorem sound_pure {a : α}
    (goesOn : ∀ t', Rely strict (calls i) (.pure (.commit (.ok (g a)))) held t t' →
      Consistent t' → ∀ clock, now ≤ clock →
      Writes held (calls i) (g a) t' (postgres.view t' changes) ∧
      (∀ token, (calls i).token = some token → ((calls i).trusting = true → strict) →
        postgres.view t' changes = t' ∨ ∃ r, Leased token r t') ∧
      Effect clock (g a) t' (postgres.view t' changes) (calls i)) :
    Sound calls strict i now g (pure a : Tx α) changes held t := by
  intro _ value same past' moved consistent clock later
  obtain rfl := Ending.commit.inj same
  obtain ⟨writes, leased, effect⟩ := goesOn past'.db moved consistent clock later
  refine ⟨writes.consistent consistent, ⟨g a, rfl, writes.acts leased effect⟩, ?_⟩
  intro j _ rest other _ _ apart clear
  exact writes.rely apart fun holds token mine trusting supersedes =>
    clear holds token (g a) rfl mine trusting supersedes

attribute [irreducible] Sound

end

end Deletion
