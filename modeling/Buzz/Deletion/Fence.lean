import Buzz.Deletion.Soundness

/-!
# The community write fence

What every interleaving of the deletion transactions makes of the serving leases and of the
communities, read off the history of commits.
-/
namespace Deletion

open Lib Nostr Relay Locking

/-- A commit of a transaction. -/
abbrev Deed (ι : Type) := Commit Tables ι (Except DbError Answer)

abbrev Server (ι : Type) := System Stmt Reply Lock Change Tables ι (Except DbError Answer)

/-- Before the first deletion request. -/
def Tables.fresh (communities : Keyed Community.id) : Tables := { communities }

theorem consistent_fresh (communities : Keyed Community.id) :
    Consistent (Tables.fresh communities) where
  oneOpen _ _ _ _ stored := by cases stored
  approved _ _ stored := by cases stored
  unowned _ _ stored := by cases stored

section

variable {ι : Type} (calls : ι → Call) (hashes : Hashes)

/-- The transaction of each session. -/
def transactions (i : ι) (now : Int) : Program := (calls i).body hashes now

/-- The `archived_at` of the community at the first `begin_quiescing` since its last abort. -/
def saved (c : CommunityId) : List (Deed ι) → Option (Option Int)
  | [] => none
  | deed :: older => match calls deed.session with
    | .beginQuiescing token =>
      if token.communityId = c then
        (saved c older).or (some ((deed.before.communities.get c).bind (·.archivedAt)))
      else saved c older
    | .abort requestId _ _ _ =>
      if (deed.before.requests.get requestId).any (·.communityId = c) then none else saved c older
    | _ => saved c older

/-- The serving lease that a call renews, verifies or mutates under. -/
def Call.serves : Call → Option ServingWriteLease
  | renewServingWriteLease lease _ | verifyServingWriteLease lease
  | guardTransactionWithServingLease lease => some lease
  | _ => none

/-- The commit fences the community. -/
def fences (c : CommunityId) (deed : Deed ι) : Prop :=
  ∃ token, calls deed.session = .fence token ∧ token.communityId = c

/-- The commit aborts a request of the community. -/
def aborts (c : CommunityId) (deed : Deed ι) : Prop :=
  ∃ requestId abortedBy reason unit r, calls deed.session = .abort requestId abortedBy reason unit ∧
    deed.before.requests.get requestId = some r ∧ r.communityId = c

/-- What the fence makes of a history of commits, the last one first. -/
structure Excluded (history : List (Deed ι)) : Prop where
  /-- From `begin_quiescing` until an abort no lease is acquired. -/
  acquired : ∀ newer deed older, history = newer ++ deed :: older →
    ∀ c operation owner leaseSeconds id,
      calls deed.session = .acquireServingWriteLease c operation owner leaseSeconds id →
      saved calls c older = none
  /-- When the fence commits, every lease has expired. -/
  fenced : ∀ newer deed older, history = newer ++ deed :: older →
    ∀ c, fences calls c deed → ∀ lease ∈ deed.after.servingLeases.rows, lease.communityId = c →
      lease.leaseUntil < deed.clock
  /-- A lease from before the fence never passes again. -/
  spent : ∀ newer (last : Deed ι) between fence between' (first : Deed ι) older,
    history = newer ++ last :: (between ++ fence :: (between' ++ first :: older)) →
    ∀ c lease lease', first.value = .ok (.serving lease) →
      (∃ operation owner leaseSeconds id,
        calls first.session = .acquireServingWriteLease c operation owner leaseSeconds id) →
      fences calls c fence → (calls last.session).serves = some lease' → ¬ lease'.sameLease lease
  generation : ∀ newer deed older, history = newer ++ deed :: older →
    ∀ c row, deed.before.communities.get c = some row →
      ∃ row', deed.after.communities.get c = some row' ∧
        row.deletionFenceGeneration ≤ row'.deletionFenceGeneration ∧
        (fences calls c deed ∨ aborts calls c deed →
          row.deletionFenceGeneration < row'.deletionFenceGeneration)
  /-- An abort gives the community back as `begin_quiescing` found it. -/
  restored : ∀ newer deed older, history = newer ++ deed :: older →
    ∀ c, aborts calls c deed → ∃ row row', deed.before.communities.get c = some row ∧
      deed.after.communities.get c = some row' ∧ row'.deletionState = .active ∧
      row'.archivedAt = (saved calls c older).getD row.archivedAt

/-! ### What quiescing remembers -/

/-- The open request of the community remembers what is to be restored. -/
structure Tracked (c : CommunityId) (older : List (Deed ι)) (t : Tables) : Prop where
  calm : saved calls c older = none → ∀ id r, t.requests.get id = some r → r.communityId = c →
    r.isOpen → r.quiescingStartedAt = none
  kept : ∀ archivedAt, saved calls c older = some archivedAt →
    (∃ id r, t.requests.get id = some r ∧ r.communityId = c ∧ r.isOpen ∧
      r.quiescingStartedAt.isSome = true ∧ r.preQuiesceArchivedAt = archivedAt) ∧
    ∀ row, t.communities.get c = some row → row.deletionState ≠ .active

variable {calls} {hashes}

theorem saved_of_undisturbed {deed : Deed ι} {older : List (Deed ι)} {c : CommunityId}
    (elsewhere : ¬ (calls deed.session).disturbs deed.before c) :
    saved calls c (deed :: older) = saved calls c older := by
  rw [saved]
  split
  next token is =>
    rw [is] at elsewhere
    exact if_neg fun same => elsewhere same.symm
  next requestId _ _ _ is =>
    rw [is] at elsewhere
    refine if_neg fun same => elsewhere ?_
    cases stored : deed.before.requests.get requestId with
    | none => simp [stored] at same
    | some r =>
      rw [stored] at same
      exact ⟨r, stored, of_decide_eq_true same⟩
  next => rfl

private theorem Tracked.undisturbed {deed : Deed ι} {older : List (Deed ι)} {c : CommunityId}
    (tracked : Tracked calls c older deed.before)
    (elsewhere : ¬ (calls deed.session).disturbs deed.before c)
    (undisturbed : Undisturbed c deed.before deed.after) :
    Tracked calls c (deed :: older) deed.after where
  calm none id r' stored' community isOpen := by
    rw [saved_of_undisturbed elsewhere] at none
    rcases undisturbed.only id r' stored' community isOpen with fresh | ⟨r, stored, here, wasOpen, same⟩
    · exact fresh
    · rw [same.started]
      exact tracked.calm none id r stored here wasOpen
  kept archivedAt some := by
    rw [saved_of_undisturbed elsewhere] at some
    obtain ⟨⟨id, r, stored, here, isOpen, started, archived⟩, quiescing⟩ := tracked.kept _ some
    obtain ⟨r', stored', here', isOpen', same⟩ := undisturbed.kept id r stored here isOpen
    refine ⟨⟨id, r', stored', here', isOpen', ?_, same.archived.trans archived⟩, ?_⟩
    · rw [same.started, started]
    · intro row' stored' active
      obtain ⟨row, stored, wasActive⟩ := undisturbed.active row' stored' active
      exact quiescing row stored wasActive

private theorem Tracked.quiesces {deed : Deed ι} {older : List (Deed ι)} {token : LeaseToken}
    {r r' : DeletionRequest} {row row' : Community} (is : calls deed.session = .beginQuiescing token)
    (tracked : Tracked calls token.communityId older deed.before) (consistent : Consistent deed.before)
    (quiesces : Quiesces token deed.before deed.after r r' row row') :
    Tracked calls token.communityId (deed :: older) deed.after := by
  have next : saved calls token.communityId (deed :: older) =
      (saved calls token.communityId older).or (some row.archivedAt) := by
    rw [saved, is]
    simp [quiesces.community]
  have notActive : ∀ row₁, deed.after.communities.get token.communityId = some row₁ →
      row₁.deletionState ≠ .active := by
    intro row₁ stored
    rw [quiesces.community'] at stored
    rw [← Option.some.inj stored, quiesces.quiescing]
    decide
  refine ⟨fun none => ?_, fun archivedAt some => ⟨?_, notActive⟩⟩
  · rw [next] at none
    cases before : saved calls token.communityId older <;> rw [before] at none <;> cases none
  · refine ⟨token.requestId, r', quiesces.request', quiesces.communityId', quiesces.isOpen',
      quiesces.started, ?_⟩
    rw [quiesces.archived]
    rw [next] at some
    cases before : saved calls token.communityId older with
    | none =>
      rw [tracked.calm before _ r quiesces.request quiesces.communityId quiesces.isOpen]
      rw [before] at some
      exact Option.some.inj some
    | some archived =>
      obtain ⟨⟨id, first, stored, here, isOpen, started, same⟩, _⟩ := tracked.kept _ before
      have sameId := consistent.oneOpen id token.requestId first r stored quiesces.request
        (here.trans quiesces.communityId.symm) isOpen quiesces.isOpen
      subst sameId
      obtain rfl := Option.some.inj (stored.symm.trans quiesces.request)
      rw [if_pos started, same]
      rw [before] at some
      exact Option.some.inj some

private theorem Tracked.restores {deed : Deed ι} {older : List (Deed ι)} {requestId : Uuid}
    {abortedBy reason : String} {unit : Uuid} {r r' : DeletionRequest} {row row' : Community}
    (is : calls deed.session = .abort requestId abortedBy reason unit)
    (consistent : Consistent deed.before)
    (restores : Restores requestId deed.before deed.after r r' row row') :
    Tracked calls r.communityId (deed :: older) deed.after := by
  have next : saved calls r.communityId (deed :: older) = none := by
    rw [saved, is]
    simp [restores.request]
  refine ⟨fun _ id other stored here isOpen => ?_, fun _ some => ?_⟩
  · by_cases same : id = requestId
    · rw [same, restores.request'] at stored
      rw [← Option.some.inj stored] at isOpen
      exact absurd restores.aborted isOpen
    · rw [restores.others id same] at stored
      exact absurd (consistent.oneOpen id requestId other r stored restores.request here isOpen
        restores.isOpen) same
  · rw [next] at some
    cases some

theorem Tracked.step {deed : Deed ι} {older : List (Deed ι)} {c : CommunityId} {answer : Answer}
    (tracked : Tracked calls c older deed.before) (consistent : Consistent deed.before)
    (acts : Acts False (calls deed.session) deed.clock answer deed.before deed.after) :
    Tracked calls c (deed :: older) deed.after := by
  by_cases disturbs : (calls deed.session).disturbs deed.before c
  · have effect := acts.effect
    cases is : calls deed.session with
    | beginQuiescing token =>
      rw [is] at disturbs effect
      obtain rfl : c = token.communityId := disturbs
      obtain ⟨r, r', row, row', quiesces⟩ := effect
      exact tracked.quiesces is consistent quiesces
    | abort requestId abortedBy reason unit =>
      rw [is] at disturbs effect
      obtain ⟨r₁, stored₁, rfl⟩ := disturbs
      obtain ⟨r, r', row, row', restores⟩ := effect
      obtain rfl := Option.some.inj (stored₁.symm.trans restores.request)
      exact Tracked.restores is consistent restores
    | _ =>
      rw [is] at disturbs
      exact disturbs.elim
  · exact tracked.undisturbed disturbs (acts.undisturbed c disturbs)

/-! ### Every run -/

variable {communities : Keyed Community.id} {history : List (Deed ι)} {t : Tables}

theorem tracked_of_chain
    (chain : Chain (contract calls False) (Tables.fresh communities) history t) (c : CommunityId) :
    Tracked calls c history t := by
  induction chain with
  | nil =>
    refine ⟨fun _ id r stored => ?_, fun _ some => ?_⟩
    · cases stored
    · cases some
  | commit deed _ consistent acts _ _ ih =>
    obtain ⟨answer, _, acts⟩ := acts
    exact ih.step consistent acts

/-- The fence generation of the community is at least `n`. -/
private def AtLeast (c : CommunityId) (n : Nat) (t : Tables) : Prop :=
  ∃ row, t.communities.get c = some row ∧ n ≤ row.deletionFenceGeneration

private theorem AtLeast.kept {c : CommunityId} {n : Nat} (deed : Deed ι) (older : List (Deed ι))
    (acts : (contract calls False).act deed.session deed.now deed.clock deed.value
      ⟨older, deed.before⟩ deed.after) (atLeast : AtLeast c n deed.before) : AtLeast c n deed.after := by
  obtain ⟨answer, _, acts⟩ := acts
  obtain ⟨row, stored, least⟩ := atLeast
  obtain ⟨row', stored', later⟩ := acts.community c row stored
  exact ⟨row', stored', least.trans later⟩

/-- A lease is not used in a later generation. -/
private theorem not_spent {newer between between' older : List (Deed ι)} {last fence first : Deed ι}
    {c : CommunityId} {lease lease' : ServingWriteLease} {start : Tables}
    (chain : Chain (contract calls False) start
      (newer ++ last :: (between ++ fence :: (between' ++ first :: older))) t)
    (value : first.value = .ok (.serving lease))
    (acquires : ∃ operation owner leaseSeconds id,
      calls first.session = .acquireServingWriteLease c operation owner leaseSeconds id)
    (fences : fences calls c fence) (serves : (calls last.session).serves = some lease')
    (same : lease'.sameLease lease) : False := by
  obtain ⟨operation, owner, leaseSeconds, id, isFirst⟩ := acquires
  obtain ⟨token, isFence, rfl⟩ := fences
  obtain ⟨beforeLast, _, answer, _, acts⟩ := chain.at
  obtain ⟨beforeFence, _, answer', _, actsFence⟩ := beforeLast.at
  obtain ⟨_, _, answer'', value', actsFirst⟩ := beforeFence.at
  -- the lease has the generation of its community when it is acquired
  have acquired := actsFirst.effect
  rw [isFirst] at acquired
  obtain ⟨lease₁, row₁, answered, here, admitted, _⟩ := acquired
  have sameLease : lease₁ = lease := by
    rw [value, answered] at value'
    cases value'
    rfl
  subst sameLease
  obtain ⟨row₂, stored₂, later⟩ := actsFirst.community _ row₁ admitted.community
  rw [here] at stored₂
  obtain ⟨row₃, stored₃, least⟩ := beforeFence.since
    (P := AtLeast token.communityId lease₁.fenceGeneration)
    ⟨row₂, stored₂, admitted.generation ▸ later⟩ AtLeast.kept
  -- the fence makes it larger
  have fenced := actsFence.effect
  rw [isFence] at fenced
  obtain ⟨_, row₄, row₅, stored₄, stored₅, grown⟩ := fenced
  obtain rfl := Option.some.inj (stored₃.symm.trans stored₄)
  obtain ⟨row₆, stored₆, larger⟩ := beforeLast.since
    (P := AtLeast token.communityId (lease₁.fenceGeneration + 1))
    ⟨row₅, stored₅, by omega⟩ AtLeast.kept
  -- and the last transaction has found the old one
  have current : ∃ row, Admitted lease' row last.before := by
    have effect := acts.effect
    cases is : calls last.session <;> rw [is] at serves effect <;> cases serves
    · exact effect
    · exact effect
    · exact effect
  obtain ⟨row₇, admitted'⟩ := current
  obtain ⟨_, community, _, _, generation⟩ := same
  have stored₇ := admitted'.community
  rw [← community, here] at stored₇
  obtain rfl := Option.some.inj (stored₆.symm.trans stored₇)
  have found := admitted'.generation
  omega

theorem excluded_of_chain
    (chain : Chain (contract calls False) (Tables.fresh communities) history t) :
    Excluded calls history where
  acquired newer deed older split c operation owner leaseSeconds id is := by
    subst split
    obtain ⟨before, _, answer, _, acts⟩ := chain.at
    have effect := acts.effect
    rw [is] at effect
    obtain ⟨lease, row, _, rfl, admitted, isActive⟩ := effect
    cases saving : saved calls lease.communityId older with
    | none => rfl
    | some archivedAt =>
      obtain ⟨_, quiescing⟩ := (tracked_of_chain before lease.communityId).kept _ saving
      exact absurd isActive (quiescing row admitted.community)
  fenced newer deed older split c fences lease member here := by
    subst split
    obtain ⟨before, _, answer, _, acts⟩ := chain.at
    obtain ⟨token, is, rfl⟩ := fences
    have effect := acts.effect
    rw [is] at effect
    exact effect.1 lease.id lease (Keyed.get_of_mem member) here
  spent newer last between fence between' first older split c lease lease' value acquires fences
      serves same := by
    subst split
    exact not_spent chain value acquires fences serves same
  generation newer deed older split c row stored := by
    subst split
    obtain ⟨before, _, answer, _, acts⟩ := chain.at
    obtain ⟨row', stored', later⟩ := acts.community c row stored
    refine ⟨row', stored', later, ?_⟩
    rintro (⟨token, is, rfl⟩ | ⟨requestId, abortedBy, reason, unit, r, is, request, rfl⟩)
    · have effect := acts.effect
      rw [is] at effect
      obtain ⟨_, row₁, row₂, stored₁, stored₂, grown⟩ := effect
      obtain rfl := Option.some.inj (stored₁.symm.trans stored)
      obtain rfl := Option.some.inj (stored₂.symm.trans stored')
      omega
    · have effect := acts.effect
      rw [is] at effect
      obtain ⟨r₁, r₂, row₁, row₂, restores⟩ := effect
      obtain rfl := Option.some.inj (restores.request.symm.trans request)
      obtain rfl := Option.some.inj (restores.community.symm.trans stored)
      obtain rfl := Option.some.inj (restores.community'.symm.trans stored')
      have grown := restores.generation
      omega
  restored newer deed older split c aborts := by
    subst split
    obtain ⟨before, _, answer, _, acts⟩ := chain.at
    obtain ⟨requestId, abortedBy, reason, unit, r, is, request, rfl⟩ := aborts
    have effect := acts.effect
    rw [is] at effect
    obtain ⟨r₁, r₂, row, row', restores⟩ := effect
    obtain rfl := Option.some.inj (restores.request.symm.trans request)
    refine ⟨row, row', restores.community, restores.community', restores.active, ?_⟩
    rw [restores.archived]
    have tracked := tracked_of_chain before r₁.communityId
    cases saving : saved calls r₁.communityId older with
    | none =>
      rw [tracked.calm saving _ r₁ restores.request rfl restores.isOpen]
      rfl
    | some archivedAt =>
      -- the request that remembers is the one that is aborted
      obtain ⟨⟨id, first, stored, here, isOpen, started, same⟩, _⟩ := tracked.kept _ saving
      obtain ⟨_, consistent, _⟩ := chain.at
      have sameId := consistent.oneOpen id requestId first r₁ stored restores.request here isOpen
        restores.isOpen
      subst sameId
      obtain rfl := Option.some.inj (stored.symm.trans restores.request)
      rw [if_pos started, same]
      rfl

/-- Every interleaving. -/
theorem serving_excluded [DecidableEq ι] {clock : Int} {events : List (Event ι)} {s : Server ι}
    (ran : postgres.run (transactions calls hashes)
      (System.init clock (Tables.fresh communities)) events = some s) :
    Excluded calls s.history := by
  have kept : Kept postgres (contract calls False) _ s := run_kept
    (kept_init clock (consistent_fresh communities))
    (fun i now past _ => body_safe past) (allClear_of_forall (fun _ _ _ _ absurd => absurd.elim) _ _) ran
  exact excluded_of_chain kept.history

end

/-! ### A run -/

namespace Sample

def community : CommunityId := ⟨⟨1⟩⟩

def communities : Keyed Community.id := Keyed.empty.put { id := community, host := "a.example" }

def requestId : Uuid := ⟨2⟩

def hashes : Hashes := ⟨fun _ => [], id⟩

def inventory : FrozenInventory :=
  ⟨"{}", 4, [⟨"a/", 0, 0, String.ofList (List.replicate 64 '0')⟩]⟩

def lease : ServingWriteLease := ⟨⟨3⟩, community, "media", "relay", 1, 0, 1000000⟩

def token (generation : Nat) : LeaseToken := ⟨requestId, "worker", generation, community, none⟩

/-- The request is approved and claimed. -/
def prepared : List Call :=
  [.submit "a.example" "operator" requestId, .freezeInventory requestId inventory,
    .approve requestId "operator", .claim requestId "worker" 3600 (.ok ())]

/-- Every session from its start to its end, one after the other. -/
def inTurn (steps : List Nat) : List (Event Nat) :=
  steps.zipIdx.flatMap fun (count, i) => .start i :: List.replicate count (.go i)

end Sample

namespace FenceRun

open Sample

/-- A lease is acquired and verified while the community quiesces; the fence waits until it has
expired, and the request is aborted. -/
def sessions : List Call := prepared ++
  ([.acquireServingWriteLease community "media" "relay" 1 lease.id, .beginQuiescing (token 1),
    .verifyServingWriteLease lease, .fence (token 1), .abort requestId "operator" "mistake" ⟨4⟩] :
    List Call)

def calls (i : Nat) : Call := sessions.getD i (.guardTransaction community)

def events : List (Event Nat) :=
  inTurn [2, 2, 4, 3, 4, 8, 3] ++ [Event.tick 1000001, Event.start 7] ++
    List.replicate 9 (Event.go 7) ++ [Event.start 8] ++ List.replicate 9 (Event.go 8)

def outcome : Option (Server Nat) :=
  postgres.run (transactions calls hashes) (System.init 0 (Tables.fresh communities)) events

end FenceRun

theorem serving_excluded_in_turn : ∃ s, FenceRun.outcome = some s ∧
    s.history.map (·.session) = [8, 7, 6, 5, 4, 3, 2, 1, 0] ∧
    Excluded FenceRun.calls s.history := by
  have ends : FenceRun.outcome.map (fun s => s.history.map (·.session)) =
      some [8, 7, 6, 5, 4, 3, 2, 1, 0] := by decide +kernel
  obtain ⟨s, ran, order⟩ := Option.map_eq_some_iff.mp ends
  exact ⟨s, ran, order, serving_excluded ran⟩

end Deletion
