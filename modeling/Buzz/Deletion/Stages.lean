import Buzz.Deletion.Fence

/-!
# The stages and the leases of deletion requests

In every run the stages go their way and nothing happens without the approval of exactly the
frozen inventory. An executor that has lost its lease is kept out in the runs in which no claim
and no abort commits while one of its mutations is past its last look at the lease; `Overtaken`
shows a run in which one is.
-/
namespace Deletion

open Lib Nostr Relay Locking

section

variable {ι : Type} (calls : ι → Call) (hashes : Hashes)

/-- The stages of the requests and their approvals. -/
structure Staged (s : Server ι) : Prop where
  stage : ∀ newer (deed : Deed ι) older, s.history = newer ++ deed :: older →
    ∀ id (r : DeletionRequest), deed.before.requests.get id = some r →
      ∃ r' : DeletionRequest, deed.after.requests.get id = some r' ∧
        (r'.stage = r.stage ∨ r.stage.next = some r'.stage ∨
          ((r.stage = .approved ∨ r.stage = .fenced) ∧ r'.stage = .aborted)) ∧
        (r.stage = .retentionPending ∨ r.stage = .aborted → r'.stage = r.stage)
  approved : ∀ id (r : DeletionRequest), s.db.requests.get id = some r → r.stage.past = true →
    ∃ approval, s.db.approvals.get id = some approval ∧ approval.communityId = r.communityId ∧
      r.inventoryDigest = some approval.inventoryDigest

/-- The commit takes the request from a lease of the generation. -/
def Takes (requestId : Uuid) (generation : Nat) (deed : Deed ι) : Prop :=
  (∃ candidate owner leaseSeconds catalog lease,
    calls deed.session = .claim candidate owner leaseSeconds catalog ∧
      deed.value = .ok (.claimed (some lease)) ∧ lease.requestId = requestId ∧
      generation < lease.generation) ∨
  ∃ abortedBy reason unit, calls deed.session = .abort requestId abortedBy reason unit

/-- What is done with a lease is done before the lease is taken away. -/
def LeaseFenced (history : List (Deed ι)) : Prop :=
  ∀ newer deed older, history = newer ++ deed :: older →
    ∀ token, (calls deed.session).token = some token → deed.after ≠ deed.before →
      ∀ earlier ∈ older, ¬ Takes calls token.requestId token.generation earlier

/-- No claim and no abort of a request commits while another session is past its last look at
the lease of that request, in a transaction that does not look at it again. -/
def Undivided [DecidableEq ι] (s : Server ι) (events : List (Event ι)) : Prop :=
  AllClear postgres (contract calls True) (transactions calls hashes) s events

variable {calls} {hashes} {strict : Prop} {start t : Tables} {history : List (Deed ι)}

theorem lease_fenced_of_chain (chain : Chain (contract calls True) start history t) :
    LeaseFenced calls history := by
  intro newer deed older split token mine changed earlier member takes
  subst split
  obtain ⟨before, _, answer, _, acts⟩ := chain.at
  obtain ⟨r, leased⟩ := (acts.leased token mine fun _ => trivial).resolve_left changed
  obtain ⟨between, first, rfl⟩ := List.append_of_mem member
  obtain ⟨_, _, answer', value, acts'⟩ := before.at
  have effect := acts'.effect
  rcases takes with ⟨candidate, owner, leaseSeconds, catalog, lease, is, claimed, here, later⟩ |
    ⟨abortedBy, reason, unit, is⟩
  · rw [is] at effect
    rw [value] at claimed
    cases claimed
    obtain ⟨r', stored', generation⟩ := effect lease rfl
    rw [here] at stored'
    -- generations only grow
    obtain ⟨r₁, stored₁, least⟩ := before.since
      (P := fun t => ∃ r, t.requests.get token.requestId = some r ∧
        lease.generation ≤ r.leaseGeneration)
      ⟨r', stored', generation.ge⟩ fun c _ acts before => by
        obtain ⟨answer, _, acts⟩ := acts
        obtain ⟨r, stored, least⟩ := before
        obtain ⟨r', stored', _, grows⟩ := acts.request _ r stored
        exact ⟨r', stored', least.trans grows⟩
    obtain rfl := Option.some.inj (leased.request.symm.trans stored₁)
    have mine := leased.generation
    omega
  · rw [is] at effect
    obtain ⟨_, r', _, _, restores⟩ := effect
    -- an aborted request stays aborted
    obtain ⟨r₁, stored₁, aborted⟩ := before.since
      (P := fun t => ∃ r, t.requests.get token.requestId = some r ∧ r.stage = .aborted)
      ⟨r', restores.request', restores.aborted⟩ fun c _ acts before => by
        obtain ⟨answer, _, acts⟩ := acts
        obtain ⟨r, stored, aborted⟩ := before
        obtain ⟨r', stored', step, _⟩ := acts.request _ r stored
        rw [aborted] at step
        exact ⟨r', stored', step.terminal⟩
    obtain rfl := Option.some.inj (leased.request.symm.trans stored₁)
    exact leased.isOpen aborted

private theorem stage_terminal {stage stage' : DeletionStage} (step : StageStep stage stage')
    (terminal : stage = .retentionPending ∨ stage = .aborted) : stage' = stage := by
  rcases terminal with rfl | rfl
  · rcases step with same | next | ⟨early, _⟩
    · exact same
    · cases next
    · rcases early with early | early <;> cases early
  · exact step.terminal

theorem staged_of_kept [DecidableEq ι] {s : Server ι}
    (kept : Kept postgres (contract calls strict) start s) : Staged s where
  stage newer deed older split id r stored := by
    have chain := kept.history
    rw [split] at chain
    obtain ⟨_, _, answer, _, acts⟩ := chain.at
    obtain ⟨r', stored', step, _⟩ := acts.request id r stored
    exact ⟨r', stored', step, stage_terminal step⟩
  approved id r stored past := by
    have approved := kept.inv.approved id r stored past
    have sameId : r.id = id := Keyed.key_of_get stored
    unfold Tables.approved at approved
    rw [sameId] at approved
    cases found : s.db.approvals.get id with
    | none => simp [found] at approved
    | some approval =>
      rw [found] at approved
      obtain ⟨community, digest⟩ := of_decide_eq_true approved
      exact ⟨approval, rfl, community, digest⟩

variable {communities : Keyed Community.id} [DecidableEq ι] {clock : Int} {events : List (Event ι)}
  {s : Server ι}

/-- Every run keeps to the stages; a run without overtaking keeps to the leases. -/
theorem requests_fenced (ran : postgres.run (transactions calls hashes)
      (System.init clock (Tables.fresh communities)) events = some s) :
    Staged s ∧
      (Undivided calls hashes (System.init clock (Tables.fresh communities)) events →
        LeaseFenced calls s.history) := by
  refine ⟨?_, fun undivided => ?_⟩
  · have kept : Kept postgres (contract calls False) _ s := run_kept
      (kept_init clock (consistent_fresh communities)) (fun i now past _ => body_safe past)
      (allClear_of_forall (fun _ _ _ _ absurd => absurd.elim) _ _) ran
    exact staged_of_kept kept
  · have kept : Kept postgres (contract calls True) _ s := run_kept
      (kept_init clock (consistent_fresh communities)) (fun i now past _ => body_safe past) undivided ran
    exact lease_fenced_of_chain kept.history

end

/-! ### Runs -/

open Sample

/-- The lease of the first worker, which lasts for a second. -/
def leased : List Call := 
  prepared.dropLast ++ [Call.claim requestId "worker" 1 (.ok ())]

/-- The lease of the second. -/
def taken : LeaseToken := { token 2 with owner := "other" }

/-- The lease that a commit has given out. -/
def given (deed : Deed Nat) : Option LeaseToken :=
  match deed.value with
  | .ok (.claimed lease) => lease
  | _ => none

namespace Overtaken

/-- `block` has looked at its lease when the lease expires and another executor claims the
request. -/
def sessions : List Call :=
  leased ++ [Call.block (token 1) .approved "quiesce" "unreachable",
    Call.claim requestId "other" 3600 (.ok ())]

def calls (i : Nat) : Call := sessions.getD i (.guardTransaction community)

def events : List (Event Nat) :=
  inTurn [2, 2, 4, 3] ++
    ([.start 4, .go 4, .tick 1000001, .start 5, .go 5, .go 5, .go 5] : List (Event Nat)) ++
    [Event.go 4, Event.go 4, Event.go 4]

def outcome : Option (Server Nat) :=
  postgres.run (transactions calls hashes) (System.init 0 (Tables.fresh communities)) events

def summary (deed : Deed Nat) : Nat × Option LeaseToken × Nat × Nat :=
  (deed.session, given deed, deed.before.checkpoints.rows.length,
    deed.after.checkpoints.rows.length)

/-- The new lease is out when `block` leaves its checkpoint. -/
theorem not_leaseFenced : ∃ s, outcome = some s ∧ ¬ LeaseFenced calls s.history := by
  have ends : outcome.map (fun s => (s.history.map summary).take 2) =
      some [(4, none, 0, 1), (5, some taken, 0, 0)] := by
    decide +kernel
  obtain ⟨s, ran, tail⟩ := Option.map_eq_some_iff.mp ends
  refine ⟨s, ran, fun fenced => ?_⟩
  obtain ⟨blocked, rest, split, first, tail⟩ : ∃ blocked rest, s.history = blocked :: rest ∧
      summary blocked = (4, none, 0, 1) ∧
      (rest.map summary).take 1 = [(5, some taken, 0, 0)] := by
    cases history : s.history with
    | nil => simp [history] at tail
    | cons blocked rest =>
      rw [history] at tail
      exact ⟨blocked, rest, rfl, List.head_eq_of_cons_eq tail, List.tail_eq_of_cons_eq tail⟩
  obtain ⟨claimed, older, rfl, second⟩ : ∃ claimed older, rest = claimed :: older ∧
      summary claimed = (5, some taken, 0, 0) := by
    cases rest with
    | nil => cases tail
    | cons claimed older => exact ⟨claimed, older, rfl, List.head_eq_of_cons_eq tail⟩
  obtain ⟨session, -, none, one⟩ : blocked.session = 4 ∧ given blocked = none ∧
      blocked.before.checkpoints.rows.length = 0 ∧
      blocked.after.checkpoints.rows.length = 1 := by simpa [summary] using first
  obtain ⟨session', lease, -⟩ : claimed.session = 5 ∧
      given claimed = some taken ∧ _ := by simpa [summary] using second
  refine fenced [] blocked (claimed :: older) split (token 1) (by rw [session]; rfl) ?_ claimed
    List.mem_cons_self (.inl ⟨requestId, "other", 3600, .ok (), taken,
      by rw [session']; rfl, ?_, rfl, by decide⟩)
  · intro same
    rw [same] at one
    omega
  · unfold given at lease
    split at lease
    next value =>
      rw [lease] at value
      exact value
    next => cases lease

end Overtaken

namespace Takeover

/-- The first worker quiesces the community; its lease expires, and another executor fences it. -/
def sessions : List Call :=
  leased ++ [Call.beginQuiescing (token 1), Call.claim requestId "other" 3600 (.ok ()),
    Call.fence taken]

def calls (i : Nat) : Call := sessions.getD i (.guardTransaction community)

def events : List (Event Nat) :=
  inTurn [2, 2, 4, 3, 8] ++
    ([.tick 1000001, .start 5, .go 5, .go 5, .go 5, .start 6] : List (Event Nat)) ++
    List.replicate 9 (Event.go 6)

def outcome : Option (Server Nat) :=
  postgres.run (transactions calls hashes) (System.init 0 (Tables.fresh communities)) events

end Takeover

theorem requests_fenced_in_turn : ∃ s, Takeover.outcome = some s ∧
    s.history.map (·.session) = [6, 5, 4, 3, 2, 1, 0] ∧ Staged s ∧
    LeaseFenced Takeover.calls s.history := by
  have ends : Takeover.outcome.map (fun s => s.history.map (·.session)) =
      some [6, 5, 4, 3, 2, 1, 0] := by decide +kernel
  obtain ⟨s, ran, order⟩ := Option.map_eq_some_iff.mp ends
  obtain ⟨staged, fenced⟩ := requests_fenced ran
  have alone : aloneRun postgres (transactions Takeover.calls hashes) [0, 1, 2, 3, 4, 5, 6]
      (System.init 0 (Tables.fresh communities)) Takeover.events = true := by decide +kernel
  exact ⟨s, ran, order, staged, fenced (allClear_of_alone (fun i active => nomatch active) alone)⟩

end Deletion
