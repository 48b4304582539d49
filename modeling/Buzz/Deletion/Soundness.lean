import Buzz.Deletion.Sound

/-!
# Each transaction, from its first statement to its commit
-/
namespace Deletion

open Lib Nostr Relay Locking

section

variable {ι : Type} {calls : ι → Call} {strict : Prop} {i : ι} {now : Int} {hashes : Hashes}
  {t : Tables}

/-! ### Operators -/

theorem freezeInventory_sound {requestId : Uuid} {inventory : FrozenInventory}
    (is : calls i = .freezeInventory requestId inventory) :
    Sound calls strict i now .request (freezeInventory hashes requestId inventory) [] Held.none t := by
  refine sound_safely fun _ _ => sound_updateRequest ?_ fun _ _ _ _ => sound_throw
  intro t' r moved consistent stored holds
  obtain ⟨submitted, _⟩ := of_decide_eq_true holds
  refine sound_commitRequest take_here stored (fun _ => rfl) rfl
    (fun _ => rfl) (fun _ => rfl) (fun _ => rfl) ?_ ?_ ?_ ?_ ?_
  · rw [is]
    exact fun _ _ => id
  · intro disturbed apart
    refine requestStep_of_next rfl ?_ (absurd submitted) rfl ⟨rfl, rfl⟩ (Or.inl ?_) apart
    · rw [submitted]
      rfl
    · rw [submitted]
      decide
  · intro past
    cases past
  · rw [is]
    exact nofun
  · intro v v' clock _
    rw [is]
    trivial

private theorem exec_insertRequest (communityHost requestedBy : String) (id : Uuid) (t : Tables) :
    (∃ reply, exec (.insertRequest communityHost requestedBy id now) t = (reply, [])) ∨
      ∃ row : DeletionRequest, row.id = id ∧ row.stage = .submitted ∧
        row.quiescingStartedAt = none ∧ t.requests.get id = none ∧
        t.openRequest row.communityId = false ∧
        locks (.insertRequest communityHost requestedBy id now) t =
          [(.activeRequest row.communityId, .exclusive), (.request id, .exclusive)] ∧
        exec (.insertRequest communityHost requestedBy id now) t = (.ok (some row), [.request row]) := by
  simp only [exec, locks]
  cases submittable t communityHost with
  | none => exact Or.inl ⟨_, rfl⟩
  | some community =>
    cases opened : t.openRequest community.id with
    | true =>
      simp only [opened, if_true]
      exact Or.inl ⟨_, rfl⟩
    | false =>
      cases taken : t.requests.get id with
      | some old =>
        simp only [opened, Option.isSome_some, if_true, Bool.false_eq_true, if_false]
        exact Or.inl ⟨_, rfl⟩
      | none =>
        simp only [opened, Option.isSome_none, Bool.false_eq_true, if_false]
        exact Or.inr ⟨{ id, communityId := community.id, requestedBy, nextAttemptAt := now }, rfl, rfl,
          rfl, trivial, opened, rfl, rfl⟩

theorem submit_sound {communityHost requestedBy : String} {id : Uuid}
    (is : calls i = .submit communityHost requestedBy id) :
    Sound calls strict i now .request (submit now communityHost requestedBy id) [] Held.none t := by
  refine sound_ask fun t₁ moved _ => ?_
  rcases exec_insertRequest communityHost requestedBy id (postgres.view t₁ []) with
    ⟨reply, same⟩ | ⟨row, sameId, submitted, fresh, unused, alone, free, same⟩
  · rw [same]
    refine sound_accepted fun row _ => ?_
    cases row with
    | none => exact sound_throw
    | some r =>
      refine sound_commitNothing (fun _ => rfl) (fun _ => rfl) (fun _ => rfl) (fun _ => rfl) ?_
      intro t' rest _ _ clock _
      rw [is]
      exact ⟨nofun, trivial⟩
  · rw [same, free]
    refine sound_pure fun t₂ moved₂ _ clock _ => ?_
    rw [is]
    refine ⟨Writes.ofRequests ?_ rfl rfl rfl, nofun, trivial⟩
    have vacant : t₂.requests.get id = none :=
      (moved₂.requestRow id (Or.inl (by simp))).trans unused
    have found (id' : Uuid) : (t₂.requests.put row).get id' =
        if id = id' then some row else t₂.requests.get id' := by
      rw [Keyed.get_put, sameId]
    have isNew (id' : Uuid) (r' : DeletionRequest) (old : t₂.requests.get id' = none)
        (new : (t₂.requests.put row).get id' = some r') : id = id' ∧ r' = row := by
      rw [found] at new
      split at new
      next here => exact ⟨here, (Option.some.inj new).symm⟩
      next =>
        rw [old] at new
        cases new
    have isOld (id' : Uuid) (r : DeletionRequest) (stored : t₂.requests.get id' = some r) :
        (t₂.requests.put row).get id' = some r := by
      rw [found, if_neg, stored]
      rintro rfl
      rw [vacant] at stored
      cases stored
    refine ⟨fun id' r stored => ⟨r, isOld id' r stored, Or.inl rfl⟩, ?_, ?_, ?_⟩
    · intro id' r' old new
      obtain ⟨rfl, rfl⟩ := isNew id' r' old new
      refine ⟨Or.inl (by simp), Or.inl (by simp), submitted, fresh, ?_⟩
      intro id' r stored community isOpen
      -- an open request of the community would have been there when the row was inserted
      obtain ⟨old, stored, community, isOpen⟩ :=
        moved₂.activeRequest r'.communityId (Or.inl (by simp)) id' r stored community isOpen
      exact List.any_eq_false.mp alone old (Keyed.mem_of_get stored)
        (decide_eq_true ⟨community, isOpen⟩)
    · intro id' id'' r r' old old' new new'
      exact (isNew id' r old new).1.symm.trans (isNew id'' r' old' new').1
    · intro id' r r' stored new past
      have same := (isOld id' r stored).symm.trans new
      exact Or.inl (Option.some.inj same ▸ past)

private theorem exec_insertApproval (row : DeletionApproval) (t : Tables) :
    exec (.insertApproval row) t = (.error .sqlx, []) ∨ t.approvals.get row.requestId = none ∧
      exec (.insertApproval row) t = (.ok (), [.approval row]) := by
  simp only [exec]
  cases taken : t.approvals.get row.requestId with
  | some old => exact Or.inl rfl
  | none => exact Or.inr ⟨rfl, rfl⟩

theorem approve_sound {requestId : Uuid} {approvedBy : String}
    (is : calls i = .approve requestId approvedBy) :
    Sound calls strict i now .request (approve hashes now requestId approvedBy) [] Held.none t := by
  refine sound_lockRequest ?_ fun _ _ _ => sound_throw
  intro t₁ r _ _ stored holds
  obtain ⟨inventoried, _⟩ := of_decide_eq_true holds
  refine sound_found fun r' same => ?_
  obtain rfl := Option.some.inj same
  refine sound_found fun inventory _ => sound_found fun digest exact_ => sound_guard fun _ => ?_
  refine sound_ask fun t₂ moved₂ _ => ?_
  rcases exec_insertApproval ⟨requestId, r.communityId, digest, approvedBy⟩ (postgres.view t₂ []) with
    same | ⟨unused, same⟩
  · rw [same]
    exact sound_throw
  rw [same]
  refine sound_updateRequest ?_ fun _ _ _ _ => sound_throw
  intro t₃ r₃ moved₃ _ stored₃ _
  have sameRow : r₃ = r := by
    have kept := (moved₃.requestRow requestId (Or.inr take_here)).trans
      ((moved₂.requestRow requestId take_here).trans stored)
    exact Option.some.inj (stored₃.symm.trans kept)
  subst sameRow
  refine sound_pure fun t₄ moved₄ _ clock _ => ?_
  have stored₄ : t₄.requests.get requestId = some r₃ :=
    (moved₄.requestRow requestId take_here).trans stored₃
  have unused₄ : t₄.approvals.get requestId = none :=
    (moved₄.approval requestId take_here).trans
      ((moved₃.approval requestId (Or.inr take_here)).trans unused)
  have sameId := Keyed.key_of_get stored
  rw [is]
  refine ⟨⟨RequestWrites.put rfl stored₄ rfl take_here ?_ ?_, ?_, ?_, ?_⟩, nofun, trivial⟩
  · refine requestStep_of_next rfl ?_ (fun _ => rfl) rfl ⟨rfl, rfl⟩ (Or.inl ?_) id
    · rw [inventoried]
      rfl
    · rw [inventoried]
      decide
  · intro _
    refine Or.inr ?_
    change ((t₄.approvals.put _).get r₃.id).any _ = true
    rw [Keyed.get_put, if_pos sameId.symm]
    exact decide_eq_true ⟨rfl, exact_⟩
  · exact fun _ => Or.inl rfl
  · intro id
    change (t₄.approvals.put _).get id = _ ∨ _
    rw [Keyed.get_put]
    split
    next here => exact Or.inr ⟨here ▸ take_here, here ▸ unused₄⟩
    next => exact Or.inl rfl
  · exact fun _ => Or.inl rfl

theorem unblock_sound {requestId : Uuid} {unblockedBy reason : String} {unit : Uuid} {utcNow : Int}
    (is : calls i = .unblock requestId unblockedBy reason unit utcNow) :
    Sound calls strict i now .request (unblock now utcNow requestId unblockedBy reason unit) []
      Held.none t := by
  refine sound_guard fun _ => ?_
  refine sound_lockRequest ?_ fun _ _ _ => sound_throw
  intro t₁ r _ _ _ _
  refine sound_found fun _ _ => ?_
  refine sound_guard fun _ => ?_
  refine sound_guard fun _ => ?_
  refine sound_checkpoint fun t₂ _ _ => ?_
  refine sound_updateRequest ?_ fun _ _ _ _ => sound_throw
  intro t₃ r' _ _ stored _
  refine sound_commitKept take_here stored (fun _ => rfl) rfl (fun _ => rfl) (fun _ => rfl)
    (fun _ => rfl) ?_ rfl rfl rfl rfl ⟨rfl, rfl⟩ (fun _ => rfl) ?_ ?_
  · rw [is]
    exact fun _ _ => id
  · rw [is]
    exact nofun
  · intro v v' clock _
    rw [is]
    trivial

theorem blockPreclaimSetup_sound {requestId : Uuid} {unitKey error : String} {utcNow : Int}
    (is : calls i = .blockPreclaimSetup requestId unitKey error utcNow) :
    Sound calls strict i now .request (blockPreclaimSetup now utcNow requestId unitKey error) []
      Held.none t := by
  refine sound_lockRequest ?_ fun _ _ _ => sound_throw
  intro t₁ r _ _ _ _
  refine sound_found fun _ _ => sound_guard fun _ => sound_guard fun _ => ?_
  refine sound_checkpoint fun t₂ _ _ => sound_updateRequest ?_ fun _ _ _ _ => sound_throw
  intro t₃ r' _ consistent stored _
  refine sound_commitKept take_here stored (fun _ => rfl) rfl (fun _ => rfl) (fun _ => rfl)
    (fun _ => rfl) ?_ rfl rfl rfl rfl ⟨rfl, rfl⟩ (consistent.unowned requestId r' stored) ?_ ?_
  · rw [is]
    exact fun _ _ => id
  · rw [is]
    exact nofun
  · intro v v' clock _
    rw [is]
    trivial

private theorem generation_of_next {generation next : Nat} (same : nextGeneration generation = some next) :
    next = generation + 1 := by
  unfold nextGeneration at same
  split at same
  next => exact (Option.some.inj same).symm
  next => cases same

theorem abort_sound {requestId : Uuid} {abortedBy reason : String} {unit : Uuid}
    (is : calls i = .abort requestId abortedBy reason unit) :
    Sound calls strict i now .request (abort now requestId abortedBy reason unit) [] Held.none t := by
  refine sound_guard fun _ => ?_
  refine sound_read (fun _ => rfl) (fun _ => rfl) fun t₁ _ _ => ?_
  refine sound_found fun seen _ => ?_
  refine sound_advisoryLock fun t₂ _ _ => ?_
  refine sound_lockRequest ?_ fun _ _ _ => sound_throw
  intro t₃ r _ _ stored _
  refine sound_found fun r' same => ?_
  obtain rfl := Option.some.inj same
  refine sound_guard fun here => ?_
  refine sound_guard fun stage => ?_
  refine sound_countServingLeases fun t₄ moved₄ _ => ?_
  refine sound_guard fun _ => ?_
  refine sound_lockCommunity ?_ fun _ => sound_throw
  intro t₅ row moved₅ _ community
  refine sound_found fun row' same => ?_
  obtain rfl := Option.some.inj same
  refine sound_found fun newGeneration next => ?_
  refine sound_updateCommunity ?_ fun _ => sound_throw
  intro t₆ row₆ moved₆ _ community₆ _
  refine sound_guard fun _ => ?_
  refine sound_checkpoint fun t₇ moved₇ _ => ?_
  refine sound_updateRequest ?_ fun _ _ _ _ => sound_throw
  intro t₈ r₈ moved₈ _ stored₈ _
  have sameId : r.id = requestId := Keyed.key_of_get stored
  -- the request and the community are locked from the moment they are read
  have sameRow : r₈ = r := by
    have kept : t₈.requests.get requestId = some r := by
      rw [moved₈.requestRow requestId (Or.inr (Or.inr take_here)),
        moved₇.requestRow requestId (Or.inr (Or.inr take_here)),
        moved₆.requestRow requestId (Or.inr take_here),
        moved₅.requestRow requestId take_here, moved₄.requestRow requestId take_here]
      exact stored
    rw [sameId] at stored₈
    exact Option.some.inj (stored₈.symm.trans kept)
  have sameCommunity : row₆ = row :=
    Option.some.inj (community₆.symm.trans ((moved₆.community _ take_here).trans community))
  subst sameRow
  subst sameCommunity
  refine sound_pure fun t₉ moved₉ _ clock _ => ?_
  have stored₉ : t₉.requests.get requestId = some r₈ := by
    rw [← sameId, moved₉.requestRow _ take_here]
    exact stored₈
  have community₉ : t₉.communities.get r₈.communityId = some row₆ := by
    rw [moved₉.community _ (Or.inr take_here), moved₈.community _ take_here,
      moved₇.community _ take_here]
    exact community₆
  have advisory : (((((Held.none.take [(Lock.advisory seen.communityId, Mode.exclusive)]).take
      [(.request requestId, .exclusive)]).take [(.community r₈.communityId, .exclusive)]).take
      [(.community r₈.communityId, .exclusive)]).take [(.request r₈.id, .exclusive)])
      (.advisory r₈.communityId) .exclusive := by
    rw [here]
    exact Or.inr (Or.inr (Or.inr (Or.inr take_here)))
  have disturbed : (Call.abort requestId abortedBy reason unit).disturbs t₉ r₈.communityId :=
    ⟨r₈, stored₉, rfl⟩
  rw [is]
  refine ⟨Writes.ofCommunity (RequestWrites.put rfl stored₉ rfl (sameId ▸ take_here) ?_ ?_) rfl
      community₉ rfl (Or.inr take_here) ?_ rfl rfl, nofun,
    r₈, { r₈ with
      stage := .aborted
      fenceGeneration := some newGeneration
      leaseOwner := none
      leaseUntil := none
      leaseGeneration := r₈.leaseGeneration + 1
      blockedAt := none
      retryCount := 0
      retryStage := none
      nextAttemptAt := now }, row₆, { row₆ with
      deletionState := .active
      deletionFenceGeneration := newGeneration
      archivedAt := if r₈.quiescingStartedAt.isSome then r₈.preQuiesceArchivedAt
        else row₆.archivedAt }, ?_⟩
  · exact
      { communityId := rfl
        stage := Or.inr (Or.inr ⟨stage, rfl⟩)
        digest := fun _ => rfl
        unowned := fun _ => rfl
        generation := Or.inr ⟨rfl, Nat.le_succ _⟩
        quiescing := Or.inr disturbed
        approved := Or.inr advisory
        disturbing := fun _ => advisory }
  · intro _
    rcases stage with same | same
    · exact Or.inl (by rw [same]; rfl)
    · exact Or.inl (by rw [same]; rfl)
  · exact
      { generation := by
          rw [generation_of_next next]
          exact Nat.le_succ _
        ordered := Or.inl advisory
        active := fun _ => Or.inr disturbed }
  · exact
      { request := stored₉
        isOpen := by
          intro aborted
          rcases stage with same | same
          · exact absurd (aborted.symm.trans same) (by decide)
          · exact absurd (aborted.symm.trans same) (by decide)
        community := community₉
        request' := by
          change (t₉.requests.put _).get requestId = _
          rw [Keyed.get_put, if_pos sameId]
        aborted := rfl
        community' := by
          change (t₉.communities.put _).get r₈.communityId = _
          rw [Keyed.get_put, if_pos (Keyed.key_of_get community₉)]
        active := rfl
        generation := generation_of_next next
        archived := rfl
        others := fun id other => by
          change (t₉.requests.put _).get id = _
          exact Keyed.get_put_of_ne fun same => other (same.symm.trans sameId) }

/-! ### Claims -/

theorem claim_sound {requestId : Uuid} {owner : String} {leaseSeconds : Nat}
    {catalog : Except String Unit} (is : calls i = .claim requestId owner leaseSeconds catalog) :
    Sound calls strict i now .claimed (claim now requestId owner leaseSeconds catalog) [] Held.none
      t := by
  refine sound_lockRequest ?_ ?_
  · intro t₁ r _ _ stored holds
    obtain ⟨_, runnable, _⟩ := of_decide_eq_true holds
    have sameId : r.id = requestId := Keyed.key_of_get stored
    have notAborted : r.stage ≠ .aborted := by
      intro aborted
      rw [aborted] at runnable
      cases runnable
    cases catalog with
    | error text =>
      refine sound_checkpoint fun t₂ moved₂ _ => ?_
      refine sound_updateRequest ?_ ?_
      · intro t₃ r₃ moved₃ _ stored₃ _
        refine sound_commitKept take_here stored₃ (fun _ => rfl) rfl (fun _ => rfl) (fun _ => rfl)
          (fun _ => rfl) ?_ rfl rfl rfl rfl ⟨rfl, rfl⟩ (fun _ => rfl) ?_ ?_
        · rw [is]
          exact fun _ _ => id
        · rw [is]
          exact nofun
        · intro v v' clock _
          rw [is]
          exact nofun
      · intro t₃ _ _ _
        refine sound_commitNothing (fun _ => rfl) (fun _ => rfl) (fun _ => rfl) (fun _ => rfl) ?_
        intro t' rest _ _ clock _
        rw [is]
        exact ⟨nofun, nofun⟩
    | ok _ =>
      refine sound_assoc (sound_updateRequest ?_ fun _ _ _ _ => sound_throw)
      intro t₂ r₂ moved₂ _ stored₂ _
      have sameRow : r₂ = r := by
        have kept := (moved₂.requestRow requestId take_here).trans stored
        rw [sameId] at stored₂
        exact Option.some.inj (stored₂.symm.trans kept)
      subst sameRow
      refine sound_commitRequest take_here stored₂ (fun _ => rfl) rfl (fun _ => rfl) (fun _ => rfl)
        (fun _ => rfl) ?_ ?_ (fun past => past) ?_ ?_
      · rw [is]
        exact fun _ _ => id
      · intro disturbed apart
        rw [is]
        exact
          { communityId := rfl
            stage := Or.inl rfl
            digest := fun _ => rfl
            unowned := fun aborted => absurd aborted notAborted
            generation := Or.inr ⟨rfl, Nat.le_succ _⟩
            quiescing := Or.inl ⟨⟨rfl, rfl⟩, fun isOpen => isOpen⟩
            approved := Or.inl fun approved => approved
            disturbing := fun disturbed => absurd disturbed apart }
      · rw [is]
        exact nofun
      · intro v v' clock written
        rw [is]
        intro lease same
        cases same
        exact ⟨_, written, rfl⟩
  · intro t₁ _ _
    refine sound_commitNothing (fun _ => rfl) (fun _ => rfl) (fun _ => rfl) (fun _ => rfl) ?_
    intro t' rest _ _ clock _
    rw [is]
    exact ⟨nofun, nofun⟩

theorem verifyExecutionToken_sound {token : LeaseToken} {stage : DeletionStage}
    (is : calls i = .verifyExecutionToken token stage) :
    Sound calls strict i now (fun _ => .unit) (verifyExecutionToken now token stage) [] Held.none t := by
  have verified {t : Tables} {held : Held Lock} :
      Sound calls strict i now (fun _ => .unit) (pure () : Tx Unit) [] held t := by
    refine sound_commitNothing (fun _ => rfl) (fun _ => rfl) (fun _ => rfl) (fun _ => rfl) ?_
    intro t' rest _ _ clock _
    rw [is]
    exact ⟨fun _ _ _ => Or.inl rfl, trivial⟩
  unfold verifyExecutionToken
  cases token.fenceGeneration with
  | none => exact sound_last (sound_verifyLease fun _ _ _ _ _ => verified)
  | some generation => exact sound_last (sound_verifyLeaseAndFence fun _ _ _ _ _ => verified)

theorem heartbeat_sound {token : LeaseToken} {leaseSeconds : Nat}
    (is : calls i = .heartbeat token leaseSeconds) :
    Sound calls strict i now (fun _ => .unit) (heartbeat now token leaseSeconds) [] Held.none t := by
  refine sound_updateRequest ?_ fun _ _ _ _ => sound_throw
  intro t₁ r _ consistent stored holds
  obtain ⟨owner, generation, _, _, runnable, _⟩ := of_decide_eq_true holds
  have notAborted : r.stage ≠ .aborted := by
    intro aborted
    rw [aborted] at runnable
    cases runnable
  refine sound_commitKept take_here stored (fun _ => rfl) rfl (fun _ => rfl) (fun _ => rfl)
    (fun _ => rfl) ?_ rfl rfl rfl rfl ⟨rfl, rfl⟩ (fun aborted => absurd aborted notAborted) ?_ ?_
  · rw [is]
    exact fun _ _ => id
  · rw [is]
    rintro _ ⟨⟩
    exact ⟨rfl, generation, notAborted⟩
  · intro v v' clock _
    rw [is]
    trivial

theorem stopExecutor_sound {token : Option LeaseToken} (is : calls i = .stopExecutor token) :
    Sound calls strict i now (fun _ => .unit) (stopExecutor token) [] Held.none t := by
  have unchanged {t : Tables} {held : Held Lock} :
      Sound calls strict i now (fun _ => .unit) (pure () : Tx Unit) [] held t := by
    refine sound_commitNothing (fun _ => rfl) (fun _ => rfl) (fun _ => rfl) (fun _ => rfl) ?_
    intro t' rest _ _ clock _
    rw [is]
    exact ⟨fun _ _ _ => Or.inl rfl, trivial⟩
  cases token with
  | none => exact unchanged
  | some token =>
    refine sound_updateRequest ?_ fun _ _ _ _ => unchanged
    intro t₁ r _ consistent stored holds
    obtain ⟨owner, generation⟩ := of_decide_eq_true holds
    refine sound_commitKept take_here stored (fun _ => rfl) rfl (fun _ => rfl) (fun _ => rfl)
      (fun _ => rfl) ?_ rfl rfl rfl rfl ⟨rfl, rfl⟩ (fun _ => rfl) ?_ ?_
    · rw [is]
      exact fun _ _ => id
    · rw [is]
      rintro _ ⟨⟩
      refine ⟨rfl, generation, fun aborted => ?_⟩
      rw [consistent.unowned _ r stored aborted] at owner
      cases owner
    · intro v v' clock _
      rw [is]
      trivial

/-! ### Later stages -/

private theorem open_of_next {stage target : DeletionStage} (next : stage.next = some target) :
    stage ≠ .aborted := by
  rintro rfl
  cases next

/-- The end of a transaction that has moved its request to the next stage. -/
private theorem advanced_sound {α : Type} {g : α → Answer} {a : α} {changes : List Change}
    {held : Held Lock} {token : LeaseToken} {source target : DeletionStage} {r r' : DeletionRequest}
    (mine : (calls i).token = some token) (locked : held (.request token.requestId) .exclusive)
    (stored : t.requests.get token.requestId = some r) (next : source.next = some target)
    (advanced : Advanced token source target r r') (later : source ≠ .approved)
    (past : source.past = true)
    (requests : ∀ v, (postgres.view v changes).requests = v.requests.put r')
    (communities : ∀ v, (postgres.view v changes).communities = v.communities)
    (approvals : ∀ v, (postgres.view v changes).approvals = v.approvals)
    (servingLeases : ∀ v, (postgres.view v changes).servingLeases = v.servingLeases)
    (calm : (calls i).calm)
    (effect : ∀ v v' clock, v'.requests.get token.requestId = some r' →
      Effect clock (g a) v v' (calls i)) :
    Sound calls strict i now g (pure a : Tx α) changes held t := by
  refine sound_commitRequest locked stored requests advanced.id communities approvals servingLeases
    calm ?_ ?_ ?_ effect
  · intro disturbed apart
    refine requestStep_of_next advanced.communityId ?_ (fun _ => advanced.digest) advanced.same
      advanced.quiescing (Or.inl ?_) apart
    · rw [advanced.source, advanced.target, next]
    · rw [advanced.source]
      exact later
  · intro _
    rw [advanced.source, past]
  · intro token' mine'
    obtain rfl := Option.some.inj (mine.symm.trans mine')
    refine ⟨rfl, advanced.generation, ?_⟩
    unfold DeletionRequest.isOpen
    rw [advanced.source]
    exact open_of_next next

theorem advanceWithCheckpoint_sound {token : LeaseToken} {source target : DeletionStage}
    {unitKey : String} (mine : (calls i).token = some token) (later : source ≠ .approved)
    (past : source.past = true) (calm : (calls i).calm)
    (effect : ∀ answer v v' clock, Effect clock answer v v' (calls i)) :
    Sound calls strict i now (fun _ => .unit) (advanceWithCheckpoint now token source target unitKey)
      [] Held.none t := by
  refine sound_found fun generation _ => ?_
  refine sound_verifyLeaseAndFence fun _ _ _ _ _ => ?_
  refine sound_advance fun t₁ _ r r' _ _ stored next advanced => ?_
  refine sound_last (sound_checkpoint fun t₂ moved₂ _ => ?_)
  exact advanced_sound mine take_here ((moved₂.requestRow _ take_here).trans stored) next advanced
    later past (fun _ => rfl) (fun _ => rfl) (fun _ => rfl) (fun _ => rfl) calm
    fun _ _ _ _ => effect _ _ _ _

theorem markBindingsRemoved_sound {token : LeaseToken} (is : calls i = .markBindingsRemoved token) :
    Sound calls strict i now (fun _ => .unit) (markBindingsRemoved now token) [] Held.none t := by
  refine advanceWithCheckpoint_sound (by rw [is]; rfl) (by decide) rfl ?_ ?_
  · rw [is]
    exact fun _ _ => id
  · rw [is]
    exact fun _ _ _ _ => trivial

theorem markCachePurged_sound {token : LeaseToken} (is : calls i = .markCachePurged token) :
    Sound calls strict i now (fun _ => .unit) (markCachePurged now token) [] Held.none t := by
  refine advanceWithCheckpoint_sound (by rw [is]; rfl) (by decide) rfl ?_ ?_
  · rw [is]
    exact fun _ _ => id
  · rw [is]
    exact fun _ _ _ _ => trivial

theorem markDrained_sound {token : LeaseToken} (is : calls i = .markDrained token) :
    Sound calls strict i now (fun _ => .unit) (markDrained now token) [] Held.none t := by
  refine sound_found fun generation _ => ?_
  refine sound_verifyLeaseAndFence fun _ _ _ _ _ => ?_
  refine sound_countServingLeases fun _ _ _ => ?_
  refine sound_guard fun _ => ?_
  refine sound_advance fun t₁ _ r r' _ _ stored next advanced => ?_
  refine sound_last (sound_checkpoint fun t₂ moved₂ _ => ?_)
  refine advanced_sound (by rw [is]; rfl) take_here ((moved₂.requestRow _ take_here).trans stored)
    next advanced (by decide) rfl (fun _ => rfl) (fun _ => rfl) (fun _ => rfl) (fun _ => rfl) ?_ ?_
  · rw [is]
    exact fun _ _ => id
  · rw [is]
    exact fun _ _ _ _ => trivial

private theorem exec_deleteChunks (requestId : Uuid) (t : Tables) :
    (∃ reply, exec (.deleteChunks requestId) t = (reply, [])) ∨
      exec (.deleteChunks requestId) t = (.ok (), [.dropChunks requestId]) := by
  simp only [exec]
  split
  next =>
    split
    next => exact Or.inr rfl
    next => exact Or.inl ⟨_, rfl⟩
  next => exact Or.inl ⟨_, rfl⟩

theorem markLogicallyVerified_sound {token : LeaseToken}
    (is : calls i = .markLogicallyVerified token) :
    Sound calls strict i now (fun _ => .unit) (markLogicallyVerified now token) [] Held.none t := by
  refine sound_found fun generation _ => ?_
  refine sound_verifyLeaseAndFence fun _ _ _ _ _ => ?_
  refine sound_advance fun t₁ _ r r' _ _ stored next advanced => ?_
  refine sound_checkpoint fun t₂ moved₂ _ => ?_
  refine sound_ask fun t₃ moved₃ _ => ?_
  have stored₃ : t₃.requests.get token.requestId = some r :=
    (moved₃.requestRow _ take_here).trans ((moved₂.requestRow _ take_here).trans stored)
  have calm : (calls i).calm := by
    rw [is]
    exact fun _ _ => id
  have effect (answer : Answer) (v v' : Tables) (clock : Int) :
      Effect clock answer v v' (calls i) := by
    rw [is]
    trivial
  rcases exec_deleteChunks token.requestId (postgres.view t₃ _) with ⟨reply, same⟩ | same
  · rw [same]
    refine sound_last (sound_accepted fun _ _ => ?_)
    exact advanced_sound (by rw [is]; rfl) (Or.inr take_here) stored₃ next advanced (by decide) rfl
      (fun _ => rfl) (fun _ => rfl) (fun _ => rfl) (fun _ => rfl) calm fun _ _ _ _ => effect _ _ _ _
  · rw [same]
    exact advanced_sound (by rw [is]; rfl) (Or.inr take_here) stored₃ next advanced (by decide) rfl
      (fun _ => rfl) (fun _ => rfl) (fun _ => rfl) (fun _ => rfl) calm fun _ _ _ _ => effect _ _ _ _

theorem markRetentionPending_sound {token : LeaseToken}
    (is : calls i = .markRetentionPending token) :
    Sound calls strict i now (fun _ => .unit) (markRetentionPending now token) [] Held.none t := by
  refine sound_found fun generation _ => ?_
  refine sound_verifyLeaseAndFence fun _ _ _ _ _ => ?_
  refine sound_checkpoint fun t₁ _ _ => ?_
  refine sound_updateRequest ?_ fun _ _ _ _ => sound_throw
  intro t₂ r _ _ stored holds
  obtain ⟨stage, _, same, _⟩ := of_decide_eq_true holds
  have next : DeletionStage.next .logicallyVerified = some .retentionPending := rfl
  refine advanced_sound (by rw [is]; rfl) take_here stored next ?_ (by decide) rfl (fun _ => rfl)
    (fun _ => rfl) (fun _ => rfl) (fun _ => rfl) ?_ ?_
  · exact ⟨rfl, rfl, stage, rfl, rfl, same, rfl, ⟨rfl, rfl⟩⟩
  · rw [is]
    exact fun _ _ => id
  · rw [is]
    exact fun _ _ _ _ => trivial

theorem freezeDestructiveStorageManifest_sound {token : LeaseToken} {manifest : StorageManifest}
    (is : calls i = .freezeDestructiveStorageManifest token manifest) :
    Sound calls strict i now (fun _ => .unit)
      (freezeDestructiveStorageManifest hashes now token manifest) [] Held.none t := by
  refine sound_found fun generation _ => ?_
  refine sound_lockRequest ?_ fun _ _ _ => sound_throw
  intro t₁ _ _ _ _ _
  refine sound_found fun _ _ => ?_
  refine sound_verifyLeaseAndFence fun _ _ _ _ _ => ?_
  refine sound_safely fun _ _ => ?_
  refine sound_read (fun _ => rfl) (fun _ => rfl) fun t₂ _ _ => ?_
  refine sound_safely fun _ _ => ?_
  refine sound_updateRequest ?_ fun _ _ _ _ => sound_throw
  intro t₃ r _ _ stored holds
  obtain ⟨_, generation, stage, _⟩ := of_decide_eq_true holds
  have notAborted : r.stage ≠ .aborted := by
    rw [stage]
    decide
  refine sound_commitKept take_here stored (fun _ => rfl) rfl (fun _ => rfl) (fun _ => rfl)
    (fun _ => rfl) ?_ rfl rfl rfl rfl ⟨rfl, rfl⟩ (fun aborted => absurd aborted notAborted) ?_ ?_
  · rw [is]
    exact fun _ _ => id
  · rw [is]
    rintro _ ⟨⟩
    exact ⟨rfl, generation, notAborted⟩
  · intro v v' clock _
    rw [is]
    trivial

/-! ### Quiescing and fencing -/

private theorem leases_expired {c : CommunityId} {id : Uuid} {lease : ServingWriteLease}
    (drained : (t.activeServingLeases c now).length = 0)
    (stored : t.servingLeases.get id = some lease) (here : lease.communityId = c) :
    lease.leaseUntil < now := by
  by_contra late
  have member : lease ∈ t.activeServingLeases c now :=
    List.mem_filter.mpr ⟨Keyed.mem_of_get stored, decide_eq_true ⟨here, not_lt.mp late⟩⟩
  rw [List.length_eq_zero_iff.mp drained] at member
  cases member

private theorem valid_row {token : LeaseToken} {stage : DeletionStage} {fence : Option Nat}
    (valid : token.valid stage fence now t = true) :
    ∃ r, t.requests.get token.requestId = some r ∧ r.communityId = token.communityId ∧
      r.stage = stage ∧ r.leaseOwner = some token.owner ∧ r.leaseGeneration = token.generation := by
  unfold LeaseToken.valid at valid
  cases stored : t.requests.get token.requestId with
  | none => simp [stored] at valid
  | some r =>
    rw [stored] at valid
    obtain ⟨row, _⟩ := of_decide_eq_true valid
    obtain ⟨community, stage, owner, generation, _⟩ := of_decide_eq_true row
    exact ⟨r, rfl, community, stage, owner, generation⟩

theorem fence_sound {token : LeaseToken} (is : calls i = .fence token) :
    Sound calls strict i now .generation (fence now token) [] Held.none t := by
  refine sound_verifyLease fun t₁ _ _ _ _ => ?_
  refine sound_advisoryLock fun t₂ _ _ => ?_
  refine sound_verifyLease fun t₃ _ _ _ valid => ?_
  obtain ⟨r₃, stored₃, here₃, _⟩ := valid_row valid
  refine sound_countServingLeases fun t₄ moved₄ _ => ?_
  refine sound_guard fun drained => ?_
  refine sound_lockCommunity ?_ fun _ => sound_throw
  intro t₅ row moved₅ _ community
  refine sound_found fun row' same => ?_
  obtain rfl := Option.some.inj same
  refine sound_found fun generation next => ?_
  refine sound_updateCommunity ?_ fun _ => sound_throw
  intro t₆ row₆ moved₆ _ community₆ quiescing
  have quiescing := of_decide_eq_true quiescing
  refine sound_guard fun _ => ?_
  refine sound_advance fun t₇ rest₇ r r' moved₇ _ stored₇ nextStage advanced => ?_
  refine sound_checkpoint fun t₈ moved₈ _ => ?_
  have sameCommunity : row₆ = row :=
    Option.some.inj (community₆.symm.trans ((moved₆.community _ take_here).trans community))
  subst sameCommunity
  refine sound_pure fun t₉ moved₉ _ clock later => ?_
  -- the advisory lock is held from before the second check to the commit
  have since₃ : Rely False (calls i) (.pure (.rollback (.error .sqlx)))
      (Held.none.take [(.advisory token.communityId, .exclusive)]) t₃ t₇ :=
    (moved₄.weaken fun _ _ h => h).trans ((moved₅.weaken fun _ _ h => h).trans
      ((moved₆.weaken fun _ _ h => Or.inr h).trans (moved₇.weaken fun _ _ h => Or.inr (Or.inr h))))
  have since₄ : Rely False (calls i) (.pure (.rollback (.error .sqlx)))
      (Held.none.take [(.advisory token.communityId, .exclusive)]) t₄ t₉ :=
    (moved₅.weaken fun _ _ h => h).trans ((moved₆.weaken fun _ _ h => Or.inr h).trans
      ((moved₇.weaken fun _ _ h => Or.inr (Or.inr h)).trans
        ((moved₈.weaken fun _ _ h => Or.inr (Or.inr (Or.inr h))).trans
          (moved₉.weaken fun _ _ h => Or.inr (Or.inr (Or.inr h))))))
  have here : r.communityId = token.communityId := by
    obtain ⟨r₇, stored, kept, _⟩ := since₃.request _ r₃ stored₃
    obtain rfl := Option.some.inj (stored.symm.trans stored₇)
    exact kept.communityId.trans here₃
  have stored₉ : t₉.requests.get token.requestId = some r := by
    rw [moved₉.requestRow _ take_here, moved₈.requestRow _ take_here]
    exact stored₇
  have community₉ : t₉.communities.get token.communityId = some row₆ := by
    rw [moved₉.community _ (Or.inr take_here), moved₈.community _ (Or.inr take_here),
      moved₇.community _ take_here]
    exact community₆
  rw [is]
  refine ⟨Writes.ofCommunity (RequestWrites.put rfl stored₉ advanced.id take_here ?_ ?_) rfl community₉ rfl
      (Or.inr take_here) ?_ rfl rfl, ?_, ?_, row₆, { row₆ with
        deletionState := .fenced
        deletionFenceGeneration := generation
        archivedAt := row₆.archivedAt.or (some now) }, community₉, ?_, generation_of_next next⟩
  · refine requestStep_of_next advanced.communityId ?_ (fun _ => advanced.digest) advanced.same
      advanced.quiescing (Or.inr ?_) id
    · rw [advanced.source, advanced.target, nextStage]
    · rw [here]
      exact Or.inr (Or.inr (Or.inr take_here))
  · intro _
    refine Or.inl ?_
    rw [advanced.source]
    rfl
  · exact
      { generation := by
          rw [generation_of_next next]
          exact Nat.le_succ _
        ordered := Or.inl (Or.inr (Or.inr (Or.inr take_here)))
        active := nofun }
  · rintro _ ⟨⟩ _
    refine Or.inr ⟨r, stored₉, advanced.generation, ?_⟩
    unfold DeletionRequest.isOpen
    rw [advanced.source]
    decide
  · intro id lease stored same
    have before := since₄.drained id lease stored (same ▸ take_here)
    exact lt_of_lt_of_le (leases_expired drained before same) later
  · change (t₉.communities.put _).get token.communityId = _
    rw [Keyed.get_put]
    exact if_pos (Keyed.key_of_get community₉)

theorem purgePostgres_sound {token : LeaseToken} {catalog : Except String Unit}
    (is : calls i = .purgePostgres token catalog) :
    Sound calls strict i now (fun _ => .unit) (purgePostgres now token catalog) [] Held.none t := by
  refine sound_found fun generation _ => ?_
  refine sound_safely fun _ _ => ?_
  refine sound_verifyLeaseAndFence fun _ _ _ _ _ => ?_
  refine sound_updateCommunity ?_ fun _ => sound_throw
  intro t₁ row _ _ community holds
  obtain ⟨fenced, _⟩ := of_decide_eq_true holds
  refine sound_guard fun _ => ?_
  refine sound_advance fun t₂ _ r r' moved₂ _ stored nextStage advanced => ?_
  refine sound_last (sound_checkpoint fun t₃ moved₃ _ => ?_)
  refine sound_pure fun t₄ moved₄ _ clock _ => ?_
  have stored₄ : t₄.requests.get token.requestId = some r := by
    rw [moved₄.requestRow _ take_here, moved₃.requestRow _ take_here]
    exact stored
  have community₄ : t₄.communities.get token.communityId = some row := by
    rw [moved₄.community _ (Or.inr take_here), moved₃.community _ (Or.inr take_here),
      moved₂.community _ take_here]
    exact community
  rw [is]
  refine ⟨Writes.ofCommunity (RequestWrites.put rfl stored₄ advanced.id take_here ?_ ?_) rfl community₄ rfl
      (Or.inr take_here) ?_ rfl rfl, ?_, trivial⟩
  · refine requestStep_of_next advanced.communityId ?_ (fun _ => advanced.digest) advanced.same
      advanced.quiescing (Or.inl ?_) id
    · rw [advanced.source, advanced.target, nextStage]
    · rw [advanced.source]
      decide
  · intro _
    refine Or.inl ?_
    rw [advanced.source]
    rfl
  · exact ⟨le_refl _, Or.inr ⟨fenced, rfl, rfl⟩, nofun⟩
  · rintro _ ⟨⟩ _
    refine Or.inr ⟨r, stored₄, advanced.generation, ?_⟩
    unfold DeletionRequest.isOpen
    rw [advanced.source]
    decide

/-! ### Mutations that trust their lease -/

private theorem leased_of_valid {token : LeaseToken} {stage : DeletionStage} {fence : Option Nat}
    (consistent : Consistent t) (valid : token.valid stage fence now t = true) :
    ∃ r, Leased token r t := by
  obtain ⟨r, stored, _, _, owner, generation⟩ := valid_row valid
  refine ⟨r, stored, generation, fun aborted => ?_⟩
  rw [consistent.unowned _ r stored aborted] at owner
  cases owner

/-- The end of a mutation that has written chunks and checkpoints only. -/
private theorem trusted_sound {α : Type} {g : α → Answer} {a : α} {changes : List Change}
    {held : Held Lock} {token : LeaseToken} (mine : (calls i).token = some token)
    (trusting : (calls i).trusting = true) (leased : strict → ∃ r, Leased token r t)
    (requests : ∀ v, (postgres.view v changes).requests = v.requests)
    (communities : ∀ v, (postgres.view v changes).communities = v.communities)
    (approvals : ∀ v, (postgres.view v changes).approvals = v.approvals)
    (servingLeases : ∀ v, (postgres.view v changes).servingLeases = v.servingLeases)
    (effect : ∀ v v' clock, Effect clock (g a) v v' (calls i)) :
    Sound calls strict i now g (pure a : Tx α) changes held t := by
  refine sound_commitNothing requests communities approvals servingLeases ?_
  intro t' rest moved _ clock _
  refine ⟨fun token' mine' holds => ?_, effect _ _ _⟩
  obtain rfl := Option.some.inj (mine.symm.trans mine')
  exact Or.inr (moved.leased mine trusting (unchecked_commit _) leased (holds trusting))

theorem clearManifestKeyChunks_sound {token : LeaseToken}
    (is : calls i = .clearManifestKeyChunks token) :
    Sound calls strict i now (fun _ => .unit) (clearManifestKeyChunks now token) [] Held.none t := by
  have mine : (calls i).token = some token := by rw [is]; rfl
  have trusting : (calls i).trusting = true := by rw [is]; rfl
  refine sound_found fun generation _ => ?_
  refine sound_verifyLeaseAndFence fun t₁ _ _ consistent valid => ?_
  refine sound_ask fun t₂ moved _ => ?_
  have leased := moved.leased mine trusting
    (unchecked_ask (quiet_ask rfl fun reply => quiet_accepted reply))
    fun _ => leased_of_valid consistent valid
  have effect (answer : Answer) (v v' : Tables) (clock : Int) :
      Effect clock answer v v' (calls i) := by
    rw [is]
    trivial
  rcases exec_deleteChunks token.requestId (postgres.view t₂ []) with ⟨reply, same⟩ | same
  · rw [same]
    refine sound_last (sound_accepted fun _ _ => ?_)
    exact trusted_sound mine trusting leased (fun _ => rfl) (fun _ => rfl) (fun _ => rfl)
      (fun _ => rfl) fun _ _ _ => effect _ _ _ _
  · rw [same]
    exact trusted_sound mine trusting leased (fun _ => rfl) (fun _ => rfl) (fun _ => rfl)
      (fun _ => rfl) fun _ _ _ => effect _ _ _ _

private theorem exec_insertChunk (row : ManifestKeyChunk) (t : Tables) :
    exec (.insertChunk row) t = (.error .sqlx, []) ∨
      exec (.insertChunk row) t = (.ok (), [.chunk row]) := by
  simp only [exec]
  split
  next => exact Or.inr rfl
  next => exact Or.inl rfl

theorem appendManifestKeyChunk_sound {token : LeaseToken} {chunkNo : Int} {pathPrefix : String}
    {keys : List String} (is : calls i = .appendManifestKeyChunk token chunkNo pathPrefix keys) :
    Sound calls strict i now (fun _ => .unit)
      (appendManifestKeyChunk now token chunkNo pathPrefix keys) [] Held.none t := by
  have mine : (calls i).token = some token := by rw [is]; rfl
  have trusting : (calls i).trusting = true := by rw [is]; rfl
  refine sound_guard fun _ => ?_
  refine sound_found fun generation _ => ?_
  refine sound_verifyLeaseAndFence fun t₁ _ _ consistent valid => ?_
  refine sound_ask fun t₂ moved _ => ?_
  have leased := moved.leased mine trusting
    (unchecked_ask (quiet_ask rfl fun reply => quiet_accepted reply))
    fun _ => leased_of_valid consistent valid
  rcases exec_insertChunk ⟨token.requestId, chunkNo, pathPrefix, keys, none⟩ (postgres.view t₂ [])
    with same | same
  · rw [same]
    exact sound_throw
  · rw [same]
    refine trusted_sound mine trusting leased (fun _ => rfl) (fun _ => rfl) (fun _ => rfl)
      (fun _ => rfl) ?_
    rw [is]
    exact fun _ _ _ => trivial

private theorem exec_stampChunk (requestId : Uuid) (chunkNo now : Int) (t : Tables) :
    exec (.stampChunk requestId chunkNo now) t = (false, []) ∨
      exec (.stampChunk requestId chunkNo now) t = (true, [.stampChunk requestId chunkNo now]) := by
  simp only [exec]
  split
  next => exact Or.inr rfl
  next => exact Or.inl rfl

private theorem apply_stampChunk (v : Tables) (requestId : Uuid) (chunkNo at_ : Int) :
    (apply v (.stampChunk requestId chunkNo at_)).requests = v.requests ∧
      (apply v (.stampChunk requestId chunkNo at_)).communities = v.communities ∧
      (apply v (.stampChunk requestId chunkNo at_)).approvals = v.approvals ∧
      (apply v (.stampChunk requestId chunkNo at_)).servingLeases = v.servingLeases := by
  simp only [apply]
  split
  next => exact ⟨rfl, rfl, rfl, rfl⟩
  next => exact ⟨rfl, rfl, rfl, rfl⟩

theorem markManifestChunkDeleted_sound {token : LeaseToken} {chunkNo : Int}
    (is : calls i = .markManifestChunkDeleted token chunkNo) :
    Sound calls strict i now (fun _ => .unit) (markManifestChunkDeleted now token chunkNo) []
      Held.none t := by
  have mine : (calls i).token = some token := by rw [is]; rfl
  have trusting : (calls i).trusting = true := by rw [is]; rfl
  refine sound_found fun generation _ => ?_
  refine sound_verifyLeaseAndFence fun t₁ _ _ consistent valid => ?_
  refine sound_ask fun t₂ moved₂ _ => ?_
  have leased := moved₂.leased mine trusting
    (unchecked_ask (quiet_ask rfl fun (_ : Bool) => quiet_guard (quiet_last rfl)))
    fun _ => leased_of_valid consistent valid
  rcases exec_stampChunk token.requestId chunkNo now (postgres.view t₂ []) with same | same
  · rw [same]
    exact sound_throw
  · rw [same]
    refine sound_guard fun _ => ?_
    refine sound_last (sound_checkpoint fun t₃ moved₃ _ => ?_)
    have leased := moved₃.leased mine trusting (unchecked_ask (quiet_ask rfl fun _ => quiet_pure ()))
      leased
    have kept (v : Tables) := apply_stampChunk v token.requestId chunkNo now
    refine trusted_sound mine trusting leased (fun v => (kept v).1) (fun v => (kept v).2.1)
      (fun v => (kept v).2.2.1) (fun v => (kept v).2.2.2) ?_
    rw [is]
    exact fun _ _ _ => trivial

private theorem release_sound {changes : List Change} {held : Held Lock} {token : LeaseToken}
    {set : DeletionRequest → DeletionRequest} (mine : (calls i).token = some token)
    (trusting : (calls i).trusting = true) (leased : strict → ∃ r, Leased token r t)
    (calm : (calls i).calm) (effect : ∀ answer v v' clock, Effect clock answer v v' (calls i))
    (requests : ∀ v, (postgres.view v changes).requests = v.requests)
    (communities : ∀ v, (postgres.view v changes).communities = v.communities)
    (approvals : ∀ v, (postgres.view v changes).approvals = v.approvals)
    (servingLeases : ∀ v, (postgres.view v changes).servingLeases = v.servingLeases)
    (sets : ∀ r, (set r).id = r.id ∧ (set r).communityId = r.communityId ∧
      (set r).stage = r.stage ∧ (set r).inventoryDigest = r.inventoryDigest ∧
      (set r).leaseGeneration = r.leaseGeneration ∧ SameQuiescing r (set r) ∧
      (set r).leaseOwner = none) :
    Sound calls strict i now (fun _ => .unit)
      (ask (.updateRequest token.requestId (ownedBy token) set) >>= fun _ => pure ()) changes held t := by
  have appended (v : Tables) (r : DeletionRequest) :
      postgres.view v (changes ++ [Change.request r]) = apply (postgres.view v changes) (.request r) :=
    List.foldl_append
  refine sound_updateRequest ?_ ?_
  · intro t₁ r _ consistent stored holds
    obtain ⟨owner, generation⟩ := of_decide_eq_true holds
    rw [requests] at stored
    obtain ⟨id, community, stage, digest, same, quiescing, free⟩ := sets r
    have notAborted : r.isOpen := by
      intro aborted
      rw [consistent.unowned _ r stored aborted] at owner
      cases owner
    refine sound_commitKept take_here stored (fun v => ?_) id (fun v => ?_) (fun v => ?_)
      (fun v => ?_) calm community stage digest same quiescing (fun _ => free) ?_ ?_
    · rw [appended]
      exact congrArg (·.put (set r)) (requests v)
    · rw [appended]
      exact communities v
    · rw [appended]
      exact approvals v
    · rw [appended]
      exact servingLeases v
    · intro token' mine'
      obtain rfl := Option.some.inj (mine.symm.trans mine')
      exact ⟨rfl, generation, notAborted⟩
    · exact fun _ _ _ _ => effect _ _ _ _
  · intro t₁ moved _ _
    have leased := moved.leased mine trusting (unchecked_ask (quiet_ask rfl fun _ => quiet_pure ()))
      leased
    exact trusted_sound mine trusting leased requests communities approvals servingLeases
      fun _ _ _ => effect _ _ _ _

theorem recordRetry_sound {token : LeaseToken} {stage : DeletionStage} {unitKey error : String}
    {retrySeconds : Nat} (is : calls i = .recordRetry token stage unitKey error retrySeconds) :
    Sound calls strict i now (fun _ => .unit)
      (recordRetry now token stage unitKey error retrySeconds) [] Held.none t := by
  have mine : (calls i).token = some token := by rw [is]; rfl
  have trusting : (calls i).trusting = true := by rw [is]; rfl
  refine sound_verifyLease fun t₁ _ _ consistent valid => ?_
  refine sound_lockRequest ?_ fun _ _ _ => sound_throw
  intro t₂ r moved₂ _ _ _
  have leased := moved₂.leased mine trusting
    (unchecked_ask (quiet_ask rfl fun _ => quiet_found fun _ => quiet_ask rfl fun _ =>
      quiet_ask rfl fun _ => quiet_pure ()))
    fun _ => leased_of_valid consistent valid
  refine sound_found fun _ _ => ?_
  refine sound_checkpoint fun t₃ moved₃ _ => ?_
  have leased := moved₃.leased mine trusting
    (unchecked_ask (quiet_ask rfl fun _ => quiet_ask rfl fun _ => quiet_pure ())) leased
  refine release_sound mine trusting leased ?_ ?_ (fun _ => rfl) (fun _ => rfl) (fun _ => rfl)
    (fun _ => rfl) fun r => ⟨rfl, rfl, rfl, rfl, rfl, ⟨rfl, rfl⟩, rfl⟩
  · rw [is]
    exact fun _ _ => id
  · rw [is]
    exact fun _ _ _ _ => trivial

theorem block_sound {token : LeaseToken} {stage : DeletionStage} {unitKey error : String}
    (is : calls i = .block token stage unitKey error) :
    Sound calls strict i now (fun _ => .unit) (block now token stage unitKey error) [] Held.none t := by
  have mine : (calls i).token = some token := by rw [is]; rfl
  have trusting : (calls i).trusting = true := by rw [is]; rfl
  refine sound_verifyLease fun t₁ _ _ consistent valid => ?_
  refine sound_checkpoint fun t₂ moved₂ _ => ?_
  have leased := moved₂.leased mine trusting
    (unchecked_ask (quiet_ask rfl fun _ => quiet_ask rfl fun _ => quiet_pure ()))
    fun _ => leased_of_valid consistent valid
  refine release_sound mine trusting leased ?_ ?_ (fun _ => rfl) (fun _ => rfl) (fun _ => rfl)
    (fun _ => rfl) fun r => ⟨rfl, rfl, rfl, rfl, rfl, ⟨rfl, rfl⟩, rfl⟩
  · rw [is]
    exact fun _ _ => id
  · rw [is]
    exact fun _ _ _ _ => trivial

/-! ### Quiescing -/

/-- The row that `begin_quiescing` writes when the request has not begun yet. -/
private def begun (now : Int) (row : Community) (r : DeletionRequest) : DeletionRequest :=
  { r with
    preQuiesceArchivedAt := row.archivedAt
    quiescingStartedAt := some now }

/-- The community row that it writes. -/
private def entered (now : Int) (row : Community) : Community :=
  { row with
    deletionState := .quiescing
    archivedAt := row.archivedAt.or (some now) }

/-- `begin_quiescing` from its write of the community on. -/
private theorem enter_sound {token : LeaseToken} {changes : List Change} {held : Held Lock}
    {r : DeletionRequest} {row : Community} (is : calls i = .beginQuiescing token)
    (advisory : held (.advisory token.communityId) .exclusive)
    (locked : held (.community token.communityId) .exclusive)
    (leased : strict → ∃ r, Leased token r t)
    (community : t.communities.get token.communityId = some row)
    (stored : t.requests.get token.requestId = some r) (here : r.communityId = token.communityId)
    (stage : r.stage = .approved)
    (write : changes = [] ∧ r.quiescingStartedAt.isSome = true ∨
      changes = [.request (begun now row r)] ∧ r.quiescingStartedAt = none ∧
        held (.request token.requestId) .exclusive) :
    Sound calls strict i now (fun _ => .unit) (do
      let entered : Bool ← ask (.updateCommunity token.communityId
        (fun community => (community.deletionState = .active ∨
          community.deletionState = .quiescing) ∧ community.deletedAt = none)
        (fun community => { community with
          deletionState := .quiescing
          archivedAt := community.archivedAt.or (some now) }))
      Task.guard (entered = true) (.deletionSafety
        ("community " ++ token.communityId.uuid.toString ++ " cannot enter quiescing"))
      checkpointCompletedTx token .approved "quiesce_serving_writes") changes held t := by
  have mine : (calls i).token = some token := by rw [is]; rfl
  have trusting : (calls i).trusting = true := by rw [is]; rfl
  refine sound_updateCommunity ?_ fun _ => sound_throw
  intro t₁ row₁ moved₁ _ community₁ _
  have leased := moved₁.leased mine trusting
    (unchecked_ask (quiet_ask rfl fun (_ : Bool) => quiet_guard (quiet_last rfl))) leased
  refine sound_guard fun _ => ?_
  refine sound_last (sound_checkpoint fun t₂ moved₂ _ => ?_)
  have leased := moved₂.leased mine trusting (unchecked_ask (quiet_ask rfl fun _ => quiet_pure ()))
    leased
  refine sound_pure fun t₃ moved₃ _ clock _ => ?_
  have leased := moved₃.leased mine trusting (unchecked_commit _) leased
  have since : Rely False (calls i) (.pure (.rollback (.error .sqlx))) held t t₃ :=
    (moved₁.weaken fun _ _ h => h).trans ((moved₂.weaken fun _ _ h => Or.inr h).trans
      (moved₃.weaken fun _ _ h => Or.inr h))
  have community₃ := (since.community _ locked).trans community
  have sameRow : row₁ = row := by
    have kept := (moved₁.community _ locked).trans community
    have seen : t₁.communities.get token.communityId = some row₁ := by
      rcases write with ⟨rfl, _⟩ | ⟨rfl, _⟩
      · exact community₁
      · exact community₁
    exact Option.some.inj (seen.symm.trans kept)
  subst sameRow
  obtain ⟨r₃, stored₃, later, ordered⟩ := since.request _ r stored
  obtain ⟨same, approved⟩ := ordered (here ▸ advisory)
  have here₃ : r₃.communityId = token.communityId := later.communityId.trans here
  have approved := approved stage
  have isOpen : r₃.isOpen := by
    unfold DeletionRequest.isOpen
    rw [approved]
    decide
  rw [is]
  have disturbed : (Call.beginQuiescing token).disturbs t₃ token.communityId := rfl
  have communityStep : CommunityStep ((held.take [(.community token.communityId, .exclusive)])
      (.advisory token.communityId) .exclusive)
      ((Call.beginQuiescing token).disturbs t₃ token.communityId) row₁ (entered now row₁) :=
    ⟨le_refl _, Or.inl (Or.inr advisory), nofun⟩
  rcases write with ⟨rfl, started⟩ | ⟨rfl, fresh, lockedRow⟩
  · refine ⟨Writes.ofCommunity (RequestWrites.same rfl) rfl community₃ rfl take_here communityStep rfl
      rfl, ?_, r₃, r₃, row₁, entered now row₁, ?_⟩
    · rintro _ ⟨⟩ holds
      exact Or.inr (leased (holds rfl))
    · have started₃ : r₃.quiescingStartedAt.isSome = true := by rw [same.started, started]
      refine ⟨stored₃, here₃, isOpen, community₃, stored₃, here₃, isOpen, ?_, rfl, started₃, ?_,
        fun _ _ => rfl⟩
      · change (t₃.communities.put _).get token.communityId = _
        rw [Keyed.get_put]
        exact if_pos (Keyed.key_of_get community₃)
      · rw [if_pos started₃]
  · have sameRow : r₃ = r := by
      have kept := (since.requestRow _ lockedRow).trans stored
      exact Option.some.inj (stored₃.symm.trans kept)
    subst sameRow
    have written : (t₃.requests.put (begun now row₁ r₃)).get token.requestId =
        some (begun now row₁ r₃) := by
      rw [Keyed.get_put]
      exact if_pos (Keyed.key_of_get stored₃)
    refine ⟨Writes.ofCommunity (RequestWrites.put rfl stored₃ rfl
      (Or.inr lockedRow) ?_ ?_) rfl community₃ rfl take_here communityStep rfl rfl, ?_, r₃,
      begun now row₁ r₃, row₁, entered now row₁, ?_⟩
    · exact
        { communityId := rfl
          stage := Or.inl rfl
          digest := fun _ => rfl
          unowned := fun aborted => absurd aborted isOpen
          generation := Or.inl ⟨rfl, fun isOpen => isOpen⟩
          quiescing := Or.inr here₃
          approved := Or.inl fun approved => approved
          disturbing := fun _ => Or.inr (here₃ ▸ advisory) }
    · exact fun past => Or.inl past
    · rintro _ ⟨⟩ holds
      exact Or.inr (leased (holds rfl))
    · refine ⟨stored₃, here₃, isOpen, community₃, written, here₃, isOpen, ?_, rfl, rfl, ?_, ?_⟩
      · change (t₃.communities.put _).get token.communityId = _
        rw [Keyed.get_put]
        exact if_pos (Keyed.key_of_get community₃)
      · rw [fresh]
        rfl
      · intro id other
        have sameId : r₃.id = token.requestId := Keyed.key_of_get stored₃
        change (t₃.requests.put (begun now row₁ r₃)).get id = _
        exact Keyed.get_put_of_ne fun same => other (same.symm.trans sameId)

theorem beginQuiescing_sound {token : LeaseToken} (is : calls i = .beginQuiescing token) :
    Sound calls strict i now (fun _ => .unit) (beginQuiescing now token) [] Held.none t := by
  have mine : (calls i).token = some token := by rw [is]; rfl
  have trusting : (calls i).trusting = true := by rw [is]; rfl
  refine sound_verifyLease fun t₁ _ _ _ _ => ?_
  refine sound_advisoryLock fun t₂ _ _ => ?_
  refine sound_verifyLease fun t₃ _ _ consistent valid => ?_
  obtain ⟨r₃, stored₃, here₃, stage₃, _⟩ := valid_row valid
  refine sound_lockCommunity ?_ fun _ => sound_throw
  intro t₄ row moved₄ _ community
  have leased := moved₄.leased mine trusting
    (unchecked_ask (quiet_ask rfl fun _ => quiet_found fun _ => quiet_ask rfl fun _ =>
      quiet_ask rfl fun (_ : Bool) => quiet_guard (quiet_last rfl)))
    fun _ => leased_of_valid consistent valid
  refine sound_found fun row' same => ?_
  obtain rfl := Option.some.inj same
  -- the request is as the second check has seen it, as far as quiescing goes
  have kept (t' : Tables) (rest : Program)
      (moved : Rely strict (calls i) rest
        ((Held.none.take [(.advisory token.communityId, .exclusive)]).take
          [(.community token.communityId, .exclusive)]) t₄ t') :
      ∃ r, t'.requests.get token.requestId = some r ∧ r.communityId = token.communityId ∧
        r.stage = .approved := by
    have since : Rely False (calls i) (.pure (.rollback (.error .sqlx)))
        (Held.none.take [(.advisory token.communityId, .exclusive)]) t₃ t' :=
      (moved₄.weaken fun _ _ h => h).trans (moved.weaken fun _ _ h => Or.inr h)
    obtain ⟨r, stored, later, ordered⟩ := since.request _ r₃ stored₃
    exact ⟨r, stored, later.communityId.trans here₃, (ordered (here₃ ▸ take_here)).2 stage₃⟩
  refine sound_updateRequest ?_ ?_
  · intro t₅ r moved₅ _ stored fresh
    have leased := moved₅.leased mine trusting
      (unchecked_ask (quiet_ask rfl fun _ => quiet_ask rfl fun (_ : Bool) =>
        quiet_guard (quiet_last rfl))) leased
    obtain ⟨r', stored', here, stage⟩ := kept t₅ _ moved₅
    obtain rfl := Option.some.inj (stored.symm.trans stored')
    exact enter_sound is (Or.inr (Or.inr take_here)) (Or.inr take_here) leased
      ((moved₅.community _ take_here).trans community) stored here stage
      (Or.inr ⟨rfl, of_decide_eq_true fresh, take_here⟩)
  · intro t₅ moved₅ _ started
    have leased := moved₅.leased mine trusting
      (unchecked_ask (quiet_ask rfl fun _ => quiet_ask rfl fun (_ : Bool) =>
        quiet_guard (quiet_last rfl))) leased
    obtain ⟨r, stored, here, stage⟩ := kept t₅ _ moved₅
    refine enter_sound is (Or.inr take_here) take_here leased
      ((moved₅.community _ take_here).trans community) stored here stage (Or.inl ⟨rfl, ?_⟩)
    exact Option.ne_none_iff_isSome.mp (of_decide_eq_false (started r stored))

/-! ### Serving write leases -/

/-- Under its advisory lock an active or quiescing community stays as it is. -/
private theorem community_kept {rest : Program} {held : Held Lock} {t' : Tables} {c : CommunityId}
    {mode : Mode} {row : Community} (moved : Rely strict (calls i) rest held t t')
    (advisory : held (.advisory c) mode) (stored : t.communities.get c = some row)
    (serving : row.deletionState ≠ .fenced) : t'.communities.get c = some row := by
  rcases moved.advisory c mode advisory with same | ⟨row', _, stored', _, buried⟩
  · rw [same, stored]
  · obtain rfl := Option.some.inj (stored.symm.trans stored')
    exact absurd buried.fenced serving

theorem guardTransaction_sound {c : CommunityId} (is : calls i = .guardTransaction c) :
    Sound calls strict i now (fun _ => .unit) (guardTransaction c) [] Held.none t := by
  refine sound_advisoryLock fun t₁ _ _ => ?_
  refine sound_selectCommunity fun t₂ _ _ => ?_
  refine sound_found fun row found => ?_
  refine sound_last (sound_guard fun active => ?_)
  obtain ⟨stored, _⟩ := Option.filter_eq_some_iff.mp found
  refine sound_commitNothing (fun _ => rfl) (fun _ => rfl) (fun _ => rfl) (fun _ => rfl) ?_
  intro t₃ rest moved _ clock _
  rw [is]
  exact ⟨nofun, row, community_kept moved take_here stored (by rw [active]; decide), active⟩

/-- A lease that is checked under the advisory lock of its community. -/
private theorem admitted_of_current {lease : ServingWriteLease} (current : lease.current now t = true) :
    ∃ row, Admitted lease row t := by
  obtain ⟨_, holds⟩ := Bool.and_eq_true_iff.mp current
  cases stored : t.communities.get lease.communityId with
  | none => simp [stored] at holds
  | some row =>
    rw [stored] at holds
    obtain ⟨_, state, generation⟩ := of_decide_eq_true holds
    exact ⟨row, stored, generation, state⟩

private theorem Admitted.kept {rest : Program} {held : Held Lock} {t' : Tables} {mode : Mode}
    {lease : ServingWriteLease} {row : Community} (admitted : Admitted lease row t)
    (moved : Rely strict (calls i) rest held t t') (advisory : held (.advisory lease.communityId) mode) :
    Admitted lease row t' where
  community := by
    refine community_kept moved advisory admitted.community ?_
    rcases admitted.state with state | state
    · rw [state]
      decide
    · rw [state]
      decide
  generation := admitted.generation
  state := admitted.state

private theorem current_sound {lease : ServingWriteLease} {e : DbError} {held : Held Lock}
    (mine : (calls i).token = none)
    (effect : ∀ answer v v' clock row, Admitted lease row v → Effect clock answer v v' (calls i)) :
    Sound calls strict i now (fun _ => .unit) (do
      ask (.advisoryLock lease.communityId .shared)
      let valid : Bool ← ask (.servingLeaseCurrent lease now)
      Task.guard (valid = true) e) [] held t := by
  refine sound_advisoryLock fun t₁ _ _ => ?_
  refine sound_read (fun _ => rfl) (fun _ => rfl) fun t₂ _ _ => ?_
  generalize current : (exec (.servingLeaseCurrent lease now) (postgres.view t₂ [])).1 = reply
  cases reply with
  | false => exact sound_throw
  | true =>
    obtain ⟨row, admitted⟩ := admitted_of_current current
    refine sound_commitNothing (fun _ => rfl) (fun _ => rfl) (fun _ => rfl) (fun _ => rfl) ?_
    intro t₃ rest moved _ clock _
    refine ⟨fun token has => ?_, effect _ _ _ _ row (admitted.kept moved take_here)⟩
    rw [mine] at has
    cases has

theorem guardTransactionWithServingLease_sound {lease : ServingWriteLease}
    (is : calls i = .guardTransactionWithServingLease lease) :
    Sound calls strict i now (fun _ => .unit) (guardTransactionWithServingLease now lease) []
      Held.none t := by
  refine current_sound (by rw [is]; rfl) fun _ _ _ _ row admitted => ?_
  rw [is]
  exact ⟨row, admitted⟩

theorem verifyServingWriteLease_sound {lease : ServingWriteLease}
    (is : calls i = .verifyServingWriteLease lease) :
    Sound calls strict i now (fun _ => .unit) (verifyServingWriteLease now lease) [] Held.none t := by
  refine current_sound (by rw [is]; rfl) fun _ _ _ _ row admitted => ?_
  rw [is]
  exact ⟨row, admitted⟩

private theorem servingLease_writes {held : Held Lock} {call : Call} {answer : Answer}
    {t' : Tables} (id : Uuid) (requests : t'.requests = t.requests)
    (communities : t'.communities = t.communities) (approvals : t'.approvals = t.approvals)
    (others : ∀ id', id' ≠ id → t'.servingLeases.get id' = t.servingLeases.get id')
    (locked : held (.servingLease id) .exclusive)
    (shared : ∀ lease, t'.servingLeases.get id = some lease →
      held (.advisory lease.communityId) .shared) :
    Writes held call answer t t' where
  toRequestWrites := RequestWrites.same requests
  community c := Or.inl (by rw [communities])
  approval id := Or.inl (by rw [approvals])
  servingLease id' := by
    by_cases here : id' = id
    · subst here
      exact Or.inr ⟨locked, shared⟩
    · exact Or.inl (others id' here)

private theorem exec_insertServingLease (c : CommunityId) (id : Uuid) (operation owner : String)
    (leaseUntil : Int) (t : Tables) :
    (∃ reply, exec (.insertServingLease c id operation owner leaseUntil) t = (reply, []) ∧
      ∀ lease, reply ≠ .ok (some lease)) ∨
    ∃ row, t.communities.get c = some row ∧ row.deletionState = .active ∧
      exec (.insertServingLease c id operation owner leaseUntil) t =
        (.ok (some ⟨id, c, operation, owner, 1, row.deletionFenceGeneration, leaseUntil⟩),
          [.servingLease ⟨id, c, operation, owner, 1, row.deletionFenceGeneration, leaseUntil⟩]) := by
  simp only [exec]
  split
  next =>
    refine Or.inl ⟨_, rfl, ?_⟩
    rintro _ ⟨⟩
  next row matched =>
    obtain ⟨stored, holds⟩ := Option.filter_eq_some_iff.mp matched
    split
    next =>
      refine Or.inl ⟨_, rfl, ?_⟩
      rintro _ ⟨⟩
    next => exact Or.inr ⟨row, stored, (of_decide_eq_true holds).1, rfl⟩

theorem acquireServingWriteLease_sound {c : CommunityId} {operation owner : String}
    {leaseSeconds : Nat} {id : Uuid}
    (is : calls i = .acquireServingWriteLease c operation owner leaseSeconds id) :
    Sound calls strict i now .serving
      (acquireServingWriteLease now c operation owner leaseSeconds id) [] Held.none t := by
  refine sound_assoc (sound_advisoryLock fun t₁ _ _ => ?_)
  refine sound_assoc (sound_selectCommunity fun t₂ _ _ => ?_)
  refine sound_assoc (sound_found fun row found => ?_)
  refine sound_guard fun active => ?_
  refine sound_ask fun t₃ moved₃ _ => ?_
  rcases exec_insertServingLease c id operation owner (after now leaseSeconds) (postgres.view t₃ [])
    with ⟨reply, same, refused⟩ | ⟨row₃, stored₃, active₃, same⟩
  · rw [same]
    cases reply with
    | error e => exact sound_throw
    | ok lease =>
      cases lease with
      | none => exact sound_throw
      | some lease => exact absurd rfl (refused lease)
  · rw [same]
    refine sound_pure fun t₄ moved₄ _ clock _ => ?_
    have stored₄ : t₄.communities.get c = some row₃ :=
      community_kept moved₄ (Or.inr take_here) stored₃ (by rw [active₃]; decide)
    rw [is]
    refine ⟨servingLease_writes id rfl rfl rfl ?_ take_here ?_, nofun,
      ⟨id, c, operation, owner, 1, row₃.deletionFenceGeneration, after now leaseSeconds⟩, row₃, rfl, rfl,
      ⟨stored₄, rfl, Or.inl active₃⟩, active₃⟩
    · intro id' other
      change (t₄.servingLeases.put _).get id' = _
      exact Keyed.get_put_of_ne (Ne.symm other)
    · intro lease written
      change (t₄.servingLeases.put _).get id = _ at written
      rw [Keyed.get_put] at written
      obtain rfl := Option.some.inj ((if_pos rfl).symm.trans written)
      exact Or.inr take_here

private theorem exec_renewServingLease (lease : ServingWriteLease) (now leaseUntil : Int) (t : Tables) :
    exec (.renewServingLease lease now leaseUntil) t = (none, []) ∨
    ∃ row, t.servingLeases.get lease.id = some row ∧ lease.current now t = true ∧
      row.communityId = lease.communityId ∧
      exec (.renewServingLease lease now leaseUntil) t =
        (some leaseUntil, [.servingLease { row with leaseUntil }]) ∧
      locks (.renewServingLease lease now leaseUntil) t = [(.servingLease lease.id, .exclusive)] := by
  simp only [exec, locks]
  split
  next row matched =>
    obtain ⟨stored, current⟩ := Option.filter_eq_some_iff.mp matched
    refine Or.inr ⟨row, stored, current, ?_, rfl, if_pos current⟩
    obtain ⟨same, _⟩ := Bool.and_eq_true_iff.mp current
    rw [stored] at same
    exact (of_decide_eq_true same).1.2.1
  next => exact Or.inl rfl

theorem renewServingWriteLease_sound {lease : ServingWriteLease} {leaseSeconds : Nat}
    (is : calls i = .renewServingWriteLease lease leaseSeconds) :
    Sound calls strict i now .serving (renewServingWriteLease now lease leaseSeconds) [] Held.none
      t := by
  refine sound_advisoryLock fun t₁ _ _ => ?_
  refine sound_ask fun t₂ moved₂ _ => ?_
  rcases exec_renewServingLease lease now (after now leaseSeconds) (postgres.view t₂ [])
    with same | ⟨row, stored, current, here, same, locked⟩
  · rw [same]
    exact sound_throw
  · rw [same, locked]
    obtain ⟨community, admitted⟩ := admitted_of_current current
    refine sound_pure fun t₃ moved₃ _ clock _ => ?_
    have sameId : row.id = lease.id := Keyed.key_of_get stored
    rw [is]
    refine ⟨servingLease_writes lease.id rfl rfl rfl ?_ take_here ?_, nofun, community,
      admitted.kept moved₃ (Or.inr take_here)⟩
    · intro id' other
      change (t₃.servingLeases.put _).get id' = _
      exact Keyed.get_put_of_ne fun same => other (same.symm.trans sameId)
    · intro written' written
      change (t₃.servingLeases.put _).get lease.id = _ at written
      rw [Keyed.get_put] at written
      obtain rfl := Option.some.inj ((if_pos sameId).symm.trans written)
      exact Or.inr (here ▸ take_here)

private theorem exec_deleteServingLease (lease : ServingWriteLease) (t : Tables) :
    exec (.deleteServingLease lease) t = (false, []) ∨
    exec (.deleteServingLease lease) t = (true, [.dropServingLease lease.id]) ∧
      locks (.deleteServingLease lease) t = [(.servingLease lease.id, .exclusive)] := by
  simp only [exec, locks]
  split
  next row matched =>
    obtain ⟨stored, _⟩ := Option.filter_eq_some_iff.mp matched
    rw [matched, Keyed.key_of_get stored]
    exact Or.inr ⟨rfl, rfl⟩
  next => exact Or.inl rfl

theorem releaseServingWriteLease_sound {lease : ServingWriteLease}
    (is : calls i = .releaseServingWriteLease lease) :
    Sound calls strict i now .released (releaseServingWriteLease lease) [] Held.none t := by
  refine sound_last (sound_ask fun t₁ _ _ => ?_)
  rcases exec_deleteServingLease lease (postgres.view t₁ []) with same | ⟨same, locked⟩
  · rw [same]
    refine sound_commitNothing (fun _ => rfl) (fun _ => rfl) (fun _ => rfl) (fun _ => rfl) ?_
    intro t₂ rest _ _ clock _
    rw [is]
    exact ⟨nofun, trivial⟩
  · rw [same, locked]
    refine sound_pure fun t₂ _ _ clock _ => ?_
    rw [is]
    refine ⟨servingLease_writes lease.id rfl rfl rfl ?_ take_here ?_, nofun, trivial⟩
    · intro id' other
      change (t₂.servingLeases.drop _).get id' = _
      rw [Keyed.get_drop]
      cases stored : t₂.servingLeases.get id' with
      | none => rfl
      | some row =>
        have sameId : row.id = id' := Keyed.key_of_get stored
        rw [Option.filter_some, if_pos]
        simp [sameId, other]
    · intro row kept
      change (t₂.servingLeases.drop _).get lease.id = _ at kept
      rw [Keyed.get_drop] at kept
      obtain ⟨stored, other⟩ := Option.filter_eq_some_iff.mp kept
      have sameId : row.id = lease.id := Keyed.key_of_get stored
      simp [sameId] at other

variable (calls strict i now hashes t) in
private theorem call_sound : ∃ (α : Type) (g : α → Answer) (tx : Tx α),
    (calls i).tx hashes now = g <$> tx ∧ Sound calls strict i now g tx [] Held.none t := by
  cases is : calls i with
  | submit => exact ⟨_, _, _, rfl, submit_sound is⟩
  | freezeInventory => exact ⟨_, _, _, rfl, freezeInventory_sound is⟩
  | approve => exact ⟨_, _, _, rfl, approve_sound is⟩
  | abort => exact ⟨_, _, _, rfl, abort_sound is⟩
  | unblock => exact ⟨_, _, _, rfl, unblock_sound is⟩
  | blockPreclaimSetup => exact ⟨_, _, _, rfl, blockPreclaimSetup_sound is⟩
  | claim => exact ⟨_, _, _, rfl, claim_sound is⟩
  | verifyExecutionToken => exact ⟨_, _, _, rfl, verifyExecutionToken_sound is⟩
  | heartbeat => exact ⟨_, _, _, rfl, heartbeat_sound is⟩
  | stopExecutor => exact ⟨_, _, _, rfl, stopExecutor_sound is⟩
  | beginQuiescing => exact ⟨_, _, _, rfl, beginQuiescing_sound is⟩
  | fence => exact ⟨_, _, _, rfl, fence_sound is⟩
  | freezeDestructiveStorageManifest => exact ⟨_, _, _, rfl, freezeDestructiveStorageManifest_sound is⟩
  | clearManifestKeyChunks => exact ⟨_, _, _, rfl, clearManifestKeyChunks_sound is⟩
  | appendManifestKeyChunk => exact ⟨_, _, _, rfl, appendManifestKeyChunk_sound is⟩
  | markManifestChunkDeleted => exact ⟨_, _, _, rfl, markManifestChunkDeleted_sound is⟩
  | markDrained => exact ⟨_, _, _, rfl, markDrained_sound is⟩
  | markBindingsRemoved => exact ⟨_, _, _, rfl, markBindingsRemoved_sound is⟩
  | purgePostgres => exact ⟨_, _, _, rfl, purgePostgres_sound is⟩
  | markCachePurged => exact ⟨_, _, _, rfl, markCachePurged_sound is⟩
  | markLogicallyVerified => exact ⟨_, _, _, rfl, markLogicallyVerified_sound is⟩
  | markRetentionPending => exact ⟨_, _, _, rfl, markRetentionPending_sound is⟩
  | recordRetry => exact ⟨_, _, _, rfl, recordRetry_sound is⟩
  | block => exact ⟨_, _, _, rfl, block_sound is⟩
  | guardTransaction => exact ⟨_, _, _, rfl, guardTransaction_sound is⟩
  | guardTransactionWithServingLease => exact ⟨_, _, _, rfl, guardTransactionWithServingLease_sound is⟩
  | acquireServingWriteLease => exact ⟨_, _, _, rfl, acquireServingWriteLease_sound is⟩
  | renewServingWriteLease => exact ⟨_, _, _, rfl, renewServingWriteLease_sound is⟩
  | releaseServingWriteLease => exact ⟨_, _, _, rfl, releaseServingWriteLease_sound is⟩
  | verifyServingWriteLease => exact ⟨_, _, _, rfl, verifyServingWriteLease_sound is⟩

theorem body_safe (past : Past Tables ι (Except DbError Answer)) :
    Safe postgres (contract calls strict) i now ((calls i).body hashes now) [] Held.none past := by
  obtain ⟨α, g, tx, same, sound⟩ := call_sound calls strict i now hashes past.db
  unfold Call.body
  rw [same, finish_map]
  unfold Sound at sound
  exact sound past.history

end

end Deletion
