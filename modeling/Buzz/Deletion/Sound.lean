import Buzz.Deletion.Contract

/-!
# Every transaction keeps the contract

One rule for each kind of statement, and then each transaction from its first statement to its
commit.
-/
namespace Deletion

open Lib Nostr Relay Locking

/-! ### Commits -/

section

variable {held : Held Lock} {call : Call} {answer : Answer} {t t' : Tables}

theorem RequestWrites.same (same : t'.requests = t.requests) :
    RequestWrites held call answer t t' where
  request id r stored := ⟨r, by rw [same, stored], Or.inl rfl⟩
  newRequest id r' old new := by
    rw [same, old] at new
    cases new
  oneNew id id' r r' old _ new _ := by
    rw [same, old] at new
    cases new
  approved id r r' old new past := by
    rw [same, old] at new
    cases new
    exact Or.inl past

theorem RequestWrites.put {id : Uuid} {r r' : DeletionRequest} (same : t'.requests = t.requests.put r')
    (stored : t.requests.get id = some r) (sameId : r'.id = r.id)
    (locked : held (.request id) .exclusive)
    (step : RequestStep (held (.advisory r.communityId) .exclusive)
      (call.disturbs t r.communityId) (call.supersedes answer = some id) r r')
    (approved : r'.stage.past = true → r.stage.past = true ∨ t'.approved r' = true) :
    RequestWrites held call answer t t' := by
  -- One row is written, the others stay.
  have found (id' : Uuid) :
      t'.requests.get id' = if id = id' then some r' else t.requests.get id' := by
    rw [same, Keyed.get_put, sameId, Keyed.key_of_get stored]
  refine ⟨?_, ?_, ?_, ?_⟩
  · intro id' old stored'
    by_cases here : id = id'
    · subst here
      obtain rfl := Option.some.inj (stored.symm.trans stored')
      exact ⟨r', by rw [found, if_pos rfl], Or.inr ⟨locked, step⟩⟩
    · exact ⟨old, by rw [found, if_neg here, stored'], Or.inl rfl⟩
  · intro id' new none written
    by_cases here : id = id'
    · rw [← here, stored] at none
      cases none
    · rw [found, if_neg here, none] at written
      cases written
  · intro id' id'' new new' none _ written _
    by_cases here : id = id'
    · rw [← here, stored] at none
      cases none
    · rw [found, if_neg here, none] at written
      cases written
  · intro id' old new stored' written past
    by_cases here : id = id'
    · subst here
      obtain rfl := Option.some.inj (stored.symm.trans stored')
      rw [found, if_pos rfl] at written
      obtain rfl := Option.some.inj written
      exact approved past
    · rw [found, if_neg here, stored'] at written
      obtain rfl := Option.some.inj written
      exact Or.inl past

theorem Writes.ofRequests (requests : RequestWrites held call answer t t')
    (communities : t'.communities = t.communities) (approvals : t'.approvals = t.approvals)
    (servingLeases : t'.servingLeases = t.servingLeases) : Writes held call answer t t' where
  toRequestWrites := requests
  community c := Or.inl (by rw [communities])
  approval id := Or.inl (by rw [approvals])
  servingLease id := Or.inl (by rw [servingLeases])

theorem Writes.ofCommunity {row row' : Community} {c : CommunityId}
    (requests : RequestWrites held call answer t t')
    (same : t'.communities = t.communities.put row') (stored : t.communities.get c = some row)
    (sameId : row'.id = row.id) (locked : held (.community c) .exclusive)
    (step : CommunityStep (held (.advisory c) .exclusive) (call.disturbs t c) row row')
    (approvals : t'.approvals = t.approvals) (servingLeases : t'.servingLeases = t.servingLeases) :
    Writes held call answer t t' where
  toRequestWrites := requests
  community c' := by
    have sameId : row'.id = c := sameId.trans (Keyed.key_of_get stored)
    by_cases here : c = c'
    · subst here
      exact Or.inr ⟨locked, row, row', stored, by rw [same, Keyed.get_put, if_pos sameId], step⟩
    · exact Or.inl (by rw [same, Keyed.get_put, if_neg (sameId ▸ here)])
  approval id := Or.inl (by rw [approvals])
  servingLease id := Or.inl (by rw [servingLeases])

variable {ordered disturbed superseded : Prop} {r r' : DeletionRequest}

theorem requestStep_of_same (communityId : r'.communityId = r.communityId)
    (stage : r'.stage = r.stage) (digest : r'.inventoryDigest = r.inventoryDigest)
    (generation : r'.leaseGeneration = r.leaseGeneration) (quiescing : SameQuiescing r r')
    (unowned : r.stage = .aborted → r'.leaseOwner = none) (apart : ¬ disturbed) :
    RequestStep ordered disturbed superseded r r' where
  communityId := communityId
  stage := Or.inl stage
  digest _ := digest
  unowned aborted := unowned (stage.symm.trans aborted)
  generation := Or.inl ⟨generation, fun isOpen aborted => isOpen (stage.symm.trans aborted)⟩
  quiescing := Or.inl ⟨quiescing, fun isOpen aborted => isOpen (stage.symm.trans aborted)⟩
  approved := Or.inl fun approved => stage.trans approved
  disturbing disturbed := absurd disturbed apart

theorem requestStep_of_next (communityId : r'.communityId = r.communityId)
    (next : r.stage.next = some r'.stage)
    (digest : r.stage ≠ .submitted → r'.inventoryDigest = r.inventoryDigest)
    (generation : r'.leaseGeneration = r.leaseGeneration) (quiescing : SameQuiescing r r')
    (approved : r.stage ≠ .approved ∨ ordered) (apart : ¬ disturbed) :
    RequestStep ordered disturbed superseded r r' := by
  have notAborted : r'.stage ≠ .aborted := by
    intro aborted
    rw [aborted] at next
    cases stage : r.stage <;> rw [stage] at next <;> cases next
  exact
    { communityId
      stage := Or.inr (Or.inl next)
      digest
      unowned := fun aborted => absurd aborted notAborted
      generation := Or.inl ⟨generation, fun _ => notAborted⟩
      quiescing := Or.inl ⟨quiescing, fun _ => notAborted⟩
      approved := approved.imp_left fun different same => absurd same different
      disturbing := fun disturbed => absurd disturbed apart }

end

/-! ### Statements -/

section

variable {ι : Type} {calls : ι → Call} {strict : Prop} {i : ι} {now : Int} {α β γ : Type}
  {g : α → Answer} {changes : List Change} {held : Held Lock} {t : Tables}

theorem take_nil : held.take [] = held := by
  funext lock mode
  simp [Held.take]

theorem sound_assoc {tx : Tx β} {f : β → Tx γ} {k : γ → Tx α}
    (sound : Sound calls strict i now g (tx >>= fun b => f b >>= k) changes held t) :
    Sound calls strict i now g ((tx >>= f) >>= k) changes held t := by
  rwa [bind_assoc]

theorem sound_read {stmt : Stmt} {k : Reply stmt → Tx α} (free : ∀ v, locks stmt v = [])
    (reads : ∀ v, (exec stmt v).2 = [])
    (goesOn : ∀ t', Rely strict (calls i) ((ask stmt >>= k).run >>= ending g) held t t' →
      Consistent t' →
      Sound calls strict i now g (k (exec stmt (postgres.view t' changes)).1) changes held t') :
    Sound calls strict i now g (ask stmt >>= k) changes held t := by
  refine sound_ask fun t' moved consistent => ?_
  rw [reads, free, take_nil, List.append_nil]
  exact goesOn t' moved consistent

theorem sound_advisoryLock {c : CommunityId} {mode : Mode} {k : Unit → Tx α}
    (goesOn : ∀ t', Rely strict (calls i) ((ask (.advisoryLock c mode) >>= k).run >>= ending g)
      held t t' → Consistent t' →
      Sound calls strict i now g (k ()) changes (held.take [(.advisory c, mode)]) t') :
    Sound calls strict i now g (ask (.advisoryLock c mode) >>= k) changes held t := by
  refine sound_ask fun t' moved consistent => ?_
  rw [show changes ++ (exec (.advisoryLock c mode) (postgres.view t' changes)).2 = changes from
    List.append_nil _]
  exact goesOn t' moved consistent

theorem sound_lockRequest {id : Uuid} {cond : Tables → DeletionRequest → Bool}
    {k : Option DeletionRequest → Tx α}
    (hit : ∀ t' r, Rely strict (calls i) ((ask (.lockRequest id cond) >>= k).run >>= ending g)
      held t t' → Consistent t' → (postgres.view t' changes).requests.get id = some r →
      cond (postgres.view t' changes) r = true →
      Sound calls strict i now g (k (some r)) changes
        (held.take [(.request id, .exclusive)]) t')
    (miss : ∀ t', Rely strict (calls i) ((ask (.lockRequest id cond) >>= k).run >>= ending g)
      held t t' → Consistent t' → Sound calls strict i now g (k none) changes held t') :
    Sound calls strict i now g (ask (.lockRequest id cond) >>= k) changes held t := by
  refine sound_ask fun t' moved consistent => ?_
  unfold exec locks
  simp only [List.append_nil]
  cases matched : ((postgres.view t' changes).requests.get id).filter
      (cond (postgres.view t' changes)) with
  | none =>
    simp only [Option.isSome_none, Bool.false_eq_true, if_false, take_nil]
    exact miss t' moved consistent
  | some r =>
    obtain ⟨stored, holds⟩ := Option.filter_eq_some_iff.mp matched
    simp only [Option.isSome_some, if_true]
    exact hit t' r moved consistent stored holds

theorem sound_updateRequest {id : Uuid} {cond : Tables → DeletionRequest → Bool}
    {set : DeletionRequest → DeletionRequest} {k : Option DeletionRequest → Tx α}
    (hit : ∀ t' r, Rely strict (calls i) ((ask (.updateRequest id cond set) >>= k).run >>= ending g)
      held t t' → Consistent t' → (postgres.view t' changes).requests.get id = some r →
      cond (postgres.view t' changes) r = true →
      Sound calls strict i now g (k (some (set r))) (changes ++ [Change.request (set r)])
        (held.take [(.request id, .exclusive)]) t')
    (miss : ∀ t', Rely strict (calls i) ((ask (.updateRequest id cond set) >>= k).run >>= ending g)
      held t t' → Consistent t' →
      (∀ r, (postgres.view t' changes).requests.get id = some r →
        cond (postgres.view t' changes) r = false) →
      Sound calls strict i now g (k none) changes held t') :
    Sound calls strict i now g (ask (.updateRequest id cond set) >>= k) changes held t := by
  refine sound_ask fun t' moved consistent => ?_
  unfold exec locks
  dsimp only
  -- The update finds a row that meets its condition and locks it, or it does nothing.
  cases matched : ((postgres.view t' changes).requests.get id).filter
      (cond (postgres.view t' changes)) with
  | none =>
    simp only [Option.isSome_none, Bool.false_eq_true, if_false, take_nil, List.append_nil]
    refine miss t' moved consistent fun r stored => ?_
    rw [stored, Option.filter_some] at matched
    split at matched
    next => cases matched
    next holds => simpa using holds
  | some r =>
    obtain ⟨stored, holds⟩ := Option.filter_eq_some_iff.mp matched
    simp only [Option.isSome_some, if_true]
    exact hit t' r moved consistent stored holds

theorem sound_lockCommunity {c : CommunityId} {k : Option Community → Tx α}
    (hit : ∀ t' row, Rely strict (calls i) ((ask (.lockCommunity c) >>= k).run >>= ending g)
      held t t' → Consistent t' → (postgres.view t' changes).communities.get c = some row →
      Sound calls strict i now g (k (some row)) changes
        (held.take [(.community c, .exclusive)]) t')
    (miss : ∀ t', Sound calls strict i now g (k none) changes held t') :
    Sound calls strict i now g (ask (.lockCommunity c) >>= k) changes held t := by
  refine sound_ask fun t' moved consistent => ?_
  unfold exec locks
  simp only [List.append_nil]
  cases stored : (postgres.view t' changes).communities.get c with
  | none =>
    simp only [Option.isSome_none, Bool.false_eq_true, if_false, take_nil]
    exact miss t'
  | some row =>
    simp only [Option.isSome_some, if_true]
    exact hit t' row moved consistent stored

theorem sound_updateCommunity {c : CommunityId} {cond : Community → Bool}
    {set : Community → Community} {k : Bool → Tx α}
    (hit : ∀ t' row, Rely strict (calls i) ((ask (.updateCommunity c cond set) >>= k).run >>= ending g)
      held t t' → Consistent t' → (postgres.view t' changes).communities.get c = some row →
      cond row = true →
      Sound calls strict i now g (k true) (changes ++ [Change.community (set row)])
        (held.take [(.community c, .exclusive)]) t')
    (miss : ∀ t', Sound calls strict i now g (k false) changes held t') :
    Sound calls strict i now g (ask (.updateCommunity c cond set) >>= k) changes held t := by
  refine sound_ask fun t' moved consistent => ?_
  unfold exec locks
  dsimp only
  cases matched : ((postgres.view t' changes).communities.get c).filter cond with
  | none =>
    simp only [Option.isSome_none, Bool.false_eq_true, if_false, take_nil, List.append_nil]
    exact miss t'
  | some row =>
    obtain ⟨stored, holds⟩ := Option.filter_eq_some_iff.mp matched
    simp only [Option.isSome_some, if_true]
    exact hit t' row moved consistent stored holds

theorem sound_verifyLease {token : LeaseToken} {stage : DeletionStage} {k : Unit → Tx α}
    (goesOn : ∀ t' rest, Rely strict (calls i) rest held t t' → Consistent t' →
      token.valid stage none now (postgres.view t' changes) = true →
      Sound calls strict i now g (k ()) changes held t') :
    Sound calls strict i now g (verifyLease now token stage >>= k) changes held t := by
  have reads : ∀ v, (exec (.verifyLease token stage none now) v).2 = [] := fun _ => rfl
  refine sound_assoc (sound_read (fun _ => rfl) reads fun t' moved consistent => ?_)
  generalize valid : (exec (.verifyLease token stage none now) (postgres.view t' changes)).1 = reply
  cases reply with
  | false => exact sound_throw
  | true => exact goesOn t' _ moved consistent valid

theorem sound_verifyLeaseAndFence {token : LeaseToken} {stage : DeletionStage} {fence : Nat}
    {k : Unit → Tx α}
    (goesOn : ∀ t' rest, Rely strict (calls i) rest held t t' → Consistent t' →
      token.valid stage (some fence) now (postgres.view t' changes) = true →
      Sound calls strict i now g (k ()) changes held t') :
    Sound calls strict i now g (verifyLeaseAndFence now token stage fence >>= k) changes held t := by
  refine sound_assoc (sound_read (fun _ => rfl) (fun _ => rfl) fun t' moved consistent => ?_)
  generalize valid : (exec (.verifyLease token stage (some fence) now)
    (postgres.view t' changes)).1 = reply
  cases reply with
  | false => exact sound_throw
  | true => exact goesOn t' _ moved consistent valid

theorem sound_countServingLeases {c : CommunityId} {k : Nat → Tx α}
    (goesOn : ∀ t', Rely strict (calls i)
      ((ask (.countServingLeases c now) >>= k).run >>= ending g) held t t' → Consistent t' →
      Sound calls strict i now g (k ((postgres.view t' changes).activeServingLeases c now).length)
        changes held t') :
    Sound calls strict i now g (ask (.countServingLeases c now) >>= k) changes held t :=
  sound_read (fun _ => rfl) (fun _ => rfl) goesOn

theorem sound_selectCommunity {c : CommunityId} {k : Option Community → Tx α}
    (goesOn : ∀ t', Rely strict (calls i) ((ask (.selectCommunity c) >>= k).run >>= ending g)
      held t t' → Consistent t' →
      Sound calls strict i now g (k ((postgres.view t' changes).communities.get c)) changes held t') :
    Sound calls strict i now g (ask (.selectCommunity c) >>= k) changes held t :=
  sound_read (fun _ => rfl) (fun _ => rfl) goesOn

theorem sound_checkpoint {row : DeletionCheckpoint} {k : Unit → Tx α}
    (goesOn : ∀ t', Rely strict (calls i) ((ask (.putCheckpoint row) >>= k).run >>= ending g)
      held t t' → Consistent t' →
      Sound calls strict i now g (k ()) (changes ++ [Change.checkpoint row]) held t') :
    Sound calls strict i now g (ask (.putCheckpoint row) >>= k) changes held t := by
  refine sound_ask fun t' moved consistent => ?_
  rw [show locks (.putCheckpoint row) (postgres.view t' changes) = [] from rfl, take_nil]
  exact goesOn t' moved consistent

/-- What `advance_request_tx` has found and what it writes. -/
structure Advanced (token : LeaseToken) (source target : DeletionStage) (r r' : DeletionRequest) :
    Prop where
  id : r'.id = r.id
  communityId : r'.communityId = r.communityId
  source : r.stage = source
  target : r'.stage = target
  digest : r'.inventoryDigest = r.inventoryDigest
  generation : r.leaseGeneration = token.generation
  same : r'.leaseGeneration = r.leaseGeneration
  quiescing : SameQuiescing r r'

theorem sound_advance {token : LeaseToken} {source target : DeletionStage} {fence : Option Nat}
    {k : Unit → Tx α}
    (goesOn : ∀ t' rest r r', Rely strict (calls i) rest held t t' → Consistent t' →
      (postgres.view t' changes).requests.get token.requestId = some r →
      source.next = some target → Advanced token source target r r' →
      Sound calls strict i now g (k ()) (changes ++ [Change.request r'])
        (held.take [(.request token.requestId, .exclusive)]) t') :
    Sound calls strict i now g (advanceRequestTx now token source target fence >>= k) changes held
      t := by
  refine sound_assoc (sound_guard fun next => sound_assoc (sound_updateRequest ?_ ?_))
  · intro t' r moved consistent stored holds
    obtain ⟨stage, _, generation, _⟩ := of_decide_eq_true holds
    exact goesOn t' _ r _ moved consistent stored next
      ⟨rfl, rfl, stage, rfl, rfl, generation, rfl, ⟨rfl, rfl⟩⟩
  · intro t' moved consistent _
    exact sound_throw

/-! ### Commits of one request -/

theorem take_here {lock : Lock} {mode : Mode} : held.take [(lock, mode)] lock mode :=
  Or.inl (List.mem_singleton.mpr rfl)

/-- The call does not move the lifecycle of a community. -/
def Call.calm (call : Call) : Prop := ∀ t c, ¬ call.disturbs t c

theorem sound_commitRequest {id : Uuid} {r r' : DeletionRequest} {a : α}
    (locked : held (.request id) .exclusive) (stored : t.requests.get id = some r)
    (requests : ∀ v, (postgres.view v changes).requests = v.requests.put r')
    (sameId : r'.id = r.id)
    (communities : ∀ v, (postgres.view v changes).communities = v.communities)
    (approvals : ∀ v, (postgres.view v changes).approvals = v.approvals)
    (servingLeases : ∀ v, (postgres.view v changes).servingLeases = v.servingLeases)
    (calm : (calls i).calm)
    (step : ∀ disturbed : Prop, ¬ disturbed → RequestStep (held (.advisory r.communityId) .exclusive)
      disturbed ((calls i).supersedes (g a) = some id) r r')
    (past : r'.stage.past = true → r.stage.past = true)
    (leased : ∀ token, (calls i).token = some token → token.requestId = id ∧
      r.leaseGeneration = token.generation ∧ r.isOpen)
    (effect : ∀ v v' clock, v'.requests.get id = some r' → Effect clock (g a) v v' (calls i)) :
    Sound calls strict i now g (pure a : Tx α) changes held t := by
  refine sound_pure fun t' moved _ clock _ => ?_
  -- The row is locked, so it is still the one that was read.
  have stored' : t'.requests.get id = some r := (moved.requestRow id locked).trans stored
  refine ⟨Writes.ofRequests (RequestWrites.put (requests t') stored' sameId locked
      (step _ (calm _ _)) fun isPast => Or.inl (past isPast))
      (communities t') (approvals t') (servingLeases t'), ?_, effect _ _ _ ?_⟩
  · intro token mine _
    obtain ⟨rfl, generation, isOpen⟩ := leased token mine
    exact Or.inr ⟨r, stored', generation, isOpen⟩
  · rw [requests t', Keyed.get_put, if_pos (sameId.trans (Keyed.key_of_get stored))]

theorem sound_commitKept {id : Uuid} {r r' : DeletionRequest} {a : α}
    (locked : held (.request id) .exclusive) (stored : t.requests.get id = some r)
    (requests : ∀ v, (postgres.view v changes).requests = v.requests.put r')
    (sameId : r'.id = r.id)
    (communities : ∀ v, (postgres.view v changes).communities = v.communities)
    (approvals : ∀ v, (postgres.view v changes).approvals = v.approvals)
    (servingLeases : ∀ v, (postgres.view v changes).servingLeases = v.servingLeases)
    (calm : (calls i).calm) (communityId : r'.communityId = r.communityId)
    (stage : r'.stage = r.stage) (digest : r'.inventoryDigest = r.inventoryDigest)
    (generation : r'.leaseGeneration = r.leaseGeneration) (quiescing : SameQuiescing r r')
    (unowned : r.stage = .aborted → r'.leaseOwner = none)
    (leased : ∀ token, (calls i).token = some token → token.requestId = id ∧
      r.leaseGeneration = token.generation ∧ r.isOpen)
    (effect : ∀ v v' clock, v'.requests.get id = some r' → Effect clock (g a) v v' (calls i)) :
    Sound calls strict i now g (pure a : Tx α) changes held t := by
  refine sound_commitRequest locked stored requests sameId communities approvals servingLeases calm
    (fun _ apart => requestStep_of_same communityId stage digest generation quiescing unowned apart)
    ?_ leased effect
  intro past
  rwa [stage] at past

theorem sound_commitNothing {a : α}
    (requests : ∀ v, (postgres.view v changes).requests = v.requests)
    (communities : ∀ v, (postgres.view v changes).communities = v.communities)
    (approvals : ∀ v, (postgres.view v changes).approvals = v.approvals)
    (servingLeases : ∀ v, (postgres.view v changes).servingLeases = v.servingLeases)
    (rest : ∀ t' rest, Rely strict (calls i) (.pure (.commit rest)) held t t' → Consistent t' →
      ∀ clock, now ≤ clock →
      (∀ token, (calls i).token = some token → ((calls i).trusting = true → strict) →
        postgres.view t' changes = t' ∨ ∃ r, Leased token r t') ∧
      Effect clock (g a) t' (postgres.view t' changes) (calls i)) :
    Sound calls strict i now g (pure a : Tx α) changes held t := by
  refine sound_pure fun t' moved consistent clock later => ?_
  exact ⟨Writes.ofRequests (RequestWrites.same (requests t')) (communities t') (approvals t')
    (servingLeases t'), rest t' _ moved consistent clock later⟩

/-! ### Mutations that trust their lease -/

/-- The transaction does not look at a lease any more. -/
def Quiet (tx : Tx α) : Prop := tx.run.Calls fun stmt => stmt.verifies = false

theorem quiet_pure (a : α) : Quiet (pure a : Tx α) := .pure _

theorem quiet_ask {stmt : Stmt} {k : Reply stmt → Tx α} (free : stmt.verifies = false)
    (later : ∀ reply, Quiet (k reply)) : Quiet (ask stmt >>= k) :=
  Task.calls_bind (Task.calls_ask free) later

theorem quiet_found {row : Option β} {e : DbError} {k : β → Tx α} (later : ∀ b, Quiet (k b)) :
    Quiet (found row e >>= k) := by
  cases row with
  | some b => exact later b
  | none => exact .pure _

theorem quiet_guard {p : Prop} [Decidable p] {e : DbError} {k : Unit → Tx α}
    (later : Quiet (k ())) : Quiet (Task.guard p e >>= k) :=
  Task.calls_bind Task.calls_guard fun _ => later

theorem quiet_accepted (result : Except DbError α) : Quiet (accepted result) := by
  cases result with
  | ok a => exact .pure _
  | error e => exact .pure _

theorem quiet_last {stmt : Stmt} (free : stmt.verifies = false) : Quiet (ask stmt) :=
  Task.calls_ask free

theorem unchecked_ask {stmt : Stmt} {k : Reply stmt → Tx α} (quiet : Quiet (ask stmt >>= k)) :
    Unchecked ((ask stmt >>= k).run >>= ending g) where
  calls := by
    refine quiet.bind fun result => ?_
    cases result with
    | ok a => exact .pure _
    | error e => exact .pure _
  goesOn value same := by
    have call : Prog.call stmt (fun reply => (k reply).run >>= ending g) =
        .pure (.rollback value) := same
    cases call

theorem unchecked_commit (value : Except DbError Answer) :
    Unchecked (.pure (.commit value)) where
  calls := .pure _
  goesOn _ same := by cases same

end

theorem Rely.leased {strict : Prop} {call : Call} {rest : Program} {held : Held Lock}
    {t t' : Tables} {token : LeaseToken} (moved : Rely strict call rest held t t')
    (mine : call.token = some token) (trusting : call.trusting = true) (unchecked : Unchecked rest)
    (leased : strict → ∃ r, Leased token r t) (holds : strict) : ∃ r, Leased token r t' := by
  obtain ⟨r, stored, generation, isOpen⟩ := leased holds
  obtain ⟨r', stored', same, stays⟩ :=
    moved.lease holds token mine trusting unchecked r stored
  exact ⟨r', stored', same.trans generation, stays isOpen⟩

end Deletion
