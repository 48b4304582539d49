import Buzz.Invite.Contract

/-!
# Each invite transaction, from its first statement to its commit
-/
namespace Invite

open Lib Nostr Relay Locking

section

variable {ι : Type} {calls : ι → Call} {i : ι} {now : Int} {α : Type} {g : α → Ending Answer}
  {changes : List Change} {held : Held Lock} {past : Deeds ι}

theorem take_nil : held.take [] = held := by
  funext lock mode
  simp [Held.take]

theorem take_here {lock : Lock} {mode : Mode} : held.take [(lock, mode)] lock mode :=
  Or.inl (List.mem_singleton.mpr rfl)

/-! ### Statements -/

theorem sound_query {stmt : Stmt} {k : Reply stmt → Tx α} (reads : ∀ t, (exec stmt t).2 = [])
    (goesOn : ∀ past', Rely calls now held past past' → Consistent past'.db →
      Sound calls i now g (k (exec stmt (postgres.view past'.db changes)).1) changes
        (held.take (locks stmt (postgres.view past'.db changes))) past') :
    Sound calls i now g (ask stmt >>= k) changes held past := by
  refine sound_ask fun past' moved consistent => ?_
  rw [reads, List.append_nil]
  exact goesOn past' moved consistent

theorem sound_selectMember {key : MemberKey} {k : Option RelayMember → Tx α}
    (goesOn : ∀ past', Rely calls now held past past' → Consistent past'.db →
      Sound calls i now g (k ((postgres.view past'.db changes).members.get key)) changes held past') :
    Sound calls i now g (ask (.selectMember key) >>= k) changes held past := by
  refine sound_query (fun _ => rfl) fun past' moved consistent => ?_
  rw [show locks (.selectMember key) (postgres.view past'.db changes) = [] from rfl, take_nil]
  exact goesOn past' moved consistent

theorem sound_lockInvite {community : CommunityId} {tokenHash : List UInt8}
    {k : Option RelayInvite → Tx α}
    (hit : ∀ past' invite, Rely calls now held past past' → Consistent past'.db →
      (postgres.view past'.db changes).invite community tokenHash = some invite →
      Sound calls i now g (k (some invite)) changes
        (held.take [(.invite invite.key, .exclusive)]) past')
    (miss : ∀ past', Sound calls i now g (k none) changes held past') :
    Sound calls i now g (ask (.lockInvite community tokenHash) >>= k) changes held past := by
  refine sound_query (fun _ => rfl) fun past' moved consistent => ?_
  simp only [exec, locks]
  cases found : (postgres.view past'.db changes).invite community tokenHash with
  | none =>
    simp only [take_nil]
    exact miss past'
  | some invite => exact hit past' invite moved consistent found

private theorem exec_insertMember (row : RelayMember) (t : Tables) :
    exec (.insertMember row) t = (.error .sqlx, []) ∨
      exec (.insertMember row) t = (.ok false, []) ∧ locks (.insertMember row) t = [] ∨
      t.members.get row.key = none ∧ exec (.insertMember row) t = (.ok true, [Change.member row]) ∧
        locks (.insertMember row) t = [(.member row.key, .exclusive)] := by
  simp only [exec, locks]
  split
  · exact Or.inl rfl
  · cases stored : t.members.get row.key with
    | none => exact Or.inr (Or.inr ⟨rfl, rfl, rfl⟩)
    | some old => exact Or.inr (Or.inl ⟨rfl, rfl⟩)

theorem sound_insertMember {row : RelayMember} {k : Bool → Tx α}
    (conflict : ∀ past', Rely calls now held past past' → Consistent past'.db →
      Sound calls i now g (k false) changes held past')
    (inserted : ∀ past', Rely calls now held past past' → Consistent past'.db →
      (postgres.view past'.db changes).members.get row.key = none →
      Sound calls i now g (k true) (changes ++ [Change.member row])
        (held.take [(.member row.key, .exclusive)]) past') :
    Sound calls i now g (ask (.insertMember row) >>= fun reply => accepted reply >>= k) changes held
      past := by
  refine sound_ask fun past' moved consistent => ?_
  rcases exec_insertMember row (postgres.view past'.db changes) with
    same | ⟨same, free⟩ | ⟨vacant, same, locked⟩
  · rw [same]
    exact sound_throw
  · rw [same, free, take_nil, List.append_nil]
    exact conflict past' moved consistent
  · rw [same, locked]
    exact inserted past' moved consistent vacant

/-- What the insertion of evidence has found or written. -/
inductive Accepts (db : Tables) (changes : List Change) (k : MemberKey) :
    Option String → List Change → List (Lock × Mode) → Prop where
  | none : Accepts db changes k none [] []
  | found {version : String} (consistent : Consistent db)
      (here : ((postgres.view db changes).acceptances.get (k, version)).isSome = true) :
      Accepts db changes k (some version) [] []
  | written {version : String}
      (member : ((postgres.view db changes).members.get k).isSome = true) :
      Accepts db changes k (some version) [.acceptance ⟨k.1, k.2, version⟩] [(.member k, .shared)]

private theorem exec_insertAcceptance (row : PolicyAcceptance) (t : Tables) :
    exec (.insertAcceptance row) t = (.error .sqlx, []) ∨
      (t.acceptances.get row.key).isSome = true ∧
        exec (.insertAcceptance row) t = (.ok (), []) ∧ locks (.insertAcceptance row) t = [] ∨
      (t.members.get row.key.1).isSome = true ∧
        exec (.insertAcceptance row) t = (.ok (), [.acceptance row]) ∧
        locks (.insertAcceptance row) t = [(.member row.key.1, .shared)] := by
  simp only [exec, locks]
  split
  · exact Or.inl rfl
  · cases stored : t.acceptances.get row.key with
    | some acceptance => exact Or.inr (Or.inl ⟨rfl, rfl, rfl⟩)
    | none =>
      cases member : t.members.get row.key.1 with
      | none => exact Or.inl rfl
      | some old => exact Or.inr (Or.inr ⟨rfl, rfl, rfl⟩)

theorem sound_acceptPolicy {community : CommunityId} {pubkey : String}
    {policyVersion : Option String} {k : Unit → Tx α}
    (goesOn : ∀ past' more locked, Rely calls now held past past' →
      Accepts past'.db changes (community, pubkey) policyVersion more locked →
      Sound calls i now g (k ()) (changes ++ more) (held.take locked) past') :
    Sound calls i now g (acceptPolicy community pubkey policyVersion >>= k) changes held past := by
  -- Without a policy in force nothing is inserted.
  cases policyVersion with
  | none =>
    have ends := goesOn past [] [] (Rely.refl now held past) .none
    rwa [List.append_nil, take_nil] at ends
  | some version =>
    refine sound_assoc (sound_ask fun past' moved consistent => ?_)
    -- The database refuses, finds the evidence, or writes it and locks the member.
    rcases exec_insertAcceptance ⟨community, pubkey, version⟩ (postgres.view past'.db changes) with
      same | ⟨here, same, free⟩ | ⟨member, same, locked⟩
    · rw [same]
      exact sound_throw
    · rw [same, free]
      exact goesOn past' [] [] moved (.found consistent here)
    · rw [same, locked]
      exact goesOn past' _ _ moved (.written member)

private theorem exec_setUseCount (key : InviteKey) (useCount : Int) (t : Tables) :
    exec (.setUseCount key useCount) t = (.error .sqlx, []) ∨
      t.invites.get key = none ∨
      ∃ invite, t.invites.get key = some invite ∧ ({ invite with useCount } : RelayInvite).Checked ∧
        exec (.setUseCount key useCount) t = (.ok (), [Change.invite { invite with useCount }]) ∧
        locks (.setUseCount key useCount) t = [(.invite key, .exclusive)] := by
  simp only [exec, locks]
  cases stored : t.invites.get key with
  | none => exact Or.inr (Or.inl rfl)
  | some invite =>
    dsimp only
    split
    next checked => exact Or.inr (Or.inr ⟨invite, rfl, checked, rfl, rfl⟩)
    next => exact Or.inl rfl

theorem sound_setUseCount {key : InviteKey} {useCount : Int} {k : Unit → Tx α}
    (stored : ∀ past', Rely calls now held past past' → Consistent past'.db →
      (postgres.view past'.db changes).invites.get key ≠ none)
    (set : ∀ past' invite, Rely calls now held past past' → Consistent past'.db →
      (postgres.view past'.db changes).invites.get key = some invite →
      ({ invite with useCount } : RelayInvite).Checked →
      Sound calls i now g (k ()) (changes ++ [Change.invite { invite with useCount }])
        (held.take [(.invite key, .exclusive)]) past') :
    Sound calls i now g (ask (.setUseCount key useCount) >>= fun reply => accepted reply >>= k)
      changes held past := by
  refine sound_ask fun past' moved consistent => ?_
  -- The database refuses, the invite is gone, or the counter is set.
  rcases exec_setUseCount key useCount (postgres.view past'.db changes) with
    same | gone | ⟨invite, found, checked, same, locked⟩
  · rw [same]
    exact sound_throw
  · exact absurd gone (stored past' moved consistent)
  · rw [same, locked]
    exact set past' invite moved consistent found checked

/-! ### Claims -/

private theorem isSome_put_acceptance (acceptances : Keyed PolicyAcceptance.key) (k : MemberKey)
    (version : String) :
    ((acceptances.put ⟨k.1, k.2, version⟩).get (k, version)).isSome = true := by
  have found : (acceptances.put ⟨k.1, k.2, version⟩).get (k, version) =
      some ⟨k.1, k.2, version⟩ := Keyed.get_put_self
  rw [found]
  rfl

namespace Accepts

variable {k : MemberKey} {policyVersion : Option String} {more : List Change}
  {locked : List (Lock × Mode)} {removes : Option MemberKey} {past₁ past₂ : Deeds ι}

theorem stays (accepts : Accepts past₁.db [] k policyVersion more locked)
    (moved : Rely calls now (held.take locked) past₁ past₂) (consistent : Consistent past₂.db) :
    Consistent (postgres.view past₂.db more) ∧
      Writes (held.take locked) removes past₂.db (postgres.view past₂.db more) ∧
      Stays calls now past₂.history past₂.db (postgres.view past₂.db more) k policyVersion := by
  cases accepts with
  | none => exact ⟨consistent, .refl, rfl, rfl, Or.inl fun version given => by cases given⟩
  | @found version _ here =>
    refine ⟨consistent, .refl, rfl, rfl, ?_⟩
    -- Nothing has kept the member that the evidence belongs to.
    rcases moved.evidence (k, version) here with still | removed
    · refine Or.inl fun version' given => ?_
      cases given
      exact still
    · exact Or.inr removed
  | @written version member =>
    have locked' : held.take [(Lock.member k, .shared)] (.member k) .shared := take_here
    -- The key of the member is locked, so the member is still there.
    have stays := moved.member k .shared locked' member
    refine ⟨consistent.putAcceptance stays, .putAcceptance, rfl, rfl, Or.inl fun version' given => ?_⟩
    cases given
    exact isSome_put_acceptance past₂.db.acceptances k version

variable (held removes) in
theorem fresh {row : RelayMember} (accepts : Accepts past₁.db [Change.member row] row.key policyVersion more locked)
    (vacant : past₁.db.members.get row.key = Option.none) (t : Tables) (consistent : Consistent t) :
    Consistent (postgres.view (apply t (.member row)) more) ∧
      Writes held removes (apply t (.member row)) (postgres.view (apply t (.member row)) more) ∧
      (postgres.view (apply t (.member row)) more).invites = t.invites ∧
      (postgres.view (apply t (.member row)) more).members = t.members.put row ∧
      Evidence (postgres.view (apply t (.member row)) more) row.key policyVersion := by
  cases accepts with
  | none => exact ⟨consistent.putMember, .refl, rfl, rfl, fun version given => by cases given⟩
  | @found version before here =>
    -- Evidence belongs to a member, and there was none.
    have none : past₁.db.acceptances.get (row.key, version) = Option.none := before.no_evidence vacant
    change (past₁.db.acceptances.get (row.key, version)).isSome = true at here
    rw [none] at here
    cases here
  | @written version _ =>
    have member : ((t.members.put row).get row.key).isSome = true := by
      rw [Keyed.get_put_self]
      rfl
    refine ⟨consistent.putMember.putAcceptance member, .putAcceptance, rfl, rfl, fun version' given => ?_⟩
    cases given
    exact isSome_put_acceptance t.acceptances row.key version

end Accepts

private theorem wrap32_succ {n : Int} (low : 0 ≤ n) (high : n < 2 ^ 31)
    (positive : 0 ≤ wrap32 (n + 1)) : wrap32 (n + 1) = n + 1 := by
  unfold wrap32 at positive ⊢
  omega

private theorem joins_commit {invite : RelayInvite} {row : RelayMember} {policyVersion : Option String}
    {more : List Change} {locked : List (Lock × Mode)} {removes : Option MemberKey}
    {useCount : Int} {past₁ past₂ : Deeds ι}
    (accepts : Accepts past₁.db [Change.member row] row.key policyVersion more locked)
    (vacant₁ : past₁.db.members.get row.key = none) (consistent : Consistent past₂.db)
    (stored : past₂.db.invites.get invite.key = some invite)
    (vacant : past₂.db.members.get row.key = none) (invited : row.addedBy = some "invite")
    (checked : ({ invite with useCount } : RelayInvite).Checked)
    (lockedInvite : held (.invite invite.key) .exclusive)
    (lockedMember : held (.member row.key) .exclusive) (counted : useCount = invite.useCount + 1) :
    Consistent (postgres.view past₂.db (([Change.member row] ++ more) ++ [Change.invite { invite with useCount }])) ∧
      Writes held removes past₂.db
        (postgres.view past₂.db (([Change.member row] ++ more) ++ [Change.invite { invite with useCount }])) ∧
      Joins past₂.db
        (postgres.view past₂.db (([Change.member row] ++ more) ++ [Change.invite { invite with useCount }])) invite
        row.key policyVersion := by
  subst counted
  obtain ⟨kept, writes, invites, members, evidence⟩ :=
    accepts.fresh held removes vacant₁ past₂.db consistent
  -- The counter is written on top of the member and the evidence.
  have viewed : postgres.view past₂.db
      (([Change.member row] ++ more) ++ [Change.invite { invite with useCount := invite.useCount + 1 }]) =
      apply (postgres.view (apply past₂.db (.member row)) more)
        (.invite { invite with useCount := invite.useCount + 1 }) := by
    unfold Database.view
    rw [List.foldl_append, List.foldl_append]
    rfl
  -- The member and the evidence leave the invites alone.
  have here : (postgres.view (apply past₂.db (.member row)) more).invites.get invite.key =
      some invite := by
    rw [invites]
    exact stored
  rw [viewed]
  refine ⟨kept.putInvite checked fun key other found carries => ?_,
    ((Writes.putMember lockedMember vacant).trans writes).trans
      (.putInvite lockedInvite (Or.inl ⟨invite, here, rfl, rfl⟩)), ?_⟩
  · exact kept.unique key invite.key other invite found here carries.1 carries.2
  · refine ⟨stored, ?_, vacant, ⟨row, ?_, invited⟩, evidence⟩
    · exact congrArg (·.put { invite with useCount := invite.useCount + 1 }) invites
    · change (postgres.view (apply past₂.db (.member row)) more).members.get row.key = some row
      rw [members]
      exact Keyed.get_put_self

theorem claimRelayInvite_sound {community : CommunityId} {tokenHash : List UInt8}
    {claimerPubkey : String} {policyVersion : Option String} {utcNow : Int}
    (is : calls i = .claimRelayInvite community tokenHash claimerPubkey policyVersion utcNow) :
    Sound calls i now (Ending.map .claimed)
      (claimRelayInvite community tokenHash claimerPubkey policyVersion utcNow) [] Held.none past := by
  -- The invite, locked or unknown.
  refine sound_lockInvite ?_ fun _ => sound_rollback rfl
  intro past₁ invite _ consistent₁ found
  obtain ⟨stored₁, rfl, rfl⟩ := Tables.invite_eq_some found
  dsimp only
  split
  · exact sound_rollback rfl
  -- Without a lock: the member may go or come until the insertion.
  refine sound_selectMember fun past₂ moved₂ _ => ?_
  split
  · refine sound_acceptPolicy fun past₃ more locked moved₃ accepts => ?_
    refine sound_commit rfl fun past₄ moved₄ consistent₄ => ?_
    obtain ⟨kept, writes, stays⟩ := accepts.stays moved₄ consistent₄
    exact ⟨kept, writes, _, _, _, _, _, is, stays⟩
  split
  · exact sound_rollback rfl
  -- Somebody else may have made the member in between; then the claim changes no counter.
  refine sound_insertMember (fun past₃ moved₃ _ => ?_) fun past₃ moved₃ consistent₃ vacant₃ => ?_
  · refine sound_acceptPolicy fun past₄ more locked moved₄ accepts => ?_
    refine sound_commit rfl fun past₅ moved₅ consistent₅ => ?_
    obtain ⟨kept, writes, stays⟩ := accepts.stays moved₅ consistent₅
    exact ⟨kept, writes, _, _, _, _, _, is, stays⟩
  · -- The invite is locked since it was read, and the member since it was inserted.
    refine sound_acceptPolicy fun past₄ more locked moved₄ accepts => ?_
    have vacant₄ := moved₄.vacant _ take_here vacant₃
    have stored₄ : past₄.db.invites.get invite.key = some invite := by
      rw [moved₄.invite _ (Or.inr take_here), moved₃.invite _ take_here, moved₂.invite _ take_here]
      exact stored₁
    have invites₅ (t : Tables) (consistent : Consistent t) :
        (postgres.view t (([] ++ [Change.member ⟨invite.communityId, claimerPubkey, "member",
          some "invite"⟩]) ++ more)).invites = t.invites :=
      (accepts.fresh Held.none none vacant₄ t consistent).2.2.1
    refine sound_setUseCount (fun past₅ moved₅ consistent₅ gone => ?_)
      fun past₅ invite' moved₅ consistent₅ stored₅ checked => ?_
    · rw [invites₅ past₅.db consistent₅, moved₅.invite _ (Or.inr (Or.inr take_here)), stored₄] at gone
      cases gone
    · rw [invites₅ past₅.db consistent₅, moved₅.invite _ (Or.inr (Or.inr take_here)), stored₄,
        Option.some.injEq] at stored₅
      subst stored₅
      have before := consistent₁.checked invite.key invite stored₁
      -- The check on the counter excludes an overflow.
      have counted := wrap32_succ before.useCount before.int checked.useCount
      refine sound_commit rfl fun past₆ moved₆ consistent₆ => ?_
      have stored₆ : past₆.db.invites.get invite.key = some invite := by
        rw [moved₆.invite _ take_here, moved₅.invite _ (Or.inr (Or.inr take_here))]
        exact stored₄
      have vacant₅ := moved₅.vacant (invite.communityId, claimerPubkey) (Or.inr take_here) vacant₄
      have vacant₆ := moved₆.vacant (invite.communityId, claimerPubkey)
        (Or.inr (Or.inr take_here)) vacant₅
      refine And.imp_right (And.imp_right fun joins => ?_) (joins_commit accepts vacant₄ consistent₆
        stored₆ vacant₆ rfl checked take_here (Or.inr (Or.inr take_here)) counted)
      exact ⟨_, _, _, _, _, is, invite, Tables.invite_of_get consistent₆ stored₆, counted, joins⟩

/-! ### Invites -/

private theorem exec_insertInvite (row : RelayInvite) (t : Tables) :
    exec (.insertInvite row) t = (.error .sqlx, []) ∨
      row.Checked ∧ t.invites.get row.key = none ∧ t.invite row.communityId row.tokenHash = none ∧
        exec (.insertInvite row) t = (.ok (), [.invite row]) := by
  simp only [exec]
  split
  next free =>
    exact Or.inr ⟨free.1, Option.isNone_iff_eq_none.mp free.2.1,
      Option.isNone_iff_eq_none.mp free.2.2, rfl⟩
  next => exact Or.inl rfl

theorem mintRelayInvite_sound {community : CommunityId} {createdBy : String} {ttlSecs : Nat}
    {maxUses : Option Int} {utcNow : Int} {id : Uuid} {tokenHash : List UInt8} :
    Sound calls i now (.commit <| .minted ·)
      (mintRelayInvite community createdBy ttlSecs maxUses utcNow id tokenHash) [] Held.none past := by
  refine sound_assoc (sound_guard fun _ => sound_guard fun _ => ?_)
  refine sound_ask fun past₁ _ _ => ?_
  rcases exec_insertInvite _ (postgres.view past₁.db []) with same | ⟨checked, free, fresh, same⟩
  · rw [same]
    exact sound_throw
  rw [same]
  refine sound_commit rfl fun past₂ moved consistent => ?_
  -- The key and the token are locked since they were found free.
  have free₂ := (moved.invite _ (Or.inl List.mem_cons_self)).trans free
  have fresh₂ := moved.token _ _ (Or.inl (by simp [locks])) fresh
  refine ⟨consistent.putInvite checked fun key invite found carries => ?_,
    .putInvite (Or.inl List.mem_cons_self) (Or.inr (Or.inl (by simp [locks]))), free₂, rfl, rfl⟩
  exact absurd carries (Tables.invite_eq_none.mp fresh₂ key invite found)

theorem reapExpiredRelayInvites_sound {cutoff : Int} {picked : List InviteKey} :
    Sound calls i now (.commit <| .reaped ·) (reapExpiredRelayInvites cutoff picked) [] Held.none
      past := by
  refine sound_last (sound_ask fun past₁ _ _ => sound_commit rfl fun past₂ _ consistent => ?_)
  refine ⟨consistent.dropInvites, .dropInvites fun key dropped => ?_, fun key invite found => ?_⟩
  · exact Or.inl (List.mem_map.mpr ⟨key, dropped, rfl⟩)
  · change (past₂.db.invites.drop _).get key = some invite at found
    rw [Keyed.get_drop, Option.filter_eq_some_iff] at found
    exact found.1

/-! ### Members -/

theorem addRelayMember_sound {community : CommunityId} {pubkey role : String}
    {addedBy : Option String} :
    Sound calls i now (.commit <| .changed ·) (addRelayMember community pubkey role addedBy) []
      Held.none past := by
  refine sound_last (sound_assoc (sound_insertMember (fun past₁ _ _ => ?_) fun past₁ _ _ vacant => ?_))
  · exact sound_commit rfl fun past₂ _ consistent => ⟨consistent, .refl, rfl⟩
  · refine sound_commit rfl fun past₂ moved consistent => ?_
    exact ⟨consistent.putMember, .putMember take_here (moved.vacant _ take_here vacant), rfl⟩

theorem claimRelayMembership_sound {community : CommunityId} {pubkey role : String}
    {policyVersion : Option String} :
    Sound calls i now (.commit <| .changed ·)
      (claimRelayMembership community pubkey role policyVersion) [] Held.none past := by
  refine sound_assoc (sound_insertMember (fun past₁ _ _ => ?_) fun past₁ _ _ vacant => ?_)
  · refine sound_acceptPolicy fun past₂ more locked _ accepts => ?_
    refine sound_commit rfl fun past₃ moved consistent => ?_
    obtain ⟨kept, writes, stays⟩ := accepts.stays moved consistent
    exact ⟨kept, writes, stays.invites⟩
  · refine sound_acceptPolicy fun past₂ more locked moved₂ accepts => ?_
    have vacant₂ := moved₂.vacant _ take_here vacant
    refine sound_commit rfl fun past₃ moved₃ consistent => ?_
    -- Nobody else inserts the member under the lock of its key.
    have vacant₃ := moved₃.vacant _ (Or.inr take_here) vacant₂
    obtain ⟨kept, writes, invites, -⟩ := accepts.fresh _ _ vacant₂ past₃.db consistent
    exact ⟨kept, (Writes.putMember (Or.inr take_here) vacant₃).trans writes, invites⟩

private theorem sound_deleteMember {key : MemberKey} {cond : RelayMember → Bool}
    {k : Bool → Tx RemoveResult}
    (removes : (calls i).removes (.ok (.removal .removed)) = some key)
    (hit : k true = pure .removed)
    (miss : ∀ past', Sound calls i now (.commit <| .removal ·) (k false) [] Held.none past') :
    Sound calls i now (.commit <| .removal ·) (ask (.deleteMember key cond) >>= k) [] Held.none
      past := by
  refine sound_ask fun past₁ _ _ => ?_
  simp only [exec, locks]
  -- The member is deleted with its evidence, or the call goes on.
  split
  · rw [hit]
    refine sound_commit rfl fun past₂ _ consistent => ?_
    rw [removes]
    exact ⟨consistent.dropMember, .dropMember (Or.inl List.mem_cons_self), rfl⟩
  · rw [take_nil]
    exact miss past₁

theorem removeRelayMember_sound {community : CommunityId} {pubkey : String}
    (is : calls i = .removeRelayMember community pubkey) :
    Sound calls i now (.commit <| .removal ·) (removeRelayMember community pubkey) [] Held.none
      past := by
  refine sound_deleteMember (by rw [is]; rfl) rfl fun past₁ => ?_
  refine sound_selectMember fun past₂ _ _ => ?_
  exact sound_commit rfl fun past₃ _ consistent => ⟨consistent, .refl, rfl⟩

theorem removeRelayMemberIfRole_sound {community : CommunityId} {pubkey expectedRole : String}
    (is : calls i = .removeRelayMemberIfRole community pubkey expectedRole) :
    Sound calls i now (.commit <| .removal ·) (removeRelayMemberIfRole community pubkey expectedRole)
      [] Held.none past := by
  refine sound_deleteMember (by rw [is]; rfl) rfl fun past₁ => ?_
  refine sound_selectMember fun past₂ _ _ => ?_
  split
  · exact sound_commit rfl fun past₃ _ consistent => ⟨consistent, .refl, rfl⟩
  · exact sound_commit rfl fun past₃ _ consistent => ⟨consistent, .refl, rfl⟩

private theorem invites_setRole (key : MemberKey) (role : String) (t : Tables) :
    (apply t (.setRole key role)).invites = t.invites := by
  simp only [apply]
  split
  · rfl
  · rfl

theorem updateRelayMemberRole_sound {community : CommunityId} {pubkey newRole : String} :
    Sound calls i now (.commit <| .changed ·) (updateRelayMemberRole community pubkey newRole) []
      Held.none past := by
  refine sound_last (sound_assoc (sound_ask fun past₁ _ _ => ?_))
  simp only [exec]
  split
  · split
    · exact sound_commit rfl fun past₂ _ consistent =>
        ⟨consistent.setRole, .setRole, invites_setRole _ _ past₂.db⟩
    · exact sound_throw
  · exact sound_commit rfl fun past₂ _ consistent => ⟨consistent, .refl, rfl⟩

private theorem safe_of_sound {call : Call} {tx : Tx α} (same : call.tx = g <$> tx)
    (sound : Sound calls i now g tx [] Held.none past) :
    Safe postgres (contract calls) i now call.body [] Held.none past := by
  unfold Sound at sound
  rwa [body_map same]

/-- Every call keeps the contract. -/
theorem body_safe (past : Deeds ι) :
    Safe postgres (contract calls) i now (calls i).body [] Held.none past := by
  cases is : calls i with
  | claimRelayInvite => exact safe_of_sound rfl (claimRelayInvite_sound is)
  | mintRelayInvite => exact safe_of_sound rfl mintRelayInvite_sound
  | reapExpiredRelayInvites => exact safe_of_sound rfl reapExpiredRelayInvites_sound
  | addRelayMember => exact safe_of_sound rfl addRelayMember_sound
  | claimRelayMembership => exact safe_of_sound rfl claimRelayMembership_sound
  | removeRelayMember => exact safe_of_sound rfl (removeRelayMember_sound is)
  | removeRelayMemberIfRole => exact safe_of_sound rfl (removeRelayMemberIfRole_sound is)
  | updateRelayMemberRole => exact safe_of_sound rfl updateRelayMemberRole_sound

end

end Invite
