import Buzz.Invite.Claims

/-!
# The contract of the invite transactions

What a transaction may rely on while it holds its locks (`Rely`), what its commit may write
(`Writes`) and what that means for invites, members and evidence (`Effect`). The row lock keeps
the invite still that a claim has read; the key of a member that a claim has inserted stays its
own. Nothing keeps a member who was there before: an acceptance that a claim has found is gone
when the member is removed before the claim commits.
-/
namespace Invite

open Lib Nostr Relay Locking

abbrev Deed (ι : Type) := Commit Tables ι (Except DbError Answer)

abbrev Deeds (ι : Type) := Past Tables ι (Except DbError Answer)

/-- The member that the call has removed. -/
def Call.removes (value : Except DbError Answer) : Call → Option MemberKey
  | removeRelayMember community pubkey | removeRelayMemberIfRole community pubkey _ =>
    match value with
    | .ok (.removal .removed) => some (community, pubkey)
    | _ => none
  | _ => none

/-! ### Rows -/

namespace Tables

/-- The invite has the token. -/
def Carries (community : CommunityId) (tokenHash : List UInt8) (invite : RelayInvite) : Prop :=
  invite.communityId = community ∧ invite.tokenHash = tokenHash

variable {t : Tables} {community : CommunityId} {tokenHash : List UInt8} {invite : RelayInvite}

theorem invite_eq_some (found : t.invite community tokenHash = some invite) :
    t.invites.get invite.key = some invite ∧ Carries community tokenHash invite :=
  ⟨Keyed.get_of_mem (List.mem_of_find?_eq_some found),
    by simpa [Carries] using List.find?_some found⟩

theorem invite_eq_none : t.invite community tokenHash = none ↔
    ∀ key invite, t.invites.get key = some invite → ¬ Carries community tokenHash invite := by
  unfold invite
  rw [List.find?_eq_none]
  constructor
  · intro absent key invite found
    simpa [Carries] using absent invite (Keyed.mem_of_get found)
  · intro absent invite member
    simpa [Carries] using absent invite.key invite (Keyed.get_of_mem member)

theorem invite_of_get (consistent : Consistent t) (found : t.invites.get invite.key = some invite) :
    t.invite invite.communityId invite.tokenHash = some invite := by
  cases other : t.invite invite.communityId invite.tokenHash with
  | none => exact absurd ⟨rfl, rfl⟩ (invite_eq_none.mp other _ invite found)
  | some invite' =>
    obtain ⟨found', community, token⟩ := invite_eq_some other
    -- Another invite with this token would break the unique key.
    have same := consistent.unique _ _ _ _ found found' community.symm token.symm
    rw [← same, found] at found'
    exact found'.symm

end Tables

/-! ### Rely -/

section

variable {ι : Type} (calls : ι → Call)

/-- The member has been removed since then. -/
def RemovedSince (k : MemberKey) (now : Int) (history : List (Deed ι)) : Prop :=
  ∃ deed ∈ history, (calls deed.session).removes deed.value = some k ∧ now ≤ deed.clock

/-- What the commits of the others do while a transaction holds its locks. -/
structure Rely (now : Int) (held : Held Lock) (past past' : Deeds ι) : Prop where
  history : past.history <:+ past'.history
  invite : ∀ key, held (.invite key) .exclusive →
    past'.db.invites.get key = past.db.invites.get key
  token : ∀ community tokenHash, held (.token community tokenHash) .exclusive →
    past.db.invite community tokenHash = none → past'.db.invite community tokenHash = none
  member : ∀ k mode, held (.member k) mode → (past.db.members.get k).isSome = true →
    (past'.db.members.get k).isSome = true
  vacant : ∀ k, held (.member k) .exclusive → past.db.members.get k = none →
    past'.db.members.get k = none
  evidence : ∀ key, (past.db.acceptances.get key).isSome = true →
    (past'.db.acceptances.get key).isSome = true ∨ RemovedSince calls key.1 now past'.history

variable {calls}

theorem RemovedSince.mono {k : MemberKey} {now : Int} {history history' : List (Deed ι)}
    (removed : RemovedSince calls k now history) (grown : history <:+ history') :
    RemovedSince calls k now history' := by
  obtain ⟨deed, member, removes⟩ := removed
  exact ⟨deed, grown.subset member, removes⟩

theorem Rely.refl (now : Int) (held : Held Lock) (past : Deeds ι) :
    Rely calls now held past past where
  history := List.suffix_refl _
  invite _ _ := rfl
  token _ _ _ none := none
  member _ _ _ here := here
  vacant _ _ none := none
  evidence _ here := Or.inl here

theorem Rely.trans {now : Int} {held : Held Lock} {past past' past'' : Deeds ι}
    (first : Rely calls now held past past') (second : Rely calls now held past' past'') :
    Rely calls now held past past'' where
  history := first.history.trans second.history
  invite key holds := (second.invite key holds).trans (first.invite key holds)
  token community tokenHash holds none :=
    second.token _ _ holds (first.token community tokenHash holds none)
  member k mode holds here := second.member k mode holds (first.member k mode holds here)
  vacant k holds none := second.vacant k holds (first.vacant k holds none)
  evidence key here := by
    rcases first.evidence key here with still | removed
    · exact second.evidence key still
    · exact Or.inr (removed.mono second.history)

end

/-! ### Writes -/

/-- What a commit may write under its locks. -/
structure Writes (held : Held Lock) (removes : Option MemberKey) (t t' : Tables) : Prop where
  invite : ∀ key, t'.invites.get key = t.invites.get key ∨ held (.invite key) .exclusive
  token : ∀ key invite', t'.invites.get key = some invite' →
    (∃ invite, t.invites.get key = some invite ∧
        Tables.Carries invite'.communityId invite'.tokenHash invite) ∨
      held (.token invite'.communityId invite'.tokenHash) .exclusive
  member : ∀ k, (t'.members.get k).isSome = (t.members.get k).isSome ∨
    held (.member k) .exclusive
  addedBy : ∀ k row, t.members.get k = some row →
    (∃ row', t'.members.get k = some row' ∧ row'.addedBy = row.addedBy) ∨ removes = some k
  evidence : ∀ key, (t.acceptances.get key).isSome = true →
    (t'.acceptances.get key).isSome = true ∨ removes = some key.1

namespace Writes

variable {held : Held Lock} {removes : Option MemberKey} {t t' t'' : Tables}

theorem refl : Writes held removes t t where
  invite _ := Or.inl rfl
  token _ invite' found := Or.inl ⟨invite', found, rfl, rfl⟩
  member _ := Or.inl rfl
  addedBy _ row found := Or.inl ⟨row, found, rfl⟩
  evidence _ here := Or.inl here

theorem trans (first : Writes held removes t t') (second : Writes held removes t' t'') :
    Writes held removes t t'' where
  invite key := by
    rcases second.invite key with same | locked
    · rw [same]
      exact first.invite key
    · exact Or.inr locked
  token key invite'' found := by
    rcases second.token key invite'' found with ⟨invite', found', community, token⟩ | locked
    · have earlier := first.token key invite' found'
      rwa [community, token] at earlier
    · exact Or.inr locked
  member k := by
    rcases second.member k with same | locked
    · rw [same]
      exact first.member k
    · exact Or.inr locked
  addedBy k row found := by
    rcases first.addedBy k row found with ⟨row', found', addedBy⟩ | removed
    · rcases second.addedBy k row' found' with ⟨row'', found'', addedBy'⟩ | removed
      · exact Or.inl ⟨row'', found'', addedBy'.trans addedBy⟩
      · exact Or.inr removed
    · exact Or.inr removed
  evidence key here := by
    rcases first.evidence key here with still | removed
    · exact second.evidence key still
    · exact Or.inr removed

theorem putInvite {row : RelayInvite} (locked : held (.invite row.key) .exclusive)
    (token : (∃ old, t.invites.get row.key = some old ∧
        Tables.Carries row.communityId row.tokenHash old) ∨
      held (.token row.communityId row.tokenHash) .exclusive) :
    Writes held removes t (apply t (.invite row)) :=
  { (refl : Writes held removes t t) with
    invite := fun key => by
      by_cases here : row.key = key
      · exact Or.inr (here ▸ locked)
      · exact Or.inl (Keyed.get_put_of_ne here)
    token := fun key invite' found => by
      simp only [apply, Keyed.get_put] at found
      split at found
      next here =>
        cases found
        rwa [← here]
      next => exact Or.inl ⟨invite', found, rfl, rfl⟩ }

theorem dropInvites {keys : List InviteKey}
    (locked : ∀ key ∈ keys, held (.invite key) .exclusive) :
    Writes held removes t (apply t (.dropInvites keys)) := by
  have found (key : InviteKey) : (apply t (.dropInvites keys)).invites.get key =
      (t.invites.get key).filter fun row => !decide (row.key ∈ keys) := Keyed.get_drop
  refine { (refl : Writes held removes t t) with invite := fun key => ?_, token := ?_ }
  · rw [found]
    cases stored : t.invites.get key with
    | none => exact Or.inl rfl
    | some row =>
      obtain rfl := Keyed.key_of_get stored
      -- Only the invites with a dropped key are gone, and these are locked.
      by_cases dropped : row.key ∈ keys
      · exact Or.inr (locked row.key dropped)
      · exact Or.inl (by simp [dropped])
  · intro key invite' stored
    rw [found] at stored
    exact Or.inl ⟨invite', (Option.filter_eq_some_iff.mp stored).1, rfl, rfl⟩

theorem putMember {row : RelayMember} (locked : held (.member row.key) .exclusive)
    (vacant : t.members.get row.key = none) : Writes held removes t (apply t (.member row)) :=
  { (refl : Writes held removes t t) with
    member := fun k => by
      by_cases here : row.key = k
      · exact Or.inr (here ▸ locked)
      · exact Or.inl (by simp only [apply, Keyed.get_put_of_ne here])
    addedBy := fun k old found => by
      have other : row.key ≠ k := by
        rintro rfl
        rw [vacant] at found
        cases found
      exact Or.inl ⟨old, by simp only [apply, Keyed.get_put_of_ne other, found], rfl⟩ }

theorem setRole {key : MemberKey} {role : String} :
    Writes held removes t (apply t (.setRole key role)) := by
  cases stored : t.members.get key with
  | none =>
    simp only [apply, stored]
    exact refl
  | some row =>
    have kept : row.key = key := Keyed.key_of_get stored
    have here : ({ row with role } : RelayMember).key = key := kept
    simp only [apply, stored]
    -- The role is another, `added_by` is not.
    exact { (refl : Writes held removes t t) with
      member := fun k => by
        rw [Keyed.get_put, here]
        split
        next same => exact Or.inl (by rw [← same, stored]; rfl)
        next => exact Or.inl rfl
      addedBy := fun k old found => by
        rw [Keyed.get_put, here]
        split
        next same =>
          rw [← same, stored] at found
          cases found
          exact Or.inl ⟨_, rfl, rfl⟩
        next => exact Or.inl ⟨old, found, rfl⟩ }

theorem dropMember {key : MemberKey} (locked : held (.member key) .exclusive) :
    Writes held (some key) t (apply t (.dropMember key)) where
  invite _ := Or.inl rfl
  token _ invite' found := Or.inl ⟨invite', found, rfl, rfl⟩
  member k := by
    by_cases here : key = k
    · exact Or.inr (here ▸ locked)
    · refine Or.inl ?_
      simp only [apply, Keyed.get_drop]
      cases stored : t.members.get k with
      | none => rfl
      | some row =>
        have other : ¬ row.key = key := fun same =>
          here (same.symm.trans (Keyed.key_of_get stored))
        simp [other]
  addedBy k row found := by
    by_cases here : key = k
    · exact Or.inr (congrArg some here)
    · have other : ¬ row.key = key := fun same => here (same.symm.trans (Keyed.key_of_get found))
      exact Or.inl ⟨row, by simp [apply, Keyed.get_drop, found, other], rfl⟩
  evidence k here := by
    -- Evidence goes with its own member only.
    by_cases same : key = k.1
    · exact Or.inr (congrArg some same)
    · refine Or.inl ?_
      simp only [apply, Keyed.get_drop]
      cases stored : t.acceptances.get k with
      | none =>
        rw [stored] at here
        cases here
      | some row =>
        have other : ¬ row.key.1 = key := fun equal =>
          same (equal.symm.trans (congrArg Prod.fst (Keyed.key_of_get stored)))
        simp [other]

theorem putAcceptance {row : PolicyAcceptance} :
    Writes held removes t (apply t (.acceptance row)) :=
  { (refl : Writes held removes t t) with
    evidence := fun key here => by
      refine Or.inl ?_
      simp only [apply, Keyed.get_put]
      split
      · rfl
      · exact here }

/-- Sessions whose locks get along leave each other alone. -/
theorem rely {ι : Type} {calls : ι → Call} {i : ι} {now clock now' : Int}
    {value : Except DbError Answer} {past : Deeds ι} {other : Held Lock}
    (writes : Writes held ((calls i).removes value) past.db t') (apart : held.Apart other)
    (later : now' ≤ clock) :
    Rely calls now' other past (past.next i now clock value t') where
  history := List.suffix_cons _ _
  invite key holds := by
    rcases writes.invite key with same | locked
    · exact same
    · exact absurd (apart _ _ _ locked holds) (by decide)
  token community tokenHash holds none := by
    refine Tables.invite_eq_none.mpr fun key invite' found carries => ?_
    -- A new invite with the token would need the lock that the other holds.
    obtain ⟨rfl, rfl⟩ := carries
    rcases writes.token key invite' found with ⟨invite, found, carries⟩ | locked
    · exact Tables.invite_eq_none.mp none key invite found carries
    · exact absurd (apart _ _ _ locked holds) (by decide)
  member k mode holds here := by
    rcases writes.member k with same | locked
    · exact same.trans here
    · exact absurd (apart _ _ _ locked holds) (by cases mode <;> decide)
  vacant k holds none := by
    rcases writes.member k with same | locked
    · rw [none] at same
      exact Option.isNone_iff_eq_none.mp (Option.isSome_eq_false_iff.mp same)
    · exact absurd (apart _ _ _ locked holds) (by decide)
  evidence key here := by
    rcases writes.evidence key here with still | removed
    · exact Or.inl still
    · exact Or.inr ⟨_, List.mem_cons_self, removed, later⟩

end Writes

/-! ### Constraints -/

namespace Consistent

variable {t : Tables}

theorem putInvite {row : RelayInvite} (consistent : Consistent t) (checked : row.Checked)
    (unique : ∀ key invite, t.invites.get key = some invite →
      Tables.Carries row.communityId row.tokenHash invite → key = row.key) :
    Consistent (apply t (.invite row)) where
  checked key invite found := by
    simp only [apply, Keyed.get_put] at found
    split at found
    next =>
      cases found
      exact checked
    next => exact consistent.checked key invite found
  unique key key' invite invite' found found' community token := by
    simp only [apply, Keyed.get_put] at found found'
    split at found
    next here =>
      cases found
      split at found'
      next here' => exact here.symm.trans here'
      next =>
        rw [← here]
        exact (unique key' invite' found' ⟨community.symm, token.symm⟩).symm
    next =>
      split at found'
      next here' =>
        cases found'
        rw [← here']
        exact unique key invite found ⟨community, token⟩
      next => exact consistent.unique key key' invite invite' found found' community token
  member := consistent.member

theorem dropInvites {keys : List InviteKey} (consistent : Consistent t) :
    Consistent (apply t (.dropInvites keys)) := by
  have before (key : InviteKey) (invite : RelayInvite)
      (found : (apply t (.dropInvites keys)).invites.get key = some invite) :
      t.invites.get key = some invite := by
    simp only [apply, Keyed.get_drop] at found
    exact (Option.filter_eq_some_iff.mp found).1
  exact
    { checked := fun key invite found => consistent.checked key invite (before key invite found)
      unique := fun key key' invite invite' found found' =>
        consistent.unique key key' invite invite' (before _ _ found) (before _ _ found')
      member := consistent.member }

theorem keepMembers {members : Keyed RelayMember.key} (consistent : Consistent t)
    (kept : ∀ k, (t.members.get k).isSome = true → (members.get k).isSome = true) :
    Consistent { t with members } where
  checked := consistent.checked
  unique := consistent.unique
  member key acceptance found := kept key.1 (consistent.member key acceptance found)

theorem putMember {row : RelayMember} (consistent : Consistent t) :
    Consistent (apply t (.member row)) :=
  consistent.keepMembers fun k here => by
    rw [Keyed.get_put]
    split
    · rfl
    · exact here

theorem setRole {key : MemberKey} {role : String} (consistent : Consistent t) :
    Consistent (apply t (.setRole key role)) := by
  cases stored : t.members.get key with
  | none =>
    simp only [apply, stored]
    exact consistent
  | some row =>
    simp only [apply, stored]
    refine consistent.keepMembers fun k here => ?_
    rw [Keyed.get_put]
    split
    · rfl
    · exact here

theorem dropMember {key : MemberKey} (consistent : Consistent t) :
    Consistent (apply t (.dropMember key)) where
  checked := consistent.checked
  unique := consistent.unique
  member k acceptance found := by
    simp only [apply, Keyed.get_drop, Option.filter_eq_some_iff] at found
    obtain ⟨found, stays⟩ := found
    have other : ¬ k.1 = key := by
      rw [← Keyed.key_of_get found]
      simpa using stays
    have here := consistent.member k acceptance found
    simp only [apply, Keyed.get_drop]
    cases stored : t.members.get k.1 with
    | none =>
      rw [stored] at here
      cases here
    | some row =>
      have apart : ¬ row.key = key := fun same => other ((Keyed.key_of_get stored).symm.trans same)
      simp [apart]

theorem putAcceptance {row : PolicyAcceptance} (consistent : Consistent t)
    (member : (t.members.get row.key.1).isSome = true) :
    Consistent (apply t (.acceptance row)) where
  checked := consistent.checked
  unique := consistent.unique
  member key acceptance found := by
    simp only [apply, Keyed.get_put] at found
    split at found
    next here => rwa [← here]
    next => exact consistent.member key acceptance found

theorem no_evidence (consistent : Consistent t) {key : MemberKey × String}
    (vacant : t.members.get key.1 = none) : t.acceptances.get key = none := by
  cases found : t.acceptances.get key with
  | none => rfl
  | some acceptance =>
    have member := consistent.member key acceptance found
    rw [vacant] at member
    cases member

end Consistent

/-! ### Effects -/

section

variable {ι : Type} (calls : ι → Call)

/-- There is evidence of the version in force, if there is one. -/
def Evidence (t : Tables) (k : MemberKey) (policyVersion : Option String) : Prop :=
  ∀ version ∈ policyVersion, (t.acceptances.get (k, version)).isSome = true

/-- A claim has made a member and used an invite up by one. -/
structure Joins (t t' : Tables) (invite : RelayInvite) (k : MemberKey)
    (policyVersion : Option String) : Prop where
  stored : t.invites.get invite.key = some invite
  counted : t'.invites = t.invites.put { invite with useCount := invite.useCount + 1 }
  vacant : t.members.get k = none
  member : ∃ row, t'.members.get k = some row ∧ row.addedBy = some "invite"
  evidence : Evidence t' k policyVersion

/-- A claim of a member leaves at most evidence. -/
structure Stays (now : Int) (history : List (Deed ι)) (t t' : Tables) (k : MemberKey)
    (policyVersion : Option String) : Prop where
  invites : t'.invites = t.invites
  members : t'.members = t.members
  evidence : Evidence t' k policyVersion ∨ RemovedSince calls k now history

/-- What a commit with this answer does to the invites, and for a claim to the rest. -/
def Effect (now : Int) (past : Deeds ι) (t' : Tables) (call : Call) : Answer → Prop
  | .claimed (.joined useCount _) => ∃ community tokenHash claimerPubkey policyVersion utcNow,
      call = .claimRelayInvite community tokenHash claimerPubkey policyVersion utcNow ∧
      ∃ invite, past.db.invite community tokenHash = some invite ∧
        useCount = invite.useCount + 1 ∧
        Joins past.db t' invite (community, claimerPubkey) policyVersion
  | .claimed (.alreadyMember _ _) => ∃ community tokenHash claimerPubkey policyVersion utcNow,
      call = .claimRelayInvite community tokenHash claimerPubkey policyVersion utcNow ∧
      Stays calls now past.history past.db t' (community, claimerPubkey) policyVersion
  | .claimed _ => False
  | .minted invite => past.db.invites.get invite.key = none ∧ invite.useCount = 0 ∧
      t'.invites = past.db.invites.put invite
  | .reaped _ => ∀ key invite, t'.invites.get key = some invite →
      past.db.invites.get key = some invite
  | .changed _ => t'.invites = past.db.invites
  | .removal _ => t'.invites = past.db.invites

/-- What a commit does. -/
structure Acts (call : Call) (now : Int) (answer : Answer) (past : Deeds ι) (t' : Tables) :
    Prop where
  addedBy : ∀ k row, past.db.members.get k = some row →
    (∃ row', t'.members.get k = some row' ∧ row'.addedBy = row.addedBy) ∨
      call.removes (.ok answer) = some k
  evidence : ∀ key, (past.db.acceptances.get key).isSome = true →
    (t'.acceptances.get key).isSome = true ∨ call.removes (.ok answer) = some key.1
  effect : Effect calls now past t' call answer

def contract : Contract Stmt Reply Lock Tables ι (Except DbError Answer) where
  inv := Consistent
  rely _ now _ held past past' := Rely calls now held past past'
  act i now _ value past t' := ∃ answer, value = .ok answer ∧ Acts calls (calls i) now answer past t'
  clear _ _ _ _ := True
  refl _ now _ held past := Rely.refl now held past
  trans _ _ _ _ _ _ _ := Rely.trans

/-! ### Sound transactions -/

/-- The end of a transaction whose value stands for this ending. -/
def closing {α : Type} (g : α → Ending Answer) (result : Except DbError α) : Program :=
  .pure (finish (result.map g))

theorem body_map {α : Type} {call : Call} {g : α → Ending Answer} {tx : Tx α}
    (same : call.tx = g <$> tx) : call.body = tx.run >>= closing g := by
  rw [Call.body, same, ExceptT.run_map, bind_map_left]
  rfl

/-- The rest of the transaction keeps the contract. -/
def Sound (i : ι) (now : Int) {α : Type} (g : α → Ending Answer) (tx : Tx α)
    (changes : List Change) (held : Held Lock) (past : Deeds ι) : Prop :=
  Safe postgres (contract calls) i now (tx.run >>= closing g) changes held past

variable {calls} {i : ι} {now : Int} {α β : Type} {g : α → Ending Answer}
  {changes : List Change} {held : Held Lock} {past : Deeds ι}

theorem sound_ask {stmt : Stmt} {k : Reply stmt → Tx α}
    (goesOn : ∀ past', Rely calls now held past past' → Consistent past'.db →
      Sound calls i now g (k (exec stmt (postgres.view past'.db changes)).1)
        (changes ++ (exec stmt (postgres.view past'.db changes)).2)
        (held.take (locks stmt (postgres.view past'.db changes))) past') :
    Sound calls i now g (ask stmt >>= k) changes held past := goesOn

theorem sound_throw {e : DbError} : Sound calls i now g (throw e : Tx α) changes held past := by
  change Safe postgres (contract calls) i now (.pure (.rollback (.error e))) changes held past
  intro value same
  cases same

theorem sound_guard {p : Prop} [Decidable p] {e : DbError} {k : Unit → Tx α}
    (goesOn : p → Sound calls i now g (k ()) changes held past) :
    Sound calls i now g (Task.guard p e >>= k) changes held past := by
  unfold Task.guard
  split
  next holds => exact goesOn holds
  next => exact sound_throw

theorem sound_assoc {γ : Type} {tx : Tx β} {f : β → Tx γ} {k : γ → Tx α}
    (sound : Sound calls i now g (tx >>= fun b => f b >>= k) changes held past) :
    Sound calls i now g ((tx >>= f) >>= k) changes held past := by
  rwa [bind_assoc]

theorem sound_last {tx : Tx α} (sound : Sound calls i now g (tx >>= pure) changes held past) :
    Sound calls i now g tx changes held past := by
  rwa [bind_pure] at sound

theorem sound_rollback {a : α} {answer : Answer} (ends : g a = .rollback answer) :
    Sound calls i now g (pure a : Tx α) changes held past := by
  change Safe postgres (contract calls) i now (.pure (finish (.ok (g a)))) changes held past
  rw [ends]
  intro value same
  cases same

theorem sound_commit {a : α} {answer : Answer} (ends : g a = .commit answer)
    (goesOn : ∀ past', Rely calls now held past past' → Consistent past'.db →
      Consistent (postgres.view past'.db changes) ∧
      Writes held ((calls i).removes (.ok answer)) past'.db (postgres.view past'.db changes) ∧
      Effect calls now past' (postgres.view past'.db changes) (calls i) answer) :
    Sound calls i now g (pure a : Tx α) changes held past := by
  change Safe postgres (contract calls) i now (.pure (finish (.ok (g a)))) changes held past
  rw [ends]
  intro value same past' moved consistent clock _
  obtain rfl := Ending.commit.inj same
  -- What the commit writes under its locks is what the others can rely on.
  obtain ⟨kept, writes, effect⟩ := goesOn past' moved consistent
  refine ⟨kept, ⟨answer, rfl, writes.addedBy, writes.evidence, effect⟩, ?_⟩
  intro j now' rest other _ later apart _
  exact writes.rely apart later

attribute [irreducible] Sound

end

end Invite
