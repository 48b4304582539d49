import Buzz.Invite.Tables

/-!
# Claims of relay invites

`claim_relay_invite` and the other functions of `buzz-db` that write the tables of invites and
members, one transaction each. What a transaction gets from elsewhere is an argument: the new id
and the token of a minted invite, the clock of the relay, and the rows that the subquery of the
retention sweep picks.
-/
namespace Invite

open Lib Nostr Relay Locking

/-- Outcome of a v2 invite claim. -/
inductive ClaimOutcome where
  | joined (useCount : Int) (usesRemaining : Option Int)
  /-- The claimer was already a member. `useCount` was not incremented. -/
  | alreadyMember (useCount : Int) (usesRemaining : Option Int)
  | expired
  | exhausted
  | invalid
deriving DecidableEq

inductive RemoveResult where
  | removed
  | isOwner
  | notFound
  | roleMismatch
deriving DecidableEq

abbrev Tx := Task Stmt Reply DbError

def ask (stmt : Stmt) : Tx (Reply stmt) := Task.ask stmt

/-- `?`. -/
def accepted {α : Type} (result : Except DbError α) : Tx α :=
  match result with
  | .ok a => pure a
  | .error e => throw e

def minInviteTtlSecs : Nat := 60

def maxInviteTtlSecs : Nat := 30 * 24 * 60 * 60

def maxInviteUses : Int := 10000

def validateMintInputs (ttlSecs : Nat) (maxUses : Option Int) : Tx Unit := do
  Task.guard (minInviteTtlSecs ≤ ttlSecs ∧ ttlSecs ≤ maxInviteTtlSecs) (.invalidData
    ("ttl_secs must be between " ++ toString minInviteTtlSecs ++ " and " ++
      toString maxInviteTtlSecs))
  Task.guard (∀ uses ∈ maxUses, 1 ≤ uses ∧ uses ≤ maxInviteUses) (.invalidData
    ("max_uses must be between 1 and " ++ toString maxInviteUses))

/-- An `i32` wraps around. -/
def wrap32 (n : Int) : Int := (n + 2 ^ 31) % 2 ^ 32 - 2 ^ 31

/-- Policy evidence, if a policy is configured. -/
def acceptPolicy (community : CommunityId) (pubkey : String) (policyVersion : Option String) :
    Tx Unit :=
  match policyVersion with
  | none => pure ()
  | some version => do
    let inserted : Except DbError Unit ← ask (.insertAcceptance ⟨community, pubkey, version⟩)
    accepted inserted

/-- The claimer is no member yet, and the invite has room. -/
def redeem (invite : RelayInvite) (claimerPubkey : String) (policyVersion : Option String) :
    Tx (Ending ClaimOutcome) := do
  let inserted : Except DbError Bool ←
    ask (.insertMember ⟨invite.communityId, claimerPubkey, "member", some "invite"⟩)
  let inserted ← accepted inserted
  acceptPolicy invite.communityId claimerPubkey policyVersion
  if inserted then
    let newUseCount := wrap32 (invite.useCount + 1)
    let counted : Except DbError Unit ← ask (.setUseCount invite.key newUseCount)
    accepted counted
    return .commit (.joined newUseCount (invite.maxUses.map (· - newUseCount)))
  else
    -- Admitted concurrently through a different invite: only the transaction that actually
    -- inserted membership may consume this invite.
    return .commit (.alreadyMember invite.useCount (invite.maxUses.map (· - invite.useCount)))

def claimRelayInvite (community : CommunityId) (tokenHash : List UInt8) (claimerPubkey : String)
    (policyVersion : Option String) (utcNow : Int) : Tx (Ending ClaimOutcome) := do
  let row : Option RelayInvite ← ask (.lockInvite community tokenHash)
  match row with
  | none => return .rollback .invalid
  | some invite =>
    -- Expiry is checked before membership deliberately.
    if invite.expiresAt ≤ utcNow then return .rollback .expired
    else
      let existing : Option RelayMember ← ask (.selectMember (community, claimerPubkey))
      if existing.isSome then
        acceptPolicy community claimerPubkey policyVersion
        return .commit (.alreadyMember invite.useCount (invite.maxUses.map (· - invite.useCount)))
      else if invite.maxUses.any (· ≤ invite.useCount) then return .rollback .exhausted
      else redeem invite claimerPubkey policyVersion

def mintRelayInvite (community : CommunityId) (createdBy : String) (ttlSecs : Nat)
    (maxUses : Option Int) (utcNow : Int) (id : Uuid) (tokenHash : List UInt8) : Tx RelayInvite := do
  validateMintInputs ttlSecs maxUses
  let invite : RelayInvite :=
    { communityId := community, id, tokenHash, maxUses
      expiresAt := utcNow + 1000000 * ttlSecs, createdBy }
  let inserted : Except DbError Unit ← ask (.insertInvite invite)
  accepted inserted
  return invite

def retentionSweepBatchSize : Nat := 1000

def reapExpiredRelayInvites (cutoff : Int) (picked : List InviteKey) : Tx Nat :=
  ask (.deleteInvites (picked.take retentionSweepBatchSize) cutoff)

def addRelayMember (community : CommunityId) (pubkey role : String) (addedBy : Option String) :
    Tx Bool := do
  let inserted : Except DbError Bool ← ask (.insertMember ⟨community, pubkey, role, addedBy⟩)
  accepted inserted

/-- The claim of a stateless v1 invite. -/
def claimRelayMembership (community : CommunityId) (pubkey role : String)
    (policyVersion : Option String) : Tx Bool := do
  let inserted ← addRelayMember community pubkey role (some "invite")
  acceptPolicy community pubkey policyVersion
  return inserted

def removeRelayMember (community : CommunityId) (pubkey : String) : Tx RemoveResult := do
  let removed : Bool ← ask (.deleteMember (community, pubkey) fun row => row.role ≠ "owner")
  if removed then return .removed
  else
    let row : Option RelayMember ← ask (.selectMember (community, pubkey))
    return if row.isSome then .isOwner else .notFound

def removeRelayMemberIfRole (community : CommunityId) (pubkey expectedRole : String) :
    Tx RemoveResult := do
  let removed : Bool ← ask (.deleteMember (community, pubkey) fun row => row.role = expectedRole)
  if removed then return .removed
  else
    let row : Option RelayMember ← ask (.selectMember (community, pubkey))
    match row with
    | none => return .notFound
    | some row => return if row.role = "owner" then .isOwner else .roleMismatch

def updateRelayMemberRole (community : CommunityId) (pubkey newRole : String) : Tx Bool := do
  let updated : Except DbError Bool ← ask (.updateRole (community, pubkey) newRole)
  accepted updated

/-! ### Calls -/

inductive Call where
  | claimRelayInvite (community : CommunityId) (tokenHash : List UInt8) (claimerPubkey : String)
      (policyVersion : Option String) (utcNow : Int)
  | mintRelayInvite (community : CommunityId) (createdBy : String) (ttlSecs : Nat)
      (maxUses : Option Int) (utcNow : Int) (id : Uuid) (tokenHash : List UInt8)
  | reapExpiredRelayInvites (cutoff : Int) (picked : List InviteKey)
  | addRelayMember (community : CommunityId) (pubkey role : String) (addedBy : Option String)
  | claimRelayMembership (community : CommunityId) (pubkey role : String)
      (policyVersion : Option String)
  | removeRelayMember (community : CommunityId) (pubkey : String)
  | removeRelayMemberIfRole (community : CommunityId) (pubkey expectedRole : String)
  | updateRelayMemberRole (community : CommunityId) (pubkey newRole : String)

inductive Answer where
  | claimed (outcome : ClaimOutcome)
  | minted (invite : RelayInvite)
  | reaped (rows : Nat)
  | changed (changed : Bool)
  | removal (result : RemoveResult)
deriving DecidableEq

namespace Call

def tx : Call → Tx (Ending Answer)
  | claimRelayInvite community tokenHash claimerPubkey policyVersion utcNow =>
    Ending.map .claimed <$>
      Invite.claimRelayInvite community tokenHash claimerPubkey policyVersion utcNow
  | mintRelayInvite community createdBy ttlSecs maxUses utcNow id tokenHash =>
    (.commit <| .minted ·) <$>
      Invite.mintRelayInvite community createdBy ttlSecs maxUses utcNow id tokenHash
  | reapExpiredRelayInvites cutoff picked =>
    (.commit <| .reaped ·) <$> Invite.reapExpiredRelayInvites cutoff picked
  | addRelayMember community pubkey role addedBy =>
    (.commit <| .changed ·) <$> Invite.addRelayMember community pubkey role addedBy
  | claimRelayMembership community pubkey role policyVersion =>
    (.commit <| .changed ·) <$> Invite.claimRelayMembership community pubkey role policyVersion
  | removeRelayMember community pubkey =>
    (.commit <| .removal ·) <$> Invite.removeRelayMember community pubkey
  | removeRelayMemberIfRole community pubkey expectedRole =>
    (.commit <| .removal ·) <$> Invite.removeRelayMemberIfRole community pubkey expectedRole
  | updateRelayMemberRole community pubkey newRole =>
    (.commit <| .changed ·) <$> Invite.updateRelayMemberRole community pubkey newRole

end Call

/-- A transaction that is dropped with an error is rolled back. -/
def finish : Except DbError (Ending Answer) → Ending (Except DbError Answer)
  | .ok ending => ending.map .ok
  | .error e => .rollback (.error e)

abbrev Program := Prog Stmt Reply (Ending (Except DbError Answer))

def Call.body (call : Call) : Program := call.tx.run >>= fun result => .pure (finish result)

end Invite
