import Buzz.Lib.Keyed
import Buzz.Lib.Locking
import Buzz.Relay.Subscription
import Mathlib.Algebra.Ring.Int.Defs

/-!
# The tables of relay invites

`relay_invites`, `relay_members` and `join_policy_acceptances` with the constraints of migrations
0001, 0020 and 0025. `postgres` executes the statements of `buzz-db/src/relay_invite.rs` and
`buzz-db/src/relay_members.rs` on them.

An instant is counted in microseconds. The foreign key of an acceptance takes a shared lock on the
key of its member; `ON CONFLICT DO NOTHING` takes no lock where there is nothing to insert. The
wait for an acceptance that another session is about to insert is left out, and so is the write
fence of a community that is being deleted, whose triggers can only refuse.
-/
namespace Invite

open Lib Nostr Relay Locking

structure RelayInvite where
  communityId : CommunityId
  id : Uuid
  tokenHash : List UInt8
  maxUses : Option Int
  useCount : Int := 0
  expiresAt : Int
  createdBy : String
deriving DecidableEq

abbrev InviteKey := CommunityId × Uuid

def RelayInvite.key (invite : RelayInvite) : InviteKey := (invite.communityId, invite.id)

/-- The `CHECK`s of `relay_invites` and the type of its counter. -/
structure RelayInvite.Checked (invite : RelayInvite) : Prop where
  tokenHash : invite.tokenHash.length = 32
  maxUses : ∀ maxUses ∈ invite.maxUses, 1 ≤ maxUses ∧ maxUses ≤ 10000
  useCount : 0 ≤ invite.useCount
  int : invite.useCount < 2 ^ 31
  bounded : ∀ maxUses ∈ invite.maxUses, invite.useCount ≤ maxUses

instance (invite : RelayInvite) : Decidable invite.Checked :=
  decidable_of_iff (invite.tokenHash.length = 32 ∧
    (∀ maxUses ∈ invite.maxUses, 1 ≤ maxUses ∧ maxUses ≤ 10000) ∧ 0 ≤ invite.useCount ∧
    invite.useCount < 2 ^ 31 ∧ ∀ maxUses ∈ invite.maxUses, invite.useCount ≤ maxUses)
  ⟨fun ⟨tokenHash, maxUses, useCount, int, bounded⟩ => ⟨tokenHash, maxUses, useCount, int, bounded⟩,
    fun checked =>
      ⟨checked.tokenHash, checked.maxUses, checked.useCount, checked.int, checked.bounded⟩⟩

structure RelayMember where
  communityId : CommunityId
  /-- 64-char lowercase hex pubkey. -/
  pubkey : String
  role : String
  addedBy : Option String
deriving DecidableEq

abbrev MemberKey := CommunityId × String

def RelayMember.key (member : RelayMember) : MemberKey := (member.communityId, member.pubkey)

/-- The roles that `relay_members` admits. -/
def roles : List String := ["owner", "admin", "member"]

structure PolicyAcceptance where
  communityId : CommunityId
  pubkey : String
  policyVersion : String
deriving DecidableEq

def PolicyAcceptance.key (acceptance : PolicyAcceptance) : MemberKey × String :=
  ((acceptance.communityId, acceptance.pubkey), acceptance.policyVersion)

structure Tables where
  invites : Keyed RelayInvite.key := .empty
  members : Keyed RelayMember.key := .empty
  acceptances : Keyed PolicyAcceptance.key := .empty

/-- The invite with the token, of which the unique key leaves one. -/
def Tables.invite (t : Tables) (community : CommunityId) (tokenHash : List UInt8) :
    Option RelayInvite :=
  t.invites.rows.find? fun invite => invite.communityId = community ∧ invite.tokenHash = tokenHash

inductive DbError where
  | invalidData (text : String)
  /-- What the database itself refuses. -/
  | sqlx
deriving DecidableEq

inductive Lock where
  | invite (key : InviteKey)
  /-- The entry of the unique index on tokens. -/
  | token (community : CommunityId) (tokenHash : List UInt8)
  /-- The key of a member. -/
  | member (key : MemberKey)
  /-- The other columns of a member. -/
  | memberRow (key : MemberKey)
deriving DecidableEq

inductive Change where
  | invite (row : RelayInvite)
  | dropInvites (keys : List InviteKey)
  | member (row : RelayMember)
  | setRole (key : MemberKey) (role : String)
  | dropMember (key : MemberKey)
  | acceptance (row : PolicyAcceptance)

inductive Stmt where
  | insertInvite (row : RelayInvite)
  /-- `SELECT … FOR UPDATE`. -/
  | lockInvite (community : CommunityId) (tokenHash : List UInt8)
  | setUseCount (key : InviteKey) (useCount : Int)
  /-- `DELETE` of the invites that the subquery has picked. -/
  | deleteInvites (picked : List InviteKey) (cutoff : Int)
  | selectMember (key : MemberKey)
  /-- `INSERT … ON CONFLICT DO NOTHING`. -/
  | insertMember (row : RelayMember)
  | deleteMember (key : MemberKey) (cond : RelayMember → Bool)
  | updateRole (key : MemberKey) (role : String)
  /-- `INSERT … ON CONFLICT DO NOTHING`. -/
  | insertAcceptance (row : PolicyAcceptance)

def Reply : Stmt → Type
  | .insertInvite _ => Except DbError Unit
  | .lockInvite _ _ => Option RelayInvite
  | .setUseCount _ _ => Except DbError Unit
  | .deleteInvites _ _ => Nat
  | .selectMember _ => Option RelayMember
  | .insertMember _ => Except DbError Bool
  | .deleteMember _ _ => Bool
  | .updateRole _ _ => Except DbError Bool
  | .insertAcceptance _ => Except DbError Unit

def apply (t : Tables) : Change → Tables
  | .invite row => { t with invites := t.invites.put row }
  | .dropInvites keys => { t with invites := t.invites.drop (·.key ∈ keys) }
  | .member row => { t with members := t.members.put row }
  | .setRole key role =>
    match t.members.get key with
    | some row => { t with members := t.members.put { row with role } }
    | none => t
  | .dropMember key =>
    -- `ON DELETE CASCADE`
    { t with
      members := t.members.drop (·.key = key)
      acceptances := t.acceptances.drop (·.key.1 = key) }
  | .acceptance row => { t with acceptances := t.acceptances.put row }

/-- The picked invites that have expired. -/
def expired (t : Tables) (picked : List InviteKey) (cutoff : Int) : List InviteKey :=
  picked.filter fun key => (t.invites.get key).any (·.expiresAt < cutoff)

def exec : (stmt : Stmt) → Tables → Reply stmt × List Change
  | .insertInvite row, t =>
    if row.Checked ∧ (t.invites.get row.key).isNone ∧
        (t.invite row.communityId row.tokenHash).isNone then
      (.ok (), [.invite row])
    else (.error .sqlx, [])
  | .lockInvite community tokenHash, t => (t.invite community tokenHash, [])
  | .setUseCount key useCount, t =>
    match t.invites.get key with
    | none => (.ok (), [])
    | some invite =>
      if { invite with useCount }.Checked then (.ok (), [.invite { invite with useCount }])
      else (.error .sqlx, [])
  | .deleteInvites picked cutoff, t =>
    ((expired t picked cutoff).length, [.dropInvites (expired t picked cutoff)])
  | .selectMember key, t => (t.members.get key, [])
  | .insertMember row, t =>
    if row.role ∉ roles then (.error .sqlx, [])
    else if (t.members.get row.key).isSome then (.ok false, [])
    else (.ok true, [.member row])
  | .deleteMember key cond, t =>
    if (t.members.get key).any cond then (true, [.dropMember key]) else (false, [])
  | .updateRole key role, t =>
    if (t.members.get key).any (·.role ≠ "owner") then
      if role ∈ roles then (.ok true, [.setRole key role]) else (.error .sqlx, [])
    else (.ok false, [])
  | .insertAcceptance row, t =>
    if row.policyVersion.length ≠ 64 then (.error .sqlx, [])
    else if (t.acceptances.get row.key).isSome then (.ok (), [])
    else if (t.members.get row.key.1).isSome then (.ok (), [.acceptance row])
    else (.error .sqlx, [])

def locks : Stmt → Tables → List (Lock × Mode)
  | .insertInvite row, _ =>
    [(.invite row.key, .exclusive), (.token row.communityId row.tokenHash, .exclusive)]
  | .lockInvite community tokenHash, t =>
    match t.invite community tokenHash with
    | some invite => [(.invite invite.key, .exclusive)]
    | none => []
  | .setUseCount key _, t =>
    if (t.invites.get key).isSome then [(.invite key, .exclusive)] else []
  | .deleteInvites picked cutoff, t =>
    (expired t picked cutoff).map fun key => (.invite key, .exclusive)
  | .insertMember row, t =>
    if (t.members.get row.key).isSome then [] else [(.member row.key, .exclusive)]
  | .deleteMember key cond, t =>
    if (t.members.get key).any cond then [(.member key, .exclusive), (.memberRow key, .exclusive)]
    else []
  | .updateRole key _, t =>
    if (t.members.get key).any (·.role ≠ "owner") then [(.memberRow key, .exclusive)] else []
  | .insertAcceptance row, t =>
    if (t.acceptances.get row.key).isSome then [] else [(.member row.key.1, .shared)]
  | _, _ => []

def postgres : Database Stmt Reply Lock Change Tables where
  locks := locks
  exec := exec
  apply := apply

/-- What the constraints of the tables promise. -/
structure Consistent (t : Tables) : Prop where
  checked : ∀ key invite, t.invites.get key = some invite → invite.Checked
  unique : ∀ key key' invite invite', t.invites.get key = some invite →
    t.invites.get key' = some invite' → invite.communityId = invite'.communityId →
    invite.tokenHash = invite'.tokenHash → key = key'
  member : ∀ key acceptance, t.acceptances.get key = some acceptance →
    (t.members.get key.1).isSome = true

end Invite
