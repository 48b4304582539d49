import Buzz.Invite.Sound

/-!
# What invites admit

Over every interleaving of claims with each other and with the other calls: an invite counts
exactly the members it has made and never more than it may, a member joins once until it is
removed, and evidence of the policy stays as long as the member does. A claim by somebody who is
a member already does not keep the member: if the member is removed while the claim is under way,
the claim may still succeed, and the evidence is gone with the member.
-/
namespace Invite

open Lib Nostr Relay Locking

abbrev Server (ι : Type) := System Stmt Reply Lock Change Tables ι (Except DbError Answer)

def transactions {ι : Type} (calls : ι → Call) (i : ι) (_ : Int) : Program := (calls i).body

/-- The invite that a claim uses. -/
def Call.invite (t : Tables) : Call → Option InviteKey
  | claimRelayInvite community tokenHash _ _ _ =>
    (t.invite community tokenHash).map RelayInvite.key
  | _ => none

section

variable {ι : Type} (calls : ι → Call)

/-- The counter of an invite at the start, zero for an invite that is minted later, and one more
for each claim of it that joined. -/
def uses (start : Tables) (key : InviteKey) : List (Deed ι) → Int
  | [] => ((start.invites.get key).map RelayInvite.useCount).getD 0
  | deed :: older =>
    match deed.value with
    | .ok (.claimed (.joined _ _)) =>
      if (calls deed.session).invite deed.before = some key then uses start key older + 1
      else uses start key older
    | .ok (.minted invite) => if invite.key = key then 0 else uses start key older
    | _ => uses start key older

/-- The commit of a claim with this outcome. -/
def Claims (deed : Deed ι) (k : MemberKey) (policyVersion : Option String)
    (outcome : ClaimOutcome) : Prop :=
  deed.value = .ok (.claimed outcome) ∧ ∃ tokenHash utcNow,
    calls deed.session = .claimRelayInvite k.1 tokenHash k.2 policyVersion utcNow

def Joined (deed : Deed ι) (k : MemberKey) (policyVersion : Option String) : Prop :=
  ∃ useCount usesRemaining, Claims calls deed k policyVersion (.joined useCount usesRemaining)

def AlreadyMember (deed : Deed ι) (k : MemberKey) (policyVersion : Option String) : Prop :=
  ∃ useCount usesRemaining, Claims calls deed k policyVersion (.alreadyMember useCount usesRemaining)

def Removes (deed : Deed ι) (k : MemberKey) : Prop := (calls deed.session).removes deed.value = some k

/-- A call that fails or refuses. -/
def Refused : Option (Except DbError Answer) → Prop
  | none | some (.error _) | some (.ok (.claimed .invalid)) | some (.ok (.claimed .expired))
  | some (.ok (.claimed .exhausted)) => True
  | _ => False

/-- The commits have made the tables what they are, and nothing else has. -/
def Linked (start : Tables) : List (Deed ι) → Tables → Prop
  | [], t => t = start
  | deed :: older, t => t = deed.after ∧ Linked start older deed.before

/-- What invites, members and evidence are after any run. -/
structure Redeemed (start : Tables) (s : Server ι) : Prop where
  counted : ∀ key invite, s.db.invites.get key = some invite →
    invite.useCount = uses calls start key s.history
  bounded : ∀ key invite, s.db.invites.get key = some invite →
    ∀ maxUses ∈ invite.maxUses, invite.useCount ≤ maxUses
  once : ∀ newer last between first older k policyVersion policyVersion',
    s.history = newer ++ last :: (between ++ first :: older) → Joined calls last k policyVersion →
      Joined calls first k policyVersion' → ∃ deed ∈ between, Removes calls deed k
  member : ∀ newer deed older k policyVersion, s.history = newer ++ deed :: older →
    Joined calls deed k policyVersion →
      (∃ row, s.db.members.get k = some row ∧ row.addedBy = some "invite") ∨
        ∃ later ∈ newer, Removes calls later k
  evidence : ∀ newer deed older k policyVersion, s.history = newer ++ deed :: older →
    Joined calls deed k policyVersion →
      Evidence s.db k policyVersion ∨ ∃ later ∈ newer, Removes calls later k
  already : ∀ newer deed older k policyVersion, s.history = newer ++ deed :: older →
    AlreadyMember calls deed k policyVersion →
      deed.after.invites = deed.before.invites ∧ deed.after.members = deed.before.members ∧
        (Evidence s.db k policyVersion ∨ (∃ later ∈ newer, Removes calls later k) ∨
          RemovedSince calls k deed.now older)
  refused : ∀ i value, s.session i = .closed value → Refused value →
    ∀ deed ∈ s.history, deed.session ≠ i
  linked : Linked start s.history s.db

/-! ### One commit -/

variable {calls} {start : Tables} {deed : Deed ι} {older : List (Deed ι)}

private theorem counted_step {answer : Answer} (value : deed.value = .ok answer)
    (effect : Effect calls deed.now ⟨older, deed.before⟩ deed.after (calls deed.session) answer)
    (counted : ∀ key invite, deed.before.invites.get key = some invite →
      invite.useCount = uses calls start key older) (key : InviteKey) (invite : RelayInvite)
    (found : deed.after.invites.get key = some invite) :
    invite.useCount = uses calls start key (deed :: older) := by
  -- Only a claim that joined and a mint change a counter.
  rw [uses, value]
  cases answer with
  | claimed outcome =>
    cases outcome with
    | joined useCount usesRemaining =>
      obtain ⟨community, tokenHash, _, _, _, is, invite', held, _, joins⟩ := effect
      -- The invite of the claim is the one that its token names.
      have uses : (calls deed.session).invite deed.before = some invite'.key := by
        rw [is]
        simp only [Call.invite, held, Option.map_some]
      dsimp only
      rw [joins.counted, Keyed.get_put] at found
      rw [uses]
      split at found
      next here =>
        have here : invite'.key = key := here
        cases found
        rw [if_pos (congrArg some here), ← counted key invite' (here ▸ joins.stored)]
      next other =>
        have other : invite'.key ≠ key := other
        rw [if_neg (fun same => other (Option.some.inj same))]
        exact counted key invite found
    | alreadyMember useCount usesRemaining =>
      obtain ⟨_, _, _, _, _, _, stays⟩ := effect
      rw [stays.invites] at found
      exact counted key invite found
    | _ => exact effect.elim
  | minted minted =>
    obtain ⟨_, zero, same⟩ := effect
    rw [same, Keyed.get_put] at found
    dsimp only
    split at found
    next here =>
      cases found
      rw [if_pos here, zero]
    next other =>
      rw [if_neg other]
      exact counted key invite found
  | reaped rows => exact counted key invite (effect key invite found)
  | changed changed => exact counted key invite ((congrArg (·.get key) effect).symm.trans found)
  | removal result => exact counted key invite ((congrArg (·.get key) effect).symm.trans found)

private theorem Joined.joins {k : MemberKey} {policyVersion : Option String}
    (joined : Joined calls deed k policyVersion)
    (acts : (contract calls).act deed.session deed.now deed.clock deed.value ⟨older, deed.before⟩
      deed.after) : ∃ invite, Joins deed.before deed.after invite k policyVersion := by
  obtain ⟨useCount, usesRemaining, value, tokenHash, utcNow, is⟩ := joined
  obtain ⟨answer, same, acts⟩ := acts
  obtain rfl := Except.ok.inj (value.symm.trans same)
  obtain ⟨_, _, _, _, _, is', invite, _, _, joins⟩ := acts.effect
  rw [is] at is'
  cases is'
  exact ⟨invite, joins⟩

private theorem AlreadyMember.stays {k : MemberKey} {policyVersion : Option String}
    (already : AlreadyMember calls deed k policyVersion)
    (acts : (contract calls).act deed.session deed.now deed.clock deed.value ⟨older, deed.before⟩
      deed.after) : Stays calls deed.now older deed.before deed.after k policyVersion := by
  obtain ⟨useCount, usesRemaining, value, tokenHash, utcNow, is⟩ := already
  obtain ⟨answer, same, acts⟩ := acts
  obtain rfl := Except.ok.inj (value.symm.trans same)
  obtain ⟨_, _, _, _, _, is', stays⟩ := acts.effect
  rw [is] at is'
  cases is'
  exact stays

private theorem not_refused
    (acts : (contract calls).act deed.session deed.now deed.clock deed.value ⟨older, deed.before⟩
      deed.after) : ¬ Refused (some deed.value) := by
  obtain ⟨answer, value, acts⟩ := acts
  have effect := acts.effect
  rw [value]
  cases answer with
  | claimed outcome =>
    cases outcome with
    | joined | alreadyMember => exact id
    | _ => exact effect.elim
  | _ => exact id

/-! ### Every run -/

variable {history : List (Deed ι)} {t : Tables}

theorem counted_of_chain (chain : Chain (contract calls) start history t) (key : InviteKey)
    (invite : RelayInvite) (found : t.invites.get key = some invite) :
    invite.useCount = uses calls start key history := by
  induction chain generalizing key invite with
  | nil => simp [uses, found]
  | commit deed _ _ acts _ _ ih =>
    obtain ⟨answer, value, acts⟩ := acts
    exact counted_step value acts.effect ih key invite found

theorem linked_of_chain (chain : Chain (contract calls) start history t) :
    Linked start history t := by
  induction chain with
  | nil => rfl
  | commit deed _ _ _ _ _ ih => exact ⟨rfl, ih⟩

/-- The member is there, by an invite. -/
private def Invited (k : MemberKey) (t : Tables) : Prop :=
  ∃ row, t.members.get k = some row ∧ row.addedBy = some "invite"

private theorem Invited.kept {k : MemberKey} (deed : Deed ι) (older : List (Deed ι))
    (acts : (contract calls).act deed.session deed.now deed.clock deed.value ⟨older, deed.before⟩
      deed.after) (invited : Invited k deed.before) :
    Invited k deed.after ∨ Removes calls deed k := by
  obtain ⟨answer, value, acts⟩ := acts
  obtain ⟨row, stored, addedBy⟩ := invited
  rcases acts.addedBy k row stored with ⟨row', stored', same⟩ | removed
  · exact Or.inl ⟨row', stored', same.trans addedBy⟩
  · exact Or.inr (by rw [Removes, value]; exact removed)

private theorem evidence_kept {k : MemberKey} {policyVersion : Option String} (deed : Deed ι)
    (older : List (Deed ι))
    (acts : (contract calls).act deed.session deed.now deed.clock deed.value ⟨older, deed.before⟩
      deed.after) (evidence : Evidence deed.before k policyVersion) :
    Evidence deed.after k policyVersion ∨ Removes calls deed k := by
  obtain ⟨answer, value, acts⟩ := acts
  by_cases removed : Removes calls deed k
  · exact Or.inr removed
  · refine Or.inl fun version given => ?_
    rcases acts.evidence (k, version) (evidence version given) with still | removes
    · exact still
    · exact absurd (by rw [Removes, value]; exact removes) removed

theorem redeemed_of_kept [DecidableEq ι] {s : Server ι}
    (kept : Kept postgres (contract calls) start s) : Redeemed calls start s where
  counted := counted_of_chain kept.history
  bounded key invite found := (kept.inv.checked key invite found).bounded
  once newer last between first older k policyVersion policyVersion' split joinedLast joinedFirst := by
    -- Each fact about a deed is looked up at its place in the history.
    have chain := kept.history
    rw [split] at chain
    obtain ⟨before, _, actsLast⟩ := chain.at
    obtain ⟨_, _, actsFirst⟩ := before.at
    obtain ⟨_, first⟩ := joinedFirst.joins actsFirst
    obtain ⟨_, last⟩ := joinedLast.joins actsLast
    -- The second one has found no member.
    rcases before.until (P := Invited k) first.member Invited.kept with ⟨row, stored, _⟩ | removed
    · rw [last.vacant] at stored
      cases stored
    · exact removed
  member newer deed older k policyVersion split joined := by
    have chain := kept.history
    rw [split] at chain
    obtain ⟨_, _, acts⟩ := chain.at
    obtain ⟨_, joins⟩ := joined.joins acts
    exact chain.until (P := Invited k) joins.member Invited.kept
  evidence newer deed older k policyVersion split joined := by
    have chain := kept.history
    rw [split] at chain
    obtain ⟨_, _, acts⟩ := chain.at
    obtain ⟨_, joins⟩ := joined.joins acts
    exact chain.until (P := fun t => Evidence t k policyVersion) joins.evidence evidence_kept
  already newer deed older k policyVersion split already := by
    have chain := kept.history
    rw [split] at chain
    obtain ⟨_, _, acts⟩ := chain.at
    have stays := already.stays acts
    refine ⟨stays.invites, stays.members, ?_⟩
    rcases stays.evidence with evidence | removed
    · exact (chain.until (P := fun t => Evidence t k policyVersion) evidence evidence_kept).imp_right
        Or.inl
    · exact Or.inr (Or.inr removed)
  refused i value closed refused deed member same := by
    have ended := kept.ended deed member
    rw [same, closed] at ended
    obtain rfl := Locking.Session.closed.inj ended
    obtain ⟨newer, older, split⟩ := List.append_of_mem member
    have chain := kept.history
    rw [split] at chain
    exact not_refused chain.at.2.2 refused
  linked := linked_of_chain kept.history

/-- Every interleaving of any number of calls that can fail at any moment. -/
theorem invites_redeemed [DecidableEq ι] {clock : Int} {events : List (Event ι)} {s : Server ι}
    (consistent : Consistent start)
    (ran : postgres.run (transactions calls) (System.init clock start) events = some s) :
    Redeemed calls start s :=
  redeemed_of_kept (run_kept (kept_init clock consistent) (fun _ _ past _ => body_safe past)
    (allClear_of_forall (fun _ _ _ _ => trivial) _ _) ran)

end

/-! ### Runs -/

theorem consistent_empty : Consistent {} where
  checked _ _ found := by cases found
  unique _ _ _ _ found := by cases found
  member _ _ found := by cases found

namespace Sample

def community : CommunityId := ⟨⟨1⟩⟩

def token : List UInt8 := List.replicate 32 7

def version : String := String.ofList (List.replicate 64 'a')

/-- An invite for one member is minted; the first claim joins, the second one is repeated, the
third one comes too late, and then the member is removed. -/
def sessions : List Call :=
  [.mintRelayInvite community "owner" 3600 (some 1) 0 ⟨2⟩ token,
    .claimRelayInvite community token "ann" (some version) 5,
    .claimRelayInvite community token "ann" (some version) 6,
    .claimRelayInvite community token "bob" (some version) 7,
    .removeRelayMember community "ann"]

def calls (i : Nat) : Call := sessions.getD i (.reapExpiredRelayInvites 0 [])

/-- Every session from its start to its end, one after the other. -/
def inTurn : List (Event Nat) :=
  [2, 6, 4, 3, 2].zipIdx.flatMap fun (count, i) => Event.start i :: List.replicate count (Event.go i)

/-- The member is removed while the second claim is under way. -/
def crossing : List (Event Nat) :=
  Event.start 0 :: List.replicate 2 (Event.go 0) ++
    Event.start 1 :: List.replicate 6 (Event.go 1) ++
    Event.start 2 :: List.replicate 3 (Event.go 2) ++
    Event.start 4 :: List.replicate 2 (Event.go 4) ++ [Event.go 2]

def after (events : List (Event Nat)) : Option (Server Nat) :=
  postgres.run (transactions calls) (System.init 0 {}) events

end Sample

theorem invites_redeemed_in_turn : ∃ s, Sample.after Sample.inTurn = some s ∧
    s.history.map (·.session) = [4, 2, 1, 0] ∧ Redeemed Sample.calls {} s := by
  have ends : (Sample.after Sample.inTurn).map (fun s => s.history.map (·.session)) =
      some [4, 2, 1, 0] := by decide
  obtain ⟨s, ran, order⟩ := Option.map_eq_some_iff.mp ends
  exact ⟨s, ran, order, invites_redeemed consistent_empty ran⟩

open Sample in
/-- A claim succeeds for a member whose evidence is gone when it commits. -/
theorem evidence_lost : ∃ s last older, after crossing = some s ∧ s.history = last :: older ∧
    AlreadyMember calls last (community, "ann") (some version) ∧
    ¬ Evidence last.after (community, "ann") (some version) := by
  have ends : (after crossing).map (fun s => s.history.head?.map fun deed => (deed.session, deed.value,
      (deed.after.acceptances.get ((community, "ann"), version)).isSome)) =
      some (some (2, .ok (.claimed (.alreadyMember 1 (some 0))), false)) := by decide
  obtain ⟨s, ran, last⟩ := Option.map_eq_some_iff.mp ends
  obtain ⟨deed, first, facts⟩ := Option.map_eq_some_iff.mp last
  obtain ⟨older, split⟩ := List.head?_eq_some_iff.mp first
  simp only [Prod.mk.injEq] at facts
  obtain ⟨session, value, gone⟩ := facts
  refine ⟨s, deed, older, ran, split, ⟨1, some 0, value, token, 6, by rw [session]; rfl⟩, ?_⟩
  intro evidence
  have here := evidence version rfl
  rw [gone] at here
  cases here

end Invite
