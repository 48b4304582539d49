import Buzz.Pairing.StateMachine
import Buzz.Pairing.Symbolic
import Mathlib.Tactic.Common

/-!
# Safety of one session

A trace lists the calls made on a session with their results. `Consistent` ties
the calls made so far to the session they led to: which role is in which state
only after which confirmations, that a payload has been returned only in the
states after the transfer, and that the ids of accepted events are recorded. It
is kept by every call, and the safety of a whole trace is read off it at the
place in question.
-/
namespace Pairing

open Nostr Lib

variable {P : Primitives}

/-- One call on a session. -/
structure Record (P : Primitives) where
  before : PairingSession P
  now : Instant
  call : Call P
  result : Except PairingError (Reply P)
  after : PairingSession P

namespace Record

def ok (r : Record P) : Bool := r.result.isOk

/-- A payload handler that returned a payload. -/
def returnsPayload (r : Record P) : Bool :=
  match r.call with
  | .handlePayload _ | .handleReturnPayload _ => r.ok
  | _ => false

/-- The event a message handler accepted. -/
def accepted (r : Record P) : Option P.Event := if r.ok then r.call.incoming else none

def confirmedSas (r : Record P) : Prop := r.ok = true ∧ ∃ entropy, r.call = .confirmSas entropy

def acceptedSasConfirm (r : Record P) : Prop :=
  r.ok = true ∧ ∃ event, r.call = .handleSasConfirm event

def confirmedTargetSas (r : Record P) : Prop := r.ok = true ∧ r.call = .confirmTargetSas

end Record

namespace PairingSession

def record (s : PairingSession P) (step : Instant × Call P) : Record P where
  before := s
  now := step.1
  call := step.2
  result := (s.call step.1 step.2).1
  after := (s.call step.1 step.2).2

def trace (s : PairingSession P) : List (Instant × Call P) → List (Record P)
  | [] => []
  | step :: rest => s.record step :: (s.call step.1 step.2).2.trace rest

/-- A session as the constructors return it. -/
inductive Fresh : PairingSession P → Prop where
  | source (now : Instant) (secretKey : P.SecretKey) (sessionSecret : P.Bytes32)
      (relayUrl : String) : Fresh (newSource now secretKey sessionSecret relayUrl).1
  | target {now : Instant} {secretKey : P.SecretKey} {entropy : Entropy P} {qr : QrPayload P}
      {s : PairingSession P} {offer : P.Event}
      (created : newTarget now secretKey entropy qr = .ok (s, offer)) : Fresh s

/-- A successful `handle_sas_confirm` followed by a successful `confirm_target_sas`. -/
def TargetConfirmed (past : List (Record P)) : Prop :=
  ∃ before between after, ∃ r r' : Record P, past = before ++ r :: between ++ r' :: after ∧
    r.acceptedSasConfirm ∧ r'.confirmedTargetSas

/-- The states in which no payload has been exchanged yet. -/
def beforePayload : SessionState → Bool
  | .waiting | .confirming | .awaitingConfirmation | .transferring => true
  | _ => false

def acceptedIds (past : List (Record P)) : List EventId :=
  (past.filterMap Record.accepted).map (·.id)

/-- The session agrees with the calls that led to it. -/
structure Consistent (past : List (Record P)) (s : PairingSession P) : Prop where
  peerKnown : s.peerPubkey = none → s.role = .source ∧ (s.state = .waiting ∨ s.state = .aborted)
  codeKnown : s.role = .target → s.sasCode ≠ none
  sasConfirmed : s.state = .awaitingConfirmation → ∃ r ∈ past, r.acceptedSasConfirm
  targetConfirmed : s.role = .target → s.state = .transferring → TargetConfirmed past
  sourceConfirmed : s.role = .source → s.state = .transferring → ∃ r ∈ past, r.confirmedSas
  payloadOnce : past.countP Record.returnsPayload ≤ if beforePayload s.state then 0 else 1
  recorded : ∀ id ∈ acceptedIds past, id ∈ s.processedIds
  idsNodup : (acceptedIds past).Nodup

theorem consistent_of_fresh {s : PairingSession P} (fresh : Fresh s) : Consistent [] s := by
  cases fresh with
  | source now secretKey sessionSecret relayUrl =>
    constructor <;> simp [newSource, acceptedIds, beforePayload]
  | target created =>
    simp only [newTarget, bind_eq_ok] at created
    obtain ⟨ecdh, _, offer, _, created⟩ := created
    cases created
    constructor <;> simp [acceptedIds, beforePayload]

/-! ### What every call keeps -/

theorem call_fixed (s : PairingSession P) (now : Instant) (c : Call P) :
    (s.call now c).2.role = s.role ∧ (s.call now c).2.createdAt = s.createdAt ∧
      (s.call now c).2.timeout = s.timeout := by
  rcases call_cases s now c with ⟨reply, _, accepts⟩ | ⟨e, _, rejects⟩
  · generalize (s.call now c).2 = after at accepts
    cases accepts <;> exact ⟨rfl, rfl, rfl⟩
  · generalize (s.call now c).2 = after at rejects
    cases rejects <;> exact ⟨rfl, rfl, rfl⟩

theorem call_terminal {s : PairingSession P} {now : Instant} {c : Call P}
    (terminal : s.state.isTerminal = true) :
    (s.call now c).2.state = s.state ∧
      ((s.call now c).1.isOk = true → ∃ builder, c = .signEvent builder) := by
  have notReady : ∀ {role state}, s.Ready now role state → state.isTerminal = true := by
    intro role state ready
    rw [← ready.state_eq]
    exact terminal
  rcases call_cases s now c with ⟨reply, result, accepts⟩ | ⟨e, result, rejects⟩
  · generalize (s.call now c).2 = after at accepts
    cases accepts with
    | signEvent signed => exact ⟨rfl, fun _ => ⟨_, rfl⟩⟩
    | abortUnpaired running _ => simp [terminal] at running
    | abort running _ => simp [terminal] at running
    | handleAbort running _ _ _ => simp [terminal] at running
    | _ => exact absurd (notReady ‹_›) (by decide)
  · rw [result]
    generalize (s.call now c).2 = after at rejects
    cases rejects with
    | unchanged => exact ⟨rfl, by simp [Except.isOk, Except.toBool]⟩
    | _ => exact absurd (notReady ‹_›) (by decide)

theorem ignoresExpiry_of_ok {s : PairingSession P} {now : Instant} {c : Call P}
    (expired : s.isExpired now = true) (ok : (s.call now c).1.isOk = true) :
    c.ignoresExpiry = true := by
  have late : ∀ {role state}, ¬ s.Ready now role state := by
    intro role state ready
    simp [ready.inTime] at expired
  rcases call_cases s now c with ⟨reply, _, accepts⟩ | ⟨e, result, _⟩
  · generalize (s.call now c).2 = after at accepts
    cases accepts with
    | abortUnpaired _ _ => rfl
    | abort _ _ => rfl
    | handleAbort _ _ _ _ => rfl
    | signEvent _ => rfl
    | _ => exact absurd ‹_› late
  · simp [result, Except.isOk, Except.toBool] at ok

/-! ### One call keeps the session consistent -/

section Step

variable {past : List (Record P)} {s after : PairingSession P} {now : Instant} {c : Call P}
  {reply : Reply P}

theorem peer_of_ready (consistent : Consistent past s) {role : Role} {state : SessionState}
    (ready : s.Ready now role state) (waiting : state ≠ .waiting) (aborted : state ≠ .aborted) :
    s.peerPubkey ≠ none := by
  intro unknown
  rcases (consistent.peerKnown unknown).2 with isWaiting | isAborted
  · exact waiting (ready.state_eq.symm.trans isWaiting)
  · exact aborted (ready.state_eq.symm.trans isAborted)

private theorem peerKnown_accepts (consistent : Consistent past s)
    (accepts : s.Accepts now c reply after) (unknown : after.peerPubkey = none) :
    after.role = .source ∧ (after.state = .waiting ∨ after.state = .aborted) := by
  cases accepts with
  | handleOffer _ _ _ => cases unknown
  | abortUnpaired _ _ => exact ⟨(consistent.peerKnown unknown).1, Or.inr rfl⟩
  | abort _ _ => exact ⟨(consistent.peerKnown unknown).1, Or.inr rfl⟩
  | handleAbort _ _ _ _ => exact ⟨(consistent.peerKnown unknown).1, Or.inr rfl⟩
  | signEvent _ => exact consistent.peerKnown unknown
  | _ =>
    have known := peer_of_ready consistent ‹s.Ready now _ _› (by decide) (by decide)
    exact absurd unknown known

private theorem peerKnown_rejects (consistent : Consistent past s)
    (rejects : s.Rejects now c after) (unknown : after.peerPubkey = none) :
    after.role = .source ∧ (after.state = .waiting ∨ after.state = .aborted) := by
  cases rejects with
  | unchanged => exact consistent.peerKnown unknown
  | handleOffer _ => cases unknown
  | _ =>
    have known := peer_of_ready consistent ‹s.Ready now _ _› (by decide) (by decide)
    exact absurd unknown known

private theorem codeKnown_accepts (consistent : Consistent past s)
    (accepts : s.Accepts now c reply after) (target : after.role = .target) :
    after.sasCode ≠ none := by
  cases accepts with
  | handleOffer _ _ _ => exact Option.some_ne_none _
  | _ => exact consistent.codeKnown target

private theorem codeKnown_rejects (consistent : Consistent past s)
    (rejects : s.Rejects now c after) (target : after.role = .target) : after.sasCode ≠ none := by
  cases rejects <;> exact consistent.codeKnown target

/-- A call that ends in `AwaitingConfirmation` or `Transferring` was there before or
is the one confirmation that leads there. -/
private theorem confirmed_accepts (accepts : s.Accepts now c reply after) :
    (after.state = .awaitingConfirmation →
      s.state = .awaitingConfirmation ∨ ∃ event, c = .handleSasConfirm event) ∧
    (after.state = .transferring →
      s.state = .transferring ∨
        (s.role = .source ∧ ∃ entropy, c = .confirmSas entropy) ∨
        (s.role = .target ∧ s.state = .awaitingConfirmation ∧ c = .confirmTargetSas)) := by
  cases accepts with
  | handleSasConfirm _ _ _ _ _ _ _ =>
    exact ⟨fun _ => Or.inr ⟨_, rfl⟩, fun wrong => by simp [accepting, recordEvent] at wrong⟩
  | confirmSas ready _ _ _ =>
    exact ⟨fun wrong => by simp at wrong, fun _ => Or.inr (Or.inl ⟨ready.role_eq, _, rfl⟩)⟩
  | confirmTargetSas ready =>
    exact ⟨fun wrong => by simp at wrong,
      fun _ => Or.inr (Or.inr ⟨ready.role_eq, ready.state_eq, rfl⟩)⟩
  | signEvent _ => exact ⟨Or.inl, Or.inl⟩
  | sendSourceComplete _ _ =>
    constructor <;> intro wrong <;> dsimp only at wrong <;> split at wrong <;> cases wrong
  | _ => constructor <;> intro wrong <;> simp [accepting, recordEvent] at wrong

private theorem confirmed_rejects (consistent : Consistent past s)
    (rejects : s.Rejects now c after) :
    (after.state = .awaitingConfirmation → s.state = .awaitingConfirmation) ∧
      (after.state = .transferring → s.state = .transferring) := by
  cases rejects with
  | unchanged => exact ⟨id, id⟩
  | handleOffer _ => exact ⟨id, id⟩
  | sasCodeMissing ready missing => exact absurd missing (consistent.codeKnown ready.role_eq)
  | _ => constructor <;> intro wrong <;> simp at wrong

/-- Payload handlers start before the payload and end after it; nothing goes back. -/
private theorem beforePayload_accepts (accepts : s.Accepts now c reply after) :
    (beforePayload after.state = true → beforePayload s.state = true) ∧
      (∀ event, c = .handlePayload event ∨ c = .handleReturnPayload event →
        beforePayload s.state = true ∧ beforePayload after.state = false) := by
  cases accepts with
  | handleReturnPayload ready _ _ =>
    exact ⟨fun wrong => by simp [accepting, recordEvent, beforePayload] at wrong,
      fun _ _ => ⟨by rw [ready.state_eq]; rfl, rfl⟩⟩
  | handlePayload ready _ _ =>
    exact ⟨fun wrong => by simp [accepting, recordEvent, beforePayload] at wrong,
      fun _ _ => ⟨by rw [ready.state_eq]; rfl, rfl⟩⟩
  | handleOffer ready _ _ =>
    exact ⟨fun _ => by rw [ready.state_eq]; rfl, fun _ wrong => by simp at wrong⟩
  | confirmSas ready _ _ _ =>
    exact ⟨fun _ => by rw [ready.state_eq]; rfl, fun _ wrong => by simp at wrong⟩
  | handleSasConfirm ready _ _ _ _ _ _ =>
    exact ⟨fun _ => by rw [ready.state_eq]; rfl, fun _ wrong => by simp at wrong⟩
  | confirmTargetSas ready =>
    exact ⟨fun _ => by rw [ready.state_eq]; rfl, fun _ wrong => by simp at wrong⟩
  | signEvent _ => exact ⟨id, fun _ wrong => by simp at wrong⟩
  | sendSourceComplete _ _ =>
    refine ⟨fun wrong => ?_, fun _ wrong => by simp at wrong⟩
    dsimp only at wrong
    split at wrong <;> simp [beforePayload] at wrong
  | _ =>
    exact ⟨fun wrong => by simp [accepting, recordEvent, beforePayload] at wrong,
      fun _ wrong => by simp at wrong⟩

private theorem beforePayload_rejects (rejects : s.Rejects now c after)
    (before : beforePayload after.state = true) : beforePayload s.state = true := by
  cases rejects with
  | unchanged => exact before
  | handleOffer _ => exact before
  | sasCodeMissing ready _ => rw [ready.state_eq]; rfl
  | _ => simp [beforePayload] at before

/-- An accepted event is new, comes from the peer the session ends up with, which
is the one it had unless the event is the offer, and is recorded. -/
theorem accepts_incoming (consistent : Consistent past s) (accepts : s.Accepts now c reply after)
    {event : P.Event} (incoming : c.incoming = some event) :
    event.id ∉ s.processedIds ∧ after.processedIds = insert event.id s.processedIds ∧
      after.peerPubkey = some event.pubkey ∧
      (c = .handleOffer event ∨ s.peerPubkey = some event.pubkey) := by
  have pinned : ∀ {role state}, s.Ready now role state → state ≠ .waiting → state ≠ .aborted →
      (∀ expected ∈ s.peerPubkey, event.pubkey = expected) → s.peerPubkey = some event.pubkey := by
    intro role state ready waiting aborted peer
    obtain ⟨known, isPeer⟩ := Option.ne_none_iff_exists'.mp
      (peer_of_ready consistent ready waiting aborted)
    rw [isPeer, peer known isPeer]
  cases accepts with
  | handleOffer ready carries shared =>
    cases incoming
    exact ⟨carries.fresh, rfl, rfl, Or.inl rfl⟩
  | handleReturnPayload ready peer carries =>
    cases incoming
    have isPeer := pinned ready (by decide) (by decide) peer
    exact ⟨carries.fresh, rfl, isPeer, Or.inr isPeer⟩
  | handleComplete ready peer carries =>
    cases incoming
    have isPeer := pinned ready (by decide) (by decide) peer
    exact ⟨carries.fresh, rfl, isPeer, Or.inr isPeer⟩
  | handleSasConfirm ready peer carries _ _ _ _ =>
    cases incoming
    have isPeer := pinned ready (by decide) (by decide) peer
    exact ⟨carries.fresh, rfl, isPeer, Or.inr isPeer⟩
  | handlePayload ready peer carries =>
    cases incoming
    have isPeer := pinned ready (by decide) (by decide) peer
    exact ⟨carries.fresh, rfl, isPeer, Or.inr isPeer⟩
  | handleAbort running known peer carries =>
    cases incoming
    obtain ⟨expected, isPeer⟩ := Option.isSome_iff_exists.mp (by simpa using known)
    have same : s.peerPubkey = some event.pubkey := by rw [isPeer, peer expected isPeer]
    exact ⟨carries.fresh, rfl, same, Or.inr same⟩
  | _ => cases incoming

private theorem processed_accepts (accepts : s.Accepts now c reply after) :
    s.processedIds ⊆ after.processedIds := by
  cases accepts with
  | handleOffer _ _ _ => exact Finset.subset_insert _ _
  | handleReturnPayload _ _ _ => exact Finset.subset_insert _ _
  | handleComplete _ _ _ => exact Finset.subset_insert _ _
  | handleSasConfirm _ _ _ _ _ _ _ => exact Finset.subset_insert _ _
  | handlePayload _ _ _ => exact Finset.subset_insert _ _
  | handleAbort _ _ _ _ => exact Finset.subset_insert _ _
  | _ => exact Finset.Subset.refl _

private theorem processed_rejects (rejects : s.Rejects now c after) :
    s.processedIds ⊆ after.processedIds := by
  cases rejects with
  | sasCodeMissing _ _ => exact Finset.subset_insert _ _
  | _ => exact Finset.Subset.refl _

private theorem consistent_rejects (consistent : Consistent past s)
    (rejects : s.Rejects now c after) {r : Record P} (failed : r.ok = false) :
    Consistent (past ++ [r]) after := by
  have sameIds : acceptedIds (past ++ [r]) = acceptedIds past := by
    simp [acceptedIds, Record.accepted, failed]
  have samePayloads : (past ++ [r]).countP Record.returnsPayload =
      past.countP Record.returnsPayload := by
    have none_returned : r.returnsPayload = false := by
      unfold Record.returnsPayload
      split <;> simp [failed]
    simp [none_returned]
  obtain ⟨awaiting, transferring⟩ := confirmed_rejects consistent rejects
  have sameRole : after.role = s.role := by cases rejects <;> rfl
  constructor
  · exact peerKnown_rejects consistent rejects
  · exact codeKnown_rejects consistent rejects
  · intro reached
    obtain ⟨r', member, confirmed⟩ := consistent.sasConfirmed (awaiting reached)
    exact ⟨r', List.mem_append_left _ member, confirmed⟩
  · intro target reached
    obtain ⟨before, between, rest, x, y, split, both⟩ :=
      consistent.targetConfirmed (sameRole ▸ target) (transferring reached)
    exact ⟨before, between, rest ++ [r], x, y, by simp [split], both⟩
  · intro source reached
    obtain ⟨r', member, confirmed⟩ :=
      consistent.sourceConfirmed (sameRole ▸ source) (transferring reached)
    exact ⟨r', List.mem_append_left _ member, confirmed⟩
  · rw [samePayloads]
    have atMost := consistent.payloadOnce
    split
    next early => simpa [beforePayload_rejects rejects early] using atMost
    next =>
      split at atMost
      next => exact atMost.trans (Nat.zero_le 1)
      next => exact atMost
  · rw [sameIds]
    exact fun id member => processed_rejects rejects (consistent.recorded id member)
  · rw [sameIds]
    exact consistent.idsNodup

private theorem consistent_accepts (consistent : Consistent past s)
    (accepts : s.Accepts now c reply after) {r : Record P} (succeeded : r.ok = true)
    (isCall : r.call = c) : Consistent (past ++ [r]) after := by
  have ids : acceptedIds (past ++ [r]) =
      acceptedIds past ++ (c.incoming.map (·.id)).toList := by
    simp only [acceptedIds, List.filterMap_append, List.map_append, Record.accepted, succeeded,
      if_true, isCall, List.filterMap_cons, List.filterMap_nil]
    cases c.incoming <;> rfl
  obtain ⟨awaiting, transferring⟩ := confirmed_accepts accepts
  obtain ⟨early, exchanged⟩ := beforePayload_accepts accepts
  have sameRole : after.role = s.role := by cases accepts <;> rfl
  constructor
  · exact peerKnown_accepts consistent accepts
  · exact codeKnown_accepts consistent accepts
  · intro reached
    rcases awaiting reached with already | ⟨event, rfl⟩
    · obtain ⟨r', member, confirmed⟩ := consistent.sasConfirmed already
      exact ⟨r', List.mem_append_left _ member, confirmed⟩
    · exact ⟨r, by simp, succeeded, event, isCall⟩
  · intro target reached
    rcases transferring reached with already | ⟨source, _⟩ | ⟨_, awaited, rfl⟩
    · obtain ⟨before, between, rest, x, y, split, both⟩ :=
        consistent.targetConfirmed (sameRole ▸ target) already
      exact ⟨before, between, rest ++ [r], x, y, by simp [split], both⟩
    · rw [sameRole, source] at target
      cases target
    · -- the confirmation of the user follows the accepted sas-confirm
      obtain ⟨x, member, confirmed⟩ := consistent.sasConfirmed awaited
      obtain ⟨before, between, split⟩ := List.append_of_mem member
      exact ⟨before, between, [], x, r, by simp [split], confirmed, succeeded, isCall⟩
  · intro source reached
    rcases transferring reached with already | ⟨_, entropy, rfl⟩ | ⟨target, _⟩
    · obtain ⟨r', member, confirmed⟩ := consistent.sourceConfirmed (sameRole ▸ source) already
      exact ⟨r', List.mem_append_left _ member, confirmed⟩
    · exact ⟨r, by simp, succeeded, entropy, isCall⟩
    · rw [sameRole, target] at source
      cases source
  · have atMost := consistent.payloadOnce
    rw [List.countP_append, List.countP_singleton]
    by_cases returned : r.returnsPayload = true
    · -- a payload handler: none before, and the session has left the early states
      have handler : ∃ event, c = .handlePayload event ∨ c = .handleReturnPayload event := by
        unfold Record.returnsPayload at returned
        rw [isCall] at returned
        split at returned
        next event => exact ⟨event, Or.inl rfl⟩
        next event => exact ⟨event, Or.inr rfl⟩
        next => cases returned
      obtain ⟨event, isHandler⟩ := handler
      obtain ⟨was, now⟩ := exchanged event isHandler
      simp only [was, if_true] at atMost
      simp only [returned, if_true, now, Bool.false_eq_true, if_false]
      omega
    · simp only [returned, Bool.false_eq_true, if_false, Nat.add_zero]
      split
      next still => simpa [early still] using atMost
      next =>
        split at atMost
        next => exact atMost.trans (Nat.zero_le 1)
        next => exact atMost
  · intro id member
    rw [ids, List.mem_append] at member
    rcases member with old | new
    · exact processed_accepts accepts (consistent.recorded id old)
    · obtain ⟨event, incoming, rfl⟩ : ∃ event, c.incoming = some event ∧ event.id = id := by
        simpa using new
      rw [(accepts_incoming consistent accepts incoming).2.1]
      exact Finset.mem_insert_self _ _
  · rw [ids]
    cases incoming : c.incoming with
    | none => simpa using consistent.idsNodup
    | some event =>
      have fresh := (accepts_incoming consistent accepts incoming).1
      simp only [Option.map_some, Option.toList_some]
      refine List.nodup_append.mpr ⟨consistent.idsNodup, by simp, ?_⟩
      intro id old id' new same
      rw [List.mem_singleton] at new
      exact fresh (new ▸ same ▸ consistent.recorded id old)

theorem Consistent.call (consistent : Consistent past s) (step : Instant × Call P) :
    Consistent (past ++ [s.record step]) (s.call step.1 step.2).2 := by
  rcases call_cases s step.1 step.2 with ⟨reply, result, accepts⟩ | ⟨e, result, rejects⟩
  · exact consistent_accepts consistent accepts
      (by simp [record, Record.ok, result, Except.isOk, Except.toBool]) rfl
  · exact consistent_rejects consistent rejects
      (by simp [record, Record.ok, result, Except.isOk, Except.toBool])

end Step

/-! ### Traces -/

/-- At every place of a trace, the calls before it are consistent with the session
the call there is made on, which has the role and the clock of the first. -/
theorem consistent_at {past : List (Record P)} {s : PairingSession P}
    (consistent : Consistent past s) {steps : List (Instant × Call P)}
    {earlier later : List (Record P)} {r : Record P}
    (split : s.trace steps = earlier ++ r :: later) :
    Consistent (past ++ earlier) r.before ∧ r = r.before.record (r.now, r.call) ∧
      r.before.role = s.role ∧ r.before.createdAt = s.createdAt ∧
      r.before.timeout = s.timeout ∧ ∃ rest, later = r.after.trace rest := by
  induction steps generalizing past s earlier with
  | nil => simp [trace] at split
  | cons step rest ih =>
    cases earlier with
    | nil =>
      obtain ⟨rfl, rfl⟩ : s.record step = r ∧ _ := by simpa [trace] using split
      rw [List.append_nil]
      exact ⟨consistent, rfl, rfl, rfl, rfl, rest, rfl⟩
    | cons first earlier =>
      obtain ⟨rfl, tail⟩ : s.record step = first ∧ _ := by simpa [trace] using split
      obtain ⟨sameRole, sameCreated, sameTimeout⟩ := call_fixed s step.1 step.2
      have inner := ih (consistent.call step) tail
      rw [sameRole, sameCreated, sameTimeout] at inner
      simpa using inner

theorem consistent_trace {past : List (Record P)} {s : PairingSession P}
    (consistent : Consistent past s) (steps : List (Instant × Call P)) :
    ∃ final, Consistent (past ++ s.trace steps) final := by
  induction steps generalizing past s with
  | nil => exact ⟨s, by simpa [trace] using consistent⟩
  | cons step rest ih =>
    obtain ⟨final, all⟩ := ih (consistent.call step)
    exact ⟨final, by simpa [trace] using all⟩

theorem terminal_trace {s : PairingSession P} (terminal : s.state.isTerminal = true)
    (steps : List (Instant × Call P)) : ∀ r ∈ s.trace steps,
      r.after.state = s.state ∧ (r.ok = true → ∃ builder, r.call = .signEvent builder) := by
  induction steps generalizing s with
  | nil => simp [trace]
  | cons step rest ih =>
    obtain ⟨same, only⟩ : (s.call step.1 step.2).2.state = s.state ∧ _ := call_terminal terminal
    intro r member
    rcases List.mem_cons.mp member with rfl | later
    · exact ⟨same, only⟩
    · have inner := ih (same ▸ terminal) r later
      rwa [same] at inner

/-- What the public methods guarantee on a trace of a session. -/
structure Safe (s : PairingSession P) (records : List (Record P)) : Prop where
  /-- At most one call returns a payload. -/
  onePayload : records.countP Record.returnsPayload ≤ 1
  /-- The target returns one only after `handle_sas_confirm` and `confirm_target_sas`. -/
  targetConfirmed : s.role = .target → ∀ earlier (r : Record P) later, records = earlier ++ r :: later →
    r.returnsPayload = true → TargetConfirmed earlier
  /-- The source returns one only after `confirm_sas`. -/
  sourceConfirmed : s.role = .source → ∀ earlier (r : Record P) later, records = earlier ++ r :: later →
    r.returnsPayload = true → ∃ r' ∈ earlier, r'.confirmedSas
  /-- An accepted event comes from the pinned peer, or is the offer that pins it. -/
  fromPeer : ∀ r ∈ records, ∀ event, r.accepted = some event →
    r.after.peerPubkey = some event.pubkey ∧
      (r.call = .handleOffer event ∨ r.before.peerPubkey = some event.pubkey)
  /-- No event id is accepted twice. -/
  idsNodup : (acceptedIds records).Nodup
  /-- After a call that ends in a final state, no call changes the state and only
  `sign_event` succeeds. -/
  absorbing : ∀ earlier (r : Record P) later, records = earlier ++ r :: later →
    r.after.state.isTerminal = true → ∀ r' ∈ later, r'.after.state = r.after.state ∧
      (r'.ok = true → ∃ builder, r'.call = .signEvent builder)
  /-- Once the session has expired, only `abort`, `handle_abort` and `sign_event`
  succeed. -/
  expiry : ∀ r ∈ records, ∀ t ≤ r.now, s.isExpired t = true → r.ok = true →
    r.call.ignoresExpiry = true

private theorem returnsPayload_state {past : List (Record P)} {r : Record P}
    (isRecord : r = r.before.record (r.now, r.call)) (returned : r.returnsPayload = true)
    (consistent : Consistent past r.before) :
    (r.before.role = .target → TargetConfirmed past) ∧
      (r.before.role = .source → ∃ r' ∈ past, r'.confirmedSas) := by
  have succeeded : (r.before.call r.now r.call).1.isOk = true := by
    have ok : r.ok = true := by
      unfold Record.returnsPayload at returned
      split at returned
      · exact returned
      · exact returned
      · cases returned
    rw [isRecord] at ok
    exact ok
  rcases call_cases r.before r.now r.call with ⟨reply, _, accepts⟩ | ⟨e, result, _⟩
  · -- both handlers require the state `Transferring`
    have transferring : r.before.state = .transferring := by
      unfold Record.returnsPayload at returned
      generalize (r.before.call r.now r.call).2 = after at accepts
      generalize r.call = c at accepts returned
      cases accepts with
      | handlePayload ready _ _ => exact ready.state_eq
      | handleReturnPayload ready _ _ => exact ready.state_eq
      | _ => cases returned
    exact ⟨fun target => consistent.targetConfirmed target transferring,
      fun source => consistent.sourceConfirmed source transferring⟩
  · simp [result, Except.isOk, Except.toBool] at succeeded

/-- Every sequence of calls on a session of either role is safe. -/
theorem safe_trace (s : PairingSession P) (fresh : Fresh s) (steps : List (Instant × Call P)) :
    Safe s (s.trace steps) := by
  have start := consistent_of_fresh fresh
  obtain ⟨final, all⟩ := consistent_trace start steps
  rw [List.nil_append] at all
  have at_ : ∀ {earlier} {r : Record P} {later}, s.trace steps = earlier ++ r :: later →
      Consistent earlier r.before ∧ r = r.before.record (r.now, r.call) ∧
        r.before.role = s.role ∧ r.before.createdAt = s.createdAt ∧
        r.before.timeout = s.timeout ∧ ∃ rest, later = r.after.trace rest := by
    intro earlier r later split
    simpa using consistent_at start split
  constructor
  · have atMost := all.payloadOnce
    split at atMost
    next => exact atMost.trans (Nat.zero_le 1)
    next => exact atMost
  · intro target earlier r later split returned
    obtain ⟨consistent, isRecord, role, _⟩ := at_ split
    exact (returnsPayload_state isRecord returned consistent).1 (role.trans target)
  · intro source earlier r later split returned
    obtain ⟨consistent, isRecord, role, _⟩ := at_ split
    exact (returnsPayload_state isRecord returned consistent).2 (role.trans source)
  · intro r member event accepted
    obtain ⟨earlier, later, split⟩ := List.append_of_mem member
    obtain ⟨consistent, isRecord, _⟩ := at_ split
    have ok : r.ok = true ∧ r.call.incoming = some event := by
      unfold Record.accepted at accepted
      split at accepted
      next ok => exact ⟨ok, accepted⟩
      next => cases accepted
    have succeeded : (r.before.call r.now r.call).1.isOk = true := by
      rw [← ok.1, Record.ok, isRecord]
      rfl
    rcases call_cases r.before r.now r.call with ⟨reply, _, accepts⟩ | ⟨e, result, _⟩
    · have sameAfter : r.after = (r.before.call r.now r.call).2 := by rw [isRecord]; rfl
      obtain ⟨_, _, pinned, origin⟩ := accepts_incoming consistent accepts ok.2
      exact ⟨sameAfter ▸ pinned, origin⟩
    · simp [result, Except.isOk, Except.toBool] at succeeded
  · exact all.idsNodup
  · intro earlier r later split terminal r' member
    obtain ⟨_, _, _, _, _, rest, rfl⟩ := at_ split
    exact terminal_trace terminal rest r' member
  · intro r member t before expired ok
    obtain ⟨earlier, later, split⟩ := List.append_of_mem member
    obtain ⟨_, isRecord, _, sameCreated, sameTimeout, _⟩ := at_ split
    have expiredThen : r.before.isExpired r.now = true := by
      simp only [isExpired, decide_eq_true_eq, sameCreated, sameTimeout] at expired ⊢
      exact Nat.lt_of_lt_of_le expired (Nat.sub_le_sub_right before _)
    rw [isRecord] at ok
    exact ignoresExpiry_of_ok expiredThen ok

/-- A source that accepts the offer of key 2, and ignores an abort by key 3. -/
theorem safe_trace_offer_and_stray_abort :
    let steps : List (Instant × Call termPrimitives) :=
      [(1, .handleOffer (termEvent 2 1 (.offer (String.ofList ['d', 's']) 1))),
        (2, .handleAbort (termEvent 3 1 (.abort .userDenied)))]
    Safe termSource (termSource.trace steps) ∧
      (termSource.trace steps).map Record.ok = [true, false] := by
  intro steps
  exact ⟨safe_trace termSource (.source 0 _ _ _) steps, by decide⟩

end PairingSession

end Pairing
