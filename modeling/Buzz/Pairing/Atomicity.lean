import Buzz.Pairing.Safety

/-!
# Failed calls

A call that fails leaves the session as it was. Two messages are meant to do more: a `sas-confirm`
with the wrong transcript hash and a `complete` that reports a failure abort the session, and
change nothing else in it.
-/
namespace Pairing

open Nostr Lib

variable {P : Primitives}

namespace PairingSession

/-- The event passes all checks of a message handler and carries the message. -/
structure Delivers (s : PairingSession P) (now : Instant) (role : Role) (state : SessionState)
    (event : P.Event) (message : PairingMessage) : Prop where
  ready : s.Ready now role state
  valid : s.validateEventFromPeer event = .ok ()
  message : s.decryptMessage event = .ok message

/-- The transcript hash is not that of the session. -/
def Mismatches (s : PairingSession P) (receivedHash : String) : Prop :=
  ∃ sasInput peer, s.sasInput = some sasInput ∧ s.peerPubkey = some peer ∧
    P.hexDecode receivedHash ≠
      some (P.deriveTranscriptHash s.sessionId peer s.pubkey sasInput s.sessionSecret)

/-- The calls that abort the session with an error. -/
def Aborts (s : PairingSession P) (now : Instant) : Call P → Prop
  | .handleSasConfirm event => ∃ receivedHash,
      s.Delivers now .target .confirming event (.sasConfirm receivedHash) ∧
        s.Mismatches receivedHash
  | .handleComplete event => s.Delivers now .source .payloadExchanged event (.complete false)
  | _ => False

end PairingSession

/-- A failing call aborts the session, if that is what it is for, or leaves it as it was. -/
structure Record.Atomic (r : Record P) : Prop where
  aborts : r.before.Aborts r.now r.call →
    r.ok = false ∧ r.after = { r.before with state := .aborted }
  unchanged : r.ok = false → ¬ r.before.Aborts r.now r.call → r.after = r.before
  /-- No failing call marks an event as processed or pins a peer. -/
  forgets : r.ok = false → r.after.processedIds = r.before.processedIds ∧
    r.after.peerPubkey = r.before.peerPubkey

namespace PairingSession

variable {s : PairingSession P} {now : Instant} {event : P.Event}

private theorem settle_ok {α : Type} {body : Except PairingError (Except PairingError α × PairingSession P)}
    {outcome : Except PairingError α × PairingSession P} (passed : body = .ok outcome) :
    s.settle body = outcome := by
  rw [passed]
  rfl

private theorem settle_cases {α : Type} (s : PairingSession P)
    (body : Except PairingError (Except PairingError α × PairingSession P)) :
    (s.settle body).2 = s ∨ ∃ outcome, body = .ok outcome ∧ s.settle body = outcome := by
  cases checked : body with
  | error e => exact Or.inl rfl
  | ok outcome => exact Or.inr ⟨outcome, rfl, rfl⟩

private theorem ready_of_checks {role : Role} {state : SessionState} {u v w : Unit}
    (inTime : s.checkExpired now = .ok u) (hasState : s.expectState state = .ok v)
    (hasRole : s.expectRole role = .ok w) : s.Ready now role state :=
  ⟨ensure_eq_ok.mp inTime, ensure_eq_ok.mp hasState, ensure_eq_ok.mp hasRole⟩

private theorem Delivers.checks {role : Role} {state : SessionState} {message : PairingMessage}
    (delivers : s.Delivers now role state event message) : s.checkExpired now = .ok () ∧
      s.expectState state = .ok () ∧ s.expectRole role = .ok () :=
  ⟨ensure_eq_ok.mpr delivers.ready.inTime, ensure_eq_ok.mpr delivers.ready.state_eq,
    ensure_eq_ok.mpr delivers.ready.role_eq⟩

/-! ### The three methods that change the session before they fail -/

/-- Where the key agreement does not fail, the peer is pinned by an accepted offer only. -/
private theorem handleOffer_failed
    (agreement : P.verify event = .ok () → (P.generateSharedKey s.secretKey event.pubkey).isOk)
    (failed : (s.handleOffer now event).1.isOk = false) : (s.handleOffer now event).2 = s := by
  unfold handleOffer at failed ⊢
  rcases settle_cases s _ with unchanged | ⟨outcome, passed, settled⟩
  · exact unchanged
  · rw [settled] at failed
    simp only [bind_eq_ok] at passed
    obtain ⟨_, _, _, _, _, _, _, basics, message, _, rest⟩ := passed
    simp only [validateEventBasics, bind_eq_ok, mapError_eq_ok] at basics
    obtain ⟨_, verified, _⟩ := basics
    obtain ⟨ecdh, shared⟩ := exists_of_isOk (agreement verified)
    cases message with
    | offer sessionId version =>
      simp only [bind_eq_ok] at rest
      obtain ⟨_, _, _, _, rest⟩ := rest
      rw [shared] at rest
      cases rest
      cases failed
    | _ => cases rest

private theorem handleSasConfirm_mismatch {receivedHash : String}
    (delivers : s.Delivers now .target .confirming event (.sasConfirm receivedHash))
    (mismatches : s.Mismatches receivedHash) :
    s.handleSasConfirm now event = (.error .transcriptMismatch, { s with state := .aborted }) := by
  obtain ⟨inTime, hasState, hasRole⟩ := delivers.checks
  obtain ⟨sasInput, peer, input, known, differs⟩ := mismatches
  apply settle_ok
  simp only [inTime, hasState, hasRole, delivers.valid, delivers.message, input, known, okOr,
    if_neg differs, bind, Except.bind, pure, Except.pure]

private theorem handleSasConfirm_failed (shown : s.role = .target → s.sasCode ≠ none)
    (failed : (s.handleSasConfirm now event).1.isOk = false) :
    (s.handleSasConfirm now event).2 = s ∨ s.Aborts now (.handleSasConfirm event) := by
  unfold handleSasConfirm at failed ⊢
  rcases settle_cases s _ with unchanged | ⟨outcome, passed, settled⟩
  · exact Or.inl unchanged
  · right
    rw [settled] at failed
    simp only [bind_eq_ok] at passed
    obtain ⟨_, inTime, _, hasState, _, hasRole, _, valid, message, decrypted, rest⟩ := passed
    have ready := ready_of_checks inTime hasState hasRole
    cases message with
    | sasConfirm receivedHash =>
      simp only [bind_eq_ok, okOr_eq_ok] at rest
      obtain ⟨sasInput, input, peer, known, rest⟩ := rest
      split at rest
      next =>
        -- the code is there, so the event is accepted
        obtain ⟨code, present⟩ := Option.ne_none_iff_exists'.mp (shown ready.role_eq)
        cases rest
        simp [okOr, present, Except.map, Except.isOk, Except.toBool] at failed
      next differs =>
        exact ⟨receivedHash, ⟨ready, valid, decrypted⟩, sasInput, peer, input, known, differs⟩
    | _ => cases rest

private theorem handleComplete_unsuccessful
    (delivers : s.Delivers now .source .payloadExchanged event (.complete false)) :
    s.handleComplete now event =
      (.error (.unexpectedMessage "complete(success=true)" "complete(success=false)"),
        { s with state := .aborted }) := by
  obtain ⟨inTime, hasState, hasRole⟩ := delivers.checks
  apply settle_ok
  simp only [inTime, hasState, hasRole, delivers.valid, delivers.message, bind, Except.bind, pure,
    Except.pure]

private theorem handleComplete_failed (failed : (s.handleComplete now event).1.isOk = false) :
    (s.handleComplete now event).2 = s ∨ s.Aborts now (.handleComplete event) := by
  unfold handleComplete at failed ⊢
  rcases settle_cases s _ with unchanged | ⟨outcome, passed, settled⟩
  · exact Or.inl unchanged
  · right
    rw [settled] at failed
    simp only [bind_eq_ok] at passed
    obtain ⟨_, inTime, _, hasState, _, hasRole, _, valid, message, decrypted, rest⟩ := passed
    cases message with
    | complete success =>
      cases success with
      | true =>
        cases rest
        cases failed
      | false => exact ⟨ready_of_checks inTime hasState hasRole, valid, decrypted⟩
    | _ => cases rest

/-! ### All calls -/

private theorem isOk_replying {α : Type} (f : α → Reply P)
    (outcome : Except PairingError α × PairingSession P) :
    (replying f outcome).1.isOk = outcome.1.isOk := by
  unfold replying
  cases outcome.1 <;> rfl

private theorem aborts_call {c : Call P} (aborts : s.Aborts now c) :
    (s.call now c).1.isOk = false ∧ (s.call now c).2 = { s with state := .aborted } := by
  cases c with
  | handleSasConfirm event =>
    obtain ⟨receivedHash, delivers, mismatches⟩ := aborts
    rw [call, isOk_replying, replying, handleSasConfirm_mismatch delivers mismatches]
    exact ⟨rfl, rfl⟩
  | handleComplete event =>
    rw [call, isOk_replying, replying, handleComplete_unsuccessful aborts]
    exact ⟨rfl, rfl⟩
  | _ => exact aborts.elim

private theorem call_failed {c : Call P} (shown : s.role = .target → s.sasCode ≠ none)
    (agreement : ∀ event, P.verify event = .ok () →
      (P.generateSharedKey s.secretKey event.pubkey).isOk)
    (failed : (s.call now c).1.isOk = false) : (s.call now c).2 = s ∨ s.Aborts now c := by
  cases c with
  | handleOffer event =>
    rw [call, isOk_replying] at failed
    exact Or.inl (handleOffer_failed (agreement event) failed)
  | handleSasConfirm event =>
    rw [call, isOk_replying] at failed
    exact handleSasConfirm_failed shown failed
  | handleComplete event =>
    rw [call, isOk_replying] at failed
    exact handleComplete_failed failed
  | _ =>
    -- the other methods change the session in their last step only
    left
    rcases call_cases s now _ with ⟨reply, result, -⟩ | ⟨e, -, rejects⟩
    · rw [result] at failed
      cases failed
    · generalize (s.call now _).2 = after at rejects
      cases rejects
      rfl

theorem atomic_record (shown : s.role = .target → s.sasCode ≠ none)
    (agreement : ∀ event, P.verify event = .ok () →
      (P.generateSharedKey s.secretKey event.pubkey).isOk)
    (step : Instant × Call P) : (s.record step).Atomic where
  aborts := aborts_call
  unchanged failed survives := (call_failed shown agreement failed).resolve_right survives
  forgets failed := by
    rcases call_failed shown agreement failed with unchanged | aborts
    · exact ⟨congrArg processedIds unchanged, congrArg peerPubkey unchanged⟩
    · have after := (aborts_call aborts).2
      constructor
      · exact (congrArg processedIds after :)
      · exact (congrArg peerPubkey after :)

/-- Every call on a session, from its construction on, fails atomically. -/
theorem atomic_trace (agreement : ∀ secretKey (event : P.Event), P.verify event = .ok () →
      (P.generateSharedKey secretKey event.pubkey).isOk)
    (s : PairingSession P) (fresh : Fresh s) (steps : List (Instant × Call P)) :
    ∀ r ∈ s.trace steps, r.Atomic := by
  intro r member
  obtain ⟨earlier, later, split⟩ := List.append_of_mem member
  obtain ⟨consistent, isRecord, -⟩ := consistent_at (consistent_of_fresh fresh) split
  rw [isRecord]
  exact atomic_record consistent.codeKnown (agreement _) _

/-- The source ignores an abort that comes before the offer. -/
theorem atomic_trace_early_abort :
    let steps : List (Instant × Call termPrimitives) :=
      [(1, .handleAbort (termEvent 2 1 (.abort .userDenied))),
        (2, .handleOffer (termEvent 2 1 (.offer (String.ofList ['d', 's']) 1)))]
    (∀ r ∈ termSource.trace steps, r.Atomic) ∧
      (termSource.trace steps).map Record.ok = [false, true] := by
  intro steps
  exact ⟨atomic_trace (fun _ _ _ => rfl) termSource (.source 0 _ _ _) steps, by decide⟩

end PairingSession

end Pairing
