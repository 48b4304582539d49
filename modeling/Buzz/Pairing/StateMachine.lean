import Buzz.Pairing.Session

/-!
# What a call of a session can do

Every public method that takes `&mut self`, and `sign_event`, as one call. Each
method repeats its own list of guards; `Accepts` says once, for each of them,
what a successful call has checked and what it leaves behind, `Rejects` what a
failing call can leave behind, and `call_cases` that there is nothing else.
Everything proved about runs is a case analysis of the two.
-/
namespace Pairing

open Nostr Lib

variable {P : Primitives}

inductive Call (P : Primitives) where
  | handleOffer (event : P.Event)
  | confirmSas (entropy : Entropy P)
  | handleReturnPayload (event : P.Event)
  | sendSourceComplete (entropy : Entropy P) (success : Bool)
  | sendPayload (entropy : Entropy P) (payloadType : PayloadType) (payload : String)
  | handleComplete (event : P.Event)
  | handleSasConfirm (event : P.Event)
  | confirmTargetSas
  | handlePayload (event : P.Event)
  | sendComplete (entropy : Entropy P)
  | abort (entropy : Entropy P) (reason : AbortReason)
  | handleAbort (event : P.Event)
  | signEvent (builder : EventBuilder P.Content)

/-- What a successful call returns. -/
inductive Reply (P : Primitives) where
  | sas (code : String)
  | event (event : P.Event)
  | payload (payloadType : PayloadType) (payload : String)
  | reason (reason : AbortReason)
  | done

namespace Call

/-- The event a message handler is given. -/
def incoming : Call P → Option P.Event
  | .handleOffer event | .handleReturnPayload event | .handleComplete event
  | .handleSasConfirm event | .handlePayload event | .handleAbort event => some event
  | _ => none

/-- The calls that do not check the expiry. -/
def ignoresExpiry : Call P → Bool
  | .abort _ _ | .handleAbort _ | .signEvent _ => true
  | _ => false

end Call

namespace PairingSession

/-- A method's result as a reply. -/
def replying {α : Type} (f : α → Reply P) (outcome : Except PairingError α × PairingSession P) :
    Except PairingError (Reply P) × PairingSession P :=
  (outcome.1.map f, outcome.2)

def call (s : PairingSession P) (now : Instant) :
    Call P → Except PairingError (Reply P) × PairingSession P
  | .handleOffer event => replying .sas (s.handleOffer now event)
  | .confirmSas entropy => replying .event (s.confirmSas now entropy)
  | .handleReturnPayload event =>
    replying (fun r => .payload r.1 r.2) (s.handleReturnPayload now event)
  | .sendSourceComplete entropy success =>
    replying .event (s.sendSourceComplete now entropy success)
  | .sendPayload entropy payloadType payload =>
    replying .event (s.sendPayload now entropy payloadType payload)
  | .handleComplete event => replying (fun _ => .done) (s.handleComplete now event)
  | .handleSasConfirm event => replying .sas (s.handleSasConfirm now event)
  | .confirmTargetSas => replying (fun _ => .done) (s.confirmTargetSas now)
  | .handlePayload event => replying (fun r => .payload r.1 r.2) (s.handlePayload now event)
  | .sendComplete entropy => replying .event (s.sendComplete now entropy)
  | .abort entropy reason => replying (fun r => r.elim .done .event) (s.abort entropy reason)
  | .handleAbort event => replying .reason (s.handleAbort event)
  | .signEvent builder => replying .event (s.signEvent builder, s)

/-- The event carries the message, and passed the checks of `validate_event_basics`
that later arguments use. -/
structure Carries (s : PairingSession P) (event : P.Event) (message : PairingMessage) : Prop where
  fresh : event.id ∉ s.processedIds
  decrypts : ∃ plain, P.decrypt s.secretKey event.pubkey event.content = .ok plain ∧
    P.fromJson plain = .ok message

/-- The session went on to `state` after accepting the event. -/
def accepting (s : PairingSession P) (event : P.Event) (state : SessionState) :
    PairingSession P :=
  recordEvent { s with state := state } event

/-- The guards all timed methods start with. -/
structure Ready (s : PairingSession P) (now : Instant) (role : Role) (state : SessionState) :
    Prop where
  inTime : s.isExpired now = false
  state_eq : s.state = state
  role_eq : s.role = role

/-- A successful call: its guards, its reply and the session after it. -/
inductive Accepts (s : PairingSession P) (now : Instant) :
    Call P → Reply P → PairingSession P → Prop where
  | handleOffer {event sessionId ecdh} (ready : s.Ready now .source .waiting)
      (carries : s.Carries event (.offer sessionId 1))
      (shared : P.generateSharedKey s.secretKey event.pubkey = .ok ecdh) :
      Accepts s now (.handleOffer event)
        (.sas (formatSas (P.sasCode (P.deriveSasInput ecdh s.sessionSecret))))
        (recordEvent { s with
          peerPubkey := some event.pubkey
          sasCode := some (P.sasCode (P.deriveSasInput ecdh s.sessionSecret))
          sasInput := some (P.deriveSasInput ecdh s.sessionSecret)
          state := .confirming } event)
  | confirmSas {entropy event sasInput peer} (ready : s.Ready now .source .confirming)
      (input : s.sasInput = some sasInput) (known : s.peerPubkey = some peer)
      (built : s.buildEvent entropy (.sasConfirm (P.hexEncode
        (P.deriveTranscriptHash s.sessionId s.pubkey peer sasInput s.sessionSecret))) = .ok event) :
      Accepts s now (.confirmSas entropy) (.event event) { s with state := .transferring }
  | handleReturnPayload {event payloadType payload} (ready : s.Ready now .source .transferring)
      (peer : ∀ expected ∈ s.peerPubkey, event.pubkey = expected)
      (carries : s.Carries event (.payload payloadType payload)) :
      Accepts s now (.handleReturnPayload event) (.payload payloadType payload)
        (s.accepting event .payloadExchanged)
  | sendSourceComplete {entropy event success} (ready : s.Ready now .source .payloadExchanged)
      (built : s.buildEvent entropy (.complete success) = .ok event) :
      Accepts s now (.sendSourceComplete entropy success) (.event event)
        { s with state := if success then .completed else .aborted }
  | sendPayload {entropy event payloadType payload} (ready : s.Ready now .source .transferring)
      (built : s.buildEvent entropy (.payload payloadType payload) = .ok event) :
      Accepts s now (.sendPayload entropy payloadType payload) (.event event)
        { s with state := .payloadExchanged }
  | handleComplete {event} (ready : s.Ready now .source .payloadExchanged)
      (peer : ∀ expected ∈ s.peerPubkey, event.pubkey = expected)
      (carries : s.Carries event (.complete true)) :
      Accepts s now (.handleComplete event) .done (s.accepting event .completed)
  | handleSasConfirm {event receivedHash sasInput peer code}
      (ready : s.Ready now .target .confirming)
      (fromPeer : ∀ expected ∈ s.peerPubkey, event.pubkey = expected)
      (carries : s.Carries event (.sasConfirm receivedHash))
      (input : s.sasInput = some sasInput) (known : s.peerPubkey = some peer)
      (agrees : P.hexDecode receivedHash =
        some (P.deriveTranscriptHash s.sessionId peer s.pubkey sasInput s.sessionSecret))
      (shown : s.sasCode = some code) :
      Accepts s now (.handleSasConfirm event) (.sas (formatSas code))
        (s.accepting event .awaitingConfirmation)
  | confirmTargetSas (ready : s.Ready now .target .awaitingConfirmation) :
      Accepts s now .confirmTargetSas .done { s with state := .transferring }
  | handlePayload {event payloadType payload} (ready : s.Ready now .target .transferring)
      (peer : ∀ expected ∈ s.peerPubkey, event.pubkey = expected)
      (carries : s.Carries event (.payload payloadType payload)) :
      Accepts s now (.handlePayload event) (.payload payloadType payload)
        (s.accepting event .payloadExchanged)
  | sendComplete {entropy event} (ready : s.Ready now .target .payloadExchanged)
      (built : s.buildEvent entropy (.complete true) = .ok event) :
      Accepts s now (.sendComplete entropy) (.event event) { s with state := .completed }
  | abortUnpaired {entropy reason} (running : s.state.isTerminal = false)
      (unknown : s.peerPubkey = none) :
      Accepts s now (.abort entropy reason) .done { s with state := .aborted }
  | abort {entropy reason event} (running : s.state.isTerminal = false)
      (built : s.buildEvent entropy (.abort reason) = .ok event) :
      Accepts s now (.abort entropy reason) (.event event) { s with state := .aborted }
  | handleAbort {event reason} (running : s.state.isTerminal = false)
      (known : s.peerPubkey.isNone = false)
      (peer : ∀ expected ∈ s.peerPubkey, event.pubkey = expected)
      (carries : s.Carries event (.abort reason)) :
      Accepts s now (.handleAbort event) (.reason reason) (s.accepting event .aborted)
  | signEvent {builder event} (signed : s.signEvent builder = .ok event) :
      Accepts s now (.signEvent builder) (.event event) s

/-- A failing call: the session is as before, or one of the three methods failed
after its checks. -/
inductive Rejects (s : PairingSession P) (now : Instant) : Call P → PairingSession P → Prop where
  | unchanged {c} : Rejects s now c s
  | handleOffer {event} (ready : s.Ready now .source .waiting) :
      Rejects s now (.handleOffer event) { s with peerPubkey := some event.pubkey }
  | handleComplete {event} (ready : s.Ready now .source .payloadExchanged) :
      Rejects s now (.handleComplete event) { s with state := .aborted }
  | transcriptMismatch {event} (ready : s.Ready now .target .confirming) :
      Rejects s now (.handleSasConfirm event) { s with state := .aborted }
  | sasCodeMissing {event} (ready : s.Ready now .target .confirming) (missing : s.sasCode = none) :
      Rejects s now (.handleSasConfirm event) (s.accepting event .awaitingConfirmation)

/-- What a call returned and left behind is explained by `Accepts` or by `Rejects`. -/
def Explained (s : PairingSession P) (now : Instant) (c : Call P)
    (outcome : Except PairingError (Reply P) × PairingSession P) : Prop :=
  (∃ r, outcome.1 = .ok r ∧ s.Accepts now c r outcome.2) ∨
    (∃ e, outcome.1 = .error e ∧ s.Rejects now c outcome.2)

/-! ### Taking the guards apart -/

private theorem ready_of {s : PairingSession P} {now : Instant} {role : Role}
    {state : SessionState} {u v w : Unit} (inTime : s.checkExpired now = .ok u)
    (hasState : s.expectState state = .ok v) (hasRole : s.expectRole role = .ok w) :
    s.Ready now role state :=
  ⟨ensure_eq_ok.mp inTime, ensure_eq_ok.mp hasState, ensure_eq_ok.mp hasRole⟩

private theorem fresh_of_basics {s : PairingSession P} {event : P.Event} {u : Unit}
    (valid : s.validateEventBasics event = .ok u) : event.id ∉ s.processedIds := by
  simp only [validateEventBasics, bind_eq_ok, ensure_eq_ok] at valid
  obtain ⟨_, _, _, fresh, _⟩ := valid
  exact fresh

private theorem carries_of {s : PairingSession P} {event : P.Event} {message : PairingMessage}
    {u : Unit} (valid : s.validateEventBasics event = .ok u)
    (decrypted : s.decryptMessage event = .ok message) : s.Carries event message := by
  refine ⟨fresh_of_basics valid, ?_⟩
  simp only [decryptMessage, bind_eq_ok, ensure_eq_ok, mapError_eq_ok] at decrypted
  obtain ⟨_, _, plain, opened, _, _, parsed⟩ := decrypted
  exact ⟨plain, opened, parsed⟩

private theorem fromPeer_of {s : PairingSession P} {event : P.Event} {u : Unit}
    (valid : s.validateEventFromPeer event = .ok u) :
    s.validateEventBasics event = .ok () ∧ ∀ expected ∈ s.peerPubkey, event.pubkey = expected := by
  simp only [validateEventFromPeer, bind_eq_ok, ensure_eq_ok] at valid
  obtain ⟨_, basics, peer⟩ := valid
  exact ⟨basics, peer⟩

/-- A body that fails in its checks leaves the session unchanged; otherwise look at
its outcome. -/
private theorem explained_settle {α : Type} {s : PairingSession P} {now : Instant} {c : Call P}
    {f : α → Reply P} {body : Except PairingError (Except PairingError α × PairingSession P)}
    (passed : ∀ outcome, body = .ok outcome → s.Explained now c (replying f outcome)) :
    s.Explained now c (replying f (s.settle body)) := by
  cases checked : body with
  | error e => exact Or.inr ⟨e, rfl, .unchanged⟩
  | ok outcome => exact passed outcome checked

private theorem explained_ok {α : Type} {s s' : PairingSession P} {now : Instant} {c : Call P}
    {f : α → Reply P} {a : α} (accepts : s.Accepts now c (f a) s') :
    s.Explained now c (replying f (.ok a, s')) :=
  Or.inl ⟨f a, rfl, accepts⟩

private theorem explained_error {α : Type} {s s' : PairingSession P} {now : Instant} {c : Call P}
    {f : α → Reply P} {e : PairingError} (rejects : s.Rejects now c s') :
    s.Explained now c (replying f (.error e, s')) :=
  Or.inr ⟨e, rfl, rejects⟩

/-! ### One lemma per method -/

variable (s : PairingSession P) (now : Instant)

private theorem explained_handleOffer (event : P.Event) :
    s.Explained now (.handleOffer event) (s.call now (.handleOffer event)) := by
  refine explained_settle fun outcome passed => ?_
  simp only [bind_eq_ok] at passed
  obtain ⟨_, inTime, _, hasState, _, hasRole, _, basics, message, decrypted, rest⟩ := passed
  have ready := ready_of inTime hasState hasRole
  have carries := carries_of basics decrypted
  cases message with
  | offer sessionId version =>
    simp only [bind_eq_ok, ensure_eq_ok] at rest
    obtain ⟨_, rfl, _, _, rest⟩ := rest
    cases shared : P.generateSharedKey s.secretKey event.pubkey with
    | error e =>
      rw [shared] at rest
      cases rest
      exact explained_error (.handleOffer ready)
    | ok ecdh =>
      rw [shared] at rest
      cases rest
      exact explained_ok (.handleOffer ready carries shared)
  | _ => cases rest

private theorem explained_confirmSas (entropy : Entropy P) :
    s.Explained now (.confirmSas entropy) (s.call now (.confirmSas entropy)) := by
  refine explained_settle fun outcome passed => ?_
  simp only [bind_eq_ok, okOr_eq_ok] at passed
  obtain ⟨_, inTime, _, hasState, _, hasRole, sasInput, input, peer, known, event, built, rest⟩ :=
    passed
  cases rest
  exact explained_ok (.confirmSas (ready_of inTime hasState hasRole) input known built)

private theorem explained_handleReturnPayload (event : P.Event) :
    s.Explained now (.handleReturnPayload event) (s.call now (.handleReturnPayload event)) := by
  refine explained_settle fun outcome passed => ?_
  simp only [bind_eq_ok] at passed
  obtain ⟨_, inTime, _, hasState, _, hasRole, _, valid, message, decrypted, rest⟩ := passed
  obtain ⟨basics, peer⟩ := fromPeer_of valid
  have carries := carries_of basics decrypted
  cases message with
  | payload payloadType payload =>
    cases rest
    exact explained_ok (a := (payloadType, payload))
      (.handleReturnPayload (ready_of inTime hasState hasRole) peer carries)
  | _ => cases rest

private theorem explained_sendSourceComplete (entropy : Entropy P) (success : Bool) :
    s.Explained now (.sendSourceComplete entropy success)
      (s.call now (.sendSourceComplete entropy success)) := by
  refine explained_settle fun outcome passed => ?_
  simp only [bind_eq_ok] at passed
  obtain ⟨_, inTime, _, hasState, _, hasRole, event, built, rest⟩ := passed
  cases rest
  exact explained_ok (.sendSourceComplete (ready_of inTime hasState hasRole) built)

private theorem explained_sendPayload (entropy : Entropy P) (payloadType : PayloadType)
    (payload : String) :
    s.Explained now (.sendPayload entropy payloadType payload)
      (s.call now (.sendPayload entropy payloadType payload)) := by
  refine explained_settle fun outcome passed => ?_
  simp only [bind_eq_ok] at passed
  obtain ⟨_, inTime, _, hasState, _, hasRole, event, built, rest⟩ := passed
  cases rest
  exact explained_ok (.sendPayload (ready_of inTime hasState hasRole) built)

private theorem explained_handleComplete (event : P.Event) :
    s.Explained now (.handleComplete event) (s.call now (.handleComplete event)) := by
  refine explained_settle fun outcome passed => ?_
  simp only [bind_eq_ok] at passed
  obtain ⟨_, inTime, _, hasState, _, hasRole, _, valid, message, decrypted, rest⟩ := passed
  obtain ⟨basics, peer⟩ := fromPeer_of valid
  have ready := ready_of inTime hasState hasRole
  have carries := carries_of basics decrypted
  cases message with
  | complete success =>
    cases success with
    | true => cases rest; exact explained_ok (.handleComplete ready peer carries)
    | false => cases rest; exact explained_error (.handleComplete ready)
  | _ => cases rest

private theorem explained_handleSasConfirm (event : P.Event) :
    s.Explained now (.handleSasConfirm event) (s.call now (.handleSasConfirm event)) := by
  refine explained_settle fun outcome passed => ?_
  simp only [bind_eq_ok] at passed
  obtain ⟨_, inTime, _, hasState, _, hasRole, _, valid, message, decrypted, rest⟩ := passed
  obtain ⟨basics, peer⟩ := fromPeer_of valid
  have ready := ready_of inTime hasState hasRole
  have carries := carries_of basics decrypted
  cases message with
  | sasConfirm receivedHash =>
    simp only [bind_eq_ok, okOr_eq_ok] at rest
    obtain ⟨sasInput, input, known, isPeer, rest⟩ := rest
    split at rest
    next agrees =>
      cases rest
      -- the code is looked up after the session has moved on
      rcases Option.eq_none_or_eq_some s.sasCode with missing | ⟨code, shown⟩
      · exact Or.inr ⟨.sasMismatch, by simp [replying, okOr, missing, Except.map],
          .sasCodeMissing ready missing⟩
      · exact Or.inl ⟨.sas (formatSas code), by simp [replying, okOr, shown, Except.map],
          .handleSasConfirm ready peer carries input isPeer agrees shown⟩
    next =>
      cases rest
      exact explained_error (.transcriptMismatch ready)
  | _ => cases rest

private theorem explained_confirmTargetSas :
    s.Explained now .confirmTargetSas (s.call now .confirmTargetSas) := by
  refine explained_settle fun outcome passed => ?_
  simp only [bind_eq_ok] at passed
  obtain ⟨_, inTime, _, hasState, _, hasRole, rest⟩ := passed
  cases rest
  exact explained_ok (.confirmTargetSas (ready_of inTime hasState hasRole))

private theorem explained_handlePayload (event : P.Event) :
    s.Explained now (.handlePayload event) (s.call now (.handlePayload event)) := by
  refine explained_settle fun outcome passed => ?_
  simp only [bind_eq_ok] at passed
  obtain ⟨_, inTime, _, hasState, _, hasRole, _, valid, message, decrypted, rest⟩ := passed
  obtain ⟨basics, peer⟩ := fromPeer_of valid
  have carries := carries_of basics decrypted
  cases message with
  | payload payloadType payload =>
    cases rest
    exact explained_ok (a := (payloadType, payload))
      (.handlePayload (ready_of inTime hasState hasRole) peer carries)
  | _ => cases rest

private theorem explained_sendComplete (entropy : Entropy P) :
    s.Explained now (.sendComplete entropy) (s.call now (.sendComplete entropy)) := by
  refine explained_settle fun outcome passed => ?_
  simp only [bind_eq_ok] at passed
  obtain ⟨_, inTime, _, hasState, _, hasRole, event, built, rest⟩ := passed
  cases rest
  exact explained_ok (.sendComplete (ready_of inTime hasState hasRole) built)

private theorem explained_abort (entropy : Entropy P) (reason : AbortReason) :
    s.Explained now (.abort entropy reason) (s.call now (.abort entropy reason)) := by
  refine explained_settle fun outcome passed => ?_
  simp only [bind_eq_ok, expectNonTerminal, ensure_eq_ok] at passed
  obtain ⟨_, running, rest⟩ := passed
  split at rest
  next unknown =>
    cases rest
    exact explained_ok (a := none) (.abortUnpaired running (by simpa using unknown))
  next =>
    simp only [bind_eq_ok] at rest
    obtain ⟨event, built, rest⟩ := rest
    cases rest
    exact explained_ok (a := some event) (.abort running built)

private theorem explained_handleAbort (event : P.Event) :
    s.Explained now (.handleAbort event) (s.call now (.handleAbort event)) := by
  refine explained_settle fun outcome passed => ?_
  simp only [bind_eq_ok, expectNonTerminal, ensure_eq_ok] at passed
  obtain ⟨_, running, _, known, _, valid, message, decrypted, rest⟩ := passed
  obtain ⟨basics, peer⟩ := fromPeer_of valid
  have carries := carries_of basics decrypted
  cases message with
  | abort reason =>
    cases rest
    exact explained_ok (.handleAbort running known peer carries)
  | _ => cases rest

/-- Every call is a successful one as `Accepts` describes or a failing one as
`Rejects` describes. -/
theorem call_cases (c : Call P) : s.Explained now c (s.call now c) := by
  cases c with
  | handleOffer event => exact explained_handleOffer s now event
  | confirmSas entropy => exact explained_confirmSas s now entropy
  | handleReturnPayload event => exact explained_handleReturnPayload s now event
  | sendSourceComplete entropy success => exact explained_sendSourceComplete s now entropy success
  | sendPayload entropy payloadType payload =>
    exact explained_sendPayload s now entropy payloadType payload
  | handleComplete event => exact explained_handleComplete s now event
  | handleSasConfirm event => exact explained_handleSasConfirm s now event
  | confirmTargetSas => exact explained_confirmTargetSas s now
  | handlePayload event => exact explained_handlePayload s now event
  | sendComplete entropy => exact explained_sendComplete s now entropy
  | abort entropy reason => exact explained_abort s now entropy reason
  | handleAbort event => exact explained_handleAbort s now event
  | signEvent builder =>
    cases signed : s.signEvent builder with
    | error e => exact Or.inr ⟨e, by simp [call, replying, signed, Except.map], .unchanged⟩
    | ok event =>
      exact Or.inl ⟨.event event, by simp [call, replying, signed, Except.map], .signEvent signed⟩

end PairingSession

end Pairing
