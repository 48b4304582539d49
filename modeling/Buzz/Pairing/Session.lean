import Buzz.Lib.Guard
import Buzz.Lib.Run
import Buzz.Nostr.Event
import Mathlib.Data.Finset.Insert

/-!
# Pairing sessions

One side of a NIP-AB device pairing (`buzz-core/src/pairing/session.rs`).
Cryptography, JSON and hex come from other crates and are the `Primitives`; the
secrets they handle, the wire format of a ciphertext and the bytes of a hash are
opaque to the session. A method returns its result with the session after the
call, since some of them change the session on an error path. Zeroizing buffers
is left out.
-/
namespace Pairing

open Nostr Lib

inductive Role where
  | source
  | target
deriving DecidableEq

def Role.debug : Role → String
  | .source => "Source"
  | .target => "Target"

inductive SessionState where
  | waiting
  | confirming
  | awaitingConfirmation
  | transferring
  | payloadExchanged
  | completed
  | aborted
deriving DecidableEq

namespace SessionState

def debug : SessionState → String
  | waiting => "Waiting"
  | confirming => "Confirming"
  | awaitingConfirmation => "AwaitingConfirmation"
  | transferring => "Transferring"
  | payloadExchanged => "PayloadExchanged"
  | completed => "Completed"
  | aborted => "Aborted"

/-- `Completed` and `Aborted` are final. -/
def isTerminal (state : SessionState) : Bool := state = completed || state = aborted

end SessionState

inductive PayloadType where
  | nsec
  | bunker
  | connect
  | custom
deriving DecidableEq

inductive AbortReason where
  | sasMismatch
  | userDenied
  | timeout
  | protocolError
  | unknown
deriving DecidableEq

inductive PairingMessage where
  | offer (sessionId : String) (version : UInt32)
  | sasConfirm (transcriptHash : String)
  | payload (payloadType : PayloadType) (payload : String)
  | complete (success : Bool)
  | abort (reason : AbortReason)
deriving DecidableEq

def PairingMessage.name : PairingMessage → String
  | .offer _ _ => "offer"
  | .sasConfirm _ => "sas-confirm"
  | .payload _ _ => "payload"
  | .complete _ => "complete"
  | .abort _ => "abort"

inductive PairingError where
  | invalidSessionId
  | sasMismatch
  | transcriptMismatch
  | unexpectedMessage (expected got : String)
  | sessionExpired
  | nip44 (error : String)
  | json (error : String)
  | invalidPubkey (text : String)
  | signingError (text : String)
deriving DecidableEq

def unexpected (expected : String) (got : PairingMessage) : PairingError :=
  .unexpectedMessage expected got.name

/-- A signed event whose key and content are of the given types. -/
structure SignedEvent (PublicKey Content : Type) where
  id : EventId
  pubkey : PublicKey
  createdAt : Timestamp
  kind : Kind
  tags : List Tag
  content : Content
  sig : String

structure EventBuilder (Content : Type) where
  kind : Kind
  content : Content
  tags : List Tag
  createdAt : Timestamp

/-- What the session uses of other crates. Fallible functions return the text of
their error. -/
structure Primitives where
  SecretKey : Type
  PublicKey : Type
  Bytes32 : Type
  /-- A NIP-44 payload, as it stands in the content of an event. -/
  Content : Type
  /-- The plaintext of a NIP-44 payload. -/
  Plain : Type
  /-- The randomness of one encryption. -/
  Nonce : Type
  [decPublicKey : DecidableEq PublicKey]
  [decBytes32 : DecidableEq Bytes32]
  publicKey : SecretKey → PublicKey
  toHex : PublicKey → String
  /-- `Event::verify`: the id and the signature. -/
  verify : SignedEvent PublicKey Content → Except String Unit
  /-- `EventBuilder::sign_with_keys`. -/
  sign : SecretKey → EventBuilder Content → Except String (SignedEvent PublicKey Content)
  encrypt : SecretKey → PublicKey → Nonce → Plain → Except String Content
  decrypt : SecretKey → PublicKey → Content → Except String Plain
  contentLen : Content → Nat
  plainLen : Plain → Nat
  /-- `nostr::util::generate_shared_key`: the ECDH secret. -/
  generateSharedKey : SecretKey → PublicKey → Except String Bytes32
  deriveSessionId : Bytes32 → Bytes32
  /-- The `sas_input` that `derive_sas` expands from the ECDH secret. -/
  deriveSasInput : (ecdhShared sessionSecret : Bytes32) → Bytes32
  /-- The first four bytes, big endian, modulo 1000000. -/
  sasCode : Bytes32 → Nat
  deriveTranscriptHash : (sessionId : Bytes32) → (sourcePubkey targetPubkey : PublicKey) →
    (sasInput sessionSecret : Bytes32) → Bytes32
  hexEncode : Bytes32 → String
  /-- `hex::decode` into exactly 32 bytes. -/
  hexDecode : String → Option Bytes32
  toJson : PairingMessage → Plain
  fromJson : Plain → Except String PairingMessage

attribute [instance] Primitives.decPublicKey Primitives.decBytes32

abbrev Primitives.Event (P : Primitives) := SignedEvent P.PublicKey P.Content

def Primitives.deriveSas (P : Primitives) (ecdhShared sessionSecret : P.Bytes32) :
    Nat × P.Bytes32 :=
  let sasInput := P.deriveSasInput ecdhShared sessionSecret
  (P.sasCode sasInput, sasInput)

/-- Six digits, zero-padded. -/
def formatSas (code : Nat) : String :=
  String.ofList (List.replicate (6 - (toString code).length) '0') ++ toString code

/-- Default session timeout: 120 seconds from creation. -/
def defaultTimeout : Duration := Duration.fromSecs 120

def pairingKind : Kind := 24134

structure QrPayload (P : Primitives) where
  version : Nat
  sourcePubkey : P.PublicKey
  sessionSecret : P.Bytes32
  relays : List String

/-- What building an event draws from its surroundings: the nonce, the wall clock and
a random number. -/
structure Entropy (P : Primitives) where
  nonce : P.Nonce
  wallClock : Timestamp
  random : Nat

structure PairingSession (P : Primitives) where
  role : Role
  state : SessionState
  /-- The ephemeral key; the public one is computed from it. -/
  secretKey : P.SecretKey
  sessionSecret : P.Bytes32
  relayUrls : List String
  peerPubkey : Option P.PublicKey
  sessionId : P.Bytes32
  sasCode : Option Nat
  sasInput : Option P.Bytes32
  processedIds : Finset EventId
  createdAt : Instant
  timeout : Duration

namespace PairingSession

variable {P : Primitives}

def pubkey (s : PairingSession P) : P.PublicKey := P.publicKey s.secretKey

/-! ### Checks -/

def isExpired (s : PairingSession P) (now : Instant) : Bool := s.timeout < now - s.createdAt

def checkExpired (s : PairingSession P) (now : Instant) : Except PairingError Unit :=
  ensure (s.isExpired now = false) .sessionExpired

def expectState (s : PairingSession P) (expected : SessionState) : Except PairingError Unit :=
  ensure (s.state = expected)
    (.unexpectedMessage ("state " ++ expected.debug) ("state " ++ s.state.debug))

def expectRole (s : PairingSession P) (expected : Role) : Except PairingError Unit :=
  ensure (s.role = expected)
    (.unexpectedMessage ("role " ++ expected.debug) ("role " ++ s.role.debug))

/-- The terminal-state check of `abort` and `handle_abort`. -/
def expectNonTerminal (s : PairingSession P) : Except PairingError Unit :=
  ensure (s.state.isTerminal = false)
    (.unexpectedMessage "non-terminal state" ("state " ++ s.state.debug))

/-- Signature, duplicate id, kind and p-tag. Does not record the id. -/
def validateEventBasics (s : PairingSession P) (event : P.Event) : Except PairingError Unit := do
  (P.verify event).mapError fun e => .invalidPubkey ("event verification failed: " ++ e)
  ensure (event.id ∉ s.processedIds) (.unexpectedMessage "new event" "duplicate event id")
  ensure (event.kind = pairingKind)
    (.unexpectedMessage ("kind " ++ toString pairingKind.toNat) ("kind " ++ toString event.kind.toNat))
  ensure ((event.tags.any fun t => Tag.kind t = some "p" ∧ Tag.content t = some (P.toHex s.pubkey))
      = true)
    (.invalidPubkey "event p-tag does not match our ephemeral pubkey")

def validateEventFromPeer (s : PairingSession P) (event : P.Event) : Except PairingError Unit := do
  s.validateEventBasics event
  -- without a known peer anyone passes
  ensure (∀ expected ∈ s.peerPubkey, event.pubkey = expected)
    (.invalidPubkey ("event from " ++ P.toHex event.pubkey ++ " but expected " ++
      (s.peerPubkey.map P.toHex).getD ""))

def decryptMessage (s : PairingSession P) (event : P.Event) :
    Except PairingError PairingMessage := do
  ensure (132 ≤ P.contentLen event.content ∧ P.contentLen event.content ≤ 87472)
    (.unexpectedMessage "NIP-44 content (132–87472 chars)"
      (toString (P.contentLen event.content) ++ " chars"))
  let decrypted ← (P.decrypt s.secretKey event.pubkey event.content).mapError .nip44
  ensure (P.plainLen decrypted ≤ 65535)
    (.unexpectedMessage "plaintext ≤ 65535 bytes" (toString (P.plainLen decrypted) ++ " bytes"))
  (P.fromJson decrypted).mapError .json

/-- Encrypt a message to the peer and wrap it in a signed event. -/
def buildEvent (s : PairingSession P) (entropy : Entropy P) (message : PairingMessage) :
    Except PairingError P.Event := do
  let peer ← okOr s.peerPubkey (.invalidPubkey "no peer pubkey set")
  let encrypted ← (P.encrypt s.secretKey peer entropy.nonce (P.toJson message)).mapError .nip44
  (P.sign s.secretKey {
    kind := pairingKind
    content := encrypted
    tags := [["p", P.toHex peer]]
    createdAt := entropy.wallClock - entropy.random % 31 }).mapError .signingError

def recordEvent (s : PairingSession P) (event : P.Event) : PairingSession P :=
  { s with processedIds := insert event.id s.processedIds }

/-- A failed check leaves the session alone; what comes after the checks says what
is returned and what the session is then. -/
def settle {α : Type} (s : PairingSession P)
    (body : Except PairingError (Except PairingError α × PairingSession P)) :
    Except PairingError α × PairingSession P :=
  match body with
  | .error e => (.error e, s)
  | .ok outcome => outcome

/-! ### Source -/

def newSource (now : Instant) (secretKey : P.SecretKey) (sessionSecret : P.Bytes32)
    (relayUrl : String) : PairingSession P × QrPayload P :=
  ({ role := .source
     state := .waiting
     secretKey := secretKey
     sessionSecret := sessionSecret
     relayUrls := [relayUrl]
     peerPubkey := none
     sessionId := P.deriveSessionId sessionSecret
     sasCode := none
     sasInput := none
     processedIds := ∅
     createdAt := now
     timeout := defaultTimeout },
   ⟨1, P.publicKey secretKey, sessionSecret, [relayUrl]⟩)

def handleOffer (s : PairingSession P) (now : Instant) (event : P.Event) :
    Except PairingError String × PairingSession P := s.settle do
  s.checkExpired now
  s.expectState .waiting
  s.expectRole .source
  s.validateEventBasics event
  match ← s.decryptMessage event with
  | .offer sessionId version =>
    ensure (version = 1) (.unexpectedMessage "version 1" ("version " ++ toString version))
    ensure (P.hexDecode sessionId = some s.sessionId) .invalidSessionId
    -- lock to this peer, also when the key agreement below fails
    let pinned := { s with peerPubkey := some event.pubkey }
    match P.generateSharedKey s.secretKey event.pubkey with
    | .error e => return (.error (.signingError e), pinned)
    | .ok ecdh =>
      let (code, sasInput) := P.deriveSas ecdh s.sessionSecret
      return (.ok (formatSas code), recordEvent { pinned with
        sasCode := some code
        sasInput := some sasInput
        state := .confirming } event)
  | other => throw (unexpected "offer" other)

def confirmSas (s : PairingSession P) (now : Instant) (entropy : Entropy P) :
    Except PairingError P.Event × PairingSession P := s.settle do
  s.checkExpired now
  s.expectState .confirming
  s.expectRole .source
  let sasInput ← okOr s.sasInput .sasMismatch
  let peer ← okOr s.peerPubkey (.invalidPubkey "no peer")
  let transcriptHash := P.deriveTranscriptHash s.sessionId s.pubkey peer sasInput s.sessionSecret
  let event ← s.buildEvent entropy (.sasConfirm (P.hexEncode transcriptHash))
  return (.ok event, { s with state := .transferring })

def handleReturnPayload (s : PairingSession P) (now : Instant) (event : P.Event) :
    Except PairingError (PayloadType × String) × PairingSession P := s.settle do
  s.checkExpired now
  s.expectState .transferring
  s.expectRole .source
  s.validateEventFromPeer event
  match ← s.decryptMessage event with
  | .payload payloadType payload =>
    return (.ok (payloadType, payload), recordEvent { s with state := .payloadExchanged } event)
  | other => throw (unexpected "payload" other)

def sendSourceComplete (s : PairingSession P) (now : Instant) (entropy : Entropy P)
    (success : Bool) : Except PairingError P.Event × PairingSession P := s.settle do
  s.checkExpired now
  s.expectState .payloadExchanged
  s.expectRole .source
  let event ← s.buildEvent entropy (.complete success)
  return (.ok event, { s with state := if success then .completed else .aborted })

def sendPayload (s : PairingSession P) (now : Instant) (entropy : Entropy P)
    (payloadType : PayloadType) (payload : String) :
    Except PairingError P.Event × PairingSession P := s.settle do
  s.checkExpired now
  s.expectState .transferring
  s.expectRole .source
  let event ← s.buildEvent entropy (.payload payloadType payload)
  return (.ok event, { s with state := .payloadExchanged })

def handleComplete (s : PairingSession P) (now : Instant) (event : P.Event) :
    Except PairingError Unit × PairingSession P := s.settle do
  s.checkExpired now
  s.expectState .payloadExchanged
  s.expectRole .source
  s.validateEventFromPeer event
  match ← s.decryptMessage event with
  | .complete true => return (.ok (), recordEvent { s with state := .completed } event)
  | .complete false =>
    -- not recorded: the message was not successfully processed
    return (.error (.unexpectedMessage "complete(success=true)" "complete(success=false)"),
      { s with state := .aborted })
  | other => throw (unexpected "complete" other)

/-! ### Target -/

def newTarget (now : Instant) (secretKey : P.SecretKey) (entropy : Entropy P)
    (qr : QrPayload P) : Except PairingError (PairingSession P × P.Event) := do
  let sessionId := P.deriveSessionId qr.sessionSecret
  let ecdh ← (P.generateSharedKey secretKey qr.sourcePubkey).mapError .signingError
  let (code, sasInput) := P.deriveSas ecdh qr.sessionSecret
  let session : PairingSession P := {
    role := .target
    state := .waiting
    secretKey := secretKey
    sessionSecret := qr.sessionSecret
    relayUrls := qr.relays
    peerPubkey := some qr.sourcePubkey
    sessionId := sessionId
    sasCode := some code
    sasInput := some sasInput
    processedIds := ∅
    createdAt := now
    timeout := defaultTimeout }
  let event ← session.buildEvent entropy (.offer (P.hexEncode sessionId) 1)
  return ({ session with state := .confirming }, event)

def handleSasConfirm (s : PairingSession P) (now : Instant) (event : P.Event) :
    Except PairingError String × PairingSession P := s.settle do
  s.checkExpired now
  s.expectState .confirming
  s.expectRole .target
  s.validateEventFromPeer event
  match ← s.decryptMessage event with
  | .sasConfirm receivedHash =>
    let sasInput ← okOr s.sasInput .sasMismatch
    let peer ← okOr s.peerPubkey (.invalidPubkey "no peer")
    -- the source is the peer here
    let expectedHash := P.deriveTranscriptHash s.sessionId peer s.pubkey sasInput s.sessionSecret
    if P.hexDecode receivedHash = some expectedHash then
      let accepted := recordEvent { s with state := .awaitingConfirmation } event
      return ((okOr s.sasCode .sasMismatch).map formatSas, accepted)
    else return (.error .transcriptMismatch, { s with state := .aborted })
  | other => throw (unexpected "sas-confirm" other)

def confirmTargetSas (s : PairingSession P) (now : Instant) :
    Except PairingError Unit × PairingSession P := s.settle do
  s.checkExpired now
  s.expectState .awaitingConfirmation
  s.expectRole .target
  return (.ok (), { s with state := .transferring })

def handlePayload (s : PairingSession P) (now : Instant) (event : P.Event) :
    Except PairingError (PayloadType × String) × PairingSession P := s.settle do
  s.checkExpired now
  s.expectState .transferring
  s.expectRole .target
  s.validateEventFromPeer event
  match ← s.decryptMessage event with
  | .payload payloadType payload =>
    return (.ok (payloadType, payload), recordEvent { s with state := .payloadExchanged } event)
  | other => throw (unexpected "payload" other)

def sendComplete (s : PairingSession P) (now : Instant) (entropy : Entropy P) :
    Except PairingError P.Event × PairingSession P := s.settle do
  s.checkExpired now
  s.expectState .payloadExchanged
  s.expectRole .target
  let event ← s.buildEvent entropy (.complete true)
  return (.ok event, { s with state := .completed })

/-! ### Either role -/

def abort (s : PairingSession P) (entropy : Entropy P) (reason : AbortReason) :
    Except PairingError (Option P.Event) × PairingSession P := s.settle do
  s.expectNonTerminal
  if s.peerPubkey.isNone then return (.ok none, { s with state := .aborted })
  let event ← s.buildEvent entropy (.abort reason)
  return (.ok (some event), { s with state := .aborted })

def handleAbort (s : PairingSession P) (event : P.Event) :
    Except PairingError AbortReason × PairingSession P := s.settle do
  s.expectNonTerminal
  ensure (s.peerPubkey.isNone = false)
    (.invalidPubkey "cannot accept abort before peer is known")
  s.validateEventFromPeer event
  match ← s.decryptMessage event with
  | .abort reason => return (.ok reason, recordEvent { s with state := .aborted } event)
  | other => throw (unexpected "abort" other)

/-- Sign an arbitrary event with the session's ephemeral key. -/
def signEvent (s : PairingSession P) (builder : EventBuilder P.Content) :
    Except PairingError P.Event :=
  (P.sign s.secretKey builder).mapError .signingError

end PairingSession

end Pairing
