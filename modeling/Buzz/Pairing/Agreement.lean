import Buzz.Lib.Run
import Buzz.Pairing.Safety

/-!
# Agreement of source and target

Both sessions run against a network that delivers what it likes: it replays and
reorders what it has seen and makes up events, forged signatures included. What
it cannot do is encrypt under a key that belongs to neither of its own secrets.
A content that opens between the two sessions was therefore encrypted by one of
them, with a message only that role sends. The invariant keeps for every such
content which call of the source it stems from; for a `sas-confirm` it also
keeps that the source has not changed what the hash was taken of.
-/
namespace Pairing

open Nostr Lib

variable {P : Primitives}

/-- The content the environment chose: of a delivered event, or of an event it had
signed. -/
def Call.outside : Call P → Option P.Content
  | .signEvent builder => some builder.content
  | c => c.incoming.map (·.content)

/-- What a call put on the wire. -/
def Record.emitted (r : Record P) : List P.Content :=
  match r.result with
  | .ok (.event event) => [event.content]
  | _ => []

def Record.sentPayload (r : Record P) (payloadType : PayloadType) (payload : String) : Prop :=
  r.ok = true ∧ ∃ entropy, r.call = .sendPayload entropy payloadType payload

/-- The two sessions, the calls made on them, and what the network has seen. -/
structure System (P : Primitives) where
  source : PairingSession P
  target : PairingSession P
  sourceTrace : List (Record P) := []
  targetTrace : List (Record P) := []
  seen : List P.Content

/-- One call on one of the sessions. -/
inductive Turn (P : Primitives) where
  | source (now : Instant) (call : Call P)
  | target (now : Instant) (call : Call P)

/-! ### Facts about a single call -/

namespace PairingSession

variable {s after : PairingSession P} {now : Instant} {c : Call P} {reply : Reply P}

theorem call_keys (s : PairingSession P) (now : Instant) (c : Call P) :
    (s.call now c).2.secretKey = s.secretKey ∧ (s.call now c).2.sessionId = s.sessionId ∧
      (s.call now c).2.sessionSecret = s.sessionSecret := by
  rcases call_cases s now c with ⟨reply, _, accepts⟩ | ⟨e, _, rejects⟩
  · generalize (s.call now c).2 = after at accepts
    cases accepts <;> exact ⟨rfl, rfl, rfl⟩
  · generalize (s.call now c).2 = after at rejects
    cases rejects <;> exact ⟨rfl, rfl, rfl⟩

/-- Only an offer, which needs a waiting source, changes the peer and the SAS. -/
theorem call_pinned (s : PairingSession P) (now : Instant) (c : Call P)
    (settled : s.state ≠ .waiting ∨ s.role = .target) :
    (s.call now c).2.peerPubkey = s.peerPubkey ∧ (s.call now c).2.sasInput = s.sasInput ∧
      (s.call now c).2.sasCode = s.sasCode := by
  have noOffer : ¬ s.Ready now .source .waiting := by
    rintro ⟨_, waiting, source⟩
    rcases settled with moved | target
    · exact moved waiting
    · rw [source] at target
      cases target
  rcases call_cases s now c with ⟨reply, _, accepts⟩ | ⟨e, _, rejects⟩
  · generalize (s.call now c).2 = after at accepts
    cases accepts with
    | handleOffer ready _ _ => exact absurd ready noOffer
    | _ => exact ⟨rfl, rfl, rfl⟩
  · generalize (s.call now c).2 = after at rejects
    cases rejects with
    | handleOffer ready => exact absurd ready noOffer
    | _ => exact ⟨rfl, rfl, rfl⟩

/-- The code shown is the code of the SAS input. -/
theorem call_sasCode (s : PairingSession P) (now : Instant) (c : Call P)
    (code : s.sasCode = s.sasInput.map P.sasCode) :
    (s.call now c).2.sasCode = (s.call now c).2.sasInput.map P.sasCode := by
  rcases call_cases s now c with ⟨reply, _, accepts⟩ | ⟨e, _, rejects⟩
  · generalize (s.call now c).2 = after at accepts
    cases accepts with
    | handleOffer _ _ _ => rfl
    | _ => exact code
  · generalize (s.call now c).2 = after at rejects
    cases rejects <;> exact code

/-- A session that has not confirmed yet came from one that had not, by a call other
than `confirm_sas`. -/
theorem call_unconfirmed (s : PairingSession P) (now : Instant) (c : Call P)
    (early : (s.call now c).2.state = .waiting ∨ (s.call now c).2.state = .confirming) :
    (s.state = .waiting ∨ s.state = .confirming) ∧ ¬ (s.record (now, c)).confirmedSas := by
  rcases call_cases s now c with ⟨reply, _, accepts⟩ | ⟨e, result, rejects⟩
  · simp only [Record.confirmedSas, record]
    generalize (s.call now c).2 = after at accepts early
    cases accepts with
    | handleOffer ready _ _ => exact ⟨Or.inl ready.state_eq, by simp⟩
    | signEvent _ => exact ⟨early, by simp⟩
    | sendSourceComplete _ _ => dsimp only at early; split at early <;> simp at early
    | _ => simp [accepting, recordEvent] at early
  · have failed : ¬ (s.record (now, c)).confirmedSas := by
      simp [Record.confirmedSas, Record.ok, record, result, Except.isOk, Except.toBool]
    refine ⟨?_, failed⟩
    generalize (s.call now c).2 = after at rejects early
    cases rejects with
    | unchanged => exact early
    | handleOffer _ => exact early
    | _ => simp [accepting, recordEvent] at early

theorem state_of_confirmedSas {s : PairingSession P} {now : Instant} {c : Call P}
    (confirmed : (s.record (now, c)).confirmedSas) : s.state = .confirming := by
  obtain ⟨ok, entropy, isCall⟩ := confirmed
  obtain rfl : c = .confirmSas entropy := isCall
  rcases call_cases s now (.confirmSas entropy) with ⟨reply, _, accepts⟩ | ⟨e, result, _⟩
  · generalize (s.call now (.confirmSas entropy)).2 = after at accepts
    cases accepts with
    | confirmSas ready _ _ _ => exact ready.state_eq
  · simp [Record.ok, record, result, Except.isOk, Except.toBool] at ok

theorem buildEvent_content (laws : Symbolic P) {entropy : Entropy P} {message : PairingMessage}
    {event : P.Event} (built : s.buildEvent entropy message = .ok event) :
    ∃ k p n, P.encrypt k p n (P.toJson message) = .ok event.content := by
  simp only [buildEvent, bind_eq_ok, okOr_eq_ok, mapError_eq_ok] at built
  obtain ⟨peer, _, content, encrypted, signed⟩ := built
  rw [laws.sign_content signed]
  exact ⟨_, _, _, encrypted⟩

/-- A content on the wire is the encryption of a message, or was asked to be signed.
The two messages that matter are sent by the source only. -/
theorem emitted_cases (laws : Symbolic P) {content : P.Content}
    (emitted : content ∈ (s.record (now, c)).emitted) :
    (∃ builder, c = .signEvent builder ∧ content = builder.content) ∨
      ∃ message, (∃ k p n, P.encrypt k p n (P.toJson message) = .ok content) ∧
        match message with
        | .sasConfirm hash => s.role = .source ∧ (s.record (now, c)).confirmedSas ∧
            ∃ peer sas, s.peerPubkey = some peer ∧ s.sasInput = some sas ∧
              hash = P.hexEncode (P.deriveTranscriptHash s.sessionId s.pubkey peer sas
                s.sessionSecret)
        | .payload payloadType payload => s.role = .source ∧ s.state = .transferring ∧
            (s.record (now, c)).sentPayload payloadType payload
        | _ => True := by
  rcases call_cases s now c with ⟨reply, result, accepts⟩ | ⟨e, result, _⟩
  · have ok : (s.record (now, c)).ok = true := by
      simp [Record.ok, record, result, Except.isOk, Except.toBool]
    have sent : ∀ event, reply = .event event → content = event.content := by
      rintro event rfl
      simpa [Record.emitted, record, result] using emitted
    have silent : (∀ event, reply ≠ .event event) → False := by
      intro other
      cases reply with
      | event event => exact other event rfl
      | _ => simp [Record.emitted, record, result] at emitted
    generalize (s.call now c).2 = after at accepts
    cases accepts with
    | confirmSas ready input known built =>
      obtain rfl := sent _ rfl
      exact Or.inr ⟨_, buildEvent_content laws built, ready.role_eq, ⟨ok, _, rfl⟩, _, _, known,
        input, rfl⟩
    | sendPayload ready built =>
      obtain rfl := sent _ rfl
      exact Or.inr ⟨_, buildEvent_content laws built, ready.role_eq, ready.state_eq, ok, _, rfl⟩
    | sendSourceComplete ready built =>
      obtain rfl := sent _ rfl
      exact Or.inr ⟨.complete _, buildEvent_content laws built, trivial⟩
    | sendComplete ready built =>
      obtain rfl := sent _ rfl
      exact Or.inr ⟨.complete true, buildEvent_content laws built, trivial⟩
    | abort running built =>
      obtain rfl := sent _ rfl
      exact Or.inr ⟨.abort _, buildEvent_content laws built, trivial⟩
    | signEvent signed =>
      obtain rfl := sent _ rfl
      simp only [PairingSession.signEvent, mapError_eq_ok] at signed
      exact Or.inl ⟨_, rfl, laws.sign_content signed⟩
    | _ => exact absurd (silent (by simp)) id
  · simp [Record.emitted, record, result] at emitted

end PairingSession

namespace System

def perform (sys : System P) : Turn P → System P
  | .source now call =>
    let r := sys.source.record (now, call)
    { sys with
      source := r.after
      sourceTrace := sys.sourceTrace ++ [r]
      seen := sys.seen ++ r.emitted }
  | .target now call =>
    let r := sys.target.record (now, call)
    { sys with
      target := r.after
      targetTrace := sys.targetTrace ++ [r]
      seen := sys.seen ++ r.emitted }

/-- What the network can produce: something it has seen, something it encrypted
with a secret of its own, or something that opens for nobody. -/
def Constructible (sys : System P) (content : P.Content) : Prop :=
  content ∈ sys.seen ∨
    (∃ k p n m, k ≠ sys.source.secretKey ∧ k ≠ sys.target.secretKey ∧
      P.encrypt k p n m = .ok content) ∨
    ∀ k p m, P.decrypt k p content ≠ .ok m

def Admissible (sys : System P) : Turn P → Prop
  | .source _ call | .target _ call =>
    ∀ content, call.outside = some content → sys.Constructible content

/-- A source session and a target session created from its QR payload. -/
inductive Started : System P → Prop where
  | mk (now now' : Instant) (secretKey secretKey' : P.SecretKey) (sessionSecret : P.Bytes32)
      (relayUrl : String) (entropy : Entropy P) {target : PairingSession P} {offer : P.Event}
      (created : PairingSession.newTarget now' secretKey' entropy
        (PairingSession.newSource now secretKey sessionSecret relayUrl).2 = .ok (target, offer)) :
      Started {
        source := (PairingSession.newSource now secretKey sessionSecret relayUrl).1
        target := target
        seen := [offer.content] }

/-! ### What the contents on the wire stem from -/

/-- The source confirmed the SAS with this hash, and is still the session it took
the hash of. -/
def SasConfirmSent (sys : System P) (hash : String) : Prop :=
  (∃ r ∈ sys.sourceTrace, r.confirmedSas) ∧
    ∃ peer sas, sys.source.peerPubkey = some peer ∧ sys.source.sasInput = some sas ∧
      hash = P.hexEncode (P.deriveTranscriptHash sys.source.sessionId sys.source.pubkey peer sas
        sys.source.sessionSecret)

/-- The source sent this payload while transferring, after it confirmed the SAS. -/
def PayloadSent (sys : System P) (payloadType : PayloadType) (payload : String) : Prop :=
  ∃ before, ∃ confirm : Record P, ∃ between, ∃ send : Record P, ∃ after,
    sys.sourceTrace = before ++ confirm :: between ++ send :: after ∧
      confirm.confirmedSas ∧ send.sentPayload payloadType payload ∧
      send.before.state = .transferring

/-- The content is the encryption of a message that was sent for a reason. -/
def Authored (sys : System P) (message : PairingMessage) (content : P.Content) : Prop :=
  (∃ k p n, P.encrypt k p n (P.toJson message) = .ok content) ∧
    match message with
    | .sasConfirm hash => sys.SasConfirmSent hash
    | .payload payloadType payload => sys.PayloadSent payloadType payload
    | _ => True

/-- The content opens between the two sessions. -/
def Opens (sys : System P) (content : P.Content) : Prop :=
  ∃ plain, P.decrypt sys.target.secretKey sys.source.pubkey content = .ok plain

/-- The two sessions and what they have sent fit together. -/
structure Sound (sys : System P) : Prop where
  sourceConsistent : PairingSession.Consistent sys.sourceTrace sys.source
  sourceRole : sys.source.role = .source
  targetRole : sys.target.role = .target
  targetPeer : sys.target.peerPubkey = some sys.source.pubkey
  sourceCode : sys.source.sasCode = sys.source.sasInput.map P.sasCode
  targetCode : sys.target.sasCode = sys.target.sasInput.map P.sasCode
  /-- Before it confirms, the source has not confirmed: there is one confirmation. -/
  unconfirmed : sys.source.state = .waiting ∨ sys.source.state = .confirming →
    ∀ r ∈ sys.sourceTrace, ¬ r.confirmedSas
  confirmedOnce : sys.sourceTrace.Pairwise fun r r' => ¬ (r.confirmedSas ∧ r'.confirmedSas)
  authored : ∀ content ∈ sys.seen, sys.Opens content → ∃ message, sys.Authored message content

variable {sys : System P}

/-! ### The invariant -/

theorem sound_of_started (laws : Symbolic P) (started : Started sys) : sys.Sound := by
  obtain ⟨now, now', secretKey, secretKey', sessionSecret, relayUrl, entropy, created⟩ := started
  have consistent := PairingSession.consistent_of_fresh
    (PairingSession.Fresh.source now secretKey sessionSecret relayUrl)
  simp only [PairingSession.newTarget, bind_eq_ok] at created
  obtain ⟨ecdh, _, offer, built, created⟩ := created
  cases created
  constructor
  · exact consistent
  · rfl
  · rfl
  · rfl
  · rfl
  · rfl
  · simp
  · exact List.Pairwise.nil
  · intro content member _
    obtain rfl := List.mem_singleton.mp member
    exact ⟨.offer _ 1, PairingSession.buildEvent_content laws built, trivial⟩

/-- What opens between the sessions and can be produced by the network stems from
one of the sessions. -/
theorem authored_of_constructible (laws : Symbolic P) (sound : sys.Sound) {content : P.Content}
    (constructible : sys.Constructible content) (opens : sys.Opens content) :
    ∃ message, sys.Authored message content := by
  rcases constructible with seen | ⟨k, p, n, m, notSource, notTarget, encrypted⟩ | nobody
  · exact sound.authored content seen opens
  · -- the secret used would have to be one of the two sessions'
    obtain ⟨plain, decrypted⟩ := opens
    obtain ⟨_, key, used, shared⟩ := laws.opens encrypted decrypted
    rcases laws.sharedKey_injective used shared with ⟨same, _⟩ | ⟨same, _⟩
    · exact absurd (laws.publicKey_injective same) notTarget
    · exact absurd (laws.publicKey_injective same) notSource
  · obtain ⟨plain, decrypted⟩ := opens
    exact absurd decrypted (nobody _ _ _)

theorem authored_message (laws : Symbolic P) (sound : sys.Sound) {event : P.Event}
    {message : PairingMessage} (constructible : sys.Constructible event.content)
    (sender : event.pubkey = sys.source.pubkey)
    (carries : sys.target.Carries event message) : sys.Authored message event.content := by
  obtain ⟨plain, decrypted, parsed⟩ := carries.decrypts
  rw [sender] at decrypted
  obtain ⟨original, ⟨k, p, n, encrypted⟩, reason⟩ :=
    authored_of_constructible laws sound constructible ⟨plain, decrypted⟩
  obtain ⟨rfl, _⟩ := laws.opens encrypted decrypted
  rw [laws.fromJson_toJson] at parsed
  cases parsed
  exact ⟨⟨k, p, n, encrypted⟩, reason⟩

theorem PayloadSent.append {sys' : System P} {payloadType : PayloadType} {payload : String}
    (sent : sys.PayloadSent payloadType payload) {new : List (Record P)}
    (trace : sys'.sourceTrace = sys.sourceTrace ++ new) :
    sys'.PayloadSent payloadType payload := by
  obtain ⟨before, confirm, between, send, after, split, rest⟩ := sent
  exact ⟨before, confirm, between, send, after ++ new, by simp [trace, split], rest⟩

/-- What has been authored stays so: a confirmed source keeps its peer and its SAS. -/
theorem Authored.perform (sound : sys.Sound) (turn : Turn P) {message : PairingMessage}
    {content : P.Content} (authored : sys.Authored message content) :
    (sys.perform turn).Authored message content := by
  refine ⟨authored.1, ?_⟩
  have reason := authored.2
  cases message with
  | sasConfirm hash =>
    obtain ⟨⟨r, member, confirmed⟩, peer, sas, isPeer, isSas, isHash⟩ := reason
    cases turn with
    | target now call => exact ⟨⟨r, member, confirmed⟩, peer, sas, isPeer, isSas, isHash⟩
    | source now call =>
      have moved : sys.source.state ≠ .waiting := fun waiting =>
        sound.unconfirmed (Or.inl waiting) r member confirmed
      obtain ⟨samePeer, sameSas, _⟩ := PairingSession.call_pinned sys.source now call (Or.inl moved)
      obtain ⟨sameKey, sameId, sameSecret⟩ := PairingSession.call_keys sys.source now call
      refine ⟨⟨r, List.mem_append_left _ member, confirmed⟩, peer, sas, samePeer.trans isPeer,
        sameSas.trans isSas, ?_⟩
      simp only [System.perform, PairingSession.record, PairingSession.pubkey, sameKey, sameId,
        sameSecret]
      exact isHash
  | payload payloadType payload =>
    cases turn with
    | target now call => exact reason
    | source now call => exact PayloadSent.append reason rfl
  | _ => trivial

private theorem opens_perform (turn : Turn P) {content : P.Content} :
    (sys.perform turn).Opens content ↔ sys.Opens content := by
  cases turn with
  | source now call =>
    obtain ⟨sameKey, _⟩ := PairingSession.call_keys sys.source now call
    simp [Opens, perform, PairingSession.record, PairingSession.pubkey, sameKey]
  | target now call =>
    obtain ⟨sameKey, _⟩ := PairingSession.call_keys sys.target now call
    simp [Opens, perform, PairingSession.record, sameKey]

private theorem authored_source (laws : Symbolic P) (sound : sys.Sound) {now : Instant}
    {call : Call P} (admissible : sys.Admissible (.source now call)) {content : P.Content}
    (emitted : content ∈ (sys.source.record (now, call)).emitted) (opens : sys.Opens content) :
    ∃ message, (sys.perform (.source now call)).Authored message content := by
  rcases PairingSession.emitted_cases laws emitted with ⟨builder, rfl, rfl⟩ | ⟨message, made, why⟩
  · obtain ⟨message, authored⟩ :=
      authored_of_constructible laws sound (admissible _ rfl) opens
    exact ⟨message, authored.perform sound _⟩
  · refine ⟨message, made, ?_⟩
    cases message with
    | sasConfirm hash =>
      obtain ⟨_, confirmed, peer, sas, isPeer, isSas, isHash⟩ := why
      have moved : sys.source.state ≠ .waiting := by
        rw [PairingSession.state_of_confirmedSas confirmed]
        decide
      obtain ⟨samePeer, sameSas, _⟩ := PairingSession.call_pinned sys.source now call (Or.inl moved)
      obtain ⟨sameKey, sameId, sameSecret⟩ := PairingSession.call_keys sys.source now call
      refine ⟨⟨_, List.mem_append_right _ (List.mem_singleton_self _), confirmed⟩, peer, sas,
        samePeer.trans isPeer, sameSas.trans isSas, ?_⟩
      simp only [perform, PairingSession.record, PairingSession.pubkey, sameKey, sameId, sameSecret]
      exact isHash
    | payload payloadType payload =>
      obtain ⟨source, transferring, sent⟩ := why
      obtain ⟨confirm, member, confirmed⟩ :=
        sound.sourceConsistent.sourceConfirmed source transferring
      obtain ⟨before, between, split⟩ := List.append_of_mem member
      exact ⟨before, confirm, between, sys.source.record (now, call), [],
        by simp [perform, split], confirmed, sent, transferring⟩
    | _ => trivial

private theorem authored_target (laws : Symbolic P) (sound : sys.Sound) {now : Instant}
    {call : Call P} (admissible : sys.Admissible (.target now call)) {content : P.Content}
    (emitted : content ∈ (sys.target.record (now, call)).emitted) (opens : sys.Opens content) :
    ∃ message, (sys.perform (.target now call)).Authored message content := by
  have notSource : sys.target.role ≠ .source := by
    rw [sound.targetRole]
    decide
  rcases PairingSession.emitted_cases laws emitted with ⟨builder, rfl, rfl⟩ | ⟨message, made, why⟩
  · obtain ⟨message, authored⟩ :=
      authored_of_constructible laws sound (admissible _ rfl) opens
    exact ⟨message, authored.perform sound _⟩
  · refine ⟨message, made, ?_⟩
    cases message with
    | sasConfirm hash => exact absurd why.1 notSource
    | payload payloadType payload => exact absurd why.1 notSource
    | _ => trivial

theorem Sound.perform (laws : Symbolic P) {turn : Turn P} (admissible : sys.Admissible turn)
    (sound : sys.Sound) : (sys.perform turn).Sound := by
  cases turn with
  | source now call =>
    obtain ⟨sameRole, _⟩ := PairingSession.call_fixed sys.source now call
    obtain ⟨sameKey, _⟩ := PairingSession.call_keys sys.source now call
    constructor
    · exact sound.sourceConsistent.call (now, call)
    · exact sameRole.trans sound.sourceRole
    · exact sound.targetRole
    · simpa [System.perform, PairingSession.record, PairingSession.pubkey, sameKey] using
        sound.targetPeer
    · exact PairingSession.call_sasCode sys.source now call sound.sourceCode
    · exact sound.targetCode
    · intro early r member
      obtain ⟨earlyBefore, notNow⟩ := PairingSession.call_unconfirmed sys.source now call early
      rcases List.mem_append.mp member with old | new
      · exact sound.unconfirmed earlyBefore r old
      · obtain rfl := List.mem_singleton.mp new
        exact notNow
    · refine List.pairwise_append.mpr ⟨sound.confirmedOnce, List.pairwise_singleton _ _, ?_⟩
      intro r member r' new both
      obtain rfl := List.mem_singleton.mp new
      have confirming := PairingSession.state_of_confirmedSas both.2
      exact sound.unconfirmed (Or.inr confirming) r member both.1
    · intro content member opens
      rw [opens_perform] at opens
      rcases List.mem_append.mp member with old | new
      · obtain ⟨message, authored⟩ := sound.authored content old opens
        exact ⟨message, authored.perform sound _⟩
      · exact authored_source laws sound admissible new opens
  | target now call =>
    obtain ⟨sameRole, _⟩ := PairingSession.call_fixed sys.target now call
    obtain ⟨samePeer, _⟩ := PairingSession.call_pinned sys.target now call
      (Or.inr sound.targetRole)
    constructor
    · exact sound.sourceConsistent
    · exact sound.sourceRole
    · exact sameRole.trans sound.targetRole
    · exact samePeer.trans sound.targetPeer
    · exact sound.sourceCode
    · exact PairingSession.call_sasCode sys.target now call sound.targetCode
    · exact sound.unconfirmed
    · exact sound.confirmedOnce
    · intro content member opens
      rw [opens_perform] at opens
      rcases List.mem_append.mp member with old | new
      · obtain ⟨message, authored⟩ := sound.authored content old opens
        exact ⟨message, authored.perform sound _⟩
      · exact authored_target laws sound admissible new opens

/-! ### Agreement -/

theorem sound_run (laws : Symbolic P) (started : Started sys) {turns : List (Turn P)}
    (run : Along perform Admissible sys turns) : (turns.foldl perform sys).Sound :=
  run.invariant (fun _ _ admissible sound => Sound.perform laws admissible sound)
    (sound_of_started laws started)

private theorem sender_of_peer (sound : sys.Sound) {event : P.Event}
    (fromPeer : ∀ expected ∈ sys.target.peerPubkey, event.pubkey = expected) :
    event.pubkey = sys.source.pubkey :=
  fromPeer _ sound.targetPeer

/-- Accepting a `sas-confirm` means that the source confirmed, for this target. -/
theorem agree_of_sasConfirm (laws : Symbolic P) (sound : sys.Sound) {now : Instant}
    {event : P.Event} {code : String}
    (admissible : sys.Admissible (.target now (.handleSasConfirm event)))
    (accepted : (sys.target.handleSasConfirm now event).1 = .ok code) :
    sys.source.peerPubkey = some sys.target.pubkey ∧
      sys.source.sessionId = sys.target.sessionId ∧ sys.source.sasCode = sys.target.sasCode ∧
      sys.source.sasInput = sys.target.sasInput ∧ ∃ r ∈ sys.sourceTrace, r.confirmedSas := by
  rcases PairingSession.call_cases sys.target now (.handleSasConfirm event) with
    ⟨reply, _, accepts⟩ | ⟨e, result, _⟩
  · generalize (sys.target.call now (.handleSasConfirm event)).2 = after at accepts
    cases accepts with
    | handleSasConfirm ready fromPeer carries input known agrees shown =>
      have sender := sender_of_peer sound fromPeer
      obtain ⟨_, confirmed, peer, sas, isPeer, isSas, rfl⟩ :=
        authored_message laws sound (admissible _ rfl) sender carries
      rw [laws.hexDecode_hexEncode] at agrees
      obtain ⟨sameId, _, rfl, rfl, _⟩ := laws.transcript_injective (Option.some.inj agrees)
      have sameInput := isSas.trans input.symm
      exact ⟨isPeer, sameId, by rw [sound.sourceCode, sound.targetCode, sameInput], sameInput,
        confirmed⟩
  · simp [PairingSession.call, PairingSession.replying, accepted, Except.map] at result

/-- Accepting a payload means that the source sent it. -/
theorem sent_of_payload (laws : Symbolic P) (sound : sys.Sound) {now : Instant}
    {event : P.Event} {payloadType : PayloadType} {payload : String}
    (admissible : sys.Admissible (.target now (.handlePayload event)))
    (accepted : (sys.target.handlePayload now event).1 = .ok (payloadType, payload)) :
    sys.PayloadSent payloadType payload := by
  rcases PairingSession.call_cases sys.target now (.handlePayload event) with
    ⟨reply, result, accepts⟩ | ⟨e, result, _⟩
  · have isReply : reply = .payload payloadType payload := by
      simpa [PairingSession.call, PairingSession.replying, accepted, Except.map] using result.symm
    subst isReply
    generalize (sys.target.call now (.handlePayload event)).2 = after at accepts
    cases accepts with
    | handlePayload ready fromPeer carries =>
      exact (authored_message laws sound (admissible _ rfl) (sender_of_peer sound fromPeer)
        carries).2
  · simp [PairingSession.call, PairingSession.replying, accepted, Except.map] at result

/-- In every run of a source and a target created from its QR payload: when
`handle_sas_confirm` succeeds, the source is pinned to this target, both hold the
same session id, SAS input and SAS code, and the source's user has confirmed; when
`handle_payload` returns a payload, the source sent exactly this payload in the
state `Transferring`, after its one confirmation. -/
theorem pairing_agreement (laws : Symbolic P) (start : System P) (started : Started start)
    (turns : List (Turn P)) (run : Along perform Admissible start turns) :
    let sys := turns.foldl perform start
    (∀ now event code, sys.Admissible (.target now (.handleSasConfirm event)) →
      (sys.target.handleSasConfirm now event).1 = .ok code →
        sys.source.peerPubkey = some sys.target.pubkey ∧
          sys.source.sessionId = sys.target.sessionId ∧
          sys.source.sasCode = sys.target.sasCode ∧ sys.source.sasInput = sys.target.sasInput ∧
          ∃ r ∈ sys.sourceTrace, r.confirmedSas) ∧
    (∀ now event payloadType payload, sys.Admissible (.target now (.handlePayload event)) →
      (sys.target.handlePayload now event).1 = .ok (payloadType, payload) →
        ∃ before, ∃ confirm : Record P, ∃ between, ∃ send : Record P, ∃ after,
          sys.sourceTrace = before ++ confirm :: between ++ send :: after ∧
            confirm.confirmedSas ∧ send.sentPayload payloadType payload ∧
            send.before.state = .transferring ∧
            ∀ r : Record P, r ∈ before ++ between ++ send :: after → ¬ r.confirmedSas) := by
  intro sys
  have sound : sys.Sound := sound_run laws started run
  refine ⟨fun now event code admissible accepted =>
    agree_of_sasConfirm laws sound admissible accepted, ?_⟩
  intro now event payloadType payload admissible accepted
  obtain ⟨before, confirm, between, send, after, split, confirmed, sent, transferring⟩ :=
    sent_of_payload laws sound admissible accepted
  refine ⟨before, confirm, between, send, after, split, confirmed, sent, transferring, ?_⟩
  -- two confirmations would be a pair the invariant excludes
  have once := sound.confirmedOnce
  rw [split, List.append_assoc, List.cons_append, List.pairwise_append] at once
  obtain ⟨_, rest, across⟩ := once
  intro r member also
  rw [List.append_assoc] at member
  rcases List.mem_append.mp member with earlier | later
  · exact across r earlier confirm List.mem_cons_self ⟨also, confirmed⟩
  · exact List.rel_of_pairwise_cons rest later ⟨confirmed, also⟩

/-- The two sessions of the term model after the offer was sent. -/
def termStart : System termPrimitives where
  source := termSource
  target := termTarget
  seen := [(termEvent 2 1 (.offer (String.ofList ['d', 's']) 1)).content]

def termEntropy : Entropy termPrimitives := ⟨(), 30, 30⟩

/-- The transcript hash of the two sessions. -/
def termHash : String :=
  termPrimitives.hexEncode (termPrimitives.deriveTranscriptHash termTarget.sessionId
    (1 : Nat) (2 : Nat) (encode (termSharedKey 2 1) ++ ['s']) termTarget.sessionSecret)

/-- The protocol up to the payload on its way to the target. -/
def termTurns : List (Turn termPrimitives) :=
  [.source 1 (.handleOffer (termEvent 2 1 (.offer (String.ofList ['d', 's']) 1))),
    .source 2 (.confirmSas termEntropy),
    .target 3 (.handleSasConfirm (termEvent 1 2 (.sasConfirm termHash))),
    .target 4 .confirmTargetSas,
    .source 5 (.sendPayload termEntropy .nsec "nsec1")]

/-- The payload the target is handed in the term model is the one the source sent. -/
theorem pairing_agreement_payload :
    let sys := termTurns.foldl perform termStart
    let event := termEvent 1 2 (.payload .nsec "nsec1")
    (sys.target.handlePayload 6 event).1 = .ok (.nsec, "nsec1") ∧
      ∃ before, ∃ confirm : Record termPrimitives, ∃ between,
        ∃ send : Record termPrimitives, ∃ after, sys.sourceTrace = before ++ confirm :: between ++ send :: after ∧
          confirm.confirmedSas ∧ send.sentPayload .nsec "nsec1" ∧
          send.before.state = .transferring ∧
          ∀ r : Record termPrimitives, r ∈ before ++ between ++ send :: after →
            ¬ r.confirmedSas := by
  intro sys event
  have created : PairingSession.newTarget (P := termPrimitives) 0 (2 : Nat) termEntropy
      (PairingSession.newSource (P := termPrimitives) 0 (1 : Nat) ['s'] "wss://relay.example").2 =
      .ok (termTarget, termEvent 2 1 (.offer (String.ofList ['d', 's']) 1)) := rfl
  have started : Started termStart := .mk _ _ _ _ _ _ _ created
  have run : Along perform Admissible termStart termTurns := by
    refine ⟨?_, ?_, ?_, ?_, ?_, trivial⟩
    · rintro content ⟨⟩
      exact Or.inl (by decide)
    · rintro content ⟨⟩
    · rintro content ⟨⟩
      exact Or.inl (by decide)
    · rintro content ⟨⟩
    · rintro content ⟨⟩
  have admissible : sys.Admissible (.target 6 (.handlePayload event)) := by
    rintro content ⟨⟩
    exact Or.inl (by decide)
  exact ⟨rfl, (pairing_agreement symbolic_termPrimitives termStart started termTurns run).2 6 event
    .nsec "nsec1" admissible rfl⟩

end System

end Pairing
