import Buzz.Pairing.Session
import Mathlib.Tactic.Common

/-!
# The symbolic reading of the primitives

`Symbolic` collects what a symbolic analysis assumes of the cryptography: a
ciphertext opens only under the shared key it was made with, a shared key
determines its two public keys, and the transcript hash determines its inputs.
`termPrimitives` is a model of these laws in which keys, hashes and ciphertexts
are plain data, so that sessions can be run.
-/
namespace Pairing

open Nostr Lib

structure Symbolic (P : Primitives) : Prop where
  publicKey_injective : Function.Injective P.publicKey
  /-- A shared key belongs to one unordered pair of public keys. -/
  sharedKey_injective : ∀ {a b : P.SecretKey} {p q : P.PublicKey} {k : P.Bytes32},
    P.generateSharedKey a p = .ok k → P.generateSharedKey b q = .ok k →
      (P.publicKey a = P.publicKey b ∧ p = q) ∨ (P.publicKey a = q ∧ p = P.publicKey b)
  /-- A ciphertext opens only under its shared key, and to its plaintext. -/
  opens : ∀ {a b : P.SecretKey} {p q : P.PublicKey} {n : P.Nonce} {m m' : P.Plain}
    {c : P.Content}, P.encrypt a p n m = .ok c → P.decrypt b q c = .ok m' →
      m' = m ∧ ∃ k, P.generateSharedKey a p = .ok k ∧ P.generateSharedKey b q = .ok k
  sign_content : ∀ {k : P.SecretKey} {b : EventBuilder P.Content} {event : P.Event},
    P.sign k b = .ok event → event.content = b.content
  transcript_injective : ∀ {id id' : P.Bytes32} {source source' target target' : P.PublicKey}
    {sas sas' secret secret' : P.Bytes32},
    P.deriveTranscriptHash id source target sas secret =
        P.deriveTranscriptHash id' source' target' sas' secret' →
      id = id' ∧ source = source' ∧ target = target' ∧ sas = sas' ∧ secret = secret'
  fromJson_toJson : ∀ message, P.fromJson (P.toJson message) = .ok message
  hexDecode_hexEncode : ∀ bytes, P.hexDecode (P.hexEncode bytes) = some bytes

/-! ### A term model -/

/-- A prefix code: each character is announced, and the end is marked. -/
def encode (xs : List Char) : List Char := xs.flatMap (fun c => ['c', c]) ++ ['e']

theorem encode_append_inj {xs ys u v : List Char} (same : encode xs ++ u = encode ys ++ v) :
    xs = ys ∧ u = v := by
  induction xs generalizing ys with
  | nil =>
    cases ys with
    | nil => simpa [encode] using same
    | cons y ys => simp [encode] at same
  | cons x xs ih =>
    cases ys with
    | nil => simp [encode] at same
    | cons y ys =>
      simp only [encode, List.flatMap_cons, List.cons_append, List.nil_append, List.append_assoc,
        List.cons.injEq, true_and] at same
      obtain ⟨rfl, rest⟩ := same
      obtain ⟨rfl, rfl⟩ := @ih ys (by simpa [encode] using rest)
      exact ⟨rfl, rfl⟩

/-- A key number in unary. -/
def encodeKey (n : Nat) : List Char := encode (List.replicate n 'i')

theorem encodeKey_append_inj {m n : Nat} {u v : List Char}
    (same : encodeKey m ++ u = encodeKey n ++ v) : m = n ∧ u = v := by
  obtain ⟨keys, rest⟩ := encode_append_inj same
  exact ⟨by simpa using congrArg List.length keys, rest⟩

def termSharedKey (a p : Nat) : List Char := encodeKey (min a p) ++ encodeKey (max a p)

theorem termSharedKey_inj {a p b q : Nat} (same : termSharedKey a p = termSharedKey b q) :
    (a = b ∧ p = q) ∨ (a = q ∧ p = b) := by
  obtain ⟨low, rest⟩ := encodeKey_append_inj same
  obtain ⟨high, _⟩ := encodeKey_append_inj (u := []) (v := []) (by simpa using rest)
  omega

/-- A ciphertext names its shared key and holds its plaintext. -/
structure TermContent where
  key : List Char
  plain : PairingMessage
deriving DecidableEq

/-- Ids are distinct for the five kinds of message. -/
def termId : PairingMessage → EventId
  | .offer _ _ => Hex64.repeated 'a' (Eq.refl true)
  | .sasConfirm _ => Hex64.repeated 'b' (Eq.refl true)
  | .payload _ _ => Hex64.repeated 'c' (Eq.refl true)
  | .complete _ => Hex64.repeated 'd' (Eq.refl true)
  | .abort _ => Hex64.repeated 'e' (Eq.refl true)

def termPrimitives : Primitives where
  SecretKey := Nat
  PublicKey := Nat
  Bytes32 := List Char
  Content := TermContent
  Plain := PairingMessage
  Nonce := Unit
  publicKey k := k
  toHex k := String.ofList (List.replicate k 'i')
  verify _ := .ok ()
  sign k b := .ok ⟨termId b.content.plain, k, b.createdAt, b.kind, b.tags, b.content, ""⟩
  encrypt a p _ m := .ok ⟨termSharedKey a p, m⟩
  decrypt b q c := if c.key = termSharedKey b q then .ok c.plain else .error "invalid MAC"
  contentLen _ := 200
  plainLen _ := 100
  generateSharedKey a p := .ok (termSharedKey a p)
  deriveSessionId secret := 'd' :: secret
  deriveSasInput ecdh secret := encode ecdh ++ secret
  sasCode input := input.length % 1000000
  deriveTranscriptHash id source target sas secret :=
    encode id ++ (encodeKey source ++ (encodeKey target ++ (encode sas ++ secret)))
  hexEncode := String.ofList
  hexDecode s := some s.toList
  toJson m := m
  fromJson m := .ok m

instance : DecidableEq termPrimitives.Content := inferInstanceAs (DecidableEq TermContent)

/-- A message from one key to another. -/
def termEvent (sender receiver : Nat) (message : PairingMessage) : termPrimitives.Event where
  id := termId message
  pubkey := sender
  createdAt := 0
  kind := pairingKind
  tags := [["p", termPrimitives.toHex receiver]]
  content := ⟨termSharedKey sender receiver, message⟩
  sig := ""

/-- The source with key 1. -/
def termSource : PairingSession termPrimitives :=
  (PairingSession.newSource (P := termPrimitives) 0 (1 : Nat) ['s'] "wss://relay.example").1

/-- The target with key 2, as `new_target` creates it from the source's QR payload. -/
def termTarget : PairingSession termPrimitives :=
  { termSource with
    role := .target
    state := .confirming
    secretKey := (2 : Nat)
    peerPubkey := some (1 : Nat)
    sasInput := some (encode (termSharedKey 2 1) ++ ['s'])
    sasCode := some ((encode (termSharedKey 2 1) ++ ['s']).length % 1000000) }

theorem symbolic_termPrimitives : Symbolic termPrimitives where
  publicKey_injective := Function.injective_id
  sharedKey_injective := by
    intro a b p q k first second
    cases first
    exact termSharedKey_inj (Except.ok.inj second).symm
  opens := by
    intro a b p q n m m' c encrypted decrypted
    cases encrypted
    simp only [termPrimitives] at decrypted
    split at decrypted
    next same => exact ⟨(Except.ok.inj decrypted).symm, _, rfl, by simp [termPrimitives, same]⟩
    next => cases decrypted
  sign_content := by
    intro k b event signed
    cases signed
    rfl
  transcript_injective := by
    intro id id' source source' target target' sas sas' secret secret' same
    obtain ⟨sameId, rest⟩ := encode_append_inj same
    obtain ⟨sameSource, rest⟩ := encodeKey_append_inj rest
    obtain ⟨sameTarget, rest⟩ := encodeKey_append_inj rest
    obtain ⟨sameSas, sameSecret⟩ := encode_append_inj rest
    exact ⟨sameId, sameSource, sameTarget, sameSas, sameSecret⟩
  fromJson_toJson _ := rfl
  hexDecode_hexEncode _ := congrArg some String.toList_ofList

end Pairing
