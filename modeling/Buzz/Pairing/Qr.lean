import Buzz.Lib.Guard
import Buzz.Lib.Octets
import Buzz.Nostr.Event
import Mathlib.Data.List.Induction

/-!
# The QR code

`encode_qr` and `decode_qr` of `buzz-core/src/pairing/qr.rs`: the `nostrpair://` URI that a pairing
session starts from. Every error is the text of an `InvalidQr`. The parsers of keys and of URLs and
the lossy reading of UTF-8 are those of libraries.
-/
namespace Pairing.Qr

open Lib Nostr

/-- What the decoder reads of a parsed URL. -/
structure Url where
  scheme : String
  host : Option String

structure Libraries where
  /-- `PublicKey::from_hex`. -/
  fromHex : String → Except String PublicKey
  /-- `Url::parse`. -/
  parseUrl : String → Except String Url
  /-- `decode_utf8_lossy`. -/
  utf8Lossy : List UInt8 → String
  /-- The error of `hex::decode`. -/
  hexError : String → String
  /-- `{:?}`. -/
  debug : String → String

/-- What the libraries document. -/
structure Libraries.Documented (lib : Libraries) : Prop where
  fromHex : ∀ key : PublicKey, lib.fromHex key.toHex = .ok key
  utf8Lossy : ∀ s : String, lib.utf8Lossy (utf8 s) = s

/-- The `[u8; 32]` of a session. -/
structure Secret where
  bytes : List UInt8
  length_eq : bytes.length = 32
deriving DecidableEq

def Secret.zero : Secret := ⟨List.replicate 32 0, by simp⟩

structure QrPayload where
  sourcePubkey : PublicKey
  sessionSecret : Secret
  relays : List String
  version : Nat
deriving DecidableEq

def urlEncode (s : String) : String := percentEncode s

def encodeQr (payload : QrPayload) : String :=
  let uri := "nostrpair://" ++ payload.sourcePubkey.toHex ++ "?secret=" ++
    hexEncode payload.sessionSecret.bytes
  payload.relays.foldl (fun uri relay => uri ++ "&relay=" ++ urlEncode relay) uri ++ "&v=1"

/-- `str::parse::<u32>`. -/
def parseU32 (s : String) : Option Nat := (parseU64 s).filter (· < 2 ^ 32)

def isLowercaseHex (c : Char) : Bool := c.isDigit || ('a' ≤ c && c ≤ 'f')

/-- Sixty-four lowercase hex digits. -/
def isHex64 (s : String) : Bool := byteLen s = 64 && s.toList.all isLowercaseHex

/-- The variables of the loop over the query. -/
structure Params where
  secretHex : Option String := none
  relays : List String := []
  version : Option Nat := none

/-- `query.split('&')`. -/
def pairsOf (query : String) : List String := (query.toList.splitOn '&').map String.ofList

namespace Libraries

variable (lib : Libraries)

def urlDecode (s : String) : String := lib.utf8Lossy (percentDecode (utf8 s))

/-- One turn of the loop. Unknown parameters are ignored. -/
def readPair (params : Params) (pair : String) : Params :=
  match splitOnce '=' pair with
  | none => params
  | some (key, value) =>
    if key = "secret" then { params with secretHex := some value }
    else if key = "relay" then { params with relays := params.relays ++ [lib.urlDecode value] }
    else if key = "v" then { params with version := parseU32 value }
    else params

/-- The checks on one relay. -/
def checkRelay (relay : String) : Except String Unit := do
  let parsed ← (lib.parseUrl relay).mapError fun e =>
    "invalid relay URL " ++ lib.debug relay ++ ": " ++ e
  ensure (parsed.scheme = "wss" ∨ parsed.scheme = "ws")
    ("relay URL must use wss:// or ws:// scheme, got " ++ lib.debug parsed.scheme)
  ensure (parsed.host.isSome) ("relay URL has no host: " ++ lib.debug relay)

def decodeQr (uri : String) : Except String QrPayload := do
  ensure (byteLen uri ≤ 2048)
    ("URI exceeds 2048-character limit (" ++ toString (byteLen uri) ++ " chars)")
  let rest ← okOr (stripStart "nostrpair://" uri) "URI must start with nostrpair://"
  let (pubkeyHex, query) ← okOr (splitOnce '?' rest)
    "missing query string (expected ?secret=…&relay=…)"
  ensure (isHex64 pubkeyHex) ("pubkey must be 64 lowercase hex chars, got " ++ lib.debug pubkeyHex)
  let sourcePubkey ← (lib.fromHex pubkeyHex).mapError ("invalid pubkey: " ++ ·)
  let params := (pairsOf query).foldl lib.readPair {}
  let version := params.version.getD 1
  ensure (version = 1)
    ("unsupported protocol version " ++ toString version ++ ", expected 1")
  let secretStr ← okOr params.secretHex "missing 'secret' query parameter"
  ensure (isHex64 secretStr) ("secret must be 64 lowercase hex chars, got " ++ lib.debug secretStr)
  let secretBytes ← okOr (hexDecode secretStr) ("invalid secret hex: " ++ lib.hexError secretStr)
  if sized : secretBytes.length = 32 then
    let sessionSecret : Secret := ⟨secretBytes, sized⟩
    ensure (sessionSecret ≠ Secret.zero) "session_secret must not be all zeros"
    ensure (params.relays ≠ []) "at least one 'relay' query parameter is required"
    params.relays.forM lib.checkRelay
    return { sourcePubkey, sessionSecret, relays := params.relays, version }
  else .error "secret must be exactly 32 bytes"

end Libraries

/-! ## The format -/

/-- The values of a parameter, in the order of the query. -/
def values (name query : String) : List String :=
  (pairsOf query).filterMap fun pair =>
    (splitOnce '=' pair).bind fun (key, value) => if key = name then some value else none

/-- The query of a URI. -/
def queryOf (uri : String) : String :=
  (((stripStart "nostrpair://" uri).bind (splitOnce '?')).map (·.2)).getD ""

/-- A ws or wss URL with a host. -/
def WebSocket (lib : Libraries) (relay : String) : Prop :=
  ∃ url, lib.parseUrl relay = .ok url ∧ (url.scheme = "wss" ∨ url.scheme = "ws") ∧
    url.host.isSome

/-- The URI has the format of a pairing code for the payload, whatever its version parameters. -/
structure Format (lib : Libraries) (uri : String) (payload : QrPayload) : Prop where
  length : byteLen uri ≤ 2048
  key : ∃ pubkeyHex, (stripStart "nostrpair://" uri).bind (splitOnce '?') =
    some (pubkeyHex, queryOf uri) ∧ isHex64 pubkeyHex ∧
      lib.fromHex pubkeyHex = .ok payload.sourcePubkey
  secret : ∃ secretHex, (values "secret" (queryOf uri)).getLast? = some secretHex ∧
    isHex64 secretHex ∧ hexDecode secretHex = some payload.sessionSecret.bytes
  nonzero : payload.sessionSecret ≠ Secret.zero
  relays : payload.relays = (values "relay" (queryOf uri)).map lib.urlDecode
  some_relay : payload.relays ≠ []
  webSocket : ∀ relay ∈ payload.relays, WebSocket lib relay

/-- What a decoded URI has to be. -/
structure Accepts (lib : Libraries) (uri : String) (payload : QrPayload) : Prop where
  length : byteLen uri ≤ 2048
  nonzero : payload.sessionSecret ≠ Secret.zero
  webSocket : ∀ relay ∈ payload.relays, WebSocket lib relay
  versions : ∀ value ∈ values "v" (queryOf uri), parseU32 value = some 1

/-- A version parameter that does not name version 1, where the last one does, or is no number. -/
def Masked (uri : String) : Prop :=
  (∃ value ∈ values "v" (queryOf uri), parseU32 value ≠ some 1) ∧
    ∃ last ∈ (values "v" (queryOf uri)).getLast?, (parseU32 last).getD 1 = 1

/-! ## The decoder -/

section

variable {lib : Libraries}

/-- The values of a parameter among the pairs. -/
private def valuesIn (name : String) (pairs : List String) : List String :=
  pairs.filterMap fun pair =>
    (splitOnce '=' pair).bind fun (key, value) => if key = name then some value else none

private theorem values_eq (name query : String) :
    values name query = valuesIn name (pairsOf query) := rfl

private theorem valuesIn_append (name : String) (first second : List String) :
    valuesIn name (first ++ second) = valuesIn name first ++ valuesIn name second := by
  simp [valuesIn]

private theorem valuesIn_single {name pair key value : String}
    (split : splitOnce '=' pair = some (key, value)) :
    valuesIn name [pair] = if key = name then [value] else [] := by
  by_cases same : key = name <;> simp [valuesIn, split, same]

/-- After the loop the last secret and the last version are kept, and all relays. -/
theorem foldl_readPair (query : String) : (pairsOf query).foldl lib.readPair {} =
    { secretHex := (values "secret" query).getLast?
      relays := (values "relay" query).map lib.urlDecode
      version := (values "v" query).getLast?.bind parseU32 } := by
  simp only [values_eq]
  induction pairsOf query using List.reverseRecOn with
  | nil => rfl
  | append_singleton pairs pair ih =>
    rw [List.foldl_append, ih, List.foldl_cons, List.foldl_nil, valuesIn_append, valuesIn_append,
      valuesIn_append, Libraries.readPair]
    cases split : splitOnce '=' pair with
    | none => simp [valuesIn, split]
    | some part =>
      obtain ⟨key, value⟩ := part
      simp only [valuesIn_single split]
      by_cases secret : key = "secret"
      · subst secret
        simp
      by_cases relay : key = "relay"
      · subst relay
        simp
      by_cases version : key = "v"
      · subst version
        simp
      · simp [secret, relay, version]

theorem checkRelay_eq_ok_iff {relay : String} :
    lib.checkRelay relay = .ok () ↔ WebSocket lib relay := by
  simp only [Libraries.checkRelay, bind_eq_ok, mapError_eq_ok, ensure_eq_ok, WebSocket,
    exists_and_left, exists_const]

attribute [local irreducible] values in
theorem decodeQr_eq_ok_iff {uri : String} {payload : QrPayload} :
    lib.decodeQr uri = .ok payload ↔ Format lib uri payload ∧ payload.version = 1 ∧
      (((values "v" (queryOf uri)).getLast?.bind parseU32).getD 1) = 1 := by
  have checks : ∀ relays : List String, relays.forM lib.checkRelay = .ok () ↔
      ∀ relay ∈ relays, WebSocket lib relay := by
    intro relays
    induction relays with
    | nil => simp [pure, Except.pure]
    | cons relay relays ih =>
      have step : (relay :: relays).forM lib.checkRelay =
          (lib.checkRelay relay >>= fun _ => relays.forM lib.checkRelay) := rfl
      rw [step, bind_eq_ok, List.forall_mem_cons, ← ih, ← checkRelay_eq_ok_iff]
      exact ⟨fun ⟨(), first, rest⟩ => ⟨first, rest⟩, fun ⟨first, rest⟩ => ⟨(), first, rest⟩⟩
  unfold Libraries.decodeQr
  simp only [bind_eq_ok, ensure_eq_ok, okOr_eq_ok, mapError_eq_ok, foldl_readPair]
  constructor
  · rintro ⟨-, length, rest, strip, ⟨pubkeyHex, query⟩, split, -, hex, key, parsed, -, version,
      secretHex, last, -, digits, bytes, decoded, done⟩
    have here : (stripStart "nostrpair://" uri).bind (splitOnce '?') = some (pubkeyHex, query) := by
      rw [strip, Option.bind_some, split]
    have same : queryOf uri = query := by rw [queryOf, here]; rfl
    subst same
    split at done
    next sized =>
      simp only [bind_eq_ok, ensure_eq_ok] at done
      obtain ⟨-, nonzero, -, some, _, webSocket, result⟩ := done
      cases result
      exact ⟨⟨length, ⟨pubkeyHex, here, hex, parsed⟩, ⟨secretHex, last, digits, decoded⟩, nonzero,
        rfl, some, (checks _).mp webSocket⟩, version, version⟩
    next => cases done
  · rintro ⟨⟨length, ⟨pubkeyHex, split, hex, parsed⟩, ⟨secretHex, last, digits, decoded⟩, nonzero,
      relays, some, webSocket⟩, version, named⟩
    obtain ⟨rest, strip, split⟩ := Option.bind_eq_some_iff.mp split
    refine ⟨(), length, rest, strip, (pubkeyHex, queryOf uri), split, (), hex, payload.sourcePubkey,
      parsed, (), named, secretHex, last, (), digits, payload.sessionSecret.bytes, decoded, ?_⟩
    rw [dif_pos payload.sessionSecret.length_eq]
    simp only [bind_eq_ok, ensure_eq_ok]
    refine ⟨(), nonzero, (), relays ▸ some, (), (checks _).mpr (relays ▸ webSocket), ?_⟩
    rw [named, ← relays, ← version]
    rfl

end

/-! ## The encoder -/

/-- The text of a query. -/
def queryText (params : List (String × String)) : String :=
  String.ofList (List.intercalate ['&'] (params.map fun param =>
    (param.1 ++ (String.singleton '=' ++ param.2)).toList))

/-- A pairing URI with these parameters. -/
def uriOf (key : String) (params : List (String × String)) : String :=
  "nostrpair://" ++ (key ++ (String.singleton '?' ++ queryText params))

/-- Parameters whose separators are those between them. -/
structure Separable (key : String) (params : List (String × String)) : Prop where
  key : '?' ∉ key.toList
  some : params ≠ []
  names : ∀ param ∈ params, '=' ∉ param.1.toList ∧ '&' ∉ param.1.toList
  values : ∀ param ∈ params, '&' ∉ param.2.toList

private theorem split_uriOf {key : String} (free : '?' ∉ key.toList)
    (params : List (String × String)) :
    (stripStart "nostrpair://" (uriOf key params)).bind (splitOnce '?') =
      some (key, queryText params) := by
  rw [uriOf, stripStart_append, Option.bind_some, splitOnce_append free]

theorem queryOf_uriOf {key : String} (free : '?' ∉ key.toList) (params : List (String × String)) :
    queryOf (uriOf key params) = queryText params := by
  rw [queryOf, split_uriOf free]
  rfl

theorem values_queryText {key : String} {params : List (String × String)}
    (separable : Separable key params) (name : String) :
    values name (queryText params) = (params.filter (·.1 = name)).map (·.2) := by
  have split : pairsOf (queryText params) =
      params.map fun param => param.1 ++ (String.singleton '=' ++ param.2) := by
    rw [pairsOf, queryText, String.toList_ofList, List.splitOn_intercalate]
    · simp [Function.comp_def]
    · intro text member
      obtain ⟨⟨name, value⟩, inside, rfl⟩ := List.mem_map.mp member
      rw [String.toList_append, String.toList_append, String.toList_singleton]
      simpa using ⟨(separable.names _ inside).2, separable.values _ inside⟩
    · simpa using separable.some
  have names := separable.names
  rw [values_eq, split]
  clear split separable
  induction params with
  | nil => rfl
  | cons param params ih =>
    obtain ⟨other, value⟩ := param
    have here : valuesIn name [other ++ (String.singleton '=' ++ value)] =
        if other = name then [value] else [] :=
      valuesIn_single (splitOnce_append (names (other, value) List.mem_cons_self).1 value)
    have rest := ih fun param member => names param (List.mem_cons_of_mem _ member)
    rw [List.map_cons, ← List.singleton_append, valuesIn_append, here, rest, List.filter_cons]
    by_cases same : other = name <;> simp [same]

private theorem intercalate_cons (first : List Char) (rest : List (List Char)) :
    List.intercalate ['&'] (first :: rest) = first ++ rest.flatMap ('&' :: ·) := by
  induction rest generalizing first with
  | nil => simp
  | cons second rest ih =>
    rw [List.intercalate_cons_cons, ih]
    simp

private theorem size_pair (name value : String) :
    ((name ++ (String.singleton '=' ++ value)).toList.map Char.utf8Size).sum =
      byteLen name + byteLen value + 1 := by
  have equals : '='.utf8Size = 1 := by decide
  simp only [String.toList_append, String.toList_singleton, List.map_append, List.sum_append,
    List.map_cons, List.map_nil, List.sum_cons, List.sum_nil, equals, byteLen]
  omega

private theorem byteLen_append (a b : String) : byteLen (a ++ b) = byteLen a + byteLen b := by
  simp [byteLen]

theorem byteLen_uriOf_le (key : String) (params : List (String × String)) :
    byteLen (uriOf key params) ≤
      13 + byteLen key + (params.map fun param => byteLen param.1 + byteLen param.2 + 2).sum := by
  have query : byteLen (queryText params) ≤
      (params.map fun param => byteLen param.1 + byteLen param.2 + 2).sum := by
    rw [queryText, byteLen, String.toList_ofList]
    cases params with
    | nil => simp
    | cons param params =>
      rw [List.map_cons, intercalate_cons, List.map_append, List.sum_append, size_pair,
        List.map_cons, List.sum_cons]
      have rest : (((params.map fun param =>
          (param.1 ++ (String.singleton '=' ++ param.2)).toList).flatMap
            ('&' :: ·)).map Char.utf8Size).sum =
              (params.map fun param => byteLen param.1 + byteLen param.2 + 2).sum := by
        induction params with
        | nil => rfl
        | cons param params ih =>
          rw [List.map_cons, List.flatMap_cons, List.map_append, List.sum_append, ih, List.map_cons,
            List.sum_cons, size_pair, List.map_cons, List.sum_cons]
          have ampersand : '&'.utf8Size = 1 := by decide
          omega
      rw [rest]
      omega
  have scheme : byteLen "nostrpair://" = 12 := by decide
  have mark : byteLen (String.singleton '?') = 1 := by decide
  rw [uriOf, byteLen_append, byteLen_append, byteLen_append, scheme, mark]
  omega

/-- The parameters that the encoder writes, with another version. -/
def paramsOf (payload : QrPayload) (version : String) : List (String × String) :=
  ("secret", hexEncode payload.sessionSecret.bytes) ::
    (payload.relays.map fun relay => ("relay", urlEncode relay)) ++ [("v", version)]

theorem encodeQr_eq (payload : QrPayload) :
    encodeQr payload = uriOf payload.sourcePubkey.toHex (paramsOf payload "1") := by
  have folded : ∀ (relays : List String) (start : String),
      (relays.foldl (fun uri relay => uri ++ "&relay=" ++ urlEncode relay) start).toList =
        start.toList ++ relays.flatMap fun relay => '&' :: ("relay=" ++ urlEncode relay).toList := by
    intro relays
    induction relays with
    | nil => simp
    | cons relay relays ih =>
      intro start
      rw [List.foldl_cons, ih]
      simp
  rw [← String.toList_inj, uriOf, queryText, paramsOf]
  simp only [encodeQr, String.toList_append, folded, String.toList_ofList, List.cons_append,
    List.map_cons, intercalate_cons]
  have question : "?secret=".toList = '?' :: ("secret".toList ++ ['=']) := rfl
  have relay : "relay=".toList = "relay".toList ++ ['='] := rfl
  have version : "&v=1".toList = '&' :: ("v".toList ++ '=' :: "1".toList) := rfl
  simp [question, relay, version, List.flatMap_map]

theorem separable_paramsOf (payload : QrPayload) {version : String} (free : '&' ∉ version.toList) :
    Separable payload.sourcePubkey.toHex (paramsOf payload version) where
  key member := by
    have digit := List.all_eq_true.mp payload.sourcePubkey.digits _ member
    cases digit
  some := by simp [paramsOf]
  names := by
    intro param member
    rw [paramsOf, List.cons_append, List.mem_cons, List.mem_append, List.mem_map] at member
    have secret : '=' ∉ "secret".toList ∧ '&' ∉ "secret".toList := by decide
    have relay : '=' ∉ "relay".toList ∧ '&' ∉ "relay".toList := by decide
    have v : '=' ∉ "v".toList ∧ '&' ∉ "v".toList := by decide
    rcases member with rfl | ⟨_, -, rfl⟩ | last
    · exact secret
    · exact relay
    · rw [List.mem_singleton.mp last]
      exact v
  values := by
    intro param member
    rw [paramsOf, List.cons_append, List.mem_cons, List.mem_append, List.mem_map] at member
    rcases member with rfl | ⟨relay, -, rfl⟩ | last
    · intro inside
      have digit := mem_hexEncode inside
      revert digit
      decide
    · intro inside
      have plain := mem_percentEncode inside
      revert plain
      decide
    · rw [List.mem_singleton.mp last]
      exact free

section

variable {lib : Libraries}

theorem urlDecode_urlEncode (documented : lib.Documented) (s : String) :
    lib.urlDecode (urlEncode s) = s := by
  rw [Libraries.urlDecode, urlEncode, percentDecode_percentEncode, documented.utf8Lossy]

theorem isHex64_hexEncode (secret : Secret) : isHex64 (hexEncode secret.bytes) = true := by
  rw [isHex64, byteLen_hexEncode, secret.length_eq]
  simp only [Nat.reduceMul, decide_true, Bool.true_and, List.all_eq_true]
  intro c member
  simpa [isLowercaseHex] using mem_hexEncode member

theorem isHex64_toHex (key : PublicKey) : isHex64 key.toHex = true := by
  have digits := List.all_eq_true.mp key.digits
  have sized : byteLen key.toHex = 64 := by
    rw [byteLen_eq_length, key.length_eq]
    intro c member
    have digit := digits c member
    simp only [isLowerHexDigit, Bool.or_eq_true, Bool.and_eq_true, decide_eq_true_eq] at digit
    have small : c ≤ 'f' := digit.elim (fun range => range.2.trans (by decide)) (·.2)
    exact Char.utf8Size_eq_one_iff.mpr (UInt32.le_trans small (by decide : 'f'.val ≤ 127))
  simp only [isHex64, sized, decide_true, Bool.true_and, List.all_eq_true]
  intro c member
  have digit := digits c member
  simp only [isLowerHexDigit, isLowercaseHex, Bool.or_eq_true, Bool.and_eq_true,
    decide_eq_true_eq] at digit ⊢
  exact digit.imp (fun range => by simpa [Char.isDigit, Char.le_def] using range) id

/-- Whatever the version, the URI has the format of a pairing code for the payload. -/
theorem format_uriOf (documented : lib.Documented) {payload : QrPayload} {version : String}
    (free : '&' ∉ version.toList)
    (length : byteLen (uriOf payload.sourcePubkey.toHex (paramsOf payload version)) ≤ 2048)
    (nonzero : payload.sessionSecret ≠ Secret.zero) (some : payload.relays ≠ [])
    (webSocket : ∀ relay ∈ payload.relays, WebSocket lib relay) :
    Format lib (uriOf payload.sourcePubkey.toHex (paramsOf payload version)) payload := by
  have separable := separable_paramsOf payload free
  have secret : values "secret" (queryText (paramsOf payload version)) =
      [hexEncode payload.sessionSecret.bytes] := by
    rw [values_queryText separable]
    simp [paramsOf]
  have relays : values "relay" (queryText (paramsOf payload version)) =
      payload.relays.map urlEncode := by
    rw [values_queryText separable]
    simp [paramsOf, List.filter_map, Function.comp_def]
  rw [← queryOf_uriOf separable.key] at secret relays
  refine ⟨length, ⟨payload.sourcePubkey.toHex, ?_, isHex64_toHex _, documented.fromHex _⟩,
    ⟨_, by rw [secret]; rfl, isHex64_hexEncode _, hexDecode_hexEncode _⟩, nonzero, ?_, some,
    webSocket⟩
  · rw [queryOf_uriOf separable.key, split_uriOf separable.key]
  · rw [relays, List.map_map]
    simp [Function.comp_def, urlDecode_urlEncode documented]

theorem versions_uriOf (payload : QrPayload) {version : String} (free : '&' ∉ version.toList) :
    values "v" (queryOf (uriOf payload.sourcePubkey.toHex (paramsOf payload version))) =
      [version] := by
  have separable := separable_paramsOf payload free
  rw [queryOf_uriOf separable.key, values_queryText separable]
  simp [paramsOf]

/-- A version that names 1, or is no number, is decoded as version 1. -/
theorem decodeQr_uriOf (documented : lib.Documented) {payload : QrPayload} {version : String}
    (free : '&' ∉ version.toList) (named : (parseU32 version).getD 1 = 1)
    (length : byteLen (uriOf payload.sourcePubkey.toHex (paramsOf payload version)) ≤ 2048)
    (first : payload.version = 1) (nonzero : payload.sessionSecret ≠ Secret.zero)
    (some : payload.relays ≠ []) (webSocket : ∀ relay ∈ payload.relays, WebSocket lib relay) :
    lib.decodeQr (uriOf payload.sourcePubkey.toHex (paramsOf payload version)) = .ok payload := by
  apply decodeQr_eq_ok_iff.mpr
  refine ⟨format_uriOf documented free length nonzero some webSocket, first, ?_⟩
  rw [versions_uriOf payload free]
  exact named

end

/-! ## Exactness -/

/-- The code of a payload is decoded to it; and what is decoded is acceptable, exactly if the URI is
no pairing code that masks a version parameter. -/
theorem decodeQr_exact {lib : Libraries} (documented : lib.Documented) :
    (∀ payload : QrPayload, payload.version = 1 → payload.sessionSecret ≠ Secret.zero →
      payload.relays ≠ [] → (∀ relay ∈ payload.relays, WebSocket lib relay) →
      byteLen (encodeQr payload) ≤ 2048 → lib.decodeQr (encodeQr payload) = .ok payload) ∧
    ∀ uri, (∀ payload, lib.decodeQr uri = .ok payload → Accepts lib uri payload) ↔
      ¬ ((∃ payload, Format lib uri payload) ∧ Masked uri) := by
  refine ⟨fun payload version nonzero some webSocket length => ?_, fun uri => ?_⟩
  · rw [encodeQr_eq] at length ⊢
    exact decodeQr_uriOf documented (by decide) (by decide) length version nonzero
      some webSocket
  constructor
  · rintro accepts ⟨⟨payload, format⟩, ⟨value, given, other⟩, last, final, named⟩
    have decoded : lib.decodeQr uri = .ok { payload with version := 1 } := by
      apply decodeQr_eq_ok_iff.mpr
      refine ⟨⟨format.length, format.key, format.secret, format.nonzero, format.relays,
        format.some_relay, format.webSocket⟩, rfl, ?_⟩
      rw [Option.mem_def.mp final]
      exact named
    exact other ((accepts _ decoded).versions value given)
  · intro plain payload decoded
    obtain ⟨format, -, named⟩ := decodeQr_eq_ok_iff.mp decoded
    refine ⟨format.length, format.nonzero, format.webSocket, ?_⟩
    by_contra masked
    rw [not_forall] at masked
    obtain ⟨value, masked⟩ := masked
    rw [Classical.not_imp] at masked
    obtain ⟨given, other⟩ := masked
    cases final : (values "v" (queryOf uri)).getLast? with
    | none =>
      rw [List.getLast?_eq_none_iff.mp final] at given
      cases given
    | some last =>
      rw [final] at named
      exact plain ⟨⟨payload, format⟩, ⟨value, given, other⟩, last, final, named⟩

/-! ### A version that is no number -/

namespace Sample

/-- Keys are read from 64 lowercase digits, and one relay is known. -/
def library : Libraries where
  fromHex s := if hex : s.length = 64 ∧ s.toList.all isLowerHexDigit = true then
    .ok ⟨s, hex.1, hex.2⟩ else .error "Invalid public key"
  parseUrl s := if s = "wss://a" then .ok ⟨"wss", some "a"⟩ else
    .error "relative URL without a base"
  utf8Lossy bytes := (String.fromUTF8? bytes.toByteArray).getD "\uFFFD"
  hexError _ := "Odd number of digits"
  debug s := "\"" ++ s ++ "\""

theorem documented : library.Documented where
  fromHex key := dif_pos ⟨key.length_eq, key.digits⟩
  utf8Lossy s := by
    have bytes : (utf8 s).toByteArray = s.toUTF8 := by
      rw [String.toUTF8_eq_toByteArray, ← String.utf8Encode_toList]
      rfl
    change (String.fromUTF8? (utf8 s).toByteArray).getD _ = s
    rw [bytes, fromUTF8?_toUTF8]
    rfl

def payload : QrPayload where
  sourcePubkey := Hex64.repeated 'a' (Eq.refl true)
  sessionSecret := ⟨List.replicate 32 0xab, by simp⟩
  relays := ["wss://a"]
  version := 1

/-- The URI of the payload with another version. -/
def uri (version : String) : String :=
  uriOf payload.sourcePubkey.toHex (paramsOf payload version)

theorem webSocket : ∀ relay ∈ payload.relays, WebSocket library relay := by
  simp only [payload, List.mem_singleton, forall_eq]
  exact ⟨⟨"wss", some "a"⟩, by simp [library], Or.inl rfl, rfl⟩

theorem nonzero : payload.sessionSecret ≠ Secret.zero := by decide

theorem length_le (version : String) (short : byteLen version ≤ 3) :
    byteLen (uri version) ≤ 2048 := by
  refine (byteLen_uriOf_le _ _).trans ?_
  have hex : byteLen (hexEncode payload.sessionSecret.bytes) = 64 := by
    rw [byteLen_hexEncode, payload.sessionSecret.length_eq]
  have key : byteLen payload.sourcePubkey.toHex = 64 := by
    have digits := isHex64_toHex payload.sourcePubkey
    rw [isHex64, Bool.and_eq_true, decide_eq_true_eq] at digits
    exact digits.1
  have relay : byteLen (urlEncode "wss://a") = 13 := by decide
  have names : byteLen "secret" = 6 ∧ byteLen "relay" = 5 ∧ byteLen "v" = 1 := by decide
  have relays : payload.relays = ["wss://a"] := rfl
  simp only [paramsOf, relays, List.map_cons, List.map_nil, List.cons_append, List.nil_append,
    List.sum_cons, List.sum_nil, hex, key, relay, names]
  omega

end Sample

theorem decodeQr_exact_sample :
    Sample.library.decodeQr (encodeQr Sample.payload) = .ok Sample.payload ∧
      ((∀ payload, Sample.library.decodeQr (encodeQr Sample.payload) = .ok payload →
          Accepts Sample.library (encodeQr Sample.payload) payload) ↔
        ¬ ((∃ payload, Format Sample.library (encodeQr Sample.payload) payload) ∧
          Masked (encodeQr Sample.payload))) := by
  have exact := decodeQr_exact Sample.documented
  refine ⟨exact.1 Sample.payload rfl Sample.nonzero (by simp [Sample.payload]) Sample.webSocket ?_,
    exact.2 _⟩
  rw [encodeQr_eq]
  exact Sample.length_le "1" (by decide)

/-- A version that is no number is taken for version 1. -/
theorem decodeQr_masked :
    Sample.library.decodeQr (Sample.uri "2.0") = .ok Sample.payload ∧
      ¬ Accepts Sample.library (Sample.uri "2.0") Sample.payload := by
  have free : '&' ∉ "2.0".toList := by decide
  have unparsable : parseU32 "2.0" = none := by decide
  constructor
  · exact decodeQr_uriOf Sample.documented free (by rw [unparsable]; rfl)
      (Sample.length_le "2.0" (by decide)) rfl Sample.nonzero
      (by simp [Sample.payload]) Sample.webSocket
  · intro accepts
    have named := accepts.versions "2.0" (by rw [Sample.uri, versions_uriOf _ free]; simp)
    rw [unparsable] at named
    cases named

end Pairing.Qr
