import Buzz.Lib.Guard
import Buzz.Lib.Redis
import Buzz.Lib.Run
import Buzz.Lib.Spelled
import Buzz.Nostr.Uuid
import Buzz.Relay.Subscription

/-!
# The session directory

`SessionDirectory` of the relay: who owns a tunnel session. A lease is a Redis key with a time to
live whose value is `owner|generation|profile`; the generation comes from a second key that stays.
The Lua scripts take such a value apart with a pattern, and the Rust side parses it once more.

A call can fail around its script: the community refuses the write, the pool has no connection,
or the reply is lost after the script has run.
-/
namespace Tunnel

open Lib Nostr Relay

abbrev RuntimeId := Hex64

inductive Profile where
  | reliableStream
  | realtimeMedia
  | huddleControl
deriving DecidableEq

namespace Profile

def asWireStr : Profile → String
  | reliableStream => "reliable-stream"
  | realtimeMedia => "realtime-media"
  | huddleControl => "huddle-control"

def fromWire : String → Option Profile
  | "reliable-stream" => some reliableStream
  | "realtime-media" => some realtimeMedia
  | "huddle-control" => some huddleControl
  | _ => none

end Profile

structure SessionLease where
  communityId : CommunityId
  sessionId : Uuid
  ownerRuntimeId : RuntimeId
  generation : Nat
  profile : Profile
deriving DecidableEq

/-- The fence that every frame of a session carries. -/
structure FencedHeader where
  sessionId : Uuid
  generation : Nat
  ownerRuntimeId : RuntimeId
deriving DecidableEq

def SessionLease.fencedHeader (lease : SessionLease) : FencedHeader :=
  ⟨lease.sessionId, lease.generation, lease.ownerRuntimeId⟩

inductive DirectoryError where
  | pool (text : String)
  | redis (e : RedisError)
  /-- The connection to Redis failed. -/
  | connection (text : String)
  | malformedLease (communityId : CommunityId) (sessionId : Uuid) (value : String)
  | malformedGeneration (communityId : CommunityId) (sessionId : Uuid) (value : String)
  | unexpectedScriptStatus (status : String)
  | invalidLeaseTtl
  | communityWriteFenced (text : String)
  /-- `expect` on a script that answers without a lease. -/
  | panicked (message : String)
deriving DecidableEq

inductive AcquireResult where
  | acquired (lease : SessionLease)
  | exists (lease : SessionLease)
deriving DecidableEq

inductive RenewResult where
  | renewed (lease : SessionLease)
  | lost (current : Option SessionLease) (knownGeneration : Option Nat)
deriving DecidableEq

inductive ReleaseResult where
  | released (lease : SessionLease)
  | notOwner (current : Option SessionLease) (knownGeneration : Option Nat)
deriving DecidableEq

inductive MeshError where
  | staleGeneration (sessionId : Uuid) (frameGeneration knownGeneration : Nat)
  | noActiveLease (sessionId : Uuid) (frameGeneration knownGeneration : Nat)
      (frameOwnerRuntimeId : RuntimeId)
  | ownerMismatch (sessionId : Uuid) (generation : Nat)
      (frameOwnerRuntimeId currentOwnerRuntimeId : RuntimeId)
  | futureGeneration (sessionId : Uuid) (frameGeneration knownGeneration : Nat)
  | transport (e : DirectoryError)
deriving DecidableEq

/-! ### The scripts -/

structure SessionKeys where
  lease : String
  generation : String
deriving DecidableEq

def SessionKeys.new (communityId : CommunityId) (sessionId : Uuid) : SessionKeys :=
  let base := "buzz:" ++ communityId.uuid.toString ++ ":tunnel:" ++ sessionId.toString
  ⟨base ++ ":lease", base ++ ":generation"⟩

/-- The status, the lease and the generation as a script returns them. -/
abbrev ScriptReply := String × String × String

/-- `string.match(current, '^([^|]+)|([^|]+)|([^|]+)$')`. -/
def matchLease (current : String) : Option (String × String × String) :=
  match (current.toList.splitOn '|').map String.ofList with
  | [owner, generation, profile] =>
    if owner ≠ "" ∧ generation ≠ "" ∧ profile ≠ "" then some (owner, generation, profile) else none
  | _ => none

def acquireScript (keys : SessionKeys) (owner profile : String) (ttlMs : Nat) (r : Redis) :
    Except RedisError ScriptReply × Redis :=
  match r.get keys.lease with
  | some current => (.ok ("exists", current, (r.get keys.generation).getD ""), r)
  | none =>
    match r.incr keys.generation with
    | (.error e, r) => (.error e, r)
    | (.ok generation, r) =>
      let value := owner ++ "|" ++ Lua.tostring generation ++ "|" ++ profile
      (.ok ("acquired", value, Lua.tostring generation), r.setPx keys.lease value ttlMs)

/-- The scripts that act for one holder: `act` runs only while the lease is still its own. -/
def holderScript (done : String) (act : Redis → Redis) (keys : SessionKeys)
    (owner generation : String) (r : Redis) : Except RedisError ScriptReply × Redis :=
  match r.get keys.lease with
  | none => (.ok ("missing", "", (r.get keys.generation).getD ""), r)
  | some current =>
    match matchLease current with
    | some (currentOwner, currentGeneration, _) =>
      let known := (r.get keys.generation).getD currentGeneration
      if currentOwner = owner ∧ currentGeneration = generation then
        (.ok (done, current, known), act r)
      else (.ok ("lost", current, known), r)
    | none => (.ok ("lost", current, (r.get keys.generation).getD ""), r)

def renewScript (keys : SessionKeys) (owner generation : String) (ttlMs : Nat) (r : Redis) :
    Except RedisError ScriptReply × Redis :=
  holderScript "renewed" (fun r => r.pexpire keys.lease ttlMs) keys owner generation r

def releaseScript (keys : SessionKeys) (owner generation : String) (r : Redis) :
    Except RedisError ScriptReply × Redis :=
  holderScript "released" (fun r => r.del keys.lease) keys owner generation r

def validateScript (keys : SessionKeys) (r : Redis) : String × String :=
  ((r.get keys.lease).getD "", (r.get keys.generation).getD "")

/-! ### Parsing -/

private theorem toLower_of_isAsciiHexDigit {c : Char} (digit : isAsciiHexDigit c = true) :
    isLowerHexDigit c.toLower = true ∧ (isLowerHexDigit c = true → c.toLower = c) := by
  have all : ∀ n : Fin 128, isAsciiHexDigit (Char.ofNat n) = true →
      isLowerHexDigit (Char.ofNat n).toLower = true ∧
        (isLowerHexDigit (Char.ofNat n) = true → (Char.ofNat n).toLower = Char.ofNat n) := by
    decide
  have small : c.toNat < 128 := by
    simp only [isAsciiHexDigit, Bool.or_eq_true, Bool.and_eq_true, decide_eq_true_eq] at digit
    rcases digit with (⟨_, top⟩ | ⟨_, top⟩) | ⟨_, top⟩ <;>
      exact Nat.lt_of_le_of_lt (Char.le_def.mp top) (by decide)
  simpa using all ⟨c.toNat, small⟩ (by simpa using digit)

/-- `hex::decode` to thirty-two bytes; it takes both cases. -/
def decodeRuntimeId (hex : String) : Option RuntimeId :=
  if holds : hex.length = 64 ∧ hex.toList.all isAsciiHexDigit = true then
    some {
      toHex := String.ofList (hex.toList.map Char.toLower)
      length_eq := by
        rw [String.length_ofList, List.length_map, String.length_toList]
        exact holds.1
      digits := by
        simp only [String.toList_ofList, List.all_map, List.all_eq_true]
        exact fun c member =>
          (toLower_of_isAsciiHexDigit (List.all_eq_true.mp holds.2 c member)).1 }
  else none

def parseLease (communityId : CommunityId) (sessionId : Uuid) (value : String) :
    Except DirectoryError SessionLease :=
  let malformed := DirectoryError.malformedLease communityId sessionId value
  match (value.toList.splitOn '|').map String.ofList with
  | [ownerHex, generationText, profileText] => do
    let generation ← okOr (parseU64 generationText) malformed
    ensure (generation ≠ 0) malformed
    let profile ← okOr (Profile.fromWire profileText) malformed
    let ownerRuntimeId ← okOr (decodeRuntimeId ownerHex) malformed
    return { communityId, sessionId, ownerRuntimeId, generation, profile }
  | _ => .error malformed

def parseOptionalLease (communityId : CommunityId) (sessionId : Uuid) (value : String) :
    Except DirectoryError (Option SessionLease) :=
  if value = "" then .ok none else (parseLease communityId sessionId value).map some

def parseOptionalGeneration (communityId : CommunityId) (sessionId : Uuid) (value : String) :
    Except DirectoryError (Option Nat) :=
  if value = "" then .ok none
  else
    match parseU64 value with
    | none | some 0 => .error (.malformedGeneration communityId sessionId value)
    | some generation => .ok (some generation)

/-! ### The directory -/

/-- The lease time of a directory, in milliseconds. -/
structure SessionDirectory where
  leaseTtl : Nat
deriving DecidableEq

namespace SessionDirectory

def ttlMs (d : SessionDirectory) : Except DirectoryError Nat :=
  if 0 < d.leaseTtl ∧ d.leaseTtl < 2 ^ 63 then .ok d.leaseTtl else .error .invalidLeaseTtl

end SessionDirectory

/-- What can go wrong around a script. -/
inductive Fault where
  /-- The script does not run. -/
  | before (e : DirectoryError)
  /-- It runs, and the caller is not told. -/
  | after (e : DirectoryError)
deriving DecidableEq

/-- A mutation of Redis: the script as one step, and its reply read by the caller. -/
def mutate {α : Type} (fault : Option Fault)
    (script : Except DirectoryError (Redis → Except RedisError ScriptReply × Redis))
    (read : ScriptReply → Except DirectoryError α) (r : Redis) : Except DirectoryError α × Redis :=
  match fault, script with
  | some (.before e), _ => (.error e, r)
  | _, .error e => (.error e, r)
  | some (.after e), .ok script => (.error e, (script r).2)
  | none, .ok script =>
    match script r with
    | (.error e, r) => (.error (.redis e), r)
    | (.ok reply, r) => (read reply, r)

namespace SessionDirectory

variable (d : SessionDirectory)

def acquire (communityId : CommunityId) (sessionId : Uuid) (ownerRuntimeId : RuntimeId)
    (profile : Profile) (fault : Option Fault) : Redis → Except DirectoryError AcquireResult × Redis :=
  mutate fault
    (do
      let ttl ← d.ttlMs
      return acquireScript (.new communityId sessionId) ownerRuntimeId.toHex profile.asWireStr ttl)
    (fun (status, value, _) => do
      let lease ← parseLease communityId sessionId value
      match status with
      | "acquired" => .ok (.acquired lease)
      | "exists" => .ok (.exists lease)
      | _ => .error (.unexpectedScriptStatus status))

def takeover (communityId : CommunityId) (sessionId : Uuid) (ownerRuntimeId : RuntimeId)
    (profile : Profile) (fault : Option Fault) : Redis → Except DirectoryError AcquireResult × Redis :=
  d.acquire communityId sessionId ownerRuntimeId profile fault

def renew (lease : SessionLease) (fault : Option Fault) :
    Redis → Except DirectoryError RenewResult × Redis :=
  mutate fault
    (do
      let ttl ← d.ttlMs
      return renewScript (.new lease.communityId lease.sessionId) lease.ownerRuntimeId.toHex
        (toString lease.generation) ttl)
    (fun (status, value, known) => do
      let current ← parseOptionalLease lease.communityId lease.sessionId value
      match status with
      | "renewed" => (okOr current (.panicked "renewed returns lease")).map .renewed
      | "missing" | "lost" =>
        (parseOptionalGeneration lease.communityId lease.sessionId known).map (.lost current)
      | _ => .error (.unexpectedScriptStatus status))

def release (lease : SessionLease) (fault : Option Fault) :
    Redis → Except DirectoryError ReleaseResult × Redis :=
  mutate fault
    (.ok (releaseScript (.new lease.communityId lease.sessionId) lease.ownerRuntimeId.toHex
      (toString lease.generation)))
    (fun (status, value, known) => do
      let current ← parseOptionalLease lease.communityId lease.sessionId value
      match status with
      | "released" => (okOr current (.panicked "released returns lease")).map .released
      | "missing" | "lost" =>
        (parseOptionalGeneration lease.communityId lease.sessionId known).map (.notOwner current)
      | _ => .error (.unexpectedScriptStatus status))

end SessionDirectory

def knownGeneration (r : Redis) (communityId : CommunityId) (sessionId : Uuid) :
    Except DirectoryError (Option Nat) :=
  match r.get (SessionKeys.new communityId sessionId).generation with
  | none => .ok none
  | some value => parseOptionalGeneration communityId sessionId value

def validateFencedHeader (r : Redis) (communityId : CommunityId) (fenced : FencedHeader) :
    Except MeshError Unit := do
  let (leaseValue, knownText) := validateScript (.new communityId fenced.sessionId) r
  let knownFromCounter := (← (parseOptionalGeneration communityId fenced.sessionId knownText).mapError
    .transport).getD 0
  let current ← (parseOptionalLease communityId fenced.sessionId leaseValue).mapError .transport
  let known := max ((current.map SessionLease.generation).getD knownFromCounter) knownFromCounter
  ensure (¬ (0 < known ∧ fenced.generation < known))
    (.staleGeneration fenced.sessionId fenced.generation known)
  let current ← okOr current
    (.noActiveLease fenced.sessionId fenced.generation known fenced.ownerRuntimeId)
  ensure (fenced.generation = current.generation)
    (.futureGeneration fenced.sessionId fenced.generation current.generation)
  ensure (fenced.ownerRuntimeId = current.ownerRuntimeId)
    (.ownerMismatch fenced.sessionId fenced.generation fenced.ownerRuntimeId
      current.ownerRuntimeId)

/-! ### The keys of a session -/

namespace SessionKeys

private theorem base_injective {community community' session session' : String} {ending : String}
    (length : community.length = community'.length) (length' : session.length = session'.length)
    (same : "buzz:" ++ community ++ ":tunnel:" ++ session ++ ending =
      "buzz:" ++ community' ++ ":tunnel:" ++ session' ++ ending) :
    community = community' ∧ session = session' := by
  have chars := congrArg String.toList same
  simp only [String.toList_append, List.append_assoc, List.append_cancel_left_eq] at chars
  obtain ⟨first, rest⟩ := List.append_inj chars
    (by rw [String.length_toList, String.length_toList, length])
  rw [List.append_cancel_left_eq] at rest
  obtain ⟨second, -⟩ := List.append_inj rest
    (by rw [String.length_toList, String.length_toList, length'])
  exact ⟨String.toList_injective first, String.toList_injective second⟩

variable {community community' : CommunityId} {session session' : Uuid}

private theorem eq_of_toString (same : community.uuid.toString = community'.uuid.toString ∧
    session.toString = session'.toString) : community = community' ∧ session = session' := by
  obtain ⟨first, second⟩ := same
  cases community
  cases community'
  exact ⟨congrArg CommunityId.mk (Uuid.toString_injective first), Uuid.toString_injective second⟩

theorem lease_inj (same : (new community session).lease = (new community' session').lease) :
    community = community' ∧ session = session' :=
  eq_of_toString (base_injective (by simp) (by simp) same)

theorem generation_inj
    (same : (new community session).generation = (new community' session').generation) :
    community = community' ∧ session = session' :=
  eq_of_toString (base_injective (by simp) (by simp) same)

/-- No lease key is a generation key: they end in different letters. -/
theorem generation_ne_lease : (new community session).generation ≠ (new community' session').lease := by
  intro same
  have lengths := congrArg String.length same
  simp only [new, String.length_append, Uuid.length_toString] at lengths
  exact absurd lengths (by decide)

end SessionKeys

/-! ### The text of a lease -/

namespace SessionLease

/-- The value of the lease key. -/
def text (lease : SessionLease) : String :=
  lease.ownerRuntimeId.toHex ++ "|" ++ toString lease.generation ++ "|" ++ lease.profile.asWireStr

end SessionLease

private theorem splitOn_parts {a b c : String} (first : '|' ∉ a.toList) (second : '|' ∉ b.toList)
    (third : '|' ∉ c.toList) :
    ((a ++ "|" ++ b ++ "|" ++ c).toList.splitOn '|').map String.ofList = [a, b, c] := by
  have none {s : String} (absent : '|' ∉ s.toList) : ∀ x ∈ s.toList, (x == '|') = false := by
    intro x member
    rw [beq_eq_false_iff_ne]
    rintro rfl
    exact absent member
  have bar : "|".toList = ['|'] := rfl
  simp only [String.toList_append, List.append_assoc, bar, List.cons_append, List.nil_append,
    List.splitOn]
  rw [List.splitOnP_append_cons _ _ (by simp), List.splitOnP_append_cons _ _ (by simp),
    List.splitOnP_eq_singleton (none first), List.splitOnP_eq_singleton (none second),
    List.splitOnP_eq_singleton (none third)]
  simp

private theorem bar_not_mem_toHex (id : RuntimeId) : '|' ∉ id.toHex.toList := fun member =>
  absurd (List.all_eq_true.mp id.digits _ member) (by decide)

private theorem bar_not_mem_toString (n : Nat) : '|' ∉ (toString n).toList := by
  intro member
  rw [toString_toList] at member
  exact absurd (Nat.isDigit_of_mem_toDigits (by decide) (by decide) member) (by decide)

private theorem bar_not_mem_asWireStr (profile : Profile) : '|' ∉ profile.asWireStr.toList := by
  cases profile <;> decide

theorem toString_ne_empty (n : Nat) : toString n ≠ "" := by
  intro empty
  have chars := congrArg String.toList empty
  have size := Nat.length_toDigits_pos (b := 10) (n := n)
  rw [toString_toList] at chars
  simp [chars] at size

theorem parts_text (lease : SessionLease) :
    (lease.text.toList.splitOn '|').map String.ofList =
      [lease.ownerRuntimeId.toHex, toString lease.generation, lease.profile.asWireStr] :=
  splitOn_parts (bar_not_mem_toHex _) (bar_not_mem_toString _) (bar_not_mem_asWireStr _)

theorem matchLease_text (lease : SessionLease) : matchLease lease.text =
    some (lease.ownerRuntimeId.toHex, toString lease.generation, lease.profile.asWireStr) := by
  have owner : lease.ownerRuntimeId.toHex ≠ "" := by
    intro empty
    have length := lease.ownerRuntimeId.length_eq
    rw [empty] at length
    cases length
  have profile : lease.profile.asWireStr ≠ "" := by cases lease.profile <;> decide
  unfold matchLease
  rw [parts_text]
  simp only
  rw [if_pos ⟨owner, toString_ne_empty _, profile⟩]

theorem decodeRuntimeId_toHex (id : RuntimeId) : decodeRuntimeId id.toHex = some id := by
  have ascii {c : Char} (digit : isLowerHexDigit c = true) : isAsciiHexDigit c = true := by
    simp only [isLowerHexDigit, Bool.or_eq_true] at digit
    simp only [isAsciiHexDigit, Bool.or_eq_true]
    exact Or.inl digit
  have digits := List.all_eq_true.mp id.digits
  have same : String.ofList (id.toHex.toList.map Char.toLower) = id.toHex := by
    rw [List.map_congr_left fun c member =>
      (toLower_of_isAsciiHexDigit (ascii (digits c member))).2 (digits c member)]
    simp
  unfold decodeRuntimeId
  rw [dif_pos ⟨id.length_eq,
    List.all_eq_true.mpr fun c member => ascii (digits c member)⟩]
  exact congrArg some (Hex64.toHex_injective same)

@[simp] theorem fromWire_asWireStr (profile : Profile) :
    Profile.fromWire profile.asWireStr = some profile := by
  cases profile <;> rfl

/-- What the script has written is what the relay reads. -/
theorem parseLease_text (lease : SessionLease) (positive : 0 < lease.generation)
    (fits : lease.generation < 2 ^ 64) :
    parseLease lease.communityId lease.sessionId lease.text = .ok lease := by
  unfold parseLease
  rw [parts_text]
  simp only [parseU64_toString fits, fromWire_asWireStr, decodeRuntimeId_toHex, okOr]
  have nonzero : lease.generation ≠ 0 := by omega
  simp [ensure, nonzero]

end Tunnel
