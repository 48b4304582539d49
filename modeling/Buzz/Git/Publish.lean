import Buzz.Git.Store
import Buzz.Lib.Index

/-!
# Publishing a push

`hydrate_for_write` and `cas_publish` (`buzz-relay/src/api/git/hydrate.rs` and
`cas_publish.rs`): read the pointer and the manifest it names, run the client's
push in a workspace, capture the new objects as a delta pack or the whole
closure as a compacted pack set, compose and validate the next manifest, store it
and swap the pointer. Metrics and log lines are left out.
-/
namespace Git

open Lib Nostr

structure PublishLimits where
  parentHydratedBytes : Nat
  maxPackBytes : Nat
  maxRepoBytes : Nat

structure ParentState where
  ifMatch : Option ETag
  parentDigest : Option String
  parent : Manifest
deriving DecidableEq

def ParentState.fresh : ParentState where
  ifMatch := none
  parentDigest := none
  parent := { version := manifestVersion, head := "", refs := .empty, packs := [], parent := none }

def ParentState.fromLoaded (etag : ETag) (digest : String) (parent : Manifest) : ParentState where
  ifMatch := some etag
  parentDigest := some digest
  parent := parent

structure CasSuccess where
  manifest : Manifest
  manifestKey : String
deriving DecidableEq

/-! ### Reading the pointer -/

def maxManifestBytes : Nat := 4 * 1024 * 1024

/-- A pointer body that is a digest, or the number of characters of one that is not. -/
def digestOfBody (text : String) : Except Nat String :=
  let digest := trim text
  if byteLen digest = 64 ∧ digest.toList.all isAsciiHexDigit then .ok digest
  else .error (byteLen digest)

def hydrateStoreError (key : String) : StoreError → HydrateError
  | .objectTooLarge _ size max =>
    .resourceLimit s!"object {key} is {size} bytes (max {max})"
  | error => .store error

section

variable (sha256 : ByteArray → Hex64) (pkey : String)

def loadPointer : GitM HydrateError (Option (ETag × String × Manifest)) := do
  match ← (GitStore.getPointer pkey).mapErr .store with
  | none => pure none
  | some (etag, body) =>
    let text ← Task.ofExcept id (okOr (String.fromUTF8? body) .invalidPointer)
    let digest ← Task.ofExcept (fun _ => .invalidPointer) (digestOfBody text)
    let manifestKey := "manifests/" ++ digest
    let bytes ← (GitStore.getVerifiedLimited sha256 manifestKey digest maxManifestBytes).mapErr
      (hydrateStoreError manifestKey)
    let manifest ← Task.ofExcept .manifest (Manifest.fromBytes bytes)
    Task.ofExcept .manifest manifest.validate
    pure (some (etag, digest, manifest))

/-- The workspace of a push: the bytes of the packs in it and the pointer state that
it was made from. -/
def hydrateForWrite : GitM HydrateError (Nat × ParentState) := do
  match ← loadPointer sha256 pkey with
  | some (etag, digest, manifest) =>
    let bytes ← Task.reply (ask (.materializeManifest manifest))
    pure (bytes, .fromLoaded etag digest manifest)
  | none =>
    Task.reply (ask .initBareRepo)
    pure (0, .fresh)

end

/-! ### Composing the next manifest -/

def resolvePublishedHead (refs : Refs) (observedHead parentHead : String) : String :=
  let isPublishedBranch (name : String) := startsWith "refs/heads/" name && refs.containsKey name
  if isPublishedBranch observedHead then observedHead
  else if isPublishedBranch parentHead then parentHead
  else match ["refs/heads/main", "refs/heads/master"].find? (refs.containsKey ·) with
    | some preferred => preferred
    | none =>
      match refs.keys.find? (startsWith "refs/heads/" ·) with
      | some branch => branch
      | none => if observedHead ≠ "" then observedHead else parentHead

def composeAfter (parent : Manifest) (parentDigest : Option String) (head : String) (refs : Refs)
    (newPackKey : Option String) : Manifest :=
  let packs := match newPackKey with
    | some key => if key ∈ parent.packs then parent.packs else parent.packs ++ [key]
    | none => parent.packs
  { version := manifestVersion, head, refs, packs := sortDedup packs, parent := parentDigest }

def composeCompactedAfter (parentDigest : Option String) (head : String) (refs : Refs)
    (compactedPackKeys : List String) : Manifest :=
  { version := manifestVersion, head, refs, packs := sortDedup compactedPackKeys,
    parent := parentDigest }

def shouldCompact (parentPackCount threshold : Nat) : Bool := threshold ≤ parentPackCount

def compactedPackSetIsUsable (parentPackCount compactedPackCount : Nat) : Bool :=
  compactedPackCount < parentPackCount ||
    (maxManifestPacks ≤ parentPackCount && compactedPackCount ≤ maxManifestPacks)

/-! ### Capturing packs -/

/-- `capture_pack`: what the push introduced, or nothing. -/
def capturePack (refsBefore refsAfter : Refs) (maxPackBytes : Nat) :
    GitM CasError (Option ByteArray) := do
  if refsAfter.values = [] then pure none
  else
    let out ← Task.reply (ask (.packObjects refsAfter.values refsBefore.values))
    Task.guard (out.size ≤ maxPackBytes)
      (.resourceLimit s!"pack-objects output is {out.size} bytes (max {maxPackBytes})")
    if out.size = 0 then pure none else pure (some out)

/-- The size checks on the files of a compaction, with the running total. -/
def totalPackBytes (limits : PublishLimits) : Nat → List CompactedPack → Except CasError Nat
  | total, [] => .ok total
  | total, file :: rest => do
    ensure (file.pack.size ≤ limits.maxPackBytes)
      (.resourceLimit s!"compacted pack is {file.pack.size} bytes (max {limits.maxPackBytes})")
    let total := total + file.pack.size
    ensure (total ≤ GitStore.u64Max) (.resourceLimit "compacted byte count overflowed u64")
    ensure (total ≤ limits.maxRepoBytes)
      (.resourceLimit s!"compacted repo needs {total} bytes (max {limits.maxRepoBytes})")
    ensure (file.idx.size ≤ limits.maxPackBytes)
      (.resourceLimit s!"compacted idx is {file.idx.size} bytes (max {limits.maxPackBytes})")
    totalPackBytes limits total rest

def captureCompactedPacks (refsAfter : Refs) (limits : PublishLimits) :
    GitM CasError (List CompactedPack × Nat) := do
  if refsAfter.entries = [] then pure ([], 0)
  else
    Task.reply (ask .enforceCompactionObjectLimit)
    let packs ← Task.reply (ask (.packFiles (refsAfter.values.foldl pushNew []) limits.maxPackBytes))
    Task.guard (packs.length ≤ maxManifestPacks)
      (.resourceLimit s!"compaction produced {packs.length} packs (max {maxManifestPacks})")
    let total ← Task.ofExcept id (totalPackBytes limits 0 packs)
    pure (packs, total)

def digestFromPackKey (key : String) : Except CasError String :=
  match (stripStart "packs/" key).filter
      fun digest => byteLen digest == 64 && digest.toList.all isAsciiHexDigit with
  | some digest => .ok digest
  | none => .error (.backend (.backend (.httpFailWithBody 500
      ("put_pack returned non-standard key: " ++ key))))

def digestFromManifestKey (key : String) : Except CasError String :=
  match stripStart "manifests/" key with
  | some digest => .ok digest
  | none => .error (.backend (.backend (.httpFailWithBody 500
      ("put_manifest returned non-standard key: " ++ key))))

section

variable (sha256 : ByteArray → Hex64)

/-- `write_idx_sidecar`: index the pack and store the index under the pack's digest. -/
def writeIdxSidecar (packKey : String) (pack : ByteArray) : GitM CasError Unit := do
  let digest ← Task.ofExcept id (digestFromPackKey packKey)
  let idx ← Task.reply (ask (.indexPack pack))
  let _ ← (GitStore.putIdx digest idx).mapErr CasError.backend

/-- Upload one file of a compaction; its index is stored on a best-effort basis. -/
def uploadCompactedPack (file : CompactedPack) : GitM CasError String := do
  let pack ← Task.reply (do
    let read ← ask (.readFile file.pack)
    pure (read.mapError fun e => CasError.packCapture ("read compacted pack: " ++ e)))
  Task.guard (pack.size = file.pack.size)
    (.packCapture "compacted pack changed after size validation")
  let packKey ← (GitStore.putPack sha256 pack).mapErr CasError.backend
  let digest ← Task.ofExcept id (digestFromPackKey packKey)
  match ← ask (.readFile file.idx) with
  | .ok idx =>
    let _ ← Task.attempt (GitStore.putIdx digest idx)
    pure packKey
  | .error _ => pure packKey

def uploadAll : List CompactedPack → GitM CasError (List String)
  | [] => pure []
  | file :: rest => do
    let key ← uploadCompactedPack sha256 file
    let keys ← uploadAll rest
    pure (key :: keys)

def uploadCompactedPacks (files : List CompactedPack) : GitM CasError (List String) := do
  let keys ← uploadAll sha256 files
  pure (sortDedup keys)

def prepareCompaction (refsAfter : Refs) (limits : PublishLimits) (packsBefore : Nat) :
    GitM CasError (List String) := do
  let (files, _) ← captureCompactedPacks refsAfter limits
  Task.guard (compactedPackSetIsUsable packsBefore files.length)
    (.resourceLimit (s!"compaction did not reduce pack count (before {packsBefore}, " ++
      s!"after {files.length})"))
  uploadCompactedPacks sha256 files

/-- One attempt at a compaction under a permit and a deadline. Every way to fail is
reported, and none is passed on. -/
def attemptCompaction (refsAfter : Refs) (limits : PublishLimits) (packsBefore : Nat) :
    GitM CasError (Except CasError (List String)) := do
  match ← ask .acquireCompactionPermit with
  | .error error => pure (.error error)
  | .ok () =>
    let operation := (prepareCompaction sha256 refsAfter limits packsBefore).run
    ExceptT.lift (operation.withTimeout .deadline id
      (.error (.packCapture "pack compaction operation timed out after 600 seconds")))

/-- The attempt, when the parent names enough packs. -/
def compactIfDue (refsAfter : Refs) (limits : PublishLimits) (threshold packsBefore : Nat) :
    GitM CasError (Option (Except CasError (List String))) := do
  if shouldCompact packsBefore threshold then
    let attempt ← attemptCompaction sha256 refsAfter limits packsBefore
    pure (some attempt)
  else pure none

/-- The delta publication: the parent's packs and a pack of the new objects. -/
def deltaPackKey (parent : Manifest) (refsAfter : Refs) (limits : PublishLimits)
    (compactionFailure : Option CasError) : GitM CasError (Option String) := do
  match ← capturePack parent.refs refsAfter limits.maxPackBytes with
  | none => pure none
  | some bytes =>
    Task.guard (parent.packs.length < maxManifestPacks)
      (compactionFailure.getD (.resourceLimit
        s!"repository already names {parent.packs.length} packs and compaction failed"))
    let totalBytes := limits.parentHydratedBytes + bytes.size
    Task.guard (totalBytes ≤ GitStore.u64Max) (.resourceLimit "repo byte count overflowed u64")
    Task.guard (totalBytes ≤ limits.maxRepoBytes)
      (.resourceLimit
        s!"repo would need {totalBytes} hydrated bytes (max {limits.maxRepoBytes})")
    let packKey ← (GitStore.putPack sha256 bytes).mapErr CasError.backend
    let _ ← Task.attempt (writeIdxSidecar packKey bytes)
    pure (some packKey)

/-! ### The publication -/

def readWinnerError : StoreError → CasError
  | .digestMismatch key expected actual =>
    .manifestReadFailed ("winner manifest digest mismatch: " ++
      (StoreError.digestMismatch key expected actual).display)
  | .notFound key =>
    .manifestReadFailed ("winner pointer names missing manifest: " ++
      (StoreError.notFound key).display)
  | error => .backend error

def readWinnerAfterConflict (pkey : String) : GitM CasError (Manifest × String) := do
  match ← (GitStore.getPointer pkey).mapErr CasError.backend with
  | none => throw (.manifestReadFailed "pointer vanished after LostRace (no-delete rule violated)")
  | some (_, body) =>
    let text ← Task.ofExcept id (okOr (String.fromUTF8? body)
      (.manifestReadFailed "winner pointer body not utf-8"))
    let digest ← Task.ofExcept
      (fun got => .manifestReadFailed
        s!"winner pointer body is not a 64-char hex digest (got {got} chars)") (digestOfBody text)
    let manifestKey := "manifests/" ++ digest
    let bytes ← (GitStore.getVerified sha256 manifestKey digest).mapErr readWinnerError
    let winner ← Task.ofExcept (fun _ => .manifestReadFailed "parse winner manifest")
      (Manifest.fromBytes bytes)
    pure (winner, manifestKey)

def precondOf : Option ETag → Precond
  | some etag => .ifMatch etag
  | none => .ifNoneMatchStar

/-- The manifest the push wants to publish. -/
def composeNext (parent : ParentState) (limits : PublishLimits) (threshold : Nat) :
    GitM CasError Manifest := do
  let (refsAfter, headObserved) ← Task.reply (ask .snapshotWorkspaceState)
  let head := resolvePublishedHead refsAfter headObserved parent.parent.head
  let packsBefore := parent.parent.packs.length
  match ← compactIfDue sha256 refsAfter limits threshold packsBefore with
  | some (.ok packKeys) => pure (composeCompactedAfter parent.parentDigest head refsAfter packKeys)
  | some (.error failure) =>
    let newPackKey ← deltaPackKey sha256 parent.parent refsAfter limits (some failure)
    pure (composeAfter parent.parent parent.parentDigest head refsAfter newPackKey)
  | none =>
    let newPackKey ← deltaPackKey sha256 parent.parent refsAfter limits none
    pure (composeAfter parent.parent parent.parentDigest head refsAfter newPackKey)

/-- Validate and store a manifest and swap the pointer to it. -/
def commit (pkey : String) (parent : ParentState) (mAfter : Manifest) :
    GitM CasError CasSuccess := do
  Task.ofExcept CasError.manifestInvalid mAfter.validate
  let manifestKey ← (GitStore.putManifest sha256 mAfter.canonicalBytes).mapErr CasError.backend
  let manifestDigest ← Task.ofExcept id (digestFromManifestKey manifestKey)
  match ← (GitStore.putPointer pkey manifestDigest.toUTF8 (precondOf parent.ifMatch)).mapErr
      CasError.backend with
  | .won _ => pure { manifest := mAfter, manifestKey }
  | .lostRace =>
    let (winnerManifest, winnerManifestKey) ← readWinnerAfterConflict sha256 pkey
    throw (.conflict winnerManifest winnerManifestKey)

def casPublishInner (pkey : String) (parent : ParentState) (limits : PublishLimits)
    (threshold : Nat) : GitM CasError CasSuccess := do
  let mAfter ← composeNext sha256 parent limits threshold
  commit sha256 pkey parent mAfter

def casPublish (pkey : String) (parent : ParentState) (limits : PublishLimits) :
    GitM CasError CasSuccess :=
  casPublishInner sha256 pkey parent limits packCompactionThreshold

/-! ### A push -/

inductive PushError where
  | hydrate (error : HydrateError)
  | git (message : String)
  | cas (error : CasError)
deriving DecidableEq

/-- The relay's limits on packs and repositories. -/
structure Config where
  maxPackBytes : Nat
  maxRepoBytes : Nat

/-- `receive_pack`: a push that git rejects publishes nothing. -/
def receivePack (pkey : String) (config : Config) : GitM PushError (Option CasSuccess) := do
  let (parentHydratedBytes, parent) ← (hydrateForWrite sha256 pkey).mapErr PushError.hydrate
  match ← ask .receivePack with
  | .error message => throw (.git message)
  | .ok false => pure none
  | .ok true =>
    let limits := { config with parentHydratedBytes : PublishLimits }
    let success ← (casPublish sha256 pkey parent limits).mapErr PushError.cas
    pure (some success)

end

end Git
