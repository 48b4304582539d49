import Buzz.Relay.Subscription

/-!
# Storage manifests

The checks of `buzz-db/src/deletion.rs` on manifests: `validate_storage_manifest`, which every
frozen inventory passes, and `validate_manifest_key_chunks`, which compares the stored key list
with the digests that were frozen. SHA-256 is given by its hex digests.
-/
namespace Deletion

open Lib Nostr Relay

structure PrefixManifest where
  pathPrefix : String
  objectCount : Nat
  totalBytes : Nat
  keysDigest : String
deriving DecidableEq

structure StorageManifest where
  version : Int
  prefixes : List PrefixManifest
deriving DecidableEq

/-- The live schema as JSON text, and the object store. -/
structure FrozenInventory where
  schema : String
  storage : StorageManifest
deriving DecidableEq

/-- A row of `community_deletion_manifest_keys`. -/
structure ManifestKeyChunk where
  requestId : Uuid
  chunkNo : Int
  pathPrefix : String
  keys : List String
  deletedAt : Option Int
deriving DecidableEq

/-- What the checks and the digests get from libraries. -/
structure Hashes where
  /-- `FrozenInventory::digest`: SHA-256 of the canonical JSON. -/
  inventory : FrozenInventory → List UInt8
  /-- The hex form of the SHA-256 of a text. -/
  sha256 : String → String

def isLowerHex (c : Char) : Bool := c.isDigit || ('a' ≤ c && c ≤ 'f')

/-- The prefixes are strictly ascending. -/
def strictlySorted : List PrefixManifest → Bool
  | [] => true
  | [_] => true
  | first :: second :: rest => first.pathPrefix < second.pathPrefix && strictlySorted (second :: rest)

/-- The first prefix that is refused, with its text. -/
def refusedPrefix : List PrefixManifest → Option String
  | [] => none
  | summary :: rest =>
    if summary.pathPrefix = "" then some "storage manifest contains an empty prefix"
    else if summary.keysDigest.length = 64 ∧ summary.keysDigest.toList.all isLowerHex then
      refusedPrefix rest
    else some ("storage manifest digest for " ++ summary.pathPrefix ++ " is not lowercase hex sha-256")

def validateStorageManifest (manifest : StorageManifest) : Except String Unit :=
  if manifest.version ≠ 4 then
    .error ("unsupported storage manifest version " ++ toString manifest.version)
  else if manifest.prefixes = [] then .error "storage manifest has no tenant prefixes"
  else if ¬ strictlySorted manifest.prefixes then
    .error "storage manifest prefixes are not strictly sorted"
  else match refusedPrefix manifest.prefixes with
    | some text => .error text
    | none => .ok ()

/-! ### The key stream -/

structure KeyStreamDigest where
  /-- What has been hashed: every key with a newline. -/
  text : String := ""
  last : Option String := none
  count : Nat := 0

namespace KeyStreamDigest

def fold (digest : KeyStreamDigest) (key : String) : Except String KeyStreamDigest :=
  if digest.last.any (key ≤ ·) then
    .error ("storage key stream is not strictly ascending at " ++ key)
  else .ok ⟨digest.text ++ key ++ "\n", some key, digest.count + 1⟩

def finish (hashes : Hashes) (digest : KeyStreamDigest) : String × Nat :=
  (hashes.sha256 digest.text, digest.count)

end KeyStreamDigest

/-- Every key of the chunk is under its prefix, and the digest goes on with it. -/
def foldKeys (chunkPrefix : String) :
    KeyStreamDigest → List String → Except String KeyStreamDigest
  | digest, [] => .ok digest
  | digest, key :: keys => do
    if ¬ key.startsWith chunkPrefix then
      .error ("frozen key " ++ key ++ " is outside its chunk prefix " ++ chunkPrefix)
    else foldKeys chunkPrefix (← digest.fold key) keys

/-- The local closure `close` of `validate_manifest_key_chunks`. -/
def closePrefix (hashes : Hashes) (summary : PrefixManifest) (digest : KeyStreamDigest) :
    Except String Unit :=
  if digest.finish hashes = (summary.keysDigest, summary.objectCount) then .ok ()
  else .error ("frozen key chunks do not match the destructive manifest for prefix " ++
    summary.pathPrefix)

/-- Close the prefixes before the one of the chunk. -/
def seekPrefix (hashes : Hashes) (chunkPrefix : String) :
    List PrefixManifest → KeyStreamDigest → Except String (List PrefixManifest × KeyStreamDigest)
  | [], _ => .error ("frozen key chunk prefix " ++ chunkPrefix ++
      " is not in the destructive manifest")
  | summary :: rest, digest =>
    if summary.pathPrefix = chunkPrefix then .ok (summary :: rest, digest)
    else do
      closePrefix hashes summary digest
      seekPrefix hashes chunkPrefix rest {}

/-- The current prefix is the first one; the chunks are numbered from `index`. -/
def validateChunksFrom (hashes : Hashes) (index : Int) :
    List ManifestKeyChunk → List PrefixManifest → KeyStreamDigest → Except String Unit
  | [], [], _ => .ok ()
  | [], current :: remaining, digest => do
    closePrefix hashes current digest
    remaining.forM fun summary => closePrefix hashes summary {}
  | chunk :: chunks, prefixes, digest => do
    if chunk.chunkNo ≠ index then .error "frozen key chunk sequence has gaps"
    else
      let (prefixes, digest) ← seekPrefix hashes chunk.pathPrefix prefixes digest
      if chunk.keys = [] then .error "frozen key chunk is empty"
      else
        let digest ← foldKeys chunk.pathPrefix digest chunk.keys
        validateChunksFrom hashes (index + 1) chunks prefixes digest

def validateManifestKeyChunks (hashes : Hashes) (manifest : StorageManifest)
    (chunks : List ManifestKeyChunk) : Except String Unit :=
  validateChunksFrom hashes 0 chunks manifest.prefixes {}

end Deletion
