import Buzz.Git.Manifest
import Buzz.Lib.Prog
import Mathlib

/-!
# The object store client

`GitStore` (`buzz-relay/src/api/git/store.rs`) as programs over the calls a push
makes: requests to the bucket, and questions to the workspace of the push, which
stand for `git` subprocesses, temporary files and timers. What answers them is
not decided here. SHA-256 is a parameter. Where a message ends in the text of a
standard-library error, that text is left out.
-/
namespace Git

open Lib Nostr

/-! ### Errors and outcomes -/

structure ETag where
  token : String
deriving DecidableEq

inductive Precond where
  | ifNoneMatchStar
  | ifMatch (etag : ETag)
deriving DecidableEq

inductive CasOutcome where
  | won (etag : ETag)
  | lostRace
deriving DecidableEq

/-- An error of the S3 library: a failure status, or anything else by its text. -/
inductive S3Error where
  | httpFailWithBody (status : Nat) (body : String)
  | other (text : String)
deriving DecidableEq

def S3Error.display : S3Error → String
  | .httpFailWithBody status body => s!"Got HTTP {status} with content '" ++ body ++ "'"
  | .other text => text

inductive StoreError where
  | notFound (key : String)
  | objectTooLarge (key : String) (size max : Nat)
  | digestMismatch (key expected actual : String)
  | backend (error : S3Error)
deriving DecidableEq

def StoreError.display : StoreError → String
  | .notFound key => "object not found: " ++ key
  | .objectTooLarge key size max => s!"object too large: {key} is {size} bytes (max {max})"
  | .digestMismatch key expected actual =>
    s!"digest mismatch on {key}: expected {expected}, got {actual}"
  | .backend error => "s3 backend error: " ++ error.display

inductive HydrateError where
  | invalidPointer
  | manifest (error : ManifestError)
  | store (error : StoreError)
  | hydrate (message : String)
  | resourceLimit (message : String)
deriving DecidableEq

inductive CasError where
  | conflict (winnerManifest : Manifest) (winnerManifestKey : String)
  | manifestReadFailed (message : String)
  | manifestInvalid (error : ManifestError)
  | backend (error : StoreError)
  | packCapture (message : String)
  | resourceLimit (message : String)
deriving DecidableEq

/-! ### Calls -/

/-- What a request to the bucket returns when it does not fail. -/
structure Response where
  status : Nat
  etag : Option String
  body : ByteArray
deriving DecidableEq

/-- A pack of a compaction with its index, as found in the temporary directory. -/
structure CompactedPack where
  pack : ByteArray
  idx : ByteArray
deriving DecidableEq

inductive Op where
  | getObject (key : String)
  | headObject (key : String)
  | putObject (key : String) (body : ByteArray) (precond : Precond)
  /-- Write the packs, refs and head of a manifest into a new workspace; the reply is
  the number of bytes of the packs. -/
  | materializeManifest (m : Manifest)
  | initBareRepo
  /-- Run the client's push in the workspace; the reply tells whether every ref
  update was accepted. -/
  | receivePack
  | snapshotWorkspaceState
  | acquireCompactionPermit
  | enforceCompactionObjectLimit
  /-- `git pack-objects --revs --stdout`. -/
  | packObjects (positive negative : List String)
  /-- `git pack-objects --revs` into files of at most `maxPackBytes`, sorted by name. -/
  | packFiles (positive : List String) (maxPackBytes : Nat)
  /-- `git index-pack` for a pack. -/
  | indexPack (pack : ByteArray)
  /-- Read a file of the temporary directory. -/
  | readFile (contents : ByteArray)
  /-- Whether the deadline of the running operation has passed. -/
  | deadline

abbrev Reply : Op → Type
  | .getObject _ => Except S3Error Response
  | .headObject _ => Except S3Error (Option Int × Nat)
  | .putObject _ _ _ => Except S3Error Response
  | .materializeManifest _ => Except HydrateError Nat
  | .initBareRepo => Except HydrateError Unit
  | .receivePack => Except String Bool
  | .snapshotWorkspaceState => Except CasError (Refs × String)
  | .acquireCompactionPermit => Except CasError Unit
  | .enforceCompactionObjectLimit => Except CasError Unit
  | .packObjects _ _ => Except CasError ByteArray
  | .packFiles _ _ => Except CasError (List CompactedPack)
  | .indexPack _ => Except CasError ByteArray
  | .readFile _ => Except String ByteArray
  | .deadline => Bool

/-- A program of the push path that may fail with `ε`. -/
abbrev GitM (ε : Type) := Task Op Reply ε

abbrev ask {ε : Type} (op : Op) : GitM ε (Reply op) := Task.ask op

namespace GitStore

variable (sha256 : ByteArray → Hex64)

def contentKey (folder : String) (bytes : ByteArray) : String :=
  folder ++ "/" ++ (sha256 bytes).toHex

def isSuccess (status : Nat) : Bool := 200 ≤ status && status < 300

def unexpectedStatus (status : Nat) : StoreError :=
  .backend (.httpFailWithBody status "unexpected status")

/-- The reply to a create-only put: 412 means that the object is already there. -/
def created (key : String) : Except S3Error Response → Except StoreError String
  | .ok response =>
    if isSuccess response.status then .ok key else .error (unexpectedStatus response.status)
  | .error (.httpFailWithBody status body) =>
    if status = 412 then .ok key else .error (.backend (.httpFailWithBody status body))
  | .error error => .error (.backend error)

def putImmutable (folder : String) (bytes : ByteArray) : GitM StoreError String := do
  let key := contentKey sha256 folder bytes
  let reply ← ask (.putObject key bytes .ifNoneMatchStar)
  Task.ofExcept id (created key reply)

def putPack (bytes : ByteArray) : GitM StoreError String := putImmutable sha256 "packs" bytes

def putManifest (bytes : ByteArray) : GitM StoreError String := putImmutable sha256 "manifests" bytes

def idxKeyForPackDigest (digest : String) : Except StoreError String :=
  if byteLen digest = 64 ∧ digest.toList.all isAsciiHexDigit then .ok ("idx/" ++ digest)
  else .error (.backend (.httpFailWithBody 400 s!"invalid pack digest for idx sidecar: {repr digest}"))

def putIdx (digest : String) (bytes : ByteArray) : GitM StoreError String := do
  let key ← Task.ofExcept id (idxKeyForPackDigest digest)
  let reply ← ask (.putObject key bytes .ifNoneMatchStar)
  Task.ofExcept id (created key reply)

/-- The reply to a GET: the body, or that there is no such object. -/
def fetched (key : String) : Except S3Error Response → Except StoreError ByteArray
  | .ok response => .ok response.body
  | .error (.httpFailWithBody status body) =>
    if status = 404 then .error (.notFound key)
    else .error (.backend (.httpFailWithBody status body))
  | .error error => .error (.backend error)

def get (key : String) : GitM StoreError ByteArray := do
  let reply ← ask (.getObject key)
  Task.ofExcept id (fetched key reply)

def verify (key expectedDigest : String) (bytes : ByteArray) : GitM StoreError ByteArray := do
  let actual := (sha256 bytes).toHex
  Task.guard (actual = expectedDigest) (.digestMismatch key expectedDigest actual)
  pure bytes

def getVerified (key expectedDigest : String) : GitM StoreError ByteArray := do
  let bytes ← get key
  verify sha256 key expectedDigest bytes

def u64Max : Nat := 2 ^ 64 - 1

/-- The size a HEAD reports; a negative one is no size at all. -/
def reportedSize (contentLength : Int) : Nat :=
  if contentLength < 0 then u64Max else contentLength.toNat

def checkHead (key : String) (maxBytes : Nat) :
    Except S3Error (Option Int × Nat) → Except StoreError Unit
  | .error (.httpFailWithBody status body) =>
    if status = 404 then .error (.notFound key)
    else .error (.backend (.httpFailWithBody status body))
  | .error error => .error (.backend error)
  | .ok (contentLength, status) => do
    ensure (status ≠ 404) (.notFound key)
    ensure (isSuccess status) (unexpectedStatus status)
    match contentLength with
    | some length =>
      ensure (reportedSize length ≤ maxBytes) (.objectTooLarge key (reportedSize length) maxBytes)
    | none => .ok ()

def getLimited (key : String) (maxBytes : Nat) : GitM StoreError ByteArray := do
  let reply ← ask (.headObject key)
  Task.ofExcept id (checkHead key maxBytes reply)
  let bytes ← get key
  Task.guard (bytes.size ≤ maxBytes) (.objectTooLarge key bytes.size maxBytes)
  pure bytes

def getVerifiedLimited (key expectedDigest : String) (maxBytes : Nat) :
    GitM StoreError ByteArray := do
  let bytes ← getLimited key maxBytes
  verify sha256 key expectedDigest bytes

/-- The reply to a GET of the pointer: its ETag and body are of one version. -/
def pointed : Except S3Error Response → Except StoreError (Option (ETag × ByteArray))
  | .ok response =>
    match response.etag with
    | some token => .ok (some (⟨token⟩, response.body))
    | none => .error (.backend (.httpFailWithBody 500 "GET pointer: response missing ETag"))
  | .error (.httpFailWithBody status body) =>
    if status = 404 then .ok none else .error (.backend (.httpFailWithBody status body))
  | .error error => .error (.backend error)

def getPointer (key : String) : GitM StoreError (Option (ETag × ByteArray)) := do
  let reply ← ask (.getObject key)
  Task.ofExcept id (pointed reply)

/-- `classify_cas`: 412 is the lost race, success needs an ETag. -/
def classifyCas : Except S3Error Response → Except StoreError CasOutcome
  | .ok response =>
    if isSuccess response.status then
      match response.etag with
      | some token => .ok (.won ⟨token⟩)
      | none => .error (.backend (.httpFailWithBody response.status
          ("CAS succeeded but response missing ETag header " ++
            "(backend does not satisfy ETag-token consistency)")))
    else .error (unexpectedStatus response.status)
  | .error (.httpFailWithBody status body) =>
    if status = 412 then .ok .lostRace else .error (.backend (.httpFailWithBody status body))
  | .error error => .error (.backend error)

/-- `HeaderValue::from_str` takes visible ASCII and tabs. -/
def isHeaderValue (s : String) : Bool :=
  s.toList.all fun c => (32 ≤ c.toNat && c.toNat < 127) || c == '\t'

def checkPrecond : Precond → Except StoreError Unit
  | .ifNoneMatchStar => .ok ()
  | .ifMatch etag =>
    ensure (isHeaderValue etag.token) (.backend (.httpFailWithBody 400 ("invalid etag " ++ etag.token)))

def putPointer (key : String) (body : ByteArray) (precond : Precond) :
    GitM StoreError CasOutcome := do
  Task.ofExcept id (checkPrecond precond)
  let reply ← ask (.putObject key body precond)
  Task.ofExcept id (classifyCas reply)

end GitStore

end Git
