import Buzz.Git.Publish
import Buzz.Lib.Map
import Mathlib.Data.Set.Basic

/-!
# The bucket under concurrent pushes

The service behind the calls of `Store`: one bucket with linearizable conditional
puts, and a workspace for every push. A request may be lost before or after the
bucket has served it; a put that is served invents an ETag that no version of the
pointer had before. No hash function is injective on all byte strings, so a run
is one in which no two bodies that were put collide.

The ghost fields record the versions of the pointer with the push that wrote
them, and the pushes whose put of the pointer was answered with an error.
-/
namespace Git

open Lib Nostr

structure Object where
  etag : String
  body : ByteArray
deriving DecidableEq

/-- A value of the pointer. -/
structure Version (ι : Type) where
  push : ι
  etag : String
  body : ByteArray
deriving DecidableEq

namespace Version

variable {ι : Type}

def object (v : Version ι) : Object := ⟨v.etag, v.body⟩

/-- The digest that the pointer names. -/
def digest (v : Version ι) : String := (String.fromUTF8? v.body).getD ""

end Version

structure Bucket (ι : Type) where
  objects : Map String Object := ∅
  /-- Ghost: the versions of the pointer, oldest first. -/
  versions : List (Version ι) := []
  /-- Ghost: the bodies of all puts. -/
  written : List ByteArray := []
  /-- Ghost: the pushes whose put of the pointer failed in transport. -/
  failures : List ι := []

/-- What the network, the bucket and the workspace leave open about one call. -/
structure Choice where
  /-- Whether the bucket serves the request. -/
  arrives : Bool
  /-- Whether the response to a GET carries the ETag. -/
  etagHeader : Bool
  /-- The ETag of the object that a put creates. -/
  etag : String
  /-- The reply of the workspace, or of the network where the bucket does not decide it. -/
  answer : (op : Op) → Reply op

def Precond.holds : Precond → Option Object → Bool
  | .ifNoneMatchStar, current => current.isNone
  | .ifMatch etag, current => current.any (·.etag = etag.token)

def S3Error.isStatus (status : Nat) : S3Error → Bool
  | .httpFailWithBody got _ => got == status
  | .other _ => false

def isRefusal : Except S3Error Response → Bool
  | .ok _ => false
  | .error error => error.isStatus 412

def isAccepted : Except S3Error Response → Bool
  | .ok response => GitStore.isSuccess response.status
  | .error _ => false

namespace Bucket

variable {ι : Type} (sha256 : ByteArray → Hex64) (pkey : String)

/-- The object takes the place of the one under the key. -/
def put (s : Bucket ι) (i : ι) (key : String) (body : ByteArray) (etag : String) : Bucket ι :=
  { s with
    objects := s.objects.insert key ⟨etag, body⟩
    versions := if key = pkey then s.versions ++ [⟨i, etag, body⟩] else s.versions }

/-- A put was tried and this is its reply. -/
def note (s : Bucket ι) (i : ι) (key : String) (body : ByteArray)
    (reply : Except S3Error Response) : Bucket ι :=
  { s with
    written := body :: s.written
    failures := if key = pkey ∧ (GitStore.classifyCas reply).toOption = none
      then i :: s.failures else s.failures }

/-- Another body with the digest of this one was put before. -/
def Collides (s : Bucket ι) (body : ByteArray) : Prop :=
  ∃ other ∈ s.written, sha256 other = sha256 body ∧ other ≠ body

instance (s : Bucket ι) (body : ByteArray) : Decidable (s.Collides sha256 body) :=
  inferInstanceAs (Decidable (∃ other ∈ s.written, _))

def serveGet (s : Bucket ι) (choice : Choice) (key : String) :
    Option (Except S3Error Response × Bucket ι) :=
  if choice.arrives then
    match s.objects.lookup key with
    | some object =>
      let etag := if choice.etagHeader then some object.etag else none
      some (.ok { status := 200, etag, body := object.body }, s)
    | none => some (.error (.httpFailWithBody 404 ""), s)
  else match choice.answer (.getObject key) with
    | .ok _ => none
    | .error error => if error.isStatus 404 then none else some (.error error, s)

def servePut (s : Bucket ι) (i : ι) (choice : Choice) (key : String) (body : ByteArray)
    (precond : Precond) : Option (Except S3Error Response × Bucket ι) :=
  let reply := choice.answer (.putObject key body precond)
  if s.Collides sha256 body then none
  else if choice.arrives then
    if precond.holds (s.objects.lookup key) then
      -- The reply may still get lost, but it is no refusal.
      if isRefusal reply ∨ choice.etag ∈ s.versions.map Version.etag then none
      else some (reply, (s.put pkey i key body choice.etag).note pkey i key body reply)
    else
      let refusal := .error (.httpFailWithBody 412 "")
      some (refusal, s.note pkey i key body refusal)
  else if isRefusal reply ∨ isAccepted reply then none
  else some (reply, s.note pkey i key body reply)

/-- The bucket, with the workspace replies that `workspace` accepts. -/
def service (workspace : (op : Op) → Reply op → Bool) : Service Op Reply ι (Bucket ι) Choice where
  serve i choice s
    | .getObject key => s.serveGet choice key
    | .headObject key => some (choice.answer (.headObject key), s)
    | .putObject key body precond => s.servePut sha256 pkey i choice key body precond
    | .readFile contents =>
      match choice.answer (.readFile contents) with
      | .ok read => if read = contents then some (.ok read, s) else none
      | .error error => some (.error error, s)
    | op => if workspace op (choice.answer op) then some (choice.answer op, s) else none

/-! ### What the bucket names -/

/-- The manifest that a verified read of the digest returns. -/
def named (s : Bucket ι) (digest : String) : Option Manifest :=
  (s.objects.lookup ("manifests/" ++ digest)).bind fun object =>
    (Manifest.fromBytes object.body).toOption

/-- The digest the pointer named before its version `k`. -/
def digestBefore (versions : List (Version ι)) : Nat → Option String
  | 0 => none
  | k + 1 => (versions[k]?).map Version.digest

end Bucket

/-- The objects of git: what can be reached from an object, and what a pack holds. -/
structure ObjectGraph where
  reachable : String → Set String
  contents : ByteArray → Set String

namespace ObjectGraph

variable {ι : Type} (graph : ObjectGraph)

/-- The objects that can be reached from some of the tips. -/
def closure (tips : List String) : Set String := {o | ∃ tip ∈ tips, o ∈ graph.reachable tip}

/-- `pack-objects` puts out the objects reachable from the positive tips and not from
the negative ones, in one pack or split over several files; no output means that there
are none. -/
structure Honest (workspace : (op : Op) → Reply op → Bool) : Prop where
  packObjects : ∀ positive negative out, workspace (.packObjects positive negative) (.ok out) →
    graph.closure positive \ graph.closure negative =
      if out.size = 0 then ∅ else graph.contents out
  packFiles : ∀ positive maxPackBytes files,
    workspace (.packFiles positive maxPackBytes) (.ok files) →
      graph.closure positive = {o | ∃ file ∈ files, o ∈ graph.contents file.pack}

/-- The packs that the manifest names hold every object its refs need. -/
def Closed (s : Bucket ι) (m : Manifest) : Prop :=
  ∀ o ∈ graph.closure m.refs.values, ∃ key ∈ m.packs, ∃ object,
    s.objects.lookup key = some object ∧ o ∈ graph.contents object.body

end ObjectGraph

/-- A repository on a relay, with what the pushes to it take from outside: the hash
function, the objects of git and the replies that a workspace can give. -/
structure Site where
  community : Uuid
  owner : String
  repo : String
  sha256 : ByteArray → Hex64
  graph : ObjectGraph
  workspace : (op : Op) → Reply op → Bool

namespace Site

variable {ι : Type} (site : Site)

def pkey : String := pointerKey site.community site.owner site.repo

def service : Service Op Reply ι (Bucket ι) Choice :=
  Bucket.service site.sha256 site.pkey site.workspace

/-- The digest under which a manifest is stored. -/
def digest (m : Manifest) : String := (site.sha256 m.canonicalBytes).toHex

theorem ne_pkey {first : Char} {rest : List Char} {key : String}
    (starts : key.toList = first :: rest) (other : first ≠ 'r') : key ≠ site.pkey := by
  rintro rfl
  simp only [pkey, pointerKey, String.toList_append, List.append_assoc] at starts
  injection starts with head
  exact other head.symm

theorem packs_ne_pkey (digest : String) : "packs/" ++ digest ≠ site.pkey :=
  site.ne_pkey (by rw [String.toList_append]; rfl) (by decide)

theorem manifests_ne_pkey (digest : String) : "manifests/" ++ digest ≠ site.pkey :=
  site.ne_pkey (by rw [String.toList_append]; rfl) (by decide)

theorem idx_ne_pkey (digest : String) : "idx/" ++ digest ≠ site.pkey :=
  site.ne_pkey (by rw [String.toList_append]; rfl) (by decide)

end Site

end Git
