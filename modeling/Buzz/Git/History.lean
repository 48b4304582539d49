import Buzz.Git.Chain
import Buzz.Lib.HashChain

/-!
# The history of a repository

Any number of pushes to a new repository, interleaved in any way. The manifests
that the pointer has named form a hash chain without a fork, in which every push
that reported success occurs once (`pushes_unforked`), and each of them names
packs that hold all objects its refs need (`pushes_closed`).

Both are read off the invariant and the postconditions of `Chain` by parallel
composition.
-/
namespace Git

open Lib Nostr Service

variable {ι : Type} {site : Site} {s : Bucket ι}

/-- The manifests that the pointer has named, oldest first. -/
def Bucket.history (s : Bucket ι) : List Manifest := s.versions.filterMap (s.named ·.digest)

/-- No push has been made to the repository. Content-addressed objects of others may
be there. -/
structure Blank (site : Site) (s : Bucket ι) : Prop where
  pointer : s.objects.lookup site.pkey = none
  versions : s.versions = []
  failures : s.failures = []
  fits : ∀ key object, s.objects.lookup key = some object → Fits site key object.body
  written : ∀ key object, s.objects.lookup key = some object → object.body ∈ s.written

/-- One push for each index, none of them started. -/
def pushes (site : Site) (config : ι → Config) (s : Bucket ι) :
    Threads Op Reply ι (Bucket ι) (Except PushError (Option CasSuccess)) where
  shared := s
  program i := (receivePack site.sha256 site.pkey (config i)).run

theorem Blank.sound (blank : Blank site s) : Sound site s where
  pointer := by rw [blank.pointer, blank.versions]; rfl
  fits key object _ found := blank.fits key object found
  written := blank.written
  etags := by rw [blank.versions]; exact List.nodup_nil
  published k v found := by rw [blank.versions] at found; cases found

theorem Blank.untouched (blank : Blank site s) (i : ι) : Untouched i s where
  versions v member := by rw [blank.versions] at member; cases member
  failures failed := by rw [blank.failures] at failed; cases failed

/-- Every run of the pushes ends in a sound bucket, where the pushes that have returned
tell the truth. -/
theorem run_pushes [DecidableEq ι] {config : ι → Config} {schedule : List (ι × Choice)}
    {threads : Threads Op Reply ι (Bucket ι) (Except PushError (Option CasSuccess))}
    (blank : Blank site s) (ran : site.service.run (pushes site config s) schedule = some threads) :
    Sound site threads.shared ∧
      ∀ i result, threads.program i = .pure result → Returned site i result threads.shared := by
  have settled (i : ι) (result : Except PushError (Option CasSuccess)) (s₁ s₂ : Bucket ι)
      (grows : Grows site i s₁ s₂) (returned : Returned site i result s₁) :
      Returned site i result s₂ := returned.grows grows
  obtain ⟨sound, obey⟩ := run_obeys settled blank.sound
    (fun i => obeys_receivePack blank.sound (blank.untouched i)) ran
  refine ⟨sound, fun i result returned => ?_⟩
  have post := obey i
  rw [returned] at post
  exact post

/-! ### The chain -/

private theorem map_eq_filterMap {α β : Type} {f : α → Option β} {l : List α}
    (total : ∀ a ∈ l, (f a).isSome) : l.map f = (l.filterMap f).map some := by
  induction l with
  | nil => rfl
  | cons a l ih =>
    obtain ⟨b, found⟩ := Option.isSome_iff_exists.mp (total a List.mem_cons_self)
    rw [List.map_cons, List.filterMap_cons_some found, List.map_cons, found,
      ih fun a' member => total a' (List.mem_cons_of_mem _ member)]

namespace Sound

variable (sound : Sound site s)
include sound

theorem named_versions : s.versions.map (s.named ·.digest) = s.history.map some := by
  refine map_eq_filterMap fun v member => ?_
  obtain ⟨k, found⟩ := List.mem_iff_getElem?.mp member
  obtain ⟨m, published⟩ := sound.published k v found
  rw [published.named]
  rfl

theorem getElem?_history {k : Nat} {m : Manifest} (here : s.history[k]? = some m) :
    ∃ v : Version ι, s.versions[k]? = some v ∧ Published site s k v m := by
  have named := congrArg (·[k]?) sound.named_versions
  simp only [List.getElem?_map, here, Option.map_some] at named
  obtain ⟨v, found, named⟩ := Option.map_eq_some_iff.mp named
  obtain ⟨m', published⟩ := sound.published k v found
  obtain rfl : m' = m := Option.some.inj (published.named.symm.trans named)
  exact ⟨v, found, published⟩

theorem history_getElem? {k : Nat} {v : Version ι} {m : Manifest}
    (found : s.versions[k]? = some v) (named : s.named v.digest = some m) :
    s.history[k]? = some m := by
  have same := congrArg (·[k]?) sound.named_versions
  simp only [List.getElem?_map, found, Option.map_some, named] at same
  obtain ⟨m', here, same⟩ := Option.map_eq_some_iff.mp same.symm
  rw [here, Option.some.inj same]

theorem digest_versions : s.versions.map Version.digest = s.history.map site.digest := by
  refine List.ext_getElem? fun k => ?_
  rw [List.getElem?_map, List.getElem?_map]
  cases found : s.versions[k]? with
  | some v =>
    obtain ⟨m, published⟩ := sound.published k v found
    rw [sound.history_getElem? found published.named, Option.map_some, Option.map_some,
      published.hash]
  | none =>
    cases here : s.history[k]? with
    | none => rfl
    | some m =>
      obtain ⟨v, found', -⟩ := sound.getElem?_history here
      rw [found] at found'
      cases found'

theorem linked : Linked Manifest.parent site.digest s.history := by
  intro k m here
  obtain ⟨v, found, published⟩ := sound.getElem?_history here
  rw [published.parent]
  cases k with
  | zero => rfl
  | succ k =>
    rw [Bucket.digestBefore, parentAt, ← List.getElem?_map, ← List.getElem?_map,
      sound.digest_versions]

/-- Manifests of the history that have the same digest are read from the same object. -/
theorem injOn_digest : Set.InjOn site.digest {m | m ∈ s.history} := by
  intro m member m' member' same
  obtain ⟨k, here⟩ := List.mem_iff_getElem?.mp member
  obtain ⟨k', here'⟩ := List.mem_iff_getElem?.mp member'
  obtain ⟨v, -, published⟩ := sound.getElem?_history here
  obtain ⟨v', -, published'⟩ := sound.getElem?_history here'
  refine Option.some.inj ?_
  rw [← published.named, ← published'.named, published.hash, published'.hash, same]

theorem nodup_history : s.history.Nodup := sound.linked.nodup sound.injOn_digest

end Sound

/-- The manifests of a repository form one chain, which says what became of each push. -/
structure Unforked (site : Site)
    (threads : Threads Op Reply ι (Bucket ι) (Except PushError (Option CasSuccess))) : Prop where
  current : threads.shared.objects.lookup site.pkey =
    threads.shared.versions.getLast?.map Version.object
  named : threads.shared.versions.map (threads.shared.named ·.digest) =
    threads.shared.history.map some
  digests : threads.shared.versions.map Version.digest = threads.shared.history.map site.digest
  linked : Linked Manifest.parent site.digest threads.shared.history
  valid : ∀ m ∈ threads.shared.history, m.Valid
  /-- The manifest of a success occurs once in the chain, as the only one of its push. -/
  succeeded : ∀ i success, threads.program i = .pure (.ok (some success)) →
    ∃ k : Nat, threads.shared.history[k]? = some success.manifest ∧
      (∀ k' : Nat, threads.shared.history[k']? = some success.manifest → k' = k) ∧
      ∀ k' : Nat, (threads.shared.versions[k']?).map Version.push = some i ↔ k' = k
  /-- A push that git rejected left the pointer alone. -/
  rejected : ∀ i, threads.program i = .pure (.ok none) →
    ∀ v ∈ threads.shared.versions, v.push ≠ i
  /-- So did a push that failed, unless the put of the pointer failed in transport, and then
  this is the error that it returned. -/
  failed : ∀ i e, threads.program i = .pure (.error e) →
    (∀ v ∈ threads.shared.versions, v.push ≠ i) ∨
      (i ∈ threads.shared.failures ∧ ∃ error, e = .cas (.backend error))

private theorem Succeeded.once {i : ι} {success : CasSuccess} (sound : Sound site s)
    (succeeded : Succeeded site i success s) :
    ∃ k : Nat, s.history[k]? = some success.manifest ∧
      (∀ k' : Nat, s.history[k']? = some success.manifest → k' = k) ∧
      ∀ k' : Nat, (s.versions[k']?).map Version.push = some i ↔ k' = k := by
  obtain ⟨-, k, ⟨v, found, mine, digest⟩, named, only⟩ := succeeded
  have here : s.history[k]? = some success.manifest :=
    sound.history_getElem? found (by rw [digest, named])
  refine ⟨k, here, fun k' here' => ?_, fun k' => ⟨fun push => ?_, ?_⟩⟩
  · have inside : k' < s.history.length := (List.getElem?_eq_some_iff.mp here').1
    exact (List.getElem?_inj inside sound.nodup_history).mp (here'.trans here.symm)
  · obtain ⟨v', found', mine'⟩ := Option.map_eq_some_iff.mp push
    exact only k' v' found' mine'
  · rintro rfl
    rw [found, Option.map_some, mine]

/-- However many pushes run at once, and in whatever order they take their steps, the
pointer goes through one chain of valid manifests. -/
theorem pushes_unforked [DecidableEq ι] {config : ι → Config} {schedule : List (ι × Choice)}
    {threads : Threads Op Reply ι (Bucket ι) (Except PushError (Option CasSuccess))}
    (blank : Blank site s) (ran : site.service.run (pushes site config s) schedule = some threads) :
    Unforked site threads := by
  obtain ⟨sound, returned⟩ := run_pushes blank ran
  refine ⟨sound.pointer, sound.named_versions, sound.digest_versions, sound.linked, ?_, ?_, ?_, ?_⟩
  · intro m member
    obtain ⟨k, here⟩ := List.mem_iff_getElem?.mp member
    obtain ⟨v, -, published⟩ := sound.getElem?_history here
    exact published.valid
  · intro i success finished
    exact Succeeded.once sound (returned i _ finished)
  · intro i finished
    exact (returned i _ finished).versions
  · intro i e finished
    exact (returned i _ finished).imp_left Untouched.versions

/-! ### A repository -/

namespace Sample

def emptyTree : String := "4b825dc642cb6eb9a060e54bf8d69288fbee4904"

/-- The pack with the empty tree. -/
def pack : ByteArray :=
  ⟨#[80, 65, 67, 75, 0, 0, 0, 2, 0, 0, 0, 1, 32, 120, 156, 3, 0, 0, 0, 0, 1, 211, 177, 183, 207,
    102, 173, 49, 122, 176, 143, 183, 129, 219, 168, 216, 174, 104, 225, 178, 0]⟩

/-- The SHA-256 digests of the pack, of a manifest without refs, of one with a tag, and of
the two pointers. -/
def digests : List (ByteArray × String) := [
  (pack, "08ffdeb6902bce6e11d613f681121000643403cf3eff177c557b7387fc1ff210"),
  (("\x7b\"version\":1,\"head\":\"refs/heads/main\",\"refs\":\x7b\x7d," ++
    "\"packs\":[],\"parent\":null\x7d").toUTF8,
    "b965e85e22f02c090a6857aa243d1765be73643e8e2a0c1759c30683180bfd17"),
  (("\x7b\"version\":1,\"head\":\"refs/heads/main\",\"refs\":" ++
    "\x7b\"refs/tags/empty\":\"4b825dc642cb6eb9a060e54bf8d69288fbee4904\"\x7d,\"packs\":" ++
    "[\"packs/08ffdeb6902bce6e11d613f681121000643403cf3eff177c557b7387fc1ff210\"]," ++
    "\"parent\":null\x7d").toUTF8,
    "f2267966f190ce88048325c22eb73d606aaca56f37fae314efd1985a469fcefb"),
  ("b965e85e22f02c090a6857aa243d1765be73643e8e2a0c1759c30683180bfd17".toUTF8,
    "b29075d94d16638d7d62ff33a1632b0955f834e2741eca0dfca366139be92999"),
  ("f2267966f190ce88048325c22eb73d606aaca56f37fae314efd1985a469fcefb".toUTF8,
    "2742df9ac551623fed0bba8ef4c60ff58ae958d34ae55c09e3141b343989541a")]

def sha256 (body : ByteArray) : Hex64 :=
  let hex := (digests.lookup body).getD ""
  if proper : hex.length = 64 ∧ hex.toList.all isLowerHexDigit = true
  then ⟨hex, proper.1, proper.2⟩
  else .repeated '0' (Eq.refl true)

theorem proper_of_spelled {hex : String} {digits : List Char} (spelled : hex = String.ofList digits)
    (length : digits.length = 64) (lower : digits.all isLowerHexDigit = true) :
    hex.length = 64 ∧ hex.toList.all isLowerHexDigit = true := by
  rw [spelled, String.length_ofList, String.toList_ofList]
  exact ⟨length, lower⟩

theorem proper : ∀ entry ∈ digests,
    entry.2.length = 64 ∧ entry.2.toList.all isLowerHexDigit = true := by
  simp only [digests, List.forall_mem_cons]
  exact ⟨proper_of_spelled rfl (by decide) (by decide),
    proper_of_spelled rfl (by decide) (by decide), proper_of_spelled rfl (by decide) (by decide),
    proper_of_spelled rfl (by decide) (by decide), proper_of_spelled rfl (by decide) (by decide),
    by simp⟩

/-- The table with digests that are known to be well formed. -/
def hashes : List (ByteArray × Hex64) :=
  digests.pmap (fun entry proper => (entry.1, ⟨entry.2, proper.1, proper.2⟩)) proper

def hash (body : ByteArray) : Hex64 := (hashes.lookup body).getD (.repeated '0' (Eq.refl true))

theorem sha256_eq : sha256 = hash := by
  funext body
  have lookup (entries : List (ByteArray × String))
      (proper : ∀ entry ∈ entries,
        entry.2.length = 64 ∧ entry.2.toList.all isLowerHexDigit = true) :
      entries.lookup body = ((entries.pmap (fun entry proper =>
        (entry.1, (⟨entry.2, proper.1, proper.2⟩ : Hex64))) proper).lookup body).map Hex64.toHex := by
    induction entries with
    | nil => rfl
    | cons entry rest ih =>
      obtain ⟨key, hex⟩ := entry
      simp only [List.pmap_cons, List.lookup_cons]
      cases body == key with
      | true => rfl
      | false => exact ih _
  have known := lookup digests proper
  unfold sha256 hash hashes
  dsimp only
  split
  next proper' =>
    rw [known] at proper'
    apply Hex64.toHex_injective
    change (digests.lookup body).getD "" = _
    rw [known]
    cases found : List.lookup body _ with
    | none =>
      rw [found] at proper'
      exact absurd proper'.1 (by decide)
    | some digest => rfl
  next improper =>
    cases found : List.lookup body _ with
    | none => rfl
    | some digest =>
      rw [known, found] at improper
      exact absurd ⟨digest.length_eq, digest.digits⟩ improper

/-- The empty tree reaches itself, and nothing else is ever packed. -/
def graph : ObjectGraph where
  reachable o := {o' | o' = emptyTree ∧ o = emptyTree}
  contents body := {o | o = emptyTree ∧ body = pack}

def workspace : (op : Op) → Reply op → Bool
  | .packObjects positive negative, .ok out =>
    positive = [emptyTree] ∧ negative = [] ∧ out = pack
  | .packFiles _ _, .ok _ => false
  | _, _ => true

def relay : Site where
  community := ⟨0⟩
  owner := "owner"
  repo := "repo"
  sha256 := sha256
  graph := graph
  workspace := workspace

theorem relay_eq : relay = { relay with sha256 := hash } := by
  rw [← sha256_eq]
  rfl

def config : Config := ⟨1000000, 1000000⟩

/-- A call that is served, in a push that leaves these refs. -/
def served (etag : String) (refs : Refs) : Choice where
  arrives := true
  etagHeader := true
  etag := etag
  answer
    | .getObject _ => .error (.other "")
    | .headObject _ => .ok (none, 200)
    | .putObject _ _ _ => .ok { status := 200, etag := some etag, body := .empty }
    | .materializeManifest _ => .ok 0
    | .initBareRepo => .ok ()
    | .receivePack => .ok true
    | .snapshotWorkspaceState => .ok (refs, "refs/heads/main")
    | .acquireCompactionPermit => .ok ()
    | .enforceCompactionObjectLimit => .ok ()
    | .packObjects _ _ => .ok pack
    | .packFiles _ _ => .error (.packCapture "")
    | .indexPack _ => .error (.packCapture "")
    | .readFile contents => .ok contents
    | .deadline => false

theorem blank {ι : Type} : Blank relay ({} : Bucket ι) where
  pointer := rfl
  versions := rfl
  failures := rfl
  fits key object found := by cases found
  written key object found := by cases found

theorem honest : relay.graph.Honest relay.workspace where
  packObjects positive negative out accepted := by
    simp only [relay, workspace, Bool.decide_and, Bool.and_eq_true, decide_eq_true_eq] at accepted
    obtain ⟨rfl, rfl, rfl⟩ := accepted
    have size : pack.size ≠ 0 := by decide
    ext o
    simp [relay, graph, ObjectGraph.closure, size]
  packFiles positive maxPackBytes files accepted := by cases accepted

/-- Two pushes to the new repository, where the second is late. -/
def race : List (Bool × Choice) :=
  List.replicate 5 (false, served "a" .empty) ++ List.replicate 5 (true, served "b" .empty) ++
    [(false, served "a" .empty)] ++ List.replicate 3 (true, served "b" .empty)

/-- A push of a tag. -/
def tag : List (Unit × Choice) :=
  List.replicate 9 ((), served "a" (.ofList [("refs/tags/empty", emptyTree)]))

end Sample

instance Sample.race_runs : Fact ((Sample.relay.service.run
    (pushes Sample.relay (fun _ => Sample.config) {}) Sample.race).map
      (·.shared.versions.map Version.push) = some [false]) := ⟨by
  rw [Sample.relay_eq]
  decide +kernel⟩

/-- The winner of the race is the only version. -/
theorem pushes_unforked_race : ∃ threads,
    Sample.relay.service.run (pushes Sample.relay (fun _ => Sample.config) {}) Sample.race =
      some threads ∧
    threads.shared.versions.map Version.push = [false] ∧ Unforked Sample.relay threads := by
  have ran : (Sample.relay.service.run (pushes Sample.relay (fun _ => Sample.config) {})
      Sample.race).map (·.shared.versions.map Version.push) = some [false] := Fact.out
  obtain ⟨threads, ran, versions⟩ := Option.map_eq_some_iff.mp ran
  exact ⟨threads, ran, versions, pushes_unforked Sample.blank ran⟩

/-! ### Closed manifests -/

/-- When `git pack-objects` does what it says, each manifest of the chain names a sorted
list of packs that hold all objects of its refs, and not too many packs. -/
theorem pushes_closed [DecidableEq ι] {config : ι → Config} {schedule : List (ι × Choice)}
    {threads : Threads Op Reply ι (Bucket ι) (Except PushError (Option CasSuccess))}
    (honest : site.graph.Honest site.workspace) (blank : Blank site s)
    (ran : site.service.run (pushes site config s) schedule = some threads) :
    ∀ m ∈ threads.shared.history, site.graph.Closed threads.shared m ∧
      m.packs.Pairwise (· < ·) ∧ m.packs.length ≤ maxManifestPacks := by
  obtain ⟨sound, -⟩ := run_pushes blank ran
  intro m member
  obtain ⟨k, here⟩ := List.mem_iff_getElem?.mp member
  obtain ⟨v, -, published⟩ := sound.getElem?_history here
  refine ⟨fun o reached => ?_, published.sorted, published.valid.packs_le⟩
  obtain ⟨key, named, -, object, found, held⟩ := published.covered honest o reached
  exact ⟨key, named, object, found, held⟩

instance Sample.tag_runs : Fact ((Sample.relay.service.run
    (pushes Sample.relay (fun _ => Sample.config) {}) Sample.tag).map
      (·.shared.versions.length) = some 1) := ⟨by
  rw [Sample.relay_eq]
  decide +kernel⟩

/-- The pack with the empty tree covers the tag. -/
theorem pushes_closed_tag : ∃ threads,
    Sample.relay.service.run (pushes Sample.relay (fun _ => Sample.config) {}) Sample.tag =
      some threads ∧
    threads.shared.versions.length = 1 ∧
    ∀ m ∈ threads.shared.history, Sample.relay.graph.Closed threads.shared m ∧
      m.packs.Pairwise (· < ·) ∧ m.packs.length ≤ maxManifestPacks := by
  have ran : (Sample.relay.service.run (pushes Sample.relay (fun _ => Sample.config) {})
      Sample.tag).map (·.shared.versions.length) = some 1 := Fact.out
  obtain ⟨threads, ran, versions⟩ := Option.map_eq_some_iff.mp ran
  exact ⟨threads, ran, versions, pushes_closed Sample.honest Sample.blank ran⟩

end Git
