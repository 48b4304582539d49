import Buzz.Git.Bucket

/-!
# What the pushes keep

The contract of the pushes to one repository. `Sound` is the invariant: the
pointer is the last of its versions, content-addressed keys hold what they say,
and each version names a stored, valid manifest whose parent is the digest of the
version before. `Grows` is what a push relies on: stored objects stay, and the
versions the others add are not its own.

Only a put of the pointer is not quiet. Everything a push does before it, and the
reading of the winner after a lost race, is quiet, so that the invariant has to be
argued for one call.
-/
namespace Git

open Lib Nostr Service

variable {ι : Type} (site : Site)

/-- A content-addressed key is made from the digest of the body. -/
def Fits (key : String) (body : ByteArray) : Prop :=
  ∀ digest, key = "packs/" ++ digest ∨ key = "manifests/" ++ digest →
    digest = (site.sha256 body).toHex

/-- One of the packs, stored beside the pointer, holds the object. -/
def Supplied (s : Bucket ι) (packs : List String) (o : String) : Prop :=
  ∃ key ∈ packs, key ≠ site.pkey ∧
    ∃ object, s.objects.lookup key = some object ∧ o ∈ site.graph.contents object.body

/-- The packs that the manifest names hold every object its refs need. -/
def Covered (s : Bucket ι) (m : Manifest) : Prop :=
  ∀ o ∈ site.graph.closure m.refs.values, Supplied site s m.packs o

/-- Version `k` of the pointer names the manifest `m`. -/
structure Published (s : Bucket ι) (k : Nat) (v : Version ι) (m : Manifest) : Prop where
  body : v.body = v.digest.toUTF8
  hash : v.digest = site.digest m
  named : s.named v.digest = some m
  parent : m.parent = Bucket.digestBefore s.versions k
  valid : m.Valid
  sorted : m.packs.Pairwise (· < ·)
  covered : site.graph.Honest site.workspace → Covered site s m

structure Sound (s : Bucket ι) : Prop where
  pointer : s.objects.lookup site.pkey = s.versions.getLast?.map Version.object
  fits : ∀ key object, key ≠ site.pkey → s.objects.lookup key = some object →
    Fits site key object.body
  written : ∀ key object, s.objects.lookup key = some object → object.body ∈ s.written
  etags : (s.versions.map Version.etag).Nodup
  published : ∀ k v, s.versions[k]? = some v → ∃ m, Published site s k v m

/-- Objects beside the pointer stay, and the history of the pointer goes on. -/
structure Extends (s s' : Bucket ι) : Prop where
  objects : ∀ key object, key ≠ site.pkey → s.objects.lookup key = some object →
    s'.objects.lookup key = some object
  versions : ∃ added, s'.versions = s.versions ++ added

/-- The moves that push `i` relies on. -/
structure Grows (i : ι) (s s' : Bucket ι) : Prop extends Extends site s s' where
  others : ∀ v ∈ s'.versions.drop s.versions.length, v.push ≠ i
  failures : i ∈ s'.failures ↔ i ∈ s.failures

/-- Push `i` has not written the pointer, and no put of it got lost. -/
structure Untouched (i : ι) (s : Bucket ι) : Prop where
  versions : ∀ v ∈ s.versions, v.push ≠ i
  failures : i ∉ s.failures

variable {site} {i : ι} {s s' s'' : Bucket ι}

namespace Extends

theorem refl : Extends site s s := ⟨fun _ _ _ stored => stored, ⟨[], by simp⟩⟩

theorem trans (first : Extends site s s') (last : Extends site s' s'') : Extends site s s'' := by
  obtain ⟨early, earlyVersions⟩ := first.versions
  obtain ⟨late, lateVersions⟩ := last.versions
  refine ⟨fun key object other stored => last.objects key object other
    (first.objects key object other stored), ⟨early ++ late, ?_⟩⟩
  rw [lateVersions, earlyVersions, List.append_assoc]

theorem getElem? (extended : Extends site s s') {k : Nat} {v : Version ι}
    (found : s.versions[k]? = some v) : s'.versions[k]? = some v := by
  obtain ⟨added, versions⟩ := extended.versions
  obtain ⟨inside, -⟩ := List.getElem?_eq_some_iff.mp found
  rw [versions, List.getElem?_append_left inside, found]

theorem named (extended : Extends site s s') {digest : String} {m : Manifest}
    (stored : s.named digest = some m) : s'.named digest = some m := by
  obtain ⟨object, found, parsed⟩ := Option.bind_eq_some_iff.mp stored
  exact Option.bind_eq_some_iff.mpr
    ⟨object, extended.objects _ object (site.manifests_ne_pkey digest) found, parsed⟩

theorem supplied (extended : Extends site s s') {packs : List String} {o : String}
    (supplied : Supplied site s packs o) : Supplied site s' packs o := by
  obtain ⟨key, member, other, object, found, held⟩ := supplied
  exact ⟨key, member, other, object, extended.objects key object other found, held⟩

theorem covered (extended : Extends site s s') {m : Manifest} (covered : Covered site s m) :
    Covered site s' m := fun o reached => extended.supplied (covered o reached)

end Extends

namespace Grows

theorem refl : Grows site i s s := ⟨.refl, by simp, Iff.rfl⟩

theorem trans (first : Grows site i s s') (last : Grows site i s' s'') : Grows site i s s'' := by
  refine ⟨first.toExtends.trans last.toExtends, fun v member => ?_,
    last.failures.trans first.failures⟩
  obtain ⟨early, earlyVersions⟩ := first.versions
  obtain ⟨late, lateVersions⟩ := last.versions
  have others := first.others v
  have others' := last.others v
  rw [lateVersions, earlyVersions, List.append_assoc, List.drop_left] at member
  rw [earlyVersions, List.drop_left] at others
  rw [lateVersions, List.drop_left] at others'
  rcases List.mem_append.mp member with member | member
  · exact others member
  · exact others' member

theorem untouched (grows : Grows site i s s') (untouched : Untouched i s) : Untouched i s' := by
  obtain ⟨added, versions⟩ := grows.versions
  refine ⟨fun v member => ?_, fun failed => untouched.failures (grows.failures.mp failed)⟩
  have others := grows.others v
  rw [versions, List.drop_left] at others
  rw [versions, List.mem_append] at member
  rcases member with member | member
  · exact untouched.versions v member
  · exact others member

end Grows

/-- The contract of the pushes to `site`. -/
def contract (site : Site) : Contract ι (Bucket ι) where
  inv := Sound site
  rely := Grows site
  refl _ _ := Grows.refl
  trans _ _ _ _ := Grows.trans

theorem digestBefore_append {versions added : List (Version ι)} {k : Nat}
    (inside : k ≤ versions.length) :
    Bucket.digestBefore (versions ++ added) k = Bucket.digestBefore versions k := by
  cases k with
  | zero => rfl
  | succ k =>
    rw [Bucket.digestBefore, Bucket.digestBefore, List.getElem?_append_left inside]

theorem Published.extends {k : Nat} {v : Version ι} {m : Manifest}
    (published : Published site s k v m) (found : s.versions[k]? = some v)
    (extended : Extends site s s') : Published site s' k v m where
  body := published.body
  hash := published.hash
  named := extended.named published.named
  parent := by
    obtain ⟨added, versions⟩ := extended.versions
    obtain ⟨inside, -⟩ := List.getElem?_eq_some_iff.mp found
    rw [published.parent, versions, digestBefore_append inside.le]
  valid := published.valid
  sorted := published.sorted
  covered honest := extended.covered (published.covered honest)

/-! ### One call -/

/-- What a GET tells about the bucket. -/
structure Answered (s : Bucket ι) (key : String) (reply : Except S3Error Response) : Prop where
  found : ∀ response, reply = .ok response → ∃ object, s.objects.lookup key = some object ∧
    response.body = object.body ∧ ∀ token, response.etag = some token → token = object.etag

theorem serveGet_cases {choice : Choice} {key : String} {reply : Except S3Error Response}
    (served : s.serveGet choice key = some (reply, s')) : s' = s ∧ Answered s key reply := by
  unfold Bucket.serveGet at served
  split at served
  next =>
    split at served
    next object stored =>
      obtain ⟨rfl, rfl⟩ := Prod.mk.inj (Option.some.inj served)
      refine ⟨rfl, ⟨fun response same => ⟨object, stored, ?_⟩⟩⟩
      cases same
      refine ⟨rfl, fun token tagged => ?_⟩
      simp only at tagged
      split at tagged
      · exact (Option.some.inj tagged).symm
      · cases tagged
    next =>
      obtain ⟨rfl, rfl⟩ := Prod.mk.inj (Option.some.inj served)
      exact ⟨rfl, ⟨fun response same => by cases same⟩⟩
  next =>
    split at served
    next => cases served
    next error _ =>
      split at served
      · cases served
      · obtain ⟨rfl, rfl⟩ := Prod.mk.inj (Option.some.inj served)
        exact ⟨rfl, ⟨fun response same => by cases same⟩⟩

/-- The ways in which a put can end: it is done, refused, or not done at all. -/
theorem servePut_cases {choice : Choice} {key : String} {body : ByteArray} {precond : Precond}
    {reply : Except S3Error Response}
    (served : s.servePut site.sha256 site.pkey i choice key body precond = some (reply, s')) :
    ¬ s.Collides site.sha256 body ∧
      ((precond.holds (s.objects.lookup key) = true ∧ isRefusal reply = false ∧
          choice.etag ∉ s.versions.map Version.etag ∧
          s' = (s.put site.pkey i key body choice.etag).note site.pkey i key body reply) ∨
        (precond.holds (s.objects.lookup key) = false ∧
          reply = .error (.httpFailWithBody 412 "") ∧ s' = s.note site.pkey i key body reply) ∨
        (isRefusal reply = false ∧ isAccepted reply = false ∧
          s' = s.note site.pkey i key body reply)) := by
  simp only [Bucket.servePut] at served
  split at served
  next => cases served
  next distinct =>
    refine ⟨distinct, ?_⟩
    split at served
    next =>
      split at served
      next holds =>
        split at served
        next => cases served
        next allowed =>
          obtain ⟨rfl, rfl⟩ := Prod.mk.inj (Option.some.inj served)
          simp only [not_or, Bool.not_eq_true] at allowed
          exact Or.inl ⟨holds, allowed.1, allowed.2, rfl⟩
      next fails =>
        obtain ⟨rfl, rfl⟩ := Prod.mk.inj (Option.some.inj served)
        exact Or.inr (Or.inl ⟨by simpa using fails, rfl, rfl⟩)
    next =>
      split at served
      next => cases served
      next allowed =>
        obtain ⟨rfl, rfl⟩ := Prod.mk.inj (Option.some.inj served)
        simp only [not_or, Bool.not_eq_true] at allowed
        exact Or.inr (Or.inr ⟨allowed.1, allowed.2, rfl⟩)

@[simp] theorem note_objects {key : String} {body : ByteArray}
    {reply : Except S3Error Response} :
    (s.note site.pkey i key body reply).objects = s.objects := rfl

@[simp] theorem note_versions {key : String} {body : ByteArray}
    {reply : Except S3Error Response} :
    (s.note site.pkey i key body reply).versions = s.versions := rfl

theorem Sound.note (sound : Sound site s) (i : ι) (key : String) (body : ByteArray)
    (reply : Except S3Error Response) : Sound site (s.note site.pkey i key body reply) where
  pointer := sound.pointer
  fits := sound.fits
  written key object stored := List.mem_cons_of_mem _ (sound.written key object stored)
  etags := sound.etags
  published k v found := by
    obtain ⟨m, published⟩ := sound.published k v found
    exact ⟨m, published.body, published.hash, published.named, published.parent, published.valid,
      published.sorted, published.covered⟩

theorem grows_note {j : ι} {key : String} {body : ByteArray}
    {reply : Except S3Error Response} (other : j ≠ i ∨ key ≠ site.pkey) :
    Grows site j s (s.note site.pkey i key body reply) where
  objects _ _ _ stored := stored
  versions := ⟨[], by simp⟩
  others := by simp
  failures := by
    simp only [Bucket.note]
    split
    next pointer =>
      rcases other with other | other
      · simp [other]
      · exact absurd pointer.1 other
    next => exact Iff.rfl

private theorem put_versions {key : String} {body : ByteArray} {etag : String}
    (other : key ≠ site.pkey) : (s.put site.pkey i key body etag).versions = s.versions := by
  simp [Bucket.put, other]

private theorem grows_put {j : ι} {key : String} {body : ByteArray} {etag : String}
    (other : key ≠ site.pkey) (absent : s.objects.lookup key = none) :
    Grows site j s (s.put site.pkey i key body etag) where
  objects stored object _ found := by
    rw [Bucket.put, Map.lookup_insert_ite, if_neg]
    · exact found
    · rintro rfl
      rw [absent] at found
      cases found
  versions := ⟨[], by rw [put_versions other, List.append_nil]⟩
  others := by simp [put_versions other]
  failures := Iff.rfl

private theorem Sound.put (sound : Sound site s) (i : ι) {key : String} {body : ByteArray}
    {etag : String} {reply : Except S3Error Response} (other : key ≠ site.pkey)
    (absent : s.objects.lookup key = none) (fits : Fits site key body) :
    Sound site ((s.put site.pkey i key body etag).note site.pkey i key body reply) := by
  have grows : Grows site i s (s.put site.pkey i key body etag) := grows_put other absent
  have noted : Grows site i (s.put site.pkey i key body etag)
      ((s.put site.pkey i key body etag).note site.pkey i key body reply) :=
    grows_note (Or.inr other)
  have versions : ((s.put site.pkey i key body etag).note site.pkey i key body reply).versions =
      s.versions := put_versions other
  refine ⟨?_, ?_, ?_, ?_, ?_⟩
  · rw [versions, note_objects, Bucket.put, Map.lookup_insert_ite, if_neg (Ne.symm other)]
    exact sound.pointer
  · intro stored object otherKey found
    rw [note_objects, Bucket.put, Map.lookup_insert_ite] at found
    split at found
    next same =>
      cases found
      rw [same]
      exact fits
    next => exact sound.fits stored object otherKey found
  · intro stored object found
    rw [note_objects, Bucket.put, Map.lookup_insert_ite] at found
    split at found
    next => cases found; exact List.mem_cons_self
    next => exact List.mem_cons_of_mem _ (sound.written stored object found)
  · rw [versions]
    exact sound.etags
  · intro k v found
    rw [versions] at found
    obtain ⟨m, published⟩ := sound.published k v found
    exact ⟨m, published.extends found (grows.trans noted).toExtends⟩

/-! ### Quiet calls -/

/-- `Quiet` for the pushes to `site`. -/
abbrev Steady (site : Site) (i : ι) {ε α : Type} (task : GitM ε α) (ok : α → Bucket ι → Prop)
    (s : Bucket ι) : Prop :=
  Quiet site.service (contract site) i task ok s

/-- A question to the workspace of the push. -/
def Op.isLocal : Op → Bool
  | .getObject _ | .headObject _ | .putObject _ _ _ | .readFile _ => false
  | _ => true

theorem steady_local {ε : Type} {op : Op} (here : op.isLocal = true) :
    Steady site i (ask op : GitM ε (Reply op)) (fun reply _ => site.workspace op reply = true) s := by
  refine Quiet.ask fun s₁ _ sound choice reply s₂ served => ?_
  have answered : site.workspace op (choice.answer op) = true ∧ choice.answer op = reply ∧
      s₁ = s₂ := by
    cases op with
    | getObject _ | headObject _ | putObject _ _ _ | readFile _ => cases here
    | _ => simpa [Site.service, Bucket.service] using served
  obtain ⟨accepted, rfl, rfl⟩ := answered
  exact ⟨sound, fun j => Grows.refl, accepted⟩

theorem steady_head {ε : Type} {key : String} :
    Steady site i (ask (.headObject key) : GitM ε _) (fun _ _ => True) s := by
  refine Quiet.ask fun s₁ _ sound choice reply s₂ served => ?_
  obtain ⟨-, rfl⟩ := Prod.mk.inj (Option.some.inj served)
  exact ⟨sound, fun j => Grows.refl, trivial⟩

theorem steady_readFile {ε : Type} {contents : ByteArray} :
    Steady site i (ask (.readFile contents) : GitM ε _)
      (fun reply _ => ∀ read, reply = .ok read → read = contents) s := by
  refine Quiet.ask fun s₁ _ sound choice reply s₂ served => ?_
  simp only [Site.service, Bucket.service] at served
  split at served
  next read _ =>
    split at served
    next same =>
      obtain ⟨rfl, rfl⟩ := Prod.mk.inj (Option.some.inj served)
      exact ⟨sound, fun j => Grows.refl, fun read' reply => by cases reply; exact same⟩
    next => cases served
  next =>
    obtain ⟨rfl, rfl⟩ := Prod.mk.inj (Option.some.inj served)
    exact ⟨sound, fun j => Grows.refl, fun read reply => by cases reply⟩

theorem steady_getObject {ε : Type} {key : String} :
    Steady site i (ask (.getObject key) : GitM ε _) (fun reply s' => Answered s' key reply) s := by
  refine Quiet.ask fun s₁ _ sound choice reply s₂ served => ?_
  obtain ⟨rfl, answered⟩ := serveGet_cases served
  exact ⟨sound, fun j => Grows.refl, answered⟩

/-- A create-only put beside the pointer: when it reports success, a content-addressed
key holds the body, whoever put it there. -/
theorem steady_create {ε : Type} {key : String} {body : ByteArray} (other : key ≠ site.pkey)
    (fits : Fits site key body) :
    Steady site i (ask (.putObject key body .ifNoneMatchStar) : GitM ε _)
      (fun reply s' => GitStore.created key reply = .ok key →
        ∀ digest, key = "packs/" ++ digest ∨ key = "manifests/" ++ digest →
          ∃ object, s'.objects.lookup key = some object ∧ object.body = body) s := by
  refine Quiet.ask fun s₁ _ sound choice reply s₂ served => ?_
  obtain ⟨distinct, done | refused | lost⟩ := servePut_cases served
  · obtain ⟨absent, -, -, rfl⟩ := done
    have absent : s₁.objects.lookup key = none := by simpa [Precond.holds] using absent
    refine ⟨sound.put i other absent fits, fun j => (grows_put other absent).trans
      (grows_note (Or.inr other)), fun _ digest _ => ⟨⟨choice.etag, body⟩, ?_, rfl⟩⟩
    rw [note_objects, Bucket.put, Map.lookup_insert_ite, if_pos rfl]
  · obtain ⟨present, -, rfl⟩ := refused
    refine ⟨sound.note i key body _, fun j => grows_note (Or.inr other), fun _ digest named => ?_⟩
    obtain ⟨object, found⟩ : ∃ object, s₁.objects.lookup key = some object := by
      simpa [Precond.holds, Option.isSome_iff_exists] using present
    refine ⟨object, found, ?_⟩
    -- Both bodies have the digest in the key, and bodies do not collide.
    by_contra differ
    refine distinct ⟨object.body, sound.written key object found, ?_, differ⟩
    apply Hex64.toHex_injective
    rw [← sound.fits key object other found digest named, ← fits digest named]
  · obtain ⟨notRefused, notAccepted, rfl⟩ := lost
    refine ⟨sound.note i key body _, fun j => grows_note (Or.inr other), fun created => ?_⟩
    exfalso
    cases reply with
    | ok response =>
      have failed : GitStore.isSuccess response.status = false := notAccepted
      simp [GitStore.created, failed] at created
    | error error =>
      cases error with
      | httpFailWithBody status text =>
        have other : status ≠ 412 := by simpa [isRefusal, S3Error.isStatus] using notRefused
        simp [GitStore.created, other] at created
      | other text => simp [GitStore.created] at created

end Git
