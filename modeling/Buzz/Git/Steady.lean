import Buzz.Git.Protocol

/-!
# The quiet part of a push

One lemma for each program up to the put of the pointer, in the order of the
source. They say where a value comes from: a manifest that was read is one that a
version of the pointer names, a key that a put returned holds the bytes, and the
composed manifest is covered by packs in the bucket when its parent was.
-/
namespace Git

open Lib Nostr Service

variable {ι : Type} {site : Site} {i : ι} {s : Bucket ι}

/-- The bucket holds the bytes under the key. -/
def Holds (s : Bucket ι) (key : String) (bytes : ByteArray) : Prop :=
  ∃ object, s.objects.lookup key = some object ∧ object.body = bytes

theorem Holds.extends {s' : Bucket ι} {key : String} {bytes : ByteArray}
    (holds : Holds s key bytes) (other : key ≠ site.pkey) (extended : Extends site s s') :
    Holds s' key bytes := by
  obtain ⟨object, found, same⟩ := holds
  exact ⟨object, extended.objects key object other found, same⟩

/-! ### The store -/

theorem steady_get {key : String} :
    Steady site i (GitStore.get key) (fun bytes s' => Holds s' key bytes) s := by
  refine (steady_getObject).bind fun reply s' _ _ answered => ?_
  refine Quiet.ofExcept fun bytes fetched => ?_
  cases reply with
  | ok response =>
    obtain ⟨object, found, body, -⟩ := answered.found response rfl
    cases fetched
    exact ⟨object, found, body.symm⟩
  | error error =>
    cases error with
    | httpFailWithBody status text =>
      simp only [GitStore.fetched] at fetched
      split at fetched <;> cases fetched
    | other text => cases fetched

private theorem steady_verify {key digest : String} {bytes : ByteArray}
    (holds : Holds s key bytes) :
    Steady site i (GitStore.verify site.sha256 key digest bytes)
      (fun bytes s' => Holds s' key bytes) s :=
  Quiet.guard_bind fun _ => Quiet.pure holds

theorem steady_getVerified {key digest : String} :
    Steady site i (GitStore.getVerified site.sha256 key digest)
      (fun bytes s' => Holds s' key bytes) s :=
  (steady_get).bind fun _ _ _ _ holds => steady_verify holds

theorem steady_getVerifiedLimited {key digest : String} {maxBytes : Nat} :
    Steady site i (GitStore.getVerifiedLimited site.sha256 key digest maxBytes)
      (fun bytes s' => Holds s' key bytes) s := by
  have limited : Steady site i (GitStore.getLimited key maxBytes)
      (fun bytes s' => Holds s' key bytes) s := by
    refine (steady_head).bind fun reply s₁ _ _ _ => Quiet.ofExcept_bind fun _ _ => ?_
    exact (steady_get).bind fun bytes s₂ _ _ holds => Quiet.guard_bind fun _ => Quiet.pure holds
  exact limited.bind fun _ _ _ _ holds => steady_verify holds

theorem steady_getPointer :
    Steady site i (GitStore.getPointer site.pkey)
      (fun read s' => ∀ etag body, read = some (etag, body) →
        ∃ (k : Nat) (v : Version ι), s'.versions[k]? = some v ∧ v.etag = etag.token ∧
          v.body = body) s := by
  refine (steady_getObject).bind fun reply s' _ sound answered => Quiet.ofExcept ?_
  rintro read pointed etag body rfl
  cases reply with
  | ok response =>
    obtain ⟨object, found, sameBody, sameEtag⟩ := answered.found response rfl
    simp only [GitStore.pointed] at pointed
    split at pointed
    next token tagged =>
      cases pointed
      rw [sound.pointer] at found
      obtain ⟨v, last, rfl⟩ := Option.map_eq_some_iff.mp found
      rw [List.getLast?_eq_getElem?] at last
      exact ⟨_, v, last, (sameEtag token tagged).symm, sameBody.symm⟩
    next => cases pointed
  | error error =>
    cases error with
    | httpFailWithBody status text =>
      simp only [GitStore.pointed] at pointed
      split at pointed <;> cases pointed
    | other text => cases pointed

private theorem created_eq {key key' : String} {reply : Except S3Error Response}
    (created : GitStore.created key reply = .ok key') : key' = key := by
  cases reply with
  | ok response =>
    simp only [GitStore.created] at created
    split at created <;> cases created
    rfl
  | error error =>
    cases error with
    | httpFailWithBody status text =>
      simp only [GitStore.created] at created
      split at created <;> cases created
      rfl
    | other text => cases created

private theorem fits_of_start {key : String} {body : ByteArray} {first : Char} {rest : List Char}
    (starts : key.toList = first :: rest) (pack : first ≠ 'p') (manifest : first ≠ 'm') :
    Fits site key body := by
  rintro digest (rfl | rfl)
  · rw [String.toList_append] at starts
    injection starts with head
    exact absurd head.symm pack
  · rw [String.toList_append] at starts
    injection starts with head
    exact absurd head.symm manifest

private theorem fits_pack {bytes : ByteArray} :
    Fits site ("packs/" ++ (site.sha256 bytes).toHex) bytes := by
  rintro digest (same | same)
  · exact (String.append_right_inj _).mp same.symm
  · rw [← String.toList_inj, String.toList_append, String.toList_append] at same
    injection same with head
    exact absurd head (by decide)

private theorem fits_manifest {bytes : ByteArray} :
    Fits site ("manifests/" ++ (site.sha256 bytes).toHex) bytes := by
  rintro digest (same | same)
  · rw [← String.toList_inj, String.toList_append, String.toList_append] at same
    injection same with head
    exact absurd head (by decide)
  · exact (String.append_right_inj _).mp same.symm

theorem steady_putPack {bytes : ByteArray} :
    Steady site i (GitStore.putPack site.sha256 bytes)
      (fun key s' => key = "packs/" ++ (site.sha256 bytes).toHex ∧ Holds s' key bytes) s := by
  refine (steady_create (site.packs_ne_pkey _) fits_pack).bind fun reply s' _ _ stored => ?_
  refine Quiet.ofExcept fun key created => ?_
  cases created_eq created
  exact ⟨rfl, stored created _ (Or.inl rfl)⟩

theorem steady_putManifest {bytes : ByteArray} :
    Steady site i (GitStore.putManifest site.sha256 bytes)
      (fun key s' => key = "manifests/" ++ (site.sha256 bytes).toHex ∧ Holds s' key bytes) s := by
  refine (steady_create (site.manifests_ne_pkey _) fits_manifest).bind fun reply s' _ _ stored => ?_
  refine Quiet.ofExcept fun key created => ?_
  cases created_eq created
  exact ⟨rfl, stored created _ (Or.inr rfl)⟩

theorem steady_putIdx {digest : String} {bytes : ByteArray} :
    Steady site i (GitStore.putIdx digest bytes) (fun _ _ => True) s := by
  refine Quiet.ofExcept_bind fun key keyed => ?_
  unfold GitStore.idxKeyForPackDigest at keyed
  split at keyed
  next =>
    cases keyed
    have fits : Fits site ("idx/" ++ digest) bytes :=
      fits_of_start (by rw [String.toList_append]; rfl) (by decide) (by decide)
    exact (steady_create (site.idx_ne_pkey digest) fits).bind fun _ _ _ _ _ =>
      Quiet.ofExcept fun _ _ => trivial
  next => cases keyed

/-! ### Reading the parent -/

/-- The parent state was read from a version of the pointer, or there was none. -/
def Origin (s : Bucket ι) (parent : ParentState) : Prop :=
  parent = .fresh ∨ ∃ (k : Nat) (v : Version ι), s.versions[k]? = some v ∧
    parent.ifMatch = some ⟨v.etag⟩ ∧ parent.parentDigest = some v.digest ∧
    s.named v.digest = some parent.parent

theorem Origin.extends {s' : Bucket ι} {parent : ParentState} (origin : Origin s parent)
    (extended : Extends site s s') : Origin s' parent := by
  rcases origin with fresh | ⟨k, v, found, etag, digest, named⟩
  · exact Or.inl fresh
  · exact Or.inr ⟨k, v, extended.getElem? found, etag, digest, extended.named named⟩

private theorem trim_toHex (hash : Hex64) : trim hash.toHex = hash.toHex := by
  refine trimBy_eq_self fun c member => ?_
  have digit := List.all_eq_true.mp hash.digits c member
  simp only [isLowerHexDigit, Bool.or_eq_true, Bool.and_eq_true, decide_eq_true_eq,
    Char.le_def, UInt32.le_iff_toNat_le] at digit
  have range : 48 ≤ c.toNat ∧ c.toNat ≤ 102 := by
    change (48 ≤ c.toNat ∧ c.toNat ≤ 57) ∨ (97 ≤ c.toNat ∧ c.toNat ≤ 102) at digit
    omega
  simp only [isWhiteSpace, Bool.or_eq_false_iff, Bool.and_eq_false_iff, decide_eq_false_iff_not,
    beq_eq_false_iff_ne]
  omega

theorem Published.digest_eq {k : Nat} {v : Version ι} {m : Manifest}
    (published : Published site s k v m) (sound : Sound site s) :
    ∃ bytes, v.digest = (site.sha256 bytes).toHex ∧ Manifest.fromBytes bytes = .ok m := by
  obtain ⟨object, found, parsed⟩ := Option.bind_eq_some_iff.mp published.named
  refine ⟨object.body, ?_, ?_⟩
  · exact sound.fits _ object (site.manifests_ne_pkey _) found _ (Or.inr rfl)
  · cases read : Manifest.fromBytes object.body with
    | ok m' => rw [read] at parsed; cases parsed; rfl
    | error e => rw [read] at parsed; cases parsed

theorem named_of_holds {digest : String} {bytes : ByteArray} {m : Manifest}
    (holds : Holds s ("manifests/" ++ digest) bytes) (parsed : Manifest.fromBytes bytes = .ok m) :
    s.named digest = some m := by
  obtain ⟨object, found, rfl⟩ := holds
  exact Option.bind_eq_some_iff.mpr ⟨object, found, by rw [parsed]; rfl⟩

theorem steady_loadPointer :
    Steady site i (loadPointer site.sha256 site.pkey)
      (fun loaded s' => ∀ etag digest m, loaded = some (etag, digest, m) →
        Origin s' (.fromLoaded etag digest m)) s := by
  refine (steady_getPointer).mapErr.bind fun read s₁ _ sound pointed => ?_
  cases read with
  | none => exact Quiet.pure fun _ _ _ same => by cases same
  | some pair =>
    obtain ⟨etag, body⟩ := pair
    obtain ⟨k, v, found, sameEtag, sameBody⟩ := pointed etag body rfl
    dsimp only
    apply Quiet.ofExcept_bind
    intro text decoded
    apply Quiet.ofExcept_bind
    intro digest checked
    -- The digest that the checks let through is the version's own.
    have digest_eq : digest = v.digest := by
      obtain ⟨m, published⟩ := sound.published k v found
      obtain ⟨bytes, hash, -⟩ := published.digest_eq sound
      have text_eq : v.digest = text := by
        rw [Version.digest, sameBody, okOr_eq_ok.mp decoded, Option.getD_some]
      simp only [digestOfBody] at checked
      split at checked
      · cases checked
        rw [← text_eq, hash, trim_toHex]
      · cases checked
    subst digest_eq
    refine (steady_getVerifiedLimited).mapErr.bind fun bytes s₂ grows _ holds => ?_
    refine Quiet.ofExcept_bind fun m parsed => ?_
    refine Quiet.ofExcept_bind fun _ _ => Quiet.pure ?_
    intro etag' digest' m' same
    cases same
    refine Or.inr ⟨k, v, grows.getElem? found, ?_, rfl, named_of_holds holds parsed⟩
    rw [ParentState.fromLoaded, sameEtag]

theorem steady_hydrateForWrite :
    Steady site i (hydrateForWrite site.sha256 site.pkey)
      (fun hydrated s' => Origin s' hydrated.2) s := by
  refine (steady_loadPointer).bind fun loaded s₁ _ _ origin => ?_
  cases loaded with
  | none =>
    refine ((steady_local rfl).reply).bind fun _ s₂ _ _ _ => ?_
    exact Quiet.pure (Or.inl rfl)
  | some triple =>
    obtain ⟨etag, digest, m⟩ := triple
    have origin := origin etag digest m rfl
    refine ((steady_local rfl).reply).bind fun bytes s₂ grows _ _ => ?_
    exact Quiet.pure (origin.extends grows.toExtends)

/-! ### Capturing packs -/

theorem steady_capturePack {refsBefore refsAfter : Refs} {maxPackBytes : Nat} :
    Steady site i (capturePack refsBefore refsAfter maxPackBytes)
      (fun captured _ => site.graph.Honest site.workspace →
        ∀ o ∈ site.graph.closure refsAfter.values, o ∉ site.graph.closure refsBefore.values →
          ∃ bytes, captured = some bytes ∧ o ∈ site.graph.contents bytes) s := by
  unfold capturePack
  split
  next none =>
    -- Without positive tips there is nothing to reach.
    refine Quiet.pure fun _ o reached => ?_
    obtain ⟨tip, member, -⟩ := reached
    rw [none] at member
    cases member
  next =>
    refine (steady_local rfl).reply.bind fun out s₁ _ _ accepted => ?_
    refine Quiet.guard_bind fun _ => ?_
    have missing (honest : site.graph.Honest site.workspace) :=
      honest.packObjects refsAfter.values refsBefore.values out accepted
    split
    next empty =>
      refine Quiet.pure fun honest o reached unreached => ?_
      have none := missing honest
      rw [if_pos empty] at none
      have outside : o ∈ (∅ : Set String) := none ▸ ⟨reached, unreached⟩
      cases outside
    next full =>
      refine Quiet.pure fun honest o reached unreached => ⟨out, rfl, ?_⟩
      have packed := missing honest
      rw [if_neg full] at packed
      exact packed ▸ ⟨reached, unreached⟩

theorem steady_captureCompactedPacks {refsAfter : Refs} {limits : PublishLimits} :
    Steady site i (captureCompactedPacks refsAfter limits)
      (fun captured _ => site.graph.Honest site.workspace →
        ∀ o ∈ site.graph.closure refsAfter.values,
          ∃ file ∈ captured.1, o ∈ site.graph.contents file.pack) s := by
  unfold captureCompactedPacks
  split
  next none =>
    refine Quiet.pure fun _ o reached => ?_
    obtain ⟨tip, member, -⟩ := reached
    rw [BTreeMap.values, none] at member
    cases member
  next =>
    refine (steady_local rfl).reply.bind fun _ s₁ _ _ _ => ?_
    refine (steady_local rfl).reply.bind fun files s₂ _ _ accepted => ?_
    refine Quiet.guard_bind fun _ => ?_
    refine Quiet.ofExcept_bind fun total _ => Quiet.pure fun honest o reached => ?_
    -- Feeding a tip only once does not change what is reached.
    have same : o ∈ site.graph.closure (refsAfter.values.foldl pushNew []) := by
      obtain ⟨tip, member, reached⟩ := reached
      exact ⟨tip, (mem_foldl_pushNew _ [] tip).mpr (Or.inr member), reached⟩
    rw [honest.packFiles _ _ files accepted] at same
    exact same

theorem steady_uploadCompactedPack {file : CompactedPack} :
    Steady site i (uploadCompactedPack site.sha256 file)
      (fun key s' => key ≠ site.pkey ∧ Holds s' key file.pack) s := by
  have read : Steady site i
      (Task.reply (do
        let read ← ask (.readFile file.pack)
        pure (read.mapError fun e => CasError.packCapture ("read compacted pack: " ++ e))))
      (fun pack _ => pack = file.pack) s := by
    refine (steady_readFile).bind fun read s₁ _ _ same => ?_
    refine Quiet.ofExcept fun pack mapped => ?_
    cases read with
    | ok bytes => cases mapped; exact same _ rfl
    | error e => cases mapped
  refine read.bind fun pack s₁ _ _ same => ?_
  subst same
  refine Quiet.guard_bind fun _ => ?_
  refine (steady_putPack).mapErr.bind fun key s₂ _ _ stored => ?_
  obtain ⟨rfl, holds⟩ := stored
  refine Quiet.ofExcept_bind fun digest _ => ?_
  refine (steady_readFile).bind fun idx s₃ grows _ _ => ?_
  have kept := holds.extends (site.packs_ne_pkey _) grows.toExtends
  cases idx with
  | error e => exact Quiet.pure ⟨site.packs_ne_pkey _, kept⟩
  | ok idx =>
    refine (Quiet.lift ⟨(steady_putIdx).calm⟩).bind fun _ s₄ grows' _ _ => ?_
    exact Quiet.pure ⟨site.packs_ne_pkey _, kept.extends (site.packs_ne_pkey _) grows'.toExtends⟩

theorem steady_uploadAll {files : List CompactedPack} :
    Steady site i (uploadAll site.sha256 files)
      (fun keys s' => ∀ file ∈ files, ∃ key ∈ keys, key ≠ site.pkey ∧ Holds s' key file.pack) s := by
  induction files generalizing s with
  | nil => exact Quiet.pure fun file member => by cases member
  | cons file rest ih =>
    refine (steady_uploadCompactedPack).bind fun key s₁ _ _ stored => ?_
    refine ih.bind fun keys s₂ grows _ later => Quiet.pure fun file' member => ?_
    rcases List.mem_cons.mp member with rfl | member
    · exact ⟨key, List.mem_cons_self, stored.1, stored.2.extends stored.1 grows.toExtends⟩
    · obtain ⟨key', listed, uploaded⟩ := later file' member
      exact ⟨key', List.mem_cons_of_mem _ listed, uploaded⟩

theorem steady_prepareCompaction {refsAfter : Refs} {limits : PublishLimits} {packsBefore : Nat} :
    Steady site i (prepareCompaction site.sha256 refsAfter limits packsBefore)
      (fun keys s' => site.graph.Honest site.workspace →
        ∀ o ∈ site.graph.closure refsAfter.values, Supplied site s' keys o) s := by
  refine (steady_captureCompactedPacks).bind fun captured s₁ _ _ complete => ?_
  refine Quiet.guard_bind fun _ => ?_
  refine (steady_uploadAll).bind fun keys s₂ _ _ uploaded => Quiet.pure fun honest o reached => ?_
  obtain ⟨file, member, held⟩ := complete honest o reached
  obtain ⟨key, listed, other, object, found, body⟩ := uploaded file member
  exact ⟨key, mem_sortDedup.mpr listed, other, object, found, body ▸ held⟩

theorem steady_attemptCompaction {refsAfter : Refs} {limits : PublishLimits} {packsBefore : Nat} :
    Steady site i (attemptCompaction site.sha256 refsAfter limits packsBefore)
      (fun attempt s' => ∀ keys, attempt = .ok keys → site.graph.Honest site.workspace →
        ∀ o ∈ site.graph.closure refsAfter.values, Supplied site s' keys o) s := by
  refine (steady_local rfl).bind fun permit s₁ _ _ _ => ?_
  cases permit with
  | error e => exact Quiet.pure fun keys same => by cases same
  | ok u =>
    refine Quiet.lift ⟨fun sound => ?_⟩
    refine Calm.withTimeout ?_ (fun _ _ same => by cases same) ((steady_prepareCompaction).calm sound)
    intro s₂ sound choice fired s₃ served
    have timer : Steady site i (ask .deadline : GitM CasError Bool) _ s₂ := steady_local rfl
    have polled := timer.calm sound s₂ Grows.refl sound choice fired s₃ served
    exact ⟨polled.1, polled.2.1⟩

theorem steady_compactIfDue {refsAfter : Refs} {limits : PublishLimits}
    {threshold packsBefore : Nat} :
    Steady site i (compactIfDue site.sha256 refsAfter limits threshold packsBefore)
      (fun compaction s' => ∀ keys, compaction = some (.ok keys) →
        site.graph.Honest site.workspace → ∀ o ∈ site.graph.closure refsAfter.values,
          Supplied site s' keys o) s := by
  unfold compactIfDue
  split
  next =>
    refine (steady_attemptCompaction).bind fun attempt s₁ _ _ complete => Quiet.pure ?_
    exact fun keys same => complete keys (Option.some.inj same)
  next => exact Quiet.pure fun keys same => by cases same

theorem steady_writeIdxSidecar {key : String} {pack : ByteArray} :
    Steady site i (writeIdxSidecar key pack) (fun _ _ => True) s := by
  refine Quiet.ofExcept_bind fun digest _ => ?_
  refine (steady_local rfl).reply.bind fun idx s₁ _ _ _ => ?_
  exact (steady_putIdx).mapErr.bind fun _ _ _ _ _ => Quiet.pure trivial

theorem steady_deltaPackKey {parent : Manifest} {refsAfter : Refs} {limits : PublishLimits}
    {compactionFailure : Option CasError} :
    Steady site i (deltaPackKey site.sha256 parent refsAfter limits compactionFailure)
      (fun newPackKey s' => site.graph.Honest site.workspace →
        ∀ o ∈ site.graph.closure refsAfter.values, o ∉ site.graph.closure parent.refs.values →
          Supplied site s' newPackKey.toList o) s := by
  refine (steady_capturePack).bind fun captured s₁ _ _ complete => ?_
  cases captured with
  | none =>
    refine Quiet.pure fun honest o reached unreached => ?_
    obtain ⟨bytes, same, -⟩ := complete honest o reached unreached
    cases same
  | some bytes =>
    refine Quiet.guard_bind fun _ => ?_
    refine Quiet.guard_bind fun _ => ?_
    refine Quiet.guard_bind fun _ => ?_
    refine (steady_putPack).mapErr.bind fun key s₂ _ _ stored => ?_
    refine (Quiet.lift ⟨(steady_writeIdxSidecar).calm⟩).bind fun _ s₃ grows _ _ => ?_
    refine Quiet.pure fun honest o reached unreached => ?_
    obtain ⟨bytes', same, held⟩ := complete honest o reached unreached
    cases same
    obtain ⟨rfl, holds⟩ := stored
    obtain ⟨object, found, body⟩ := holds.extends (site.packs_ne_pkey _) grows.toExtends
    exact ⟨_, by simp, site.packs_ne_pkey _, object, found, body ▸ held⟩

/-! ### Composing the next manifest -/

/-- The parent that a push starts from is covered. -/
theorem Origin.covered {parent : ParentState} (origin : Origin s parent) (sound : Sound site s)
    (honest : site.graph.Honest site.workspace) : Covered site s parent.parent := by
  rcases origin with rfl | ⟨k, v, found, -, -, named⟩
  · rintro o ⟨tip, member, -⟩
    cases member
  · obtain ⟨m, published⟩ := sound.published k v found
    have same := published.named
    rw [named] at same
    cases same
    exact published.covered honest

/-- What is known about a manifest that is ready to be published on top of `parent`. -/
structure Ready (site : Site) (parent : ParentState) (m : Manifest) (s : Bucket ι) : Prop where
  version : m.version = manifestVersion
  parentDigest : m.parent = parent.parentDigest
  sorted : m.packs.Pairwise (· < ·)
  covered : site.graph.Honest site.workspace → Covered site s m

theorem Ready.extends {s' : Bucket ι} {parent : ParentState} {m : Manifest}
    (ready : Ready site parent m s) (extended : Extends site s s') : Ready site parent m s' :=
  ⟨ready.version, ready.parentDigest, ready.sorted,
    fun honest => extended.covered (ready.covered honest)⟩

private theorem Supplied.mono {packs packs' : List String} {o : String}
    (supplied : Supplied site s packs o) (more : ∀ key ∈ packs, key ∈ packs') :
    Supplied site s packs' o := by
  obtain ⟨key, member, stored⟩ := supplied
  exact ⟨key, more key member, stored⟩

/-- The parent's packs with the pack of what is new cover the new refs. -/
theorem ready_composeAfter {parent : ParentState} {head : String} {refs : Refs}
    {newPackKey : Option String} (covered : site.graph.Honest site.workspace →
      Covered site s parent.parent)
    (delta : site.graph.Honest site.workspace → ∀ o ∈ site.graph.closure refs.values,
      o ∉ site.graph.closure parent.parent.refs.values → Supplied site s newPackKey.toList o) :
    Ready site parent (composeAfter parent.parent parent.parentDigest head refs newPackKey) s where
  version := rfl
  parentDigest := rfl
  sorted := sortDedup_strict _
  covered honest := by
    intro o reached
    by_cases old : o ∈ site.graph.closure parent.parent.refs.values
    · refine (covered honest o old).mono fun key member => mem_sortDedup.mpr ?_
      split
      next => split <;> simp [member]
      next => exact member
    · refine (delta honest o reached old).mono fun key member => mem_sortDedup.mpr ?_
      cases newPackKey with
      | none => cases member
      | some new =>
        obtain rfl : key = new := by simpa using member
        dsimp only
        split
        next present => exact present
        next => simp

theorem steady_composeNext {parent : ParentState} {limits : PublishLimits} {threshold : Nat}
    (origin : Origin s parent) :
    Steady site i (composeNext site.sha256 parent limits threshold)
      (fun m s' => Ready site parent m s') s := by
  have delta {s₁ : Bucket ι} (grows : Grows site i s s₁) {refsAfter : Refs} {head : String}
      {failure : Option CasError} :
      Steady site i (do
        let newPackKey ← deltaPackKey site.sha256 parent.parent refsAfter limits failure
        pure (composeAfter parent.parent parent.parentDigest head refsAfter newPackKey))
        (fun m s' => Ready site parent m s') s₁ := by
    refine (steady_deltaPackKey).bind fun newPackKey s₂ grows' sound complete => Quiet.pure ?_
    exact ready_composeAfter (fun honest => (origin.extends (grows.trans grows').toExtends).covered sound honest)
      complete
  refine (steady_local rfl).reply.bind fun snapshot s₁ grows _ _ => ?_
  obtain ⟨refsAfter, headObserved⟩ := snapshot
  refine (steady_compactIfDue).bind fun compaction s₂ grows' _ complete => ?_
  rcases compaction with _ | failure | keys
  · exact delta (grows.trans grows')
  · exact delta (grows.trans grows')
  · refine Quiet.pure ⟨rfl, rfl, sortDedup_strict _, fun honest o reached => ?_⟩
    exact (complete keys rfl honest o reached).mono fun key member => mem_sortDedup.mpr member

end Git
