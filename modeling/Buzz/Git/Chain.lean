import Buzz.Git.Steady
import Mathlib.Data.List.Nodup

/-!
# One unforked chain

The put of the pointer, the only call of a push that is not quiet, and what
follows for any number of concurrent pushes.
-/
namespace Git

open Lib Nostr Service

variable {ι : Type} {site : Site} {i : ι} {s : Bucket ι}

/-! ### The swap of the pointer -/

/-- The conditional put only goes through on the version that was read. -/
private theorem parent_of_holds {parent : ParentState} (origin : Origin s parent)
    (sound : Sound site s)
    (holds : (precondOf parent.ifMatch).holds (s.objects.lookup site.pkey) = true) :
    parent.parentDigest = Bucket.digestBefore s.versions s.versions.length := by
  rw [sound.pointer] at holds
  rcases origin with rfl | ⟨k, v, found, etag, digest, -⟩
  · -- Without a parent there must be no version yet.
    have empty : s.versions = [] := by
      simpa [precondOf, ParentState.fresh, Precond.holds] using holds
    rw [empty]
    rfl
  · obtain ⟨last, current, same⟩ : ∃ last, s.versions.getLast? = some last ∧
        last.etag = v.etag := by
      cases current : s.versions.getLast? with
      | none => simp [current, precondOf, etag, Precond.holds] at holds
      | some last =>
        refine ⟨last, rfl, ?_⟩
        simpa [current, precondOf, etag, Precond.holds, Version.object] using holds
    obtain ⟨inside, here⟩ := List.getElem?_eq_some_iff.mp found
    obtain ⟨n, length⟩ : ∃ n, s.versions.length = n + 1 := ⟨s.versions.length - 1, by omega⟩
    -- ETags tell versions apart, so the one that was read is the last.
    have last : k = n := by
      rw [List.getLast?_eq_getElem?, length, Nat.add_sub_cancel] at current
      refine (List.getElem?_inj (by simpa using inside) sound.etags).mp ?_
      rw [List.getElem?_map, List.getElem?_map, found, current]
      exact congrArg some same.symm
    subst last
    rw [digest, length, Bucket.digestBefore, found, Option.map_some]

/-- Push `i` installed the manifest, and installed nothing else. -/
structure Installed (site : Site) (i : ι) (m : Manifest) (s : Bucket ι) (k : Nat) : Prop where
  version : ∃ v : Version ι, s.versions[k]? = some v ∧ v.push = i ∧ v.digest = site.digest m
  named : s.named (site.digest m) = some m
  only : ∀ (k' : Nat) (v' : Version ι), s.versions[k']? = some v' → v'.push = i → k' = k

/-- Push `i` left the pointer alone, unless its put of the pointer failed in transport;
`reported` is what the push says in that case. -/
def Settled (i : ι) (reported : Prop) (s : Bucket ι) : Prop :=
  Untouched i s ∨ (i ∈ s.failures ∧ reported)

/-- The state after the pointer was swapped. -/
private abbrev swapped (site : Site) (s : Bucket ι) (i : ι) (body : ByteArray) (etag : String)
    (reply : Except S3Error Response) : Bucket ι :=
  (s.put site.pkey i site.pkey body etag).note site.pkey i site.pkey body reply

private theorem swapped_versions {body : ByteArray} {etag : String}
    {reply : Except S3Error Response} :
    (swapped site s i body etag reply).versions = s.versions ++ [⟨i, etag, body⟩] := by
  simp [swapped, Bucket.put]

private theorem extends_swapped {body : ByteArray} {etag : String}
    {reply : Except S3Error Response} : Extends site s (swapped site s i body etag reply) where
  objects key object other found := by
    rw [note_objects, Bucket.put, Map.lookup_insert_ite, if_neg other]
    exact found
  versions := ⟨_, swapped_versions⟩

private theorem grows_swapped {j : ι} {body : ByteArray} {etag : String}
    {reply : Except S3Error Response} (other : j ≠ i) :
    Grows site j s (swapped site s i body etag reply) where
  toExtends := extends_swapped
  others v member := by
    rw [swapped_versions, List.drop_left] at member
    obtain rfl := List.mem_singleton.mp member
    exact Ne.symm other
  failures := (grows_note (Or.inl other)).failures

/-- What a push knows when it swaps the pointer. -/
structure Staged (site : Site) (parent : ParentState) (m : Manifest) (s : Bucket ι) : Prop where
  origin : Origin s parent
  ready : Ready site parent m s
  valid : m.Valid
  stored : Holds s ("manifests/" ++ site.digest m) m.canonicalBytes

theorem Staged.extends {s' : Bucket ι} {parent : ParentState} {m : Manifest}
    (staged : Staged site parent m s) (extended : Extends site s s') :
    Staged site parent m s' :=
  ⟨staged.origin.extends extended, staged.ready.extends extended, staged.valid,
    staged.stored.extends (site.manifests_ne_pkey _) extended⟩

private theorem Staged.named {parent : ParentState} {m : Manifest}
    (staged : Staged site parent m s) : s.named (site.digest m) = some m := by
  refine named_of_holds staged.stored ?_
  rw [Manifest.fromBytes_canonicalBytes staged.ready.version, sortDedup_eq_self staged.ready.sorted]

private theorem digest_toUTF8 (etag digest : String) :
    (⟨i, etag, digest.toUTF8⟩ : Version ι).digest = digest := by
  rw [Version.digest, fromUTF8?_toUTF8, Option.getD_some]

/-- The swap keeps the invariant: the new version is the child of the last one. -/
private theorem Sound.swap (sound : Sound site s) {parent : ParentState} {m : Manifest}
    {etag : String} {reply : Except S3Error Response} (staged : Staged site parent m s)
    (holds : (precondOf parent.ifMatch).holds (s.objects.lookup site.pkey) = true)
    (fresh : etag ∉ s.versions.map Version.etag) :
    Sound site (swapped site s i (site.digest m).toUTF8 etag reply) := by
  have extended : Extends site s (swapped site s i (site.digest m).toUTF8 etag reply) :=
    extends_swapped
  refine ⟨?_, ?_, ?_, ?_, ?_⟩
  · rw [swapped_versions, List.getLast?_concat, Option.map_some, note_objects, Bucket.put,
      Map.lookup_insert_ite, if_pos rfl]
    rfl
  · intro key object other found
    rw [note_objects, Bucket.put, Map.lookup_insert_ite, if_neg other] at found
    exact sound.fits key object other found
  · intro key object found
    rw [note_objects, Bucket.put, Map.lookup_insert_ite] at found
    split at found
    next => cases found; exact List.mem_cons_self
    next => exact List.mem_cons_of_mem _ (sound.written key object found)
  · rw [swapped_versions, List.map_append, List.map_singleton]
    exact (List.nodup_append.mpr ⟨sound.etags, by simp, by simpa using fresh⟩)
  · intro k v found
    rw [swapped_versions] at found
    rcases Nat.lt_or_ge k s.versions.length with inside | outside
    · rw [List.getElem?_append_left inside] at found
      obtain ⟨m', published⟩ := sound.published k v found
      exact ⟨m', published.extends found extended⟩
    · rw [List.getElem?_append_right outside, List.getElem?_singleton] at found
      split at found
      next last =>
        cases found
        have length : k = s.versions.length := by omega
        refine ⟨m, ?_, digest_toUTF8 _ _, ?_, ?_, staged.valid, staged.ready.sorted,
          fun honest => extended.covered (staged.ready.covered honest)⟩
        · rw [digest_toUTF8]
        · rw [digest_toUTF8]
          exact extended.named staged.named
        · rw [staged.ready.parentDigest, parent_of_holds staged.origin sound holds,
            swapped_versions, length, digestBefore_append le_rfl]
      next => cases found

private theorem isRefusal_of_lostRace {reply : Except S3Error Response}
    (classified : GitStore.classifyCas reply = .ok .lostRace) : isRefusal reply = true := by
  cases reply with
  | ok response =>
    simp only [GitStore.classifyCas] at classified
    split at classified
    · split at classified <;> cases classified
    · cases classified
  | error error =>
    cases error with
    | httpFailWithBody status text =>
      simp only [GitStore.classifyCas] at classified
      split at classified
      next lost => simp [isRefusal, S3Error.isStatus, lost]
      next => cases classified
    | other text => cases classified

private theorem isAccepted_of_won {reply : Except S3Error Response} {etag : ETag}
    (classified : GitStore.classifyCas reply = .ok (.won etag)) : isAccepted reply = true := by
  cases reply with
  | ok response =>
    simp only [GitStore.classifyCas] at classified
    split at classified
    next success => exact success
    next => cases classified
  | error error =>
    cases error with
    | httpFailWithBody status text =>
      simp only [GitStore.classifyCas] at classified
      split at classified <;> cases classified
    | other text => cases classified

private theorem mem_failures {body : ByteArray} {reply : Except S3Error Response}
    {error : StoreError} (failed : GitStore.classifyCas reply = .error error) :
    i ∈ (s.note site.pkey i site.pkey body reply).failures := by
  simp [Bucket.note, failed, Except.toOption]

private theorem Untouched.note {body : ByteArray} {reply : Except S3Error Response}
    {outcome : CasOutcome} (untouched : Untouched i s)
    (classified : GitStore.classifyCas reply = .ok outcome) :
    Untouched i (s.note site.pkey i site.pkey body reply) := by
  refine ⟨untouched.versions, ?_⟩
  simpa [Bucket.note, classified, Except.toOption] using untouched.failures

/-- What the outcome of the swap says about the push. -/
def Outcome (site : Site) (i : ι) (m : Manifest) (s : Bucket ι) : CasOutcome → Prop
  | .won _ => ∃ k, Installed site i m s k
  | .lostRace => Sound site s ∧ Untouched i s

theorem meets_putPointer {parent : ParentState} {m : Manifest} (sound : Sound site s)
    (staged : Staged site parent m s) (untouched : Untouched i s) :
    Meets site.service (contract site) i
      (GitStore.putPointer site.pkey (site.digest m).toUTF8 (precondOf parent.ifMatch))
      (fun outcome s' => Outcome site i m s' outcome) (fun _ s' => Settled i True s') s := by
  refine Quiet.bind_meets (Quiet.ofExcept fun _ _ => trivial) sound
    (fun _ s' grows _ => Or.inl (grows.untouched untouched)) fun _ s₀ early _ (_ : True) => ?_
  refine Meets.bind (Meets.ask fun s₁ grows sound₁ choice reply s₂ served => ?_)
  have grows := early.trans grows
  have untouched₁ := grows.untouched untouched
  have staged₁ := staged.extends grows.toExtends
  obtain ⟨-, done | refused | lost⟩ := servePut_cases served
  · obtain ⟨holds, notRefused, fresh, rfl⟩ := done
    refine ⟨sound₁.swap staged₁ holds fresh, fun j other => grows_swapped other, ?_⟩
    refine Meets.ofExcept ?_ fun error failed => Or.inr ⟨mem_failures failed, trivial⟩
    intro outcome classified
    cases outcome with
    | lostRace => rw [isRefusal_of_lostRace classified] at notRefused; cases notRefused
    | won etag =>
      refine ⟨s₁.versions.length, ⟨⟨⟨i, choice.etag, (site.digest m).toUTF8⟩, ?_, rfl, digest_toUTF8 _ _⟩,
        extends_swapped.named staged₁.named, fun k v found mine => ?_⟩⟩
      · rw [swapped_versions, List.getElem?_append_right le_rfl, Nat.sub_self]
        rfl
      · -- An earlier version is not its own.
        rw [swapped_versions] at found
        rcases Nat.lt_trichotomy k s₁.versions.length with inside | last | beyond
        · rw [List.getElem?_append_left inside] at found
          exact absurd mine (untouched₁.versions v (List.mem_of_getElem? found))
        · exact last
        · rw [List.getElem?_eq_none (by simp; omega)] at found
          cases found
  · obtain ⟨-, rfl, rfl⟩ := refused
    refine ⟨sound₁.note i _ _ _, fun j other => grows_note (Or.inl other), ?_⟩
    refine Meets.ofExcept ?_ fun error failed => by cases failed
    intro outcome classified
    -- A refusal is no failure in transport.
    have untouched₂ : Untouched i (s₁.note site.pkey i site.pkey (site.digest m).toUTF8 _) :=
      untouched₁.note classified
    cases classified
    exact ⟨sound₁.note i _ _ _, untouched₂⟩
  · obtain ⟨notRefused, notAccepted, rfl⟩ := lost
    refine ⟨sound₁.note i _ _ _, fun j other => grows_note (Or.inl other), ?_⟩
    refine Meets.ofExcept ?_ fun error failed => Or.inr ⟨mem_failures failed, trivial⟩
    intro outcome classified
    cases outcome with
    | lostRace => rw [isRefusal_of_lostRace classified] at notRefused; cases notRefused
    | won etag => rw [isAccepted_of_won classified] at notAccepted; cases notAccepted

private theorem steady_readWinnerAfterConflict :
    Steady site i (readWinnerAfterConflict site.sha256 site.pkey) (fun _ _ => True) s := by
  refine steady_getPointer.mapErr.bind fun read s₁ _ _ _ => ?_
  cases read with
  | none => exact Quiet.throw
  | some pair =>
    dsimp only
    refine Quiet.ofExcept_bind fun text _ => ?_
    refine Quiet.ofExcept_bind fun digest _ => ?_
    refine steady_getVerified.mapErr.bind fun bytes s₂ _ _ _ => ?_
    exact Quiet.ofExcept_bind fun winner _ => Quiet.pure trivial

/-- The manifest of the success is the one that was installed. -/
def Succeeded (site : Site) (i : ι) (success : CasSuccess) (s : Bucket ι) : Prop :=
  success.manifestKey = "manifests/" ++ site.digest success.manifest ∧
    ∃ k, Installed site i success.manifest s k

theorem meets_commit {parent : ParentState} {m : Manifest} (sound : Sound site s)
    (origin : Origin s parent) (ready : Ready site parent m s) (untouched : Untouched i s) :
    Meets site.service (contract site) i (commit site.sha256 site.pkey parent m)
      (fun success s' => Succeeded site i success s')
      (fun e s' => Settled i (∃ error, e = .backend error) s') s := by
  have harmless {reported : Prop} {s₁ s₂ : Bucket ι} (before : Untouched i s₁)
      (grows : Grows site i s₁ s₂) : Settled i reported s₂ := Or.inl (grows.untouched before)
  refine Quiet.bind_meets (Quiet.ofExcept fun _ valid => valid) sound
    (fun _ _ grows _ => harmless untouched grows) fun _ s₁ grows₁ sound₁ (valid : m.Valid) => ?_
  have untouched₁ := grows₁.untouched untouched
  refine Quiet.bind_meets steady_putManifest.mapErr sound₁
    (fun _ _ grows _ => harmless untouched₁ grows) fun key s₂ grows₂ sound₂ stored => ?_
  obtain ⟨rfl, stored⟩ := stored
  have untouched₂ := grows₂.untouched untouched₁
  have reached := (grows₁.trans grows₂).toExtends
  have derived : Steady site i (Task.ofExcept id (digestFromManifestKey
      ("manifests/" ++ site.digest m)) : GitM CasError String)
      (fun digest _ => digest = site.digest m) s₂ := by
    refine Quiet.ofExcept fun digest named => ?_
    rw [digestFromManifestKey, stripStart_append] at named
    cases named
    rfl
  refine Quiet.bind_meets derived sound₂
    (fun _ _ grows _ => harmless untouched₂ grows) fun digest s₃ grows₃ sound₃ same => ?_
  subst same
  have untouched₃ := grows₃.untouched untouched₂
  have staged : Staged site parent m s₃ :=
    ⟨(origin.extends reached).extends grows₃.toExtends,
      (ready.extends reached).extends grows₃.toExtends, valid,
      stored.extends (site.manifests_ne_pkey _) grows₃.toExtends⟩
  have put : Meets site.service (contract site) i
      ((GitStore.putPointer site.pkey (site.digest m).toUTF8 (precondOf parent.ifMatch)).mapErr
        CasError.backend)
      (fun outcome s' => Outcome site i m s' outcome)
      (fun e s' => Settled i (∃ error, e = .backend error) s') s₃ :=
    Meets.mapErr ((meets_putPointer sound₃ staged untouched₃).mono (fun _ _ outcome => outcome)
      fun error _ settled => settled.imp_right fun failed => ⟨failed.1, error, rfl⟩)
  refine Meets.bind (put.mono ?_ fun _ _ settled => settled)
  intro outcome s₄ swapped
  cases outcome with
  | won etag =>
    obtain ⟨k, installed⟩ := swapped
    exact ⟨rfl, k, installed⟩
  | lostRace =>
    refine Quiet.bind_meets steady_readWinnerAfterConflict swapped.1
      (fun _ _ grows _ => harmless swapped.2 grows) fun winner s₅ grows₅ _ _ => ?_
    exact harmless swapped.2 grows₅

/-! ### A push -/

theorem meets_casPublish {parent : ParentState} {limits : PublishLimits} (sound : Sound site s)
    (origin : Origin s parent) (untouched : Untouched i s) :
    Meets site.service (contract site) i (casPublish site.sha256 site.pkey parent limits)
      (fun success s' => Succeeded site i success s')
      (fun e s' => Settled i (∃ error, e = .backend error) s') s := by
  refine Quiet.bind_meets (steady_composeNext origin) sound
    (fun _ _ grows _ => Or.inl (grows.untouched untouched)) fun m s₁ grows sound₁ ready => ?_
  exact meets_commit sound₁ (origin.extends grows.toExtends) ready (grows.untouched untouched)

/-- What is known when a push has returned. -/
def Returned (site : Site) (i : ι) : Except PushError (Option CasSuccess) → Bucket ι → Prop
  | .ok (some success), s => Succeeded site i success s
  | .ok none, s => Untouched i s
  | .error e, s => Settled i (∃ error, e = .cas (.backend error)) s

theorem meets_receivePack {config : Config} (sound : Sound site s) (untouched : Untouched i s) :
    Meets site.service (contract site) i (receivePack site.sha256 site.pkey config)
      (fun success s' => Returned site i (.ok success) s')
      (fun e s' => Returned site i (.error e) s') s := by
  refine Quiet.bind_meets steady_hydrateForWrite.mapErr sound
    (fun _ _ grows _ => Or.inl (grows.untouched untouched)) fun hydrated s₁ grows₁ sound₁ origin => ?_
  obtain ⟨parentHydratedBytes, parent⟩ := hydrated
  have untouched₁ := grows₁.untouched untouched
  refine Quiet.bind_meets (steady_local rfl) sound₁
    (fun _ _ grows _ => Or.inl (grows.untouched untouched₁)) fun outcome s₂ grows₂ sound₂ _ => ?_
  have untouched₂ := grows₂.untouched untouched₁
  rcases outcome with message | accepted
  · exact Or.inl untouched₂
  · cases accepted with
    | false => exact untouched₂
    | true =>
      refine Meets.bind (Meets.mapErr ((meets_casPublish sound₂ (origin.extends grows₂.toExtends)
        untouched₂).mono (fun _ _ succeeded => succeeded) ?_))
      rintro e s' (alone | ⟨failed, error, rfl⟩)
      · exact Or.inl alone
      · exact Or.inr ⟨failed, error, rfl⟩

theorem obeys_receivePack {config : Config} (sound : Sound site s) (untouched : Untouched i s) :
    Obeys site.service (contract site) i (Returned site i)
      (receivePack site.sha256 site.pkey config).run s := by
  refine Obeys.mono (meets_receivePack sound untouched) fun result s' holds => ?_
  cases result with
  | ok success => exact holds
  | error e => exact holds

theorem Returned.grows {s' : Bucket ι} {result : Except PushError (Option CasSuccess)}
    (returned : Returned site i result s) (grows : Grows site i s s') :
    Returned site i result s' := by
  match result with
  | .ok none => exact grows.untouched returned
  | .error e =>
    rcases returned with alone | ⟨failed, reported⟩
    · exact Or.inl (grows.untouched alone)
    · exact Or.inr ⟨grows.failures.mpr failed, reported⟩
  | .ok (some success) =>
    obtain ⟨key, k, ⟨v, found, mine, digest⟩, named, only⟩ := returned
    refine ⟨key, k, ⟨v, grows.toExtends.getElem? found, mine, digest⟩,
      grows.toExtends.named named, fun k' v' found' mine' => ?_⟩
    obtain ⟨added, versions⟩ := grows.versions
    have others := grows.others v'
    rw [versions, List.drop_left] at others
    rw [versions] at found'
    rcases Nat.lt_or_ge k' s.versions.length with inside | outside
    · rw [List.getElem?_append_left inside] at found'
      exact only k' v' found' mine'
    · rw [List.getElem?_append_right outside] at found'
      exact absurd mine' (others (List.mem_of_getElem? found'))

end Git
