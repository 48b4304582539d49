import Buzz.Deletion.Manifest
import Buzz.Lib.Guard
import Mathlib.Data.List.Forall2
import Mathlib.Logic.Equiv.Basic

/-!
# Frozen enumerations

The stored key chunks against the lists of keys that were frozen. The digest of a prefix covers the
text of its keys, a line for each, so the chunks are the enumeration only if that text can be cut
into keys in one way.
-/
namespace Deletion

open Lib

/-- A prefix with the keys that were listed under it. -/
structure FrozenPrefix where
  pathPrefix : String
  keys : List String
  ascending : keys.Pairwise (· < ·)
  under : ∀ key ∈ keys, key.startsWith pathPrefix

/-- What the digest has hashed of the keys. -/
def textOf (keys : List String) : String := keys.foldl (fun text key => text ++ key ++ "\n") ""

/-- The manifest row is what the digest yields for the keys. -/
structure Summarises (hashes : Hashes) (frozen : FrozenPrefix) (summary : PrefixManifest) :
    Prop where
  pathPrefix : summary.pathPrefix = frozen.pathPrefix
  yields : ∃ digest, frozen.keys.foldlM KeyStreamDigest.fold {} = .ok digest ∧
    digest.finish hashes = (summary.keysDigest, summary.objectCount)

/-- The chunks are numbered from `index`. -/
def Numbered (index : Int) (chunks : List ManifestKeyChunk) : Prop :=
  ∀ (i : Nat) (chunk : ManifestKeyChunk), chunks[i]? = some chunk → chunk.chunkNo = index + i

/-- The chunks of one prefix: none is empty. -/
def OfPrefix (pathPrefix : String) (group : List ManifestKeyChunk) : Prop :=
  ∀ chunk ∈ group, chunk.pathPrefix = pathPrefix ∧ chunk.keys ≠ []

/-- The chunks are the frozen lists: they come by prefix, in the order of the manifest, and the
chunks of each prefix together have its keys. -/
structure Enumerates (frozen : List FrozenPrefix) (chunks : List ManifestKeyChunk) : Prop where
  numbered : Numbered 0 chunks
  grouped : ∃ groups : List (List ManifestKeyChunk), chunks = groups.flatten ∧
    List.Forall₂ (fun p group => OfPrefix p.pathPrefix group ∧ group.flatMap (·.keys) = p.keys)
      frozen groups

/-- The keys are an ascending list of as many keys under the prefix with the same text. -/
structure Lists (frozen : FrozenPrefix) (keys : List String) : Prop where
  ascending : keys.Pairwise (· < ·)
  under : ∀ key ∈ keys, key.startsWith frozen.pathPrefix
  count : keys.length = frozen.keys.length
  text : textOf keys = textOf frozen.keys

/-- The text of the keys can be cut in one way only. -/
def Sole (frozen : FrozenPrefix) : Prop := ∀ keys, Lists frozen keys → keys = frozen.keys

theorem FrozenPrefix.lists (frozen : FrozenPrefix) : Lists frozen frozen.keys :=
  ⟨frozen.ascending, frozen.under, rfl, rfl⟩

/-! ### Digests -/

/-- The digest after these keys. -/
def digestOf (keys : List String) : KeyStreamDigest := ⟨textOf keys, keys.getLast?, keys.length⟩

theorem textOf_concat (keys : List String) (key : String) :
    textOf (keys ++ [key]) = textOf keys ++ key ++ "\n" := by
  simp [textOf]

private theorem ascending_concat_iff {keys : List String} (ascending : keys.Pairwise (· < ·))
    (key : String) :
    (keys ++ [key]).Pairwise (· < ·) ↔ keys.getLast?.any (key ≤ ·) = false := by
  rcases keys.eq_nil_or_concat' with rfl | ⟨init, last, rfl⟩
  · simp
  · have before := (List.pairwise_append.mp ascending).2.2
    simp only [@List.pairwise_append _ _ (init ++ [last]), ascending, List.pairwise_singleton,
      true_and, List.mem_singleton, forall_eq, List.getLast?_concat, Option.any_some,
      decide_eq_false_iff_not, String.not_le]
    constructor
    · exact fun all => all last (by simp)
    · intro later other member
      rcases List.mem_append.mp member with earlier | here
      · exact String.lt_trans (before other earlier last (by simp)) later
      · rwa [List.mem_singleton.mp here]

theorem fold_eq_ok_iff {keys : List String} (ascending : keys.Pairwise (· < ·)) {key : String}
    {digest : KeyStreamDigest} : (digestOf keys).fold key = .ok digest ↔
      (keys ++ [key]).Pairwise (· < ·) ∧ digest = digestOf (keys ++ [key]) := by
  have next : digestOf (keys ++ [key]) =
      ⟨(digestOf keys).text ++ key ++ "\n", some key, (digestOf keys).count + 1⟩ := by
    simp [digestOf, textOf_concat]
  have last : (digestOf keys).last = keys.getLast? := rfl
  rw [KeyStreamDigest.fold, ascending_concat_iff ascending, next, last]
  cases keys.getLast?.any (key ≤ ·) with
  | true => simp
  | false => simp [eq_comm]

theorem foldlM_eq_ok_iff {done keys : List String} (ascending : done.Pairwise (· < ·))
    {digest : KeyStreamDigest} : keys.foldlM KeyStreamDigest.fold (digestOf done) = .ok digest ↔
      (done ++ keys).Pairwise (· < ·) ∧ digest = digestOf (done ++ keys) := by
  induction keys generalizing done with
  | nil =>
    simp only [List.foldlM_nil, List.append_nil, ascending, true_and]
    change Except.ok (digestOf done) = .ok digest ↔ _
    exact (Except.ok.injEq ..).to_iff.trans eq_comm
  | cons key keys ih =>
    rw [List.foldlM_cons, bind_eq_ok]
    constructor
    · rintro ⟨next, folded, rest⟩
      obtain ⟨further, rfl⟩ := (fold_eq_ok_iff ascending).mp folded
      simpa using (ih further).mp rest
    · rintro ⟨all, rfl⟩
      have further : (done ++ [key]).Pairwise (· < ·) :=
        all.sublist (by simp)
      exact ⟨_, (fold_eq_ok_iff ascending).mpr ⟨further, rfl⟩,
        (ih further).mpr ⟨by simpa using all, by simp⟩⟩

theorem foldKeys_eq_ok_iff {chunkPrefix : String} {done keys : List String}
    (ascending : done.Pairwise (· < ·)) {digest : KeyStreamDigest} :
    foldKeys chunkPrefix (digestOf done) keys = .ok digest ↔
      (∀ key ∈ keys, key.startsWith chunkPrefix) ∧ (done ++ keys).Pairwise (· < ·) ∧
        digest = digestOf (done ++ keys) := by
  rw [← foldlM_eq_ok_iff ascending]
  generalize digestOf done = start
  induction keys generalizing start with
  | nil => simp [foldKeys, pure, Except.pure]
  | cons key keys ih =>
    rw [foldKeys, List.foldlM_cons, bind_eq_ok]
    by_cases under : key.startsWith chunkPrefix
    · rw [if_neg (by simpa using under), bind_eq_ok]
      simp only [ih, List.forall_mem_cons, under, true_and]
      constructor
      · rintro ⟨next, folded, inside, rest⟩
        exact ⟨inside, next, folded, rest⟩
      · rintro ⟨inside, next, folded, rest⟩
        exact ⟨next, folded, inside, rest⟩
    · rw [if_pos (by simpa using under)]
      constructor
      · intro failed
        cases failed
      · rintro ⟨inside, -⟩
        exact absurd (inside key (by simp)) under

/-! ### The validator -/

section

variable {hashes : Hashes}

/-- The keys are accepted for the prefix. -/
structure Passes (hashes : Hashes) (summary : PrefixManifest) (keys : List String) : Prop where
  ascending : keys.Pairwise (· < ·)
  under : ∀ key ∈ keys, key.startsWith summary.pathPrefix
  digest : hashes.sha256 (textOf keys) = summary.keysDigest
  count : keys.length = summary.objectCount

theorem closePrefix_iff_passes {summary : PrefixManifest} {keys : List String}
    (ascending : keys.Pairwise (· < ·)) (under : ∀ key ∈ keys, key.startsWith summary.pathPrefix) :
    closePrefix hashes summary (digestOf keys) = .ok () ↔ Passes hashes summary keys := by
  have same : closePrefix hashes summary (digestOf keys) = .ok () ↔
      hashes.sha256 (textOf keys) = summary.keysDigest ∧ keys.length = summary.objectCount := by
    unfold closePrefix
    split
    next same => simpa [KeyStreamDigest.finish, digestOf] using same
    next other => simpa [KeyStreamDigest.finish, digestOf] using other
  rw [same]
  exact ⟨fun ⟨digest, count⟩ => ⟨ascending, under, digest, count⟩,
    fun passes => ⟨passes.digest, passes.count⟩⟩

/-- One turn: the chunk belongs to the current prefix, or that prefix is closed. -/
theorem validateChunksFrom_cons_iff {index : Int} {chunk : ManifestKeyChunk}
    {chunks : List ManifestKeyChunk} {summary : PrefixManifest} {rest : List PrefixManifest}
    {digest : KeyStreamDigest} :
    validateChunksFrom hashes index (chunk :: chunks) (summary :: rest) digest = .ok () ↔
      (chunk.chunkNo = index ∧ summary.pathPrefix = chunk.pathPrefix ∧ chunk.keys ≠ [] ∧
        ∃ next, foldKeys chunk.pathPrefix digest chunk.keys = .ok next ∧
          validateChunksFrom hashes (index + 1) chunks (summary :: rest) next = .ok ()) ∨
      (summary.pathPrefix ≠ chunk.pathPrefix ∧ closePrefix hashes summary digest = .ok () ∧
        validateChunksFrom hashes index (chunk :: chunks) rest {} = .ok ()) := by
  by_cases number : chunk.chunkNo = index
  · by_cases same : summary.pathPrefix = chunk.pathPrefix
    · by_cases empty : chunk.keys = []
      · simp [validateChunksFrom, number, seekPrefix, same, empty]
      · simp [validateChunksFrom, number, seekPrefix, same, empty]
    · -- The prefix is closed on the way to the one of the chunk.
      have unit : (∃ u, closePrefix hashes summary digest = .ok u) ↔
          closePrefix hashes summary digest = .ok () :=
        ⟨fun ⟨(), closed⟩ => closed, fun closed => ⟨(), closed⟩⟩
      simp only [validateChunksFrom, number, seekPrefix, same]
      simp [unit, same]
  · cases rest <;> simp [validateChunksFrom, number]

/-- No chunk is left: the current prefix is closed, and those behind it with no keys. -/
theorem validateChunksFrom_nil_iff {index : Int} {summary : PrefixManifest}
    {rest : List PrefixManifest} {digest : KeyStreamDigest} :
    validateChunksFrom hashes index [] (summary :: rest) digest = .ok () ↔
      closePrefix hashes summary digest = .ok () ∧
        validateChunksFrom hashes index [] rest {} = .ok () := by
  have all : rest.forM (fun other => closePrefix hashes other {}) =
      validateChunksFrom hashes index [] rest {} := by
    cases rest <;> rfl
  rw [validateChunksFrom, bind_eq_ok, all]
  exact ⟨fun ⟨(), closed, more⟩ => ⟨closed, more⟩, fun ⟨closed, more⟩ => ⟨(), closed, more⟩⟩

/-- The chunks of the prefix are those of the group, and their keys are accepted. -/
def Fits (hashes : Hashes) (summary : PrefixManifest) (group : List ManifestKeyChunk) : Prop :=
  OfPrefix summary.pathPrefix group ∧ Passes hashes summary (group.flatMap (·.keys))

/-- The chunks come by prefix, each prefix with keys that are accepted. -/
def Accepted (hashes : Hashes) (index : Int) (chunks : List ManifestKeyChunk)
    (prefixes : List PrefixManifest) : Prop :=
  Numbered index chunks ∧ ∃ groups, chunks = List.flatten groups ∧
    List.Forall₂ (Fits hashes) prefixes groups

private theorem mem_prefixes {names : List String} {groups : List (List ManifestKeyChunk)}
    (fits : List.Forall₂ OfPrefix names groups) {chunk : ManifestKeyChunk}
    (member : chunk ∈ groups.flatten) : chunk.pathPrefix ∈ names := by
  induction fits with
  | nil => cases member
  | cons first _ ih =>
    rw [List.flatten_cons, List.mem_append] at member
    rcases member with here | later
    · simp [(first chunk here).1]
    · simp [ih later]

theorem numbered_cons_iff {index : Int} {chunk : ManifestKeyChunk}
    {chunks : List ManifestKeyChunk} :
    Numbered index (chunk :: chunks) ↔ chunk.chunkNo = index ∧ Numbered (index + 1) chunks := by
  constructor
  · intro numbered
    refine ⟨by simpa using numbered 0 chunk rfl, fun i other here => ?_⟩
    have next := numbered (i + 1) other (by simpa using here)
    push_cast at next
    omega
  · rintro ⟨first, rest⟩ i other here
    cases i with
    | zero =>
      cases here
      simpa using first
    | succ i =>
      have next := rest i other (by simpa using here)
      push_cast
      omega

/-- The validator, when the keys `done` of the current prefix are folded. -/
private theorem validateChunksFrom_current_iff {summary : PrefixManifest}
    {rest : List PrefixManifest} (other : summary.pathPrefix ∉ rest.map (·.pathPrefix))
    (behind : ∀ index chunks, validateChunksFrom hashes index chunks rest {} = .ok () ↔
      Accepted hashes index chunks rest)
    {done : List String} (ascending : done.Pairwise (· < ·))
    (under : ∀ key ∈ done, key.startsWith summary.pathPrefix) {index : Int}
    {chunks : List ManifestKeyChunk} :
    validateChunksFrom hashes index chunks (summary :: rest) (digestOf done) = .ok () ↔
      Numbered index chunks ∧ ∃ group groups, chunks = group ++ List.flatten groups ∧
        OfPrefix summary.pathPrefix group ∧
        Passes hashes summary (done ++ group.flatMap (·.keys)) ∧
        List.Forall₂ (Fits hashes) rest groups := by
  induction chunks generalizing done index with
  | nil =>
    rw [validateChunksFrom_nil_iff, behind, closePrefix_iff_passes ascending under]
    constructor
    · rintro ⟨passes, numbered, groups, none, fits⟩
      exact ⟨numbered, [], groups, none, by simp [OfPrefix], by simpa using passes, fits⟩
    · rintro ⟨numbered, group, groups, none, -, passes, fits⟩
      obtain ⟨rfl, rest⟩ := List.append_eq_nil_iff.mp none.symm
      exact ⟨by simpa using passes, numbered, groups, rest.symm, fits⟩
  | cons chunk chunks ih =>
    rw [validateChunksFrom_cons_iff, behind, closePrefix_iff_passes ascending under]
    constructor
    · rintro (⟨number, same, some, next, folded, more⟩ | ⟨-, passes, numbered, groups, parts, fits⟩)
      · obtain ⟨inside, further, rfl⟩ := (foldKeys_eq_ok_iff ascending).mp folded
        have all : ∀ key ∈ done ++ chunk.keys, key.startsWith summary.pathPrefix := by
          intro key member
          exact (List.mem_append.mp member).elim (under key) fun new => same ▸ inside key new
        obtain ⟨numbered, group, groups, rfl, own, passes, fits⟩ := (ih further all).mp more
        refine ⟨numbered_cons_iff.mpr ⟨number, numbered⟩, chunk :: group, groups, rfl, ?_, ?_, fits⟩
        · exact List.forall_mem_cons.mpr ⟨⟨same.symm, some⟩, own⟩
        · simpa using passes
      · exact ⟨numbered, [], groups, parts, by simp [OfPrefix], by simpa using passes, fits⟩
    · rintro ⟨numbered, group, groups, parts, own, passes, fits⟩
      match group with
      | [] =>
        -- The chunk belongs to a later prefix, which is another one.
        right
        have later : chunk.pathPrefix ∈ rest.map (·.pathPrefix) :=
          mem_prefixes (List.forall₂_map_left_iff.mpr (fits.imp fun _ _ fits => fits.1))
            (by rw [List.nil_append] at parts; simp [← parts])
        exact ⟨fun same => other (same ▸ later), by simpa using passes, numbered, groups, parts, fits⟩
      | first :: group =>
        left
        obtain ⟨rfl, rfl⟩ := List.cons.inj parts
        obtain ⟨⟨same, some⟩, own⟩ := List.forall_mem_cons.mp own
        obtain ⟨number, numbered⟩ := numbered_cons_iff.mp numbered
        rw [List.flatMap_cons, ← List.append_assoc] at passes
        have further : (done ++ chunk.keys).Pairwise (· < ·) :=
          passes.ascending.sublist (List.sublist_append_left _ _)
        have all : ∀ key ∈ done ++ chunk.keys, key.startsWith summary.pathPrefix :=
          fun key member => passes.under key (List.mem_append_left _ member)
        have inside : ∀ key ∈ chunk.keys, key.startsWith chunk.pathPrefix :=
          fun key member => same ▸ all key (List.mem_append_right _ member)
        exact ⟨number, same.symm, some, _, (foldKeys_eq_ok_iff ascending).mpr ⟨inside, further, rfl⟩,
          (ih further all).mpr ⟨numbered, group, groups, rfl, own, passes, fits⟩⟩

/-- The validator accepts what is numbered, comes by prefix and has the keys of the digests. -/
theorem validateChunksFrom_iff {prefixes : List PrefixManifest}
    (distinct : (prefixes.map (·.pathPrefix)).Nodup) (index : Int)
    (chunks : List ManifestKeyChunk) :
    validateChunksFrom hashes index chunks prefixes {} = .ok () ↔
      Accepted hashes index chunks prefixes := by
  induction prefixes generalizing index chunks with
  | nil =>
    cases chunks with
    | nil => simp [validateChunksFrom, Accepted, Numbered]
    | cons chunk chunks =>
      have none : ¬ Accepted hashes index (chunk :: chunks) [] := by
        rintro ⟨-, groups, parts, fits⟩
        cases fits
        cases parts
      by_cases number : chunk.chunkNo = index
      · simp [validateChunksFrom, number, seekPrefix, none]
      · simp [validateChunksFrom, number, none]
  | cons summary rest ih =>
    obtain ⟨other, distinct⟩ := List.nodup_cons.mp distinct
    have start : ({} : KeyStreamDigest) = digestOf [] := rfl
    rw [start, validateChunksFrom_current_iff other (ih distinct) .nil (by simp)]
    constructor
    · rintro ⟨numbered, group, groups, rfl, own, passes, fits⟩
      exact ⟨numbered, group :: groups, rfl, .cons ⟨own, passes⟩ fits⟩
    · rintro ⟨numbered, _, rfl, _ | ⟨⟨own, passes⟩, fits⟩⟩
      exact ⟨numbered, _, _, rfl, own, passes, fits⟩

/-! ### Exactness -/

theorem pairwise_of_strictlySorted {prefixes : List PrefixManifest}
    (sorted : strictlySorted prefixes = true) :
    (prefixes.map (·.pathPrefix)).Pairwise (· < ·) := by
  induction prefixes using strictlySorted.induct with
  | case1 => exact .nil
  | case2 first => simp
  | case3 first second rest ih =>
    rw [strictlySorted, Bool.and_eq_true, decide_eq_true_eq] at sorted
    have behind := ih sorted.2
    rw [List.map_cons, List.pairwise_cons]
    refine ⟨fun other member => ?_, behind⟩
    rcases List.mem_cons.mp member with rfl | later
    · exact sorted.1
    · exact String.lt_trans sorted.1 ((List.pairwise_cons.mp behind).1 other later)

theorem distinct_of_valid {manifest : StorageManifest}
    (valid : validateStorageManifest manifest = .ok ()) :
    (manifest.prefixes.map (·.pathPrefix)).Nodup := by
  have sorted : strictlySorted manifest.prefixes = true := by
    by_contra unsorted
    unfold validateStorageManifest at valid
    split_ifs at valid
  refine (pairwise_of_strictlySorted sorted).imp fun {a b} less => ?_
  rintro rfl
  exact String.lt_irrefl a less

/-- A digest lets through what has the same text. -/
theorem passes_iff_lists (injective : Function.Injective hashes.sha256) {frozen : FrozenPrefix}
    {summary : PrefixManifest} (summarises : Summarises hashes frozen summary)
    {keys : List String} : Passes hashes summary keys ↔ Lists frozen keys := by
  obtain ⟨digest, folded, finished⟩ := summarises.yields
  obtain ⟨-, rfl⟩ := (foldlM_eq_ok_iff List.Pairwise.nil).mp folded
  obtain ⟨hashed, counted⟩ := Prod.mk.inj finished
  have text : (digestOf ([] ++ frozen.keys)).text = textOf frozen.keys := rfl
  have count : (digestOf ([] ++ frozen.keys)).count = frozen.keys.length := rfl
  rw [text] at hashed
  rw [count] at counted
  constructor
  · rintro ⟨ascending, under, digest, count⟩
    exact ⟨ascending, summarises.pathPrefix ▸ under, count.trans counted.symm,
      injective (digest.trans hashed.symm)⟩
  · rintro ⟨ascending, under, count, same⟩
    exact ⟨ascending, summarises.pathPrefix ▸ under, (congrArg _ same).trans hashed,
      count.trans counted⟩

/-- The chunks of the prefix are those of the group, with a list of the same text. -/
def Covers (frozen : FrozenPrefix) (group : List ManifestKeyChunk) : Prop :=
  OfPrefix frozen.pathPrefix group ∧ Lists frozen (group.flatMap (·.keys))

private theorem forall₂_fits_iff (injective : Function.Injective hashes.sha256)
    {frozen : List FrozenPrefix} {prefixes : List PrefixManifest}
    (summarised : List.Forall₂ (Summarises hashes) frozen prefixes)
    (groups : List (List ManifestKeyChunk)) :
    List.Forall₂ (Fits hashes) prefixes groups ↔ List.Forall₂ Covers frozen groups := by
  induction summarised generalizing groups with
  | nil => simp
  | cons summarises _ ih =>
    cases groups with
    | nil => simp
    | cons group groups =>
      rw [List.forall₂_cons, List.forall₂_cons, ih, Fits, Covers,
        passes_iff_lists injective summarises, summarises.pathPrefix]

/-- The validator accepts what covers the frozen prefixes. -/
theorem validateManifestKeyChunks_iff (injective : Function.Injective hashes.sha256)
    {manifest : StorageManifest} (valid : validateStorageManifest manifest = .ok ())
    {frozen : List FrozenPrefix}
    (summarised : List.Forall₂ (Summarises hashes) frozen manifest.prefixes)
    (chunks : List ManifestKeyChunk) :
    validateManifestKeyChunks hashes manifest chunks = .ok () ↔
      Numbered 0 chunks ∧ ∃ groups, chunks = List.flatten groups ∧
        List.Forall₂ Covers frozen groups := by
  rw [validateManifestKeyChunks, validateChunksFrom_iff (distinct_of_valid valid), Accepted]
  simp only [forall₂_fits_iff injective summarised]

private theorem distinct_frozen {frozen : List FrozenPrefix} {manifest : StorageManifest}
    (valid : validateStorageManifest manifest = .ok ())
    (summarised : List.Forall₂ (Summarises hashes) frozen manifest.prefixes) :
    (frozen.map (·.pathPrefix)).Nodup := by
  have same : List.Forall₂ (· = ·) (frozen.map (·.pathPrefix))
      (manifest.prefixes.map (·.pathPrefix)) :=
    List.forall₂_map_left_iff.mpr (List.forall₂_map_right_iff.mpr
      (summarised.imp fun _ _ summarises => summarises.pathPrefix.symm))
  rw [List.forall₂_eq_eq_eq] at same
  exact same ▸ distinct_of_valid valid

private theorem keys_of_chunks {parts : List (String × List String)}
    {groups : List (List ManifestKeyChunk)}
    (holds : List.Forall₂ (fun part group => OfPrefix part.1 group ∧
      group.flatMap (·.keys) = part.2) parts groups)
    (distinct : (parts.map (·.1)).Nodup) {part : String × List String} (member : part ∈ parts) :
    (groups.flatten.filter (·.pathPrefix = part.1)).flatMap (·.keys) = part.2 := by
  induction holds with
  | nil => cases member
  | @cons first group parts groups own rest ih =>
    obtain ⟨other, distinct⟩ := List.nodup_cons.mp distinct
    rw [List.flatten_cons, List.filter_append, List.flatMap_append]
    rcases List.mem_cons.mp member with rfl | later
    · have here : group.filter (·.pathPrefix = part.1) = group :=
        List.filter_eq_self.mpr fun chunk member => by simpa using (own.1 chunk member).1
      have behind : groups.flatten.filter (·.pathPrefix = part.1) = [] := by
        refine List.filter_eq_nil_iff.mpr fun chunk member same => other ?_
        have named := mem_prefixes
          (List.forall₂_map_left_iff.mpr (rest.imp fun _ _ holds => holds.1)) member
        rwa [of_decide_eq_true same] at named
      rw [here, behind, own.2]
      simp
    · have here : group.filter (·.pathPrefix = part.1) = [] := by
        refine List.filter_eq_nil_iff.mpr fun chunk member same => other ?_
        have named : part.1 = first.1 :=
          (of_decide_eq_true same).symm.trans (own.1 chunk member).1
        exact List.mem_map.mpr ⟨part, later, named⟩
      rw [here, ih distinct later]
      simp

/-- Chunks for the lists, one for each that is not empty. -/
def chunksOf (index : Int) : List (String × List String) → List (List ManifestKeyChunk)
  | [] => []
  | (pathPrefix, keys) :: parts =>
    if keys = [] then [] :: chunksOf index parts
    else [⟨⟨0⟩, index, pathPrefix, keys, none⟩] :: chunksOf (index + 1) parts

theorem chunksOf_spec (index : Int) (parts : List (String × List String)) :
    Numbered index (chunksOf index parts).flatten ∧
      List.Forall₂ (fun part group => OfPrefix part.1 group ∧ group.flatMap (·.keys) = part.2)
        parts (chunksOf index parts) := by
  induction parts generalizing index with
  | nil => exact ⟨by simp [chunksOf, Numbered], .nil⟩
  | cons part parts ih =>
    obtain ⟨name, keys⟩ := part
    by_cases empty : keys = []
    · obtain ⟨numbered, holds⟩ := ih index
      rw [chunksOf, if_pos empty]
      exact ⟨by simpa using numbered, .cons ⟨by simp [OfPrefix], by simp [empty]⟩ holds⟩
    · obtain ⟨numbered, holds⟩ := ih (index + 1)
      rw [chunksOf, if_neg empty]
      refine ⟨?_, .cons ⟨by simp [OfPrefix, empty], by simp⟩ holds⟩
      simpa using numbered_cons_iff.mpr ⟨rfl, numbered⟩

end

/-- For the manifest of some frozen lists: the validator accepts the chunk sequences that
enumerate them and no others, exactly if the text of each list can be cut in one way only. -/
theorem frozen_chunks_iff {hashes : Hashes} (injective : Function.Injective hashes.sha256)
    {manifest : StorageManifest} (valid : validateStorageManifest manifest = .ok ())
    {frozen : List FrozenPrefix}
    (summarised : List.Forall₂ (Summarises hashes) frozen manifest.prefixes) :
    (∀ chunks, validateManifestKeyChunks hashes manifest chunks = .ok () ↔
        Enumerates frozen chunks) ↔ ∀ p ∈ frozen, Sole p := by
  have distinct := distinct_frozen valid summarised
  simp only [validateManifestKeyChunks_iff injective valid summarised]
  constructor
  · intro exact p member keys lists
    -- The other list is frozen as well as the own one: its chunks are accepted.
    let choose (q : FrozenPrefix) := if q.pathPrefix = p.pathPrefix then keys else q.keys
    have chosen : ∀ q ∈ frozen, Lists q (choose q) := by
      intro q inside
      by_cases same : q.pathPrefix = p.pathPrefix
      · obtain rfl : q = p := List.inj_on_of_nodup_map distinct inside member same
        simpa [choose] using lists
      · simpa [choose, same] using q.lists
    obtain ⟨numbered, holds⟩ := chunksOf_spec 0 (frozen.map fun q => (q.pathPrefix, choose q))
    generalize chunksOf 0 (frozen.map fun q => (q.pathPrefix, choose q)) = groups
      at numbered holds
    have covers : List.Forall₂ Covers frozen groups := by
      refine (List.forall₂_and_left _ _ |>.mpr
        ⟨chosen, List.forall₂_map_left_iff.mp holds⟩).imp ?_
      rintro q group ⟨lists, own, listed⟩
      exact ⟨own, listed ▸ lists⟩
    obtain ⟨-, others, same, enumerated⟩ :=
      (exact groups.flatten).mp ⟨numbered, groups, rfl, covers⟩
    have there := keys_of_chunks holds (by simpa [Function.comp_def] using distinct)
      (List.mem_map_of_mem member)
    have here := @keys_of_chunks (frozen.map fun q => (q.pathPrefix, q.keys)) others
      (List.forall₂_map_left_iff.mpr enumerated) (by simpa [Function.comp_def] using distinct)
      (p.pathPrefix, p.keys) (List.mem_map_of_mem member)
    rw [← same] at here
    simpa [choose] using there.symm.trans here
  · intro sole chunks
    constructor
    · rintro ⟨numbered, groups, rfl, covers⟩
      refine ⟨numbered, groups, rfl,
        (List.forall₂_and_left _ _ |>.mpr ⟨sole, covers⟩).imp ?_⟩
      rintro p group ⟨sole, own, lists⟩
      exact ⟨own, sole _ lists⟩
    · rintro ⟨numbered, groups, rfl, enumerated⟩
      refine ⟨numbered, groups, rfl, enumerated.imp ?_⟩
      rintro p group ⟨own, listed⟩
      exact ⟨own, listed ▸ p.lists⟩

/-! ### Newlines in keys -/

theorem toList_textOf (keys : List String) :
    (textOf keys).toList = keys.flatMap fun key => key.toList ++ ['\n'] := by
  have from_ : ∀ start : String,
      (keys.foldl (fun text key => text ++ key ++ "\n") start).toList =
        start.toList ++ keys.flatMap fun key => key.toList ++ ['\n'] := by
    induction keys with
    | nil => simp
    | cons key keys ih =>
      intro start
      rw [List.foldl_cons, ih]
      simp
  exact from_ ""

/-- Each key ends a line, and a newline inside of a key ends one more. -/
private theorem count_newlines (keys : List String) :
    keys.length ≤ (textOf keys).toList.count '\n' ∧
      ((textOf keys).toList.count '\n' = keys.length ↔ ∀ key ∈ keys, '\n' ∉ key.toList) := by
  rw [toList_textOf]
  induction keys with
  | nil => simp
  | cons key keys ih =>
    have inside : key.toList.count '\n' = 0 ↔ '\n' ∉ key.toList := List.count_eq_zero
    rw [List.flatMap_cons, List.count_append, List.count_append, List.length_cons,
      List.forall_mem_cons, ← ih.2, ← inside, List.count_singleton_self]
    omega

private theorem eq_of_lines {keys others : List String}
    (free : ∀ key ∈ keys, '\n' ∉ key.toList) (plain : ∀ key ∈ others, '\n' ∉ key.toList)
    (same : (keys.flatMap fun key => key.toList ++ ['\n']) =
      others.flatMap fun key => key.toList ++ ['\n']) : keys = others := by
  induction keys generalizing others with
  | nil =>
    cases others with
    | nil => rfl
    | cons other others => simp at same
  | cons key keys ih =>
    cases others with
    | nil => simp at same
    | cons other others =>
      rw [List.forall_mem_cons] at free plain
      -- The first line of the text is the first key.
      have line : ∀ (first : String) (rest : List Char), '\n' ∉ first.toList →
          (first.toList ++ ['\n'] ++ rest).takeWhile (· ≠ '\n') = first.toList := by
        intro first rest absent
        have kept : ∀ c ∈ first.toList, decide (c ≠ '\n') = true :=
          fun c member => decide_eq_true (by rintro rfl; exact absent member)
        rw [List.append_assoc, List.takeWhile_append_of_pos kept]
        simp
      rw [List.flatMap_cons, List.flatMap_cons] at same
      have heads : key = other := by
        rw [← String.toList_inj, ← line key _ free.1, same, line other _ plain.1]
      subst heads
      rw [ih free.2 plain.2 (List.append_cancel_left same)]

/-- Keys without newlines are the only ones of their text. -/
theorem sole_of_plain {frozen : FrozenPrefix} (plain : ∀ key ∈ frozen.keys, '\n' ∉ key.toList) :
    Sole frozen := by
  rintro keys ⟨-, -, count, text⟩
  have lines := (count_newlines frozen.keys).2.mpr plain
  rw [← text, ← count] at lines
  apply eq_of_lines ((count_newlines keys).2.mp lines) plain
  rw [← toList_textOf, ← toList_textOf, text]

namespace Sample

/-- The SHA-256 of `"p/a\np/b\np/c\n"`. -/
def digest : String := "3a6d9cc05886095efe2967d3a3a998564cc37fc6b05f229ca2f9f043fdbbf200"

def sponge : Hashes where
  inventory := fun _ => []
  sha256 := Equiv.swap "p/a\np/b\np/c\n" digest

/-- Three keys. -/
def plain : FrozenPrefix where
  pathPrefix := "p/"
  keys := ["p/a", "p/b", "p/c"]
  ascending := by decide +kernel
  under := by decide +kernel

/-- Two keys, the first with a newline inside. -/
def withNewline : FrozenPrefix where
  pathPrefix := "p/"
  keys := ["p/a\np/b", "p/c"]
  ascending := by decide +kernel
  under := by decide +kernel

/-- The manifest of so many keys with the digest. -/
def manifest (objectCount : Nat) : StorageManifest where
  version := 4
  prefixes := [⟨"p/", objectCount, 0, digest⟩]

theorem valid (objectCount : Nat) : validateStorageManifest (manifest objectCount) = .ok () := by
  have hex : digest.length = 64 ∧ digest.toList.all isLowerHex := by decide +kernel
  simp [validateStorageManifest, manifest, strictlySorted, refusedPrefix, hex]

/-- The stored list: the newline has moved from the first key to the second. -/
def moved : List ManifestKeyChunk := [⟨⟨0⟩, 0, "p/", ["p/a", "p/b\np/c"], none⟩]

theorem yields {frozen : FrozenPrefix} (pathPrefix : frozen.pathPrefix = "p/")
    (text : textOf frozen.keys = "p/a\np/b\np/c\n") :
    List.Forall₂ (Summarises sponge) [frozen] (manifest frozen.keys.length).prefixes := by
  refine .cons ⟨pathPrefix.symm, digestOf frozen.keys, ?_, ?_⟩ .nil
  · exact (foldlM_eq_ok_iff List.Pairwise.nil).mpr ⟨frozen.ascending, rfl⟩
  · simp [KeyStreamDigest.finish, digestOf, text, sponge]

end Sample

/-- Keys that were never listed are accepted: the text is the same. -/
theorem moved_accepted :
    validateStorageManifest (Sample.manifest 2) = .ok () ∧
      List.Forall₂ (Summarises Sample.sponge) [Sample.withNewline] (Sample.manifest 2).prefixes ∧
      validateManifestKeyChunks Sample.sponge (Sample.manifest 2) Sample.moved = .ok () ∧
      ¬ Enumerates [Sample.withNewline] Sample.moved := by
  have summarised := @Sample.yields Sample.withNewline rfl rfl
  refine ⟨Sample.valid 2, summarised, ?_, ?_⟩
  · refine (validateManifestKeyChunks_iff (Equiv.injective _) (Sample.valid 2) summarised _).mpr
      ⟨numbered_cons_iff.mpr ⟨rfl, by simp [Numbered]⟩, [Sample.moved], rfl,
        .cons ⟨by simp [OfPrefix, Sample.moved, Sample.withNewline], ?_⟩ .nil⟩
    exact ⟨by decide +kernel, by decide +kernel, rfl, rfl⟩
  · rintro ⟨-, groups, parts, enumerated⟩
    rcases enumerated with _ | ⟨⟨-, listed⟩, _ | _⟩
    rw [List.flatten_cons, List.flatten_nil, List.append_nil] at parts
    rw [← parts] at listed
    exact absurd listed (by decide +kernel)

theorem frozen_chunks_plain :
    (∀ chunks, validateManifestKeyChunks Sample.sponge (Sample.manifest 3) chunks = .ok () ↔
        Enumerates [Sample.plain] chunks) ∧
      ((∀ chunks, validateManifestKeyChunks Sample.sponge (Sample.manifest 3) chunks = .ok () ↔
        Enumerates [Sample.plain] chunks) ↔ ∀ p ∈ [Sample.plain], Sole p) := by
  have exact := frozen_chunks_iff (Equiv.injective _) (Sample.valid 3)
    (@Sample.yields Sample.plain rfl rfl)
  have sole : ∀ p ∈ [Sample.plain], Sole p := by
    simp only [List.mem_singleton, forall_eq]
    exact sole_of_plain (by decide +kernel)
  exact ⟨exact.mpr sole, exact⟩

end Deletion
