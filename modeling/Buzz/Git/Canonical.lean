import Buzz.Git.History

/-!
# The canonical form of a manifest

`canonicalBytes` is a name for what a manifest publishes: two manifests have the same
bytes exactly when they differ at most in the order and the repetition of their packs.
Since the bytes can be read back, nothing else can be lost in them, and a hash that
tells two texts apart tells the two published states apart.
-/
namespace Git

open Lib Nostr

namespace Manifest

/-- Two manifests that publish the same state. -/
structure Agrees (m m' : Manifest) : Prop where
  version : m.version = m'.version
  head : m.head = m'.head
  refs : m.refs = m'.refs
  parent : m.parent = m'.parent
  packs : ∀ pack, pack ∈ m.packs ↔ pack ∈ m'.packs

/-- The packs in increasing order, each of them once. -/
def normalized (m : Manifest) : Manifest := { m with packs := sortDedup m.packs }

theorem normalized_eq_iff {m m' : Manifest} : m.normalized = m'.normalized ↔ m.Agrees m' := by
  constructor
  · intro same
    simp only [normalized, mk.injEq] at same
    obtain ⟨version, head, refs, packs, parent⟩ := same
    refine ⟨version, head, refs, parent, fun pack => ?_⟩
    rw [← mem_sortDedup, packs, mem_sortDedup]
  · intro agrees
    -- An increasing list is determined by its members.
    have packs : sortDedup m.packs = sortDedup m'.packs :=
      eq_of_increasing id (sortDedup_strict _) (sortDedup_strict _) fun pack => by
        rw [mem_sortDedup, mem_sortDedup, agrees.packs]
    simp only [normalized, agrees.version, agrees.head, agrees.refs, agrees.parent, packs]

theorem canonicalBytes_eq_iff {m m' : Manifest} (current : m.version = manifestVersion)
    (current' : m'.version = manifestVersion) :
    m.canonicalBytes = m'.canonicalBytes ↔ m.Agrees m' := by
  rw [← normalized_eq_iff]
  constructor
  · intro same
    -- Equal texts are read back as equal manifests.
    have read := fromBytes_canonicalBytes current
    rw [same, fromBytes_canonicalBytes current'] at read
    exact (Except.ok.inj read).symm
  · intro same
    exact congrArg (fun m => m.toJson.toBytes) same

/-- Stored manifests are read back in their canonical order, and their bytes and digests
name exactly the state they publish. -/
theorem canonical (sha256 : ByteArray → Hex64) {m m' : Manifest}
    (current : m.version = manifestVersion) (current' : m'.version = manifestVersion) :
    fromBytes m.canonicalBytes = .ok m.normalized ∧
      m.normalized.packs.Pairwise (· < ·) ∧
      (∀ pack, pack ∈ m.normalized.packs ↔ pack ∈ m.packs) ∧
      (m.canonicalBytes = m'.canonicalBytes ↔ m.Agrees m') ∧
      ((sha256 m.canonicalBytes = sha256 m'.canonicalBytes →
          m.canonicalBytes = m'.canonicalBytes) →
        ((sha256 m.canonicalBytes).toHex = (sha256 m'.canonicalBytes).toHex ↔ m.Agrees m')) := by
  refine ⟨fromBytes_canonicalBytes current, sortDedup_strict _, fun pack => mem_sortDedup,
    canonicalBytes_eq_iff current current', fun separates => ?_⟩
  rw [← canonicalBytes_eq_iff current current', Hex64.toHex_injective.eq_iff]
  exact ⟨separates, congrArg sha256⟩

end Manifest

namespace Sample

def untouched : Manifest :=
  { version := manifestVersion, head := "refs/heads/main", refs := .empty, packs := [],
    parent := none }

/-- A tag on the empty tree, with its pack listed twice. -/
def tagged : Manifest :=
  let key := "packs/08ffdeb6902bce6e11d613f681121000643403cf3eff177c557b7387fc1ff210"
  { untouched with refs := .ofList [("refs/tags/empty", emptyTree)], packs := [key, key] }

end Sample

open Sample in
instance Sample.digests_differ :
    Fact (sha256 tagged.canonicalBytes ≠ sha256 untouched.canonicalBytes) := ⟨by
  rw [sha256_eq]
  decide +kernel⟩

open Sample in
theorem Manifest.canonical_tagged :
    (untouched.Valid ∧ tagged.Valid) ∧
      fromBytes tagged.canonicalBytes = .ok tagged.normalized ∧
      ¬ (sha256 tagged.canonicalBytes).toHex = (sha256 untouched.canonicalBytes).toHex := by
  have other : sha256 tagged.canonicalBytes ≠ sha256 untouched.canonicalBytes := Fact.out
  obtain ⟨read, -, -, -, digests⟩ := canonical sha256 (show tagged.version = manifestVersion from rfl)
    (show untouched.version = manifestVersion from rfl)
  refine ⟨by decide, read, ?_⟩
  rw [digests fun same => absurd same other]
  intro agrees
  exact absurd agrees.refs (by decide)

end Git
