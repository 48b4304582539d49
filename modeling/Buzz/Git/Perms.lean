import Mathlib.Data.Fintype.Order
import Mathlib.Data.Multiset.Lattice
import Mathlib.Order.WithBot
import Mathlib.Order.BooleanAlgebra.Basic
import Buzz.Git.RefPattern
import Buzz.Lib.Guard
import Mathlib.Order.CompletePartialOrder

/-!
# Push permissions

The role of the pusher is checked against built-in defaults, and `buzz-protect` tags add
constraints that apply to everyone.

What the matching rules ask for together is the join of what each of them asks for, in the
lattice of `Strictness`: the tag parser, the union of the matching rules and the evaluator
are all described in it. `rules_only_restrict` follows: more rules never allow more, and
the outcome of a push depends on the set of the rules and not on how they are listed.
-/
namespace Git

open Lib

def maxProtectionRules : Nat := 50

/-! ### Roles -/

/-- A member's role within a channel. -/
inductive MemberRole where
  | owner
  | admin
  | member
  | guest
  | bot
  deriving DecidableEq, Repr

namespace MemberRole

def asStr : MemberRole → String
  | owner => "owner"
  | admin => "admin"
  | member => "member"
  | guest => "guest"
  | bot => "bot"

def permissionLevel : MemberRole → Nat
  | owner => 4
  | admin => 3
  | member => 2
  | guest => 1
  | bot => 0

def hasAtLeast (role required : MemberRole) : Bool :=
  decide (role.permissionLevel ≥ required.permissionLevel)

def fromStr (s : String) : Option MemberRole :=
  if s = "owner" then some owner
  else if s = "admin" then some admin
  else if s = "member" then some member
  else if s = "guest" then some guest
  else if s = "bot" then some bot
  else none

theorem permissionLevel_injective : Function.Injective permissionLevel := by
  intro a b same
  cases a <;> cases b <;> first | rfl | cases same

/-- Roles are ordered by their permission level. -/
instance : LinearOrder MemberRole := LinearOrder.lift' permissionLevel permissionLevel_injective

theorem le_iff {a b : MemberRole} : a ≤ b ↔ a.permissionLevel ≤ b.permissionLevel := Iff.rfl

theorem hasAtLeast_iff {role required : MemberRole} :
    role.hasAtLeast required = true ↔ required ≤ role := by
  rw [hasAtLeast, decide_eq_true_eq, ge_iff_le, le_iff]

/-- The stricter of a role and the strictest one so far. -/
def strictest (current : Option MemberRole) (role : MemberRole) : Option MemberRole :=
  some (match current with
    | none => role
    | some existing =>
      if role.permissionLevel > existing.permissionLevel then role else existing)

/-- A role that may be unset, as the least role that is let through. -/
def floor : Option MemberRole → WithBot MemberRole
  | none => ⊥
  | some role => role

@[simp] theorem floor_none : floor none = ⊥ := rfl

@[simp] theorem floor_some (role : MemberRole) : floor (some role) = role := rfl

theorem floor_injective : Function.Injective floor := by
  intro a b same
  cases a <;> cases b <;> simp_all

@[simp] theorem floor_strictest (current : Option MemberRole) (role : MemberRole) :
    floor (strictest current role) = floor current ⊔ role := by
  cases current with
  | none => simp [strictest]
  | some existing =>
    rw [floor_some, ← WithBot.coe_sup]
    unfold strictest
    dsimp only
    split
    next higher => rw [sup_eq_right.mpr (le_iff.mpr (Nat.le_of_lt higher)), floor_some]
    next lower => rw [sup_eq_left.mpr (le_iff.mpr (Nat.le_of_not_lt lower)), floor_some]

end MemberRole

/-! ### Updates and rules -/

/-- The type of ref update in a push. -/
inductive UpdateKind where
  | create
  | fastForward
  | nonFastForward
  | delete
  deriving DecidableEq, Repr

structure RefUpdate where
  refName : String
  kind : UpdateKind
  oldOid : String
  newOid : String
  deriving DecidableEq, Repr

/-- A single protection rule parsed from a `buzz-protect` tag. -/
structure ProtectionRule where
  pattern : RefPattern
  pushRole : Option MemberRole
  noForcePush : Bool
  noDelete : Bool
  requirePatch : Bool
  deriving DecidableEq

inductive RuleParseError where
  | tooFewValues
  | tooManyRules
  | invalidPattern (e : PatternError)
  | invalidRole (role : String)
  deriving DecidableEq, Repr

/-- What the rule strings of a tag have set so far. -/
structure TagRules where
  pushRole : Option MemberRole := none
  noForcePush : Bool := false
  noDelete : Bool := false
  requirePatch : Bool := false
  unknownRules : List String := []

/-- One rule string of a tag. -/
def TagRules.read (acc : TagRules) (ruleStr : String) : Except RuleParseError TagRules :=
  match stripStart "push:" ruleStr with
  | some roleStr =>
    match MemberRole.fromStr roleStr with
    | none => .error (.invalidRole roleStr)
    | some role =>
      if role = .bot ∨ role = .guest then .error (.invalidRole roleStr)
      else .ok { acc with pushRole := MemberRole.strictest acc.pushRole role }
  | none =>
    if ruleStr = "no-force-push" then .ok { acc with noForcePush := true }
    else if ruleStr = "no-delete" then .ok { acc with noDelete := true }
    else if ruleStr = "require-patch" then .ok { acc with requirePatch := true }
    else .ok { acc with unknownRules := acc.unknownRules ++ [ruleStr] }

/-- Parse a single `buzz-protect` tag, returning unknown rules for logging. -/
def parseProtectionTagWithWarnings (values : List String) :
    Except RuleParseError (ProtectionRule × List String) :=
  match values with
  | pattern :: first :: rest => do
    let pattern ← (RefPattern.parse pattern).mapError .invalidPattern
    let read ← (first :: rest).foldlM TagRules.read {}
    return (⟨pattern, read.pushRole, read.noForcePush, read.noDelete, read.requirePatch⟩,
      read.unknownRules)
  | _ => .error .tooFewValues

structure ParsedProtection where
  rules : List ProtectionRule
  unknownRules : List String

/-- One tag of the event. -/
def ParsedProtection.addTag (acc : ParsedProtection) (tag : List String) :
    Except RuleParseError ParsedProtection :=
  if tag.head? ≠ some "buzz-protect" then .ok acc
  else if acc.rules.length ≥ maxProtectionRules then .error .tooManyRules
  else do
    let (rule, unknowns) ← parseProtectionTagWithWarnings tag.tail
    return ⟨acc.rules ++ [rule], acc.unknownRules ++ unknowns⟩

/-- Parse all `buzz-protect` tags of an event. -/
def parseProtectionTags (tags : List (List String)) : Except RuleParseError ParsedProtection :=
  tags.foldlM ParsedProtection.addTag ⟨[], []⟩

/-! ### Evaluation -/

/-- Built-in default minimum role for an operation. -/
def defaultMinRole (refName : String) (kind : UpdateKind) : MemberRole :=
  let isBranch := startsWith "refs/heads/" refName
  let isTag := startsWith "refs/tags/" refName
  match kind with
  | .create => if isBranch || isTag then .member else .admin
  | .fastForward => if isBranch then .member else if isTag then .admin else .admin
  | .nonFastForward => .admin
  | .delete => .admin

/-- The effective constraints for a ref after unioning all matching rules. -/
structure EffectiveRules where
  pushRole : Option MemberRole
  noForcePush : Bool
  noDelete : Bool
  requirePatch : Bool
  hasExplicitMatch : Bool
  deriving DecidableEq, Repr

namespace EffectiveRules

/-- One rule of the union. -/
def add (refName : String) (acc : EffectiveRules) (rule : ProtectionRule) : EffectiveRules :=
  if !rule.pattern.matchesRef refName then acc
  else
    { hasExplicitMatch := true
      pushRole := match rule.pushRole with
        | some role => MemberRole.strictest acc.pushRole role
        | none => acc.pushRole
      noForcePush := acc.noForcePush || rule.noForcePush
      noDelete := acc.noDelete || rule.noDelete
      requirePatch := acc.requirePatch || rule.requirePatch }

def forRef (refName : String) (rules : List ProtectionRule) : EffectiveRules :=
  rules.foldl (add refName) ⟨none, false, false, false, false⟩

end EffectiveRules

structure Denial where
  refName : String
  reason : String
  deriving DecidableEq, Repr

/-- The role an update needs under explicit rules: never weaker than the default. -/
def minRole (effective : EffectiveRules) (update : RefUpdate) : MemberRole :=
  let defaultRole := defaultMinRole update.refName update.kind
  match effective.pushRole with
  | some explicit =>
    if explicit.permissionLevel ≥ defaultRole.permissionLevel then explicit else defaultRole
  | none => defaultRole

/-- Evaluate a single ref update against the pusher's role. -/
def evaluateRefUpdate (update : RefUpdate) (role : MemberRole) (rules : List ProtectionRule) :
    Except Denial Unit :=
  let effective := EffectiveRules.forRef update.refName rules
  if !effective.hasExplicitMatch then
    let minRole := defaultMinRole update.refName update.kind
    if !role.hasAtLeast minRole then
      .error ⟨update.refName, "requires " ++ minRole.asStr ++ " role (you have " ++ role.asStr ++
        "), using built-in defaults"⟩
    else .ok ()
  else if effective.requirePatch then
    .error ⟨update.refName,
      "direct push denied: require-patch is set, submit a NIP-34 patch"⟩
  else if !role.hasAtLeast (minRole effective update) then
    .error ⟨update.refName, "requires " ++ (minRole effective update).asStr ++
      " role (you have " ++ role.asStr ++ ")"⟩
  else if effective.noForcePush && update.kind = .nonFastForward then
    .error ⟨update.refName, "non-fast-forward update denied: no-force-push is set"⟩
  else if effective.noDelete && update.kind = .delete then
    .error ⟨update.refName, "ref deletion denied: no-delete is set"⟩
  else .ok ()

/-- `Result::err`. -/
def Denial.ofResult : Except Denial Unit → Option Denial
  | .ok () => none
  | .error denial => some denial

/-- Evaluate an entire push against protection rules. -/
def evaluatePush (updates : List RefUpdate) (role : MemberRole) (rules : List ProtectionRule) :
    Except (List Denial) Unit :=
  let denials := updates.filterMap fun update =>
    Denial.ofResult (evaluateRefUpdate update role rules)
  if denials.isEmpty then .ok () else .error denials

/-! ### The lattice of constraints -/

/-- A minimum role, whether force pushes, deletions and direct pushes are forbidden, and
whether there is any rule. -/
abbrev Strictness := WithBot MemberRole × Bool × Bool × Bool × Bool

def EffectiveRules.strictness (e : EffectiveRules) : Strictness :=
  (MemberRole.floor e.pushRole, e.noForcePush, e.noDelete, e.requirePatch, e.hasExplicitMatch)

theorem EffectiveRules.strictness_injective : Function.Injective strictness := by
  rintro ⟨role, force, deletion, patch, explicit⟩ ⟨role', force', deletion', patch', explicit'⟩ same
  simp only [strictness, Prod.mk.injEq] at same
  obtain ⟨sameRole, rfl, rfl, rfl, rfl⟩ := same
  rw [MemberRole.floor_injective sameRole]

def ProtectionRule.strictness (rule : ProtectionRule) : Strictness :=
  (MemberRole.floor rule.pushRole, rule.noForcePush, rule.noDelete, rule.requirePatch, true)

/-- What a rule asks for at a ref. -/
def ProtectionRule.strictnessAt (refName : String) (rule : ProtectionRule) : Strictness :=
  if rule.pattern.matchesRef refName then rule.strictness else ⊥

/-- What a list of constraints asks for together. -/
noncomputable def together {α : Type} (strictness : α → Strictness) (l : List α) : Strictness :=
  (l.map strictness : Multiset Strictness).sup

section Together

variable {α : Type} {strictness : α → Strictness}

@[simp] theorem together_nil : together strictness [] = ⊥ := rfl

@[simp] theorem together_cons (a : α) (l : List α) :
    together strictness (a :: l) = strictness a ⊔ together strictness l := by
  unfold together
  rw [List.map_cons, ← Multiset.cons_coe, Multiset.sup_cons]

@[simp] theorem together_append (l l' : List α) :
    together strictness (l ++ l') = together strictness l ⊔ together strictness l' := by
  induction l with
  | nil => simp
  | cons a l ih => rw [List.cons_append, together_cons, together_cons, ih, sup_assoc]

theorem together_mono {l l' : List α} (sub : l ⊆ l') :
    together strictness l ≤ together strictness l' :=
  Multiset.sup_mono fun _ member => List.map_subset strictness sub member

theorem together_congr {l l' : List α} (same : ∀ a, a ∈ l ↔ a ∈ l') :
    together strictness l = together strictness l' :=
  le_antisymm (together_mono fun _ => (same _).mp) (together_mono fun _ => (same _).mpr)

end Together

/-! ### The union of the matching rules is their join -/

namespace EffectiveRules

theorem strictness_add (refName : String) (acc : EffectiveRules) (rule : ProtectionRule) :
    (add refName acc rule).strictness = acc.strictness ⊔ rule.strictnessAt refName := by
  unfold add ProtectionRule.strictnessAt
  cases rule.pattern.matchesRef refName with
  | false => simp
  | true =>
    have role : MemberRole.floor (match rule.pushRole with
        | some role => MemberRole.strictest acc.pushRole role
        | none => acc.pushRole) =
        MemberRole.floor acc.pushRole ⊔ MemberRole.floor rule.pushRole := by
      cases rule.pushRole <;> simp
    simp only [Bool.not_true, Bool.false_eq_true, if_false, if_true, strictness,
      ProtectionRule.strictness, Prod.mk_sup_mk, role]
    simp [Bool.max_eq_or]

theorem strictness_forRef (refName : String) (rules : List ProtectionRule) :
    (forRef refName rules).strictness =
      together (ProtectionRule.strictnessAt refName) rules := by
  -- The union starts from nothing; the induction is over the rules, from any union so far.
  have grows : ∀ acc : EffectiveRules, (rules.foldl (add refName) acc).strictness =
      acc.strictness ⊔ together (ProtectionRule.strictnessAt refName) rules := by
    induction rules with
    | nil => intro acc; simp
    | cons rule rules ih =>
      intro acc
      rw [List.foldl_cons, ih, strictness_add, together_cons, sup_assoc]
  exact (grows _).trans (bot_sup_eq _)

theorem forRef_congr {refName : String} {rules rules' : List ProtectionRule}
    (same : together (ProtectionRule.strictnessAt refName) rules =
      together (ProtectionRule.strictnessAt refName) rules') :
    forRef refName rules = forRef refName rules' := by
  apply strictness_injective
  rw [strictness_forRef, strictness_forRef, same]

end EffectiveRules

/-! ### What is allowed -/

/-- The constraints allow the update to the role: the default always has to be met. -/
structure Strictness.Allows (s : Strictness) (update : RefUpdate) (role : MemberRole) : Prop where
  default : defaultMinRole update.refName update.kind ≤ role
  pushRole : s.2.2.2.2 = true → s.1 ≤ role
  forcePush : s.2.2.2.2 = true → s.2.1 = true → update.kind ≠ .nonFastForward
  deletion : s.2.2.2.2 = true → s.2.2.1 = true → update.kind ≠ .delete
  patch : s.2.2.2.2 = true → s.2.2.2.1 = false

/-- Weaker constraints and higher roles allow more. -/
theorem Strictness.Allows.mono {s s' : Strictness} {update : RefUpdate} {role role' : MemberRole}
    (allows : s'.Allows update role) (weaker : s ≤ s') (higher : role ≤ role') :
    s.Allows update role' := by
  obtain ⟨lowerRole, lowerForce, lowerDelete, lowerPatch, lowerMatch⟩ := weaker
  have explicit : s.2.2.2.2 = true → s'.2.2.2.2 = true := lowerMatch
  constructor
  · exact le_trans allows.default higher
  · intro isExplicit
    exact (lowerRole.trans (allows.pushRole (explicit isExplicit))).trans
      (WithBot.coe_le_coe.mpr higher)
  · intro isExplicit forbidden
    exact allows.forcePush (explicit isExplicit) (lowerForce forbidden)
  · intro isExplicit forbidden
    exact allows.deletion (explicit isExplicit) (lowerDelete forbidden)
  · intro isExplicit
    have unset := allows.patch (explicit isExplicit)
    by_contra set
    rw [lowerPatch (Bool.eq_true_of_not_eq_false set)] at unset
    cases unset

theorem minRole_le_iff {effective : EffectiveRules} {update : RefUpdate} {role : MemberRole} :
    minRole effective update ≤ role ↔
      defaultMinRole update.refName update.kind ≤ role ∧
        MemberRole.floor effective.pushRole ≤ role := by
  unfold minRole
  cases effective.pushRole with
  | none => exact ⟨fun met => ⟨met, bot_le⟩, fun both => both.1⟩
  | some explicit =>
    rw [MemberRole.floor_some, WithBot.coe_le_coe]
    dsimp only
    split
    next stricter =>
      exact ⟨fun met => ⟨le_trans (MemberRole.le_iff.mpr stricter) met, met⟩, fun both => both.2⟩
    next weaker =>
      have below : explicit ≤ defaultMinRole update.refName update.kind :=
        MemberRole.le_iff.mpr (Nat.le_of_not_le weaker)
      exact ⟨fun met => ⟨met, le_trans below met⟩, fun both => both.1⟩

theorem evaluateRefUpdate_ok_iff {update : RefUpdate} {role : MemberRole}
    {rules : List ProtectionRule} :
    evaluateRefUpdate update role rules = .ok () ↔
      (together (ProtectionRule.strictnessAt update.refName) rules).Allows update role := by
  rw [← EffectiveRules.strictness_forRef]
  unfold evaluateRefUpdate
  generalize EffectiveRules.forRef update.refName rules = effective
  dsimp only
  cases explicit : effective.hasExplicitMatch with
  | false =>
    have unmatched : effective.strictness.2.2.2.2 ≠ true := by simp [EffectiveRules.strictness, explicit]
    rw [Bool.not_false, if_pos rfl]
    constructor
    · intro evaluated
      refine ⟨MemberRole.hasAtLeast_iff.mp ?_, ?_, ?_, ?_, ?_⟩
      · by_contra lower
        rw [if_pos (by simpa using lower)] at evaluated
        cases evaluated
      all_goals exact fun isExplicit => absurd isExplicit unmatched
    · intro allows
      rw [if_neg (by simpa using MemberRole.hasAtLeast_iff.mpr allows.default)]
  | true =>
    rw [if_neg (by simp)]
    constructor
    · intro evaluated
      split at evaluated
      · cases evaluated
      next direct =>
        split at evaluated
        · cases evaluated
        next met =>
          split at evaluated
          · cases evaluated
          next forced =>
            split at evaluated
            · cases evaluated
            next deleted =>
              have both := minRole_le_iff.mp (MemberRole.hasAtLeast_iff.mp (by simpa using met))
              refine ⟨both.1, fun _ => both.2, fun _ forbidden isForced => forced ?_,
                fun _ forbidden isDeletion => deleted ?_, fun _ => Bool.eq_false_of_not_eq_true direct⟩
              · rw [Bool.and_eq_true, decide_eq_true_eq]
                exact ⟨forbidden, isForced⟩
              · rw [Bool.and_eq_true, decide_eq_true_eq]
                exact ⟨forbidden, isDeletion⟩
    · intro allows
      have met := minRole_le_iff.mpr ⟨allows.default, allows.pushRole explicit⟩
      have patch : effective.requirePatch = false := allows.patch explicit
      have forced : effective.noForcePush = true → update.kind ≠ .nonFastForward :=
        allows.forcePush explicit
      have deleted : effective.noDelete = true → update.kind ≠ .delete := allows.deletion explicit
      rw [if_neg (by simp [patch]), if_neg (by simpa using MemberRole.hasAtLeast_iff.mpr met),
        if_neg (by simpa using forced), if_neg (by simpa using deleted)]

theorem evaluatePush_ok_iff {updates : List RefUpdate} {role : MemberRole}
    {rules : List ProtectionRule} :
    evaluatePush updates role rules = .ok () ↔
      ∀ update ∈ updates, evaluateRefUpdate update role rules = .ok () := by
  have denied (result : Except Denial Unit) : Denial.ofResult result = none ↔ result = .ok () := by
    cases result <;> simp [Denial.ofResult]
  unfold evaluatePush
  dsimp only
  split
  next none =>
    rw [List.isEmpty_iff, List.filterMap_eq_nil_iff] at none
    simpa [denied] using none
  next some =>
    rw [List.isEmpty_iff, List.filterMap_eq_nil_iff] at some
    simpa [denied] using some

/-- The outcome of a push, with its denials, is determined by what the rules ask for together
at each ref. -/
theorem evaluatePush_congr {rules rules' : List ProtectionRule}
    (same : ∀ refName, together (ProtectionRule.strictnessAt refName) rules =
      together (ProtectionRule.strictnessAt refName) rules')
    (updates : List RefUpdate) (role : MemberRole) :
    evaluatePush updates role rules = evaluatePush updates role rules' := by
  have each (update : RefUpdate) :
      evaluateRefUpdate update role rules = evaluateRefUpdate update role rules' := by
    unfold evaluateRefUpdate
    rw [EffectiveRules.forRef_congr (same update.refName)]
  unfold evaluatePush
  simp only [each]

theorem evaluatePush_mono {updates : List RefUpdate} {role role' : MemberRole}
    {rules rules' : List ProtectionRule} (sub : rules ⊆ rules') (higher : role ≤ role')
    (allowed : evaluatePush updates role rules' = .ok ()) :
    evaluatePush updates role' rules = .ok () := by
  rw [evaluatePush_ok_iff] at allowed ⊢
  intro update member
  apply evaluateRefUpdate_ok_iff.mpr
  exact (evaluateRefUpdate_ok_iff.mp (allowed update member)).mono (together_mono sub) higher

/-! ### What a tag asks for -/

/-- What a rule string asks for. -/
def ruleStrictness (ruleStr : String) : Strictness :=
  match stripStart "push:" ruleStr with
  | some roleStr => (MemberRole.floor (MemberRole.fromStr roleStr), false, false, false, true)
  | none => (⊥, ruleStr = "no-force-push", ruleStr = "no-delete", ruleStr = "require-patch", true)

def TagRules.strictness (acc : TagRules) : Strictness :=
  (MemberRole.floor acc.pushRole, acc.noForcePush, acc.noDelete, acc.requirePatch, true)

theorem TagRules.strictness_read {acc acc' : TagRules} {ruleStr : String}
    (read : acc.read ruleStr = .ok acc') :
    acc'.strictness = acc.strictness ⊔ ruleStrictness ruleStr := by
  unfold TagRules.read at read
  unfold ruleStrictness
  cases stripped : stripStart "push:" ruleStr with
  | some roleStr =>
    rw [stripped] at read
    dsimp only at read ⊢
    split at read
    · cases read
    next role known =>
      split at read
      · cases read
      · cases read
        simp [TagRules.strictness, known]
  | none =>
    rw [stripped] at read
    dsimp only at read ⊢
    split at read
    next same =>
      cases read
      simp [TagRules.strictness, same]
    · split at read
      next same =>
        cases read
        simp [TagRules.strictness, same]
      · split at read
        next same =>
          cases read
          simp [TagRules.strictness, same]
        next =>
          cases read
          simp [TagRules.strictness, *]

theorem TagRules.strictness_reads {acc read : TagRules} {rules : List String}
    (parsed : rules.foldlM TagRules.read acc = .ok read) :
    read.strictness = acc.strictness ⊔ together ruleStrictness rules := by
  induction rules generalizing acc with
  | nil =>
    cases parsed
    simp
  | cons rule rules ih =>
    rw [List.foldlM_cons, bind_eq_ok] at parsed
    obtain ⟨next, first, rest⟩ := parsed
    rw [ih rest, strictness_read first, together_cons, sup_assoc]

/-- What a tag asks for at a ref, when it is accepted. -/
noncomputable def tagStrictnessAt (refName : String) (tag : List String) : Strictness :=
  match tag with
  | name :: pattern :: rules =>
    match RefPattern.parse pattern with
    | .ok pattern =>
      if name = "buzz-protect" ∧ pattern.matchesRef refName then together ruleStrictness rules
      else ⊥
    | .error _ => ⊥
  | _ => ⊥

theorem tagStrictnessAt_protect (refName pattern : String) (rules : List String) :
    tagStrictnessAt refName ("buzz-protect" :: pattern :: rules) =
      match RefPattern.parse pattern with
      | .ok pattern => if pattern.matchesRef refName then together ruleStrictness rules else ⊥
      | .error _ => ⊥ := by
  simp [tagStrictnessAt]

/-- There is a rule as soon as a tag has a rule string. -/
private theorem explicit_le_together (first : String) (rest : List String) :
    (⊥, false, false, false, true) ≤ together ruleStrictness (first :: rest) := by
  rw [together_cons]
  apply le_trans _ le_sup_left
  unfold ruleStrictness
  split <;> exact ⟨bot_le, Bool.false_le _, Bool.false_le _, Bool.false_le _, le_refl _⟩

theorem strictnessAt_of_parse {values : List String} {rule : ProtectionRule}
    {unknowns : List String}
    (parsed : parseProtectionTagWithWarnings values = .ok (rule, unknowns)) (refName : String) :
    rule.strictnessAt refName = tagStrictnessAt refName ("buzz-protect" :: values) := by
  match values, parsed with
  | pattern :: first :: rest, parsed =>
    simp only [parseProtectionTagWithWarnings, bind_eq_ok, mapError_eq_ok] at parsed
    obtain ⟨pattern', readPattern, read, readRules, same⟩ := parsed
    cases same
    have joined : read.strictness = together ruleStrictness (first :: rest) :=
      (TagRules.strictness_reads readRules).trans
        (sup_eq_right.mpr (explicit_le_together first rest))
    rw [tagStrictnessAt_protect, readPattern]
    dsimp only
    rw [← joined]
    rfl

theorem together_addTags {acc parsed : ParsedProtection} {tags : List (List String)}
    (read : tags.foldlM ParsedProtection.addTag acc = .ok parsed) (refName : String) :
    together (ProtectionRule.strictnessAt refName) parsed.rules =
      together (ProtectionRule.strictnessAt refName) acc.rules ⊔
        together (tagStrictnessAt refName) tags := by
  induction tags generalizing acc with
  | nil =>
    cases read
    simp
  | cons tag tags ih =>
    rw [List.foldlM_cons, bind_eq_ok] at read
    obtain ⟨next, first, rest⟩ := read
    rw [ih rest, together_cons, ← sup_assoc]
    congr 1
    unfold ParsedProtection.addTag at first
    split at first
    next other =>
      -- A tag of another name adds nothing.
      cases first
      have nothing : tagStrictnessAt refName tag = ⊥ := by
        unfold tagStrictnessAt
        split
        next name pattern rules =>
          split
          · rw [if_neg fun both => other (by simp [both.1])]
          · rfl
        · rfl
      rw [nothing, sup_bot_eq]
    next protect =>
      split at first
      · cases first
      · simp only [bind_eq_ok] at first
        obtain ⟨⟨rule, unknowns⟩, parsedRule, same⟩ := first
        cases same
        have named : tag = "buzz-protect" :: tag.tail := by
          cases tag with
          | nil => simp at protect
          | cons name rest => simpa using protect
        rw [named, ← strictnessAt_of_parse parsedRule]
        simp

theorem together_parse {tags : List (List String)} {parsed : ParsedProtection}
    (read : parseProtectionTags tags = .ok parsed) (refName : String) :
    together (ProtectionRule.strictnessAt refName) parsed.rules =
      together (tagStrictnessAt refName) tags := by
  rw [together_addTags read refName, together_nil, bot_sup_eq]

theorem tagStrictnessAt_flatten (refName pattern : String) (parts : List (List String)) :
    tagStrictnessAt refName ("buzz-protect" :: pattern :: parts.flatten) =
      together (tagStrictnessAt refName)
        (parts.map fun part => "buzz-protect" :: pattern :: part) := by
  induction parts with
  | nil =>
    rw [tagStrictnessAt_protect]
    cases RefPattern.parse pattern <;> simp
  | cons part parts ih =>
    rw [List.map_cons, together_cons, ← ih, tagStrictnessAt_protect, tagStrictnessAt_protect,
      tagStrictnessAt_protect]
    cases RefPattern.parse pattern with
    | error e => simp
    | ok pattern =>
      dsimp only
      split <;> simp

/-- Protection rules only ever restrict: with more rules no more is allowed, the outcome
depends neither on the order and repetition of the rules nor on how they are split over tags,
and what a role may do every higher role may do. -/
theorem rules_only_restrict (updates : List RefUpdate) (role : MemberRole) :
    (∀ R S, evaluatePush updates role (R ++ S) = .ok () → evaluatePush updates role R = .ok ()) ∧
    (∀ R, evaluatePush updates role R = .ok () → evaluatePush updates role [] = .ok ()) ∧
    (∀ R S, (∀ rule, rule ∈ R ↔ rule ∈ S) →
      evaluatePush updates role R = evaluatePush updates role S) ∧
    (∀ (before : List (List String)) pattern (parts : List (List String)) after P P',
      parseProtectionTags
        (before ++ ("buzz-protect" :: pattern :: parts.flatten) :: after) = .ok P →
      parseProtectionTags
        (before ++ (parts.map fun part => "buzz-protect" :: pattern :: part) ++ after) = .ok P' →
      evaluatePush updates role P.rules = evaluatePush updates role P'.rules) ∧
    (∀ R role', role.permissionLevel ≤ role'.permissionLevel →
      evaluatePush updates role R = .ok () → evaluatePush updates role' R = .ok ()) := by
  refine ⟨?_, ?_, ?_, ?_, ?_⟩
  · intro R S allowed
    exact evaluatePush_mono (List.subset_append_left R S) (le_refl role) allowed
  · intro R allowed
    exact evaluatePush_mono (List.nil_subset R) (le_refl role) allowed
  · intro R S same
    exact evaluatePush_congr (fun _ => together_congr same) updates role
  · intro before pattern parts after P P' parsed parsed'
    apply evaluatePush_congr
    intro refName
    rw [together_parse parsed, together_parse parsed']
    simp only [together_append, together_cons, tagStrictnessAt_flatten, sup_assoc]
  · intro R role' higher allowed
    exact evaluatePush_mono (List.Subset.refl R) (MemberRole.le_iff.mpr higher) allowed

/-- A rule for the main branch and a rule for every branch. -/
def mainRule : ProtectionRule :=
  ⟨⟨"refs/heads/main", [.literal "refs", .literal "heads", .literal "main"], by decide⟩,
    some .admin, false, false, false⟩

def branchRule : ProtectionRule :=
  ⟨⟨"refs/heads/**", [.literal "refs", .literal "heads", .recursiveWildcard], by decide⟩,
    none, true, false, false⟩

theorem rules_only_restrict_main :
    let update : RefUpdate := ⟨"refs/heads/main", .fastForward, "a", "b"⟩
    evaluatePush [update] .admin ([mainRule] ++ [branchRule]) = .ok () ∧
      evaluatePush [update] .admin [mainRule] = .ok () ∧
      evaluatePush [update] .owner [mainRule] = .ok () ∧
      evaluatePush [update] .member [mainRule] ≠ .ok () := by
  intro update
  have allowed : evaluatePush [update] .admin ([mainRule] ++ [branchRule]) = .ok () := by
    decide
  have fewer := (rules_only_restrict [update] .admin).1 [mainRule] [branchRule] allowed
  exact ⟨allowed, fewer,
    (rules_only_restrict [update] .admin).2.2.2.2 [mainRule] .owner (by decide) fewer,
    by decide⟩

end Git
