import Mathlib.Algebra.Order.Group.Unbundled.Abs
import Mathlib.Data.List.Infix
import Buzz.Workflow.Engine

/-!
# Interval workflows across pods

A pod measures the interval from its own anchor, the claim of a fire is for the start of an
interval counted from the epoch. The claims make sure that no interval is fired twice, and the
anchors that a pod does not attempt an interval twice. Nothing makes the anchors of two pods
agree: a pod whose anchor is older than the last run of another pod fires too early.

The invariant is about one workflow, so it is stated on what the state says about it.
-/
namespace Workflow

open Lib Nostr Relay Service

/-! ### What the state says about a workflow -/

/-- What a pod remembers and has attempted. -/
structure Memory where
  last : Option Int
  now : Int
  attempts : List Int

structure About (ι : Type) where
  workflows : Workflows
  /-- The claimed instants and the pods that claimed them. -/
  claims : List (Int × ι)
  runs : List (Run ι)
  pods : ι → Memory
  clock : Int

def Pod.about (p : Pod) (key : WorkflowKey) : Memory where
  last := p.lastFired key
  now := p.now
  attempts := (p.attempts.filter (·.1 = key)).map Prod.snd

def State.about {ι : Type} (s : State ι) (key : WorkflowKey) : About ι where
  workflows := s.workflows
  claims := (s.fires.filter (·.key = key)).map fun row => (row.scheduledFor, row.claimedBy)
  runs := s.runs.filter (·.key = key)
  pods pod := (s.pods pod).about key
  clock := s.clock

variable {ι : Type} [DecidableEq ι] {key : WorkflowKey} {s : State ι} {pod : ι}

/-- The pod with this memory. -/
def About.set (v : About ι) (pod : ι) (memory : Memory) : About ι :=
  { v with pods := Function.update v.pods pod memory }

@[simp] theorem About.set_clock (v : About ι) (pod : ι) (memory : Memory) :
    (v.set pod memory).clock = v.clock := rfl

@[simp] theorem About.set_self (v : About ι) (pod : ι) (memory : Memory) :
    (v.set pod memory).pods pod = memory := Function.update_self _ _ _

@[simp] theorem About.set_of_ne (v : About ι) {pod other : ι} (memory : Memory)
    (differ : other ≠ pod) : (v.set pod memory).pods other = v.pods other :=
  Function.update_of_ne differ _ _

theorem about_onPod_eq (f : Pod → Pod) :
    (s.onPod pod f).about key = (s.about key).set pod ((f (s.pods pod)).about key) := by
  have pods : ((s.onPod pod f).about key).pods =
      Function.update (s.about key).pods pod ((f (s.pods pod)).about key) := by
    funext other
    by_cases here : other = pod
    · subst here
      simp [State.about, State.onPod]
    · simp [State.about, State.onPod, here]
  exact congrArg (fun pods => { s.about key with pods }) pods

theorem about_onPod {f : Pod → Pod} (same : (f (s.pods pod)).about key = (s.pods pod).about key) :
    (s.onPod pod f).about key = s.about key := by
  rw [about_onPod_eq, same]
  exact congrArg (fun pods => { s.about key with pods }) (Function.update_eq_self _ _)

omit [DecidableEq ι] in
theorem about_attach (k : WorkflowKey) (instant : Int) (runId : Uuid) :
    (s.attach k instant runId).about key = s.about key := by
  have claims : ((s.attach k instant runId).about key).claims = (s.about key).claims := by
    simp [State.about, State.attach, List.filter_map, Function.comp_def]
  exact congrArg (fun claims => { s.about key with claims }) claims

omit [DecidableEq ι] in
theorem orFail_cases {α : Type} {choice : Choice} {served : α × State ι} {P : State ι → Prop}
    (before : P s) (after : P served.2) : P (State.orFail choice s served).2 := by
  unfold State.orFail
  split
  next => split <;> assumption
  next => exact after

private theorem about_attempts {k : WorkflowKey} (other : k ≠ key) (instant : Int) (p : Pod) :
    ({ p with attempts := p.attempts ++ [(k, instant)] } : Pod).about key = p.about key := by
  simp [Pod.about, other]

omit [DecidableEq ι] in
private theorem about_claim {k : WorkflowKey} (other : k ≠ key) (s : State ι) (pod : ι)
    (instant : Int) :
    (s.claim pod k instant).2.about key = s.about key := by
  unfold State.claim
  split
  next => simp [State.about, other]
  next => rfl

theorem about_perform_apart {op : Op} (apart : op.Apart key) (choice : Choice) :
    (s.perform pod choice op).2.about key = s.about key := by
  cases op with
  | listAllEnabledWorkflows => cases apart
  | retainLastFired active => cases apart
  | getMemberRole communityId channelId pubkey =>
    exact orFail_cases (P := fun s' => s'.about key = s.about key) rfl rfl
  | getLastFired k =>
    simp only [State.perform]
    split
    next => exact about_onPod rfl
    next => rfl
  | setLastFired k t =>
    have other : key ≠ k := fun same => apart same.symm
    exact about_onPod (by simp [Pod.about, other])
  | latestScheduledWorkflowFire k =>
    exact orFail_cases (P := fun s' => s'.about key = s.about key) rfl (about_onPod rfl)
  | claimScheduledWorkflowFire k instant =>
    have tried : (s.onPod pod fun p => { p with attempts := p.attempts ++ [(k, instant)] }).about
        key = s.about key := about_onPod (about_attempts apart instant _)
    simp only [State.perform]
    apply orFail_cases (P := fun s' => s'.about key = s.about key) tried
    have claimed := (about_claim apart _ pod instant).trans tried
    split
    next => exact (about_onPod rfl).trans claimed
    next => exact claimed
  | createWorkflowRun k context =>
    have other : k ≠ key := apart
    exact orFail_cases (P := fun s' => s'.about key = s.about key) rfl
      (by simp [State.about, other])
  | attachScheduledWorkflowRun k instant runId =>
    exact orFail_cases (P := fun s' => s'.about key = s.about key) rfl
      (about_attach k instant runId)

/-! ### The property and its condition -/

/-- Every interval is fired at most once, a pod attempts it at most once, and the runs of
different pods are an interval apart. -/
structure OncePerInterval (dur : String) (d : Nat) (v : About ι) : Prop where
  /-- Every run is for the interval of its tick, -/
  fired : ∀ run ∈ v.runs, run.firedFor = intervalFireInstant dur run.at_
  /-- and no two runs are for the same one. -/
  buckets : v.runs.Pairwise fun run run' => run.firedFor ≠ run'.firedFor
  /-- The attempts of a pod are for later and later intervals. -/
  attempts : ∀ pod, (v.pods pod).attempts.Pairwise (· < ·)
  apart : v.runs.Pairwise fun run run' =>
    run.createdBy ≠ run'.createdBy → seconds d ≤ |run'.at_ - run.at_|

/-- The table has the workflow, with this interval. -/
structure IntervalWorkflow (crates : Crates) (key : WorkflowKey) (dur : String)
    (table : Workflows) : Prop where
  exists_ : ∃ w ∈ table.rows, w.key = key
  trigger : ∀ w ∈ table.rows, w.key = key → ∀ d, crates.fromValue w.definition = some d →
    d.trigger = .schedule none (some dur)

/-- Workflows may be edited, but the workflow stays what it is. -/
def Keeps (crates : Crates) (key : WorkflowKey) (dur : String) : Action ι → Prop
  | .edit workflows _ => IntervalWorkflow crates key dur workflows
  | _ => True

/-- A call for the workflow is made in time: the latest claim is not later than the tick, the
claim and the insert of the run do not fail, and the tick measured the interval from an anchor
that no run of another pod is later than. -/
def Op.InTime (key : WorkflowKey) (pod : ι) (choice : Choice) (s : State ι) : Op → Prop
  | .latestScheduledWorkflowFire k => k = key → ∀ t ∈ s.latest key, t ≤ (s.pods pod).now
  | .claimScheduledWorkflowFire k _ => k = key → choice.fault.isNone
  | .createWorkflowRun k _ => k = key → choice.fault.isNone ∧
    ∀ run ∈ s.runs, run.key = key → run.createdBy ≠ pod →
      ∃ anchor ∈ (s.pods pod).anchor, run.at_ ≤ anchor
  | _ => True

instance (pod : ι) (choice : Choice) (s : State ι) : ∀ op : Op, Decidable (op.InTime key pod choice s)
  | .latestScheduledWorkflowFire k =>
    inferInstanceAs (Decidable (k = key → ∀ t ∈ s.latest key, t ≤ (s.pods pod).now))
  | .claimScheduledWorkflowFire k _ => inferInstanceAs (Decidable (k = key → choice.fault.isNone))
  | .createWorkflowRun k _ => inferInstanceAs (Decidable (k = key → choice.fault.isNone ∧
      ∀ run ∈ s.runs, run.key = key → run.createdBy ≠ pod →
        ∃ anchor ∈ (s.pods pod).anchor, run.at_ ≤ anchor))
  | .listAllEnabledWorkflows | .getLastFired _ | .setLastFired _ _ | .retainLastFired _
  | .getMemberRole _ _ _ | .attachScheduledWorkflowRun _ _ _ => isTrue trivial

/-- The call that a program waits for. -/
def pending {α : Type} : Tick α → Option Op
  | .call op _ => some op
  | .pure _ => none

def InTime (key : WorkflowKey) (cluster : Cluster ι) : Action ι → Prop
  | .turn pod choice => ∀ op ∈ pending (cluster.program pod),
    op.InTime key pod choice cluster.shared
  | .wake _ _ | .restart _ | .edit _ _ => True

instance (cluster : Cluster ι) : ∀ action : Action ι, Decidable (InTime key cluster action)
  | .turn pod choice => inferInstanceAs (Decidable (∀ op ∈ pending (cluster.program pod),
      op.InTime key pod choice cluster.shared))
  | .wake _ _ | .restart _ | .edit _ _ => isTrue trivial

/-- The clusters that are reached from `start` by actions with a condition. -/
inductive Runs (crates : Crates) (P : Cluster ι → Action ι → Prop) (start : Cluster ι) :
    Cluster ι → Prop where
  | start : Runs crates P start start
  | step {cluster cluster' : Cluster ι} {action : Action ι} (runs : Runs crates P start cluster)
      (meets : P cluster action) (stepped : cluster.step crates action = some cluster') :
      Runs crates P start cluster'

/-! ### The invariant -/

variable {crates : Crates} {dur : String} {d : Nat}

structure Sound (crates : Crates) (key : WorkflowKey) (dur : String) (d : Nat) (v : About ι) :
    Prop extends OncePerInterval dur d v where
  table : IntervalWorkflow crates key dur v.workflows
  unique : (v.claims.map Prod.fst).Nodup
  whole : ∀ claim ∈ v.claims, seconds d ∣ claim.1 ∧ Representable claim.1
  clock : ∀ pod, (v.pods pod).now ≤ v.clock ∧ Representable (v.pods pod).now
  last : ∀ pod t, (v.pods pod).last = some t → t ≤ (v.pods pod).now ∧ Representable t
  attempted : ∀ pod, ∀ a ∈ (v.pods pod).attempts,
    seconds d ∣ a ∧ a ≤ (v.pods pod).now ∧ a ∈ v.claims.map Prod.fst
  claimed : ∀ run ∈ v.runs, ∃ bucket, run.firedFor = some bucket ∧
    (bucket, run.createdBy) ∈ v.claims ∧ bucket ∈ (v.pods run.createdBy).attempts

namespace Sound

variable {v : About ι}

theorem setLast (sound : Sound crates key dur d v) (pod : ι) {last : Option Int}
    (known : ∀ t, last = some t → t ≤ (v.pods pod).now ∧ Representable t) :
    Sound crates key dur d (v.set pod { v.pods pod with last }) := by
  have kept (other : ι) : ((v.set pod { v.pods pod with last }).pods other).now =
      (v.pods other).now ∧ ((v.set pod { v.pods pod with last }).pods other).attempts =
      (v.pods other).attempts := by
    by_cases here : other = pod
    · subst here
      simp
    · simp [here]
  constructor
  case toOncePerInterval =>
    exact ⟨sound.fired, sound.buckets, fun other => (kept other).2 ▸ sound.attempts other,
      sound.apart⟩
  case table => exact sound.table
  case unique => exact sound.unique
  case whole => exact sound.whole
  case clock =>
    intro other
    rw [(kept other).1]
    exact sound.clock other
  case last =>
    intro other t found
    rw [(kept other).1]
    by_cases here : other = pod
    · subst here
      exact known t (by simpa using found)
    · exact sound.last other t (by simpa [here] using found)
  case attempted =>
    intro other a member
    rw [(kept other).1]
    exact sound.attempted other a ((kept other).2 ▸ member)
  case claimed =>
    intro run member
    obtain ⟨bucket, fired, claim, attempt⟩ := sound.claimed run member
    exact ⟨bucket, fired, claim, (kept run.createdBy).2 ▸ attempt⟩

theorem wake (sound : Sound crates key dur d v) (pod : ι) {now : Int} (later : v.clock ≤ now)
    (representable : Representable now) :
    Sound crates key dur d { v.set pod { v.pods pod with now } with clock := now } := by
  have kept (other : ι) : ((v.set pod { v.pods pod with now }).pods other).attempts =
      (v.pods other).attempts ∧ ((v.set pod { v.pods pod with now }).pods other).last =
      (v.pods other).last ∧ (v.pods other).now ≤ ((v.set pod { v.pods pod with now }).pods other).now ∧
      ((v.set pod { v.pods pod with now }).pods other).now ≤ now ∧
      Representable ((v.set pod { v.pods pod with now }).pods other).now := by
    have before := sound.clock other
    by_cases here : other = pod
    · subst here
      rw [About.set_self]
      exact ⟨rfl, rfl, before.1.trans later, le_rfl, representable⟩
    · rw [About.set_of_ne v _ here]
      exact ⟨rfl, rfl, le_rfl, before.1.trans later, before.2⟩
  constructor
  case toOncePerInterval =>
    exact ⟨sound.fired, sound.buckets, fun other => (kept other).1 ▸ sound.attempts other,
      sound.apart⟩
  case table => exact sound.table
  case unique => exact sound.unique
  case whole => exact sound.whole
  case clock => exact fun other => (kept other).2.2.2
  case last =>
    intro other t found
    obtain ⟨-, last, onward, -⟩ := kept other
    obtain ⟨before, representable'⟩ := sound.last other t (last ▸ found)
    exact ⟨before.trans onward, representable'⟩
  case attempted =>
    intro other a member
    obtain ⟨attempts, -, onward, -⟩ := kept other
    obtain ⟨whole, before, claimed⟩ := sound.attempted other a (attempts ▸ member)
    exact ⟨whole, before.trans onward, claimed⟩
  case claimed =>
    intro run member
    obtain ⟨bucket, fired, claim, attempt⟩ := sound.claimed run member
    exact ⟨bucket, fired, claim, (kept run.createdBy).1 ▸ attempt⟩

omit [DecidableEq ι] in
theorem of_about {v' : About ι} (sound : Sound crates key dur d v) (same : v' = v) :
    Sound crates key dur d v' := same ▸ sound

omit [DecidableEq ι] in
theorem edit (sound : Sound crates key dur d v) {workflows : Workflows}
    (table : IntervalWorkflow crates key dur workflows) :
    Sound crates key dur d { v with workflows } :=
  { sound with table }

/-- A pod attempts an interval that is later than all it has attempted before, and the
interval is claimed then, by this pod or by another one. -/
theorem attempt (sound : Sound crates key dur d v) {pod : ι} {i : Int}
    {claims : List (Int × ι)} (whole : seconds d ∣ i) (representable : Representable i)
    (before : i ≤ (v.pods pod).now) (later : ∀ a ∈ (v.pods pod).attempts, a < i)
    (claims_eq : (i ∈ v.claims.map Prod.fst ∧ claims = v.claims) ∨
      (i ∉ v.claims.map Prod.fst ∧ claims = v.claims ++ [(i, pod)])) :
    Sound crates key dur d { v.set pod
      { v.pods pod with attempts := (v.pods pod).attempts ++ [i] } with claims } := by
  have sub : ∀ claim ∈ v.claims, claim ∈ claims := by
    rcases claims_eq with ⟨-, rfl⟩ | ⟨-, rfl⟩
    · exact fun _ member => member
    · exact fun _ member => List.mem_append_left _ member
  have mine : i ∈ claims.map Prod.fst := by
    rcases claims_eq with ⟨old, rfl⟩ | ⟨-, rfl⟩
    · exact old
    · simp
  have grown (other : ι) : ∀ a ∈ (v.pods other).attempts,
      a ∈ ((v.set pod { v.pods pod with attempts := (v.pods pod).attempts ++ [i] }).pods
        other).attempts := by
    intro a member
    by_cases here : other = pod
    · subst here
      simp [member]
    · simpa [here] using member
  constructor
  case toOncePerInterval =>
    refine ⟨sound.fired, sound.buckets, fun other => ?_, sound.apart⟩
    by_cases here : other = pod
    · subst here
      simpa [List.pairwise_append, sound.attempts other] using later
    · simpa [here] using sound.attempts other
  case table => exact sound.table
  case unique =>
    rcases claims_eq with ⟨-, rfl⟩ | ⟨fresh, rfl⟩
    · exact sound.unique
    · rw [List.map_append, List.map_singleton]
      exact List.nodup_append.mpr ⟨sound.unique, List.nodup_singleton _,
        fun a member b last => by rw [List.mem_singleton.mp last]; rintro rfl; exact fresh member⟩
  case whole =>
    rcases claims_eq with ⟨-, rfl⟩ | ⟨-, rfl⟩
    · exact sound.whole
    · intro claim member
      rcases List.mem_append.mp member with member | member
      · exact sound.whole claim member
      · rw [List.mem_singleton.mp member]
        exact ⟨whole, representable⟩
  case clock =>
    intro other
    by_cases here : other = pod
    · subst here
      simpa using sound.clock other
    · simpa [here] using sound.clock other
  case last =>
    intro other t found
    by_cases here : other = pod
    · subst here
      simpa using sound.last other t (by simpa using found)
    · simpa [here] using sound.last other t (by simpa [here] using found)
  case attempted =>
    have claimed {a : Int} (old : a ∈ v.claims.map Prod.fst) : a ∈ claims.map Prod.fst := by
      obtain ⟨claim, member, rfl⟩ := List.mem_map.mp old
      exact List.mem_map_of_mem (sub claim member)
    intro other a member
    by_cases here : other = pod
    · subst here
      have member' : a ∈ (v.pods other).attempts ++ [i] := by simpa using member
      rcases List.mem_append.mp member' with old | new
      · obtain ⟨whole', before', old'⟩ := sound.attempted other a old
        exact ⟨whole', by simpa using before', claimed old'⟩
      · rw [List.mem_singleton.mp new]
        exact ⟨whole, by simpa using before, mine⟩
    · obtain ⟨whole', before', old'⟩ := sound.attempted other a (by simpa [here] using member)
      exact ⟨whole', by simpa [here] using before', claimed old'⟩
  case claimed =>
    intro run member
    obtain ⟨bucket, fired, claim, attempt⟩ := sound.claimed run member
    exact ⟨bucket, fired, sub _ claim, grown run.createdBy bucket attempt⟩

omit [DecidableEq ι] in
theorem run (sound : Sound crates key dur d v) {run : Run ι} {bucket : Int}
    (fired : run.firedFor = some bucket) (due : intervalFireInstant dur run.at_ = some bucket)
    (mine : (bucket, run.createdBy) ∈ v.claims)
    (attempted : bucket ∈ (v.pods run.createdBy).attempts)
    (unfired : ∀ old ∈ v.runs, old.createdBy = run.createdBy → old.firedFor ≠ some bucket)
    (apart : ∀ old ∈ v.runs, old.createdBy ≠ run.createdBy → old.at_ + seconds d ≤ run.at_) :
    Sound crates key dur d { v with runs := v.runs ++ [run] } := by
  -- Another pod with a run for this bucket would have made the same claim.
  have fresh : ∀ old ∈ v.runs, old.firedFor ≠ some bucket := by
    intro old member same
    obtain ⟨bucket', fired', claim, -⟩ := sound.claimed old member
    obtain rfl : bucket' = bucket := Option.some.inj (fired'.symm.trans same)
    have once : (bucket', old.createdBy) = (bucket', run.createdBy) :=
      List.inj_on_of_nodup_map sound.unique claim mine rfl
    exact unfired old member (Prod.mk.inj once).2 same
  constructor
  case toOncePerInterval =>
    refine ⟨?_, ?_, sound.attempts, ?_⟩
    · intro old member
      rcases List.mem_append.mp member with member | member
      · exact sound.fired old member
      · rw [List.mem_singleton.mp member, fired, due]
    · simpa [List.pairwise_append, sound.buckets, fired] using fresh
    · rw [List.pairwise_append]
      refine ⟨sound.apart, List.pairwise_singleton _ _, ?_⟩
      intro old member new last other
      rw [List.mem_singleton.mp last] at other ⊢
      have distance := apart old member other
      exact le_trans (by omega) (le_abs_self _)
  case table => exact sound.table
  case unique => exact sound.unique
  case whole => exact sound.whole
  case clock => exact sound.clock
  case last => exact sound.last
  case attempted => exact sound.attempted
  case claimed =>
    intro old member
    rcases List.mem_append.mp member with member | member
    · exact sound.claimed old member
    · rw [List.mem_singleton.mp member]
      exact ⟨bucket, fired, mine, attempted⟩

end Sound

/-! ### The contract -/

/-- The moves of others that a pod relies on. -/
structure Moves (key : WorkflowKey) (pod : ι) (s s' : State ι) : Prop where
  same : s'.pods pod = s.pods pod
  claims : (s.about key).claims <+: (s'.about key).claims
  runs : ∀ run ∈ (s'.about key).runs, run.createdBy = pod → run ∈ (s.about key).runs

def intervalContract (crates : Crates) (key : WorkflowKey) (dur : String) (d : Nat) :
    Contract ι (State ι) where
  inv s := Sound crates key dur d (s.about key)
  rely := Moves key
  refl _ _ := ⟨rfl, List.prefix_rfl, fun _ member _ => member⟩
  trans _ _ _ _ first second := ⟨second.same.trans first.same, first.claims.trans second.claims,
    fun run member mine => first.runs run (second.runs run member mine) mine⟩

/-- The calls that are made in time. -/
noncomputable def inTime (key : WorkflowKey) : Service Op Reply ι (State ι) Choice :=
  State.service.restrict fun pod choice s op => op.InTime key pod choice s

theorem inTime_serve {choice : Choice} {op : Op} {reply : Reply op} {s' : State ι}
    (served : (inTime key).serve pod choice s op = some (reply, s')) :
    op.InTime key pod choice s ∧ reply = (s.perform pod choice op).1 ∧
      s' = (s.perform pod choice op).2 := by
  obtain ⟨timely, served⟩ := serve_restrict.mp served
  have same := Option.some.inj served
  exact ⟨timely, congrArg Prod.fst same.symm, congrArg Prod.snd same.symm⟩

theorem pods_perform {other : ι} (differ : other ≠ pod) (choice : Choice) (op : Op) :
    (s.perform pod choice op).2.pods other = s.pods other := by
  cases op with
  | listAllEnabledWorkflows => exact orFail_cases (P := fun s' => s'.pods other = s.pods other) rfl rfl
  | getMemberRole communityId channelId pubkey =>
    exact orFail_cases (P := fun s' => s'.pods other = s.pods other) rfl rfl
  | createWorkflowRun k context =>
    exact orFail_cases (P := fun s' => s'.pods other = s.pods other) rfl rfl
  | attachScheduledWorkflowRun k instant runId =>
    exact orFail_cases (P := fun s' => s'.pods other = s.pods other) rfl rfl
  | setLastFired k t => exact Function.update_of_ne differ _ _
  | retainLastFired active => exact Function.update_of_ne differ _ _
  | latestScheduledWorkflowFire k =>
    exact orFail_cases (P := fun s' => s'.pods other = s.pods other) rfl
      (Function.update_of_ne differ _ _)
  | getLastFired k =>
    simp only [State.perform]
    split
    next => exact Function.update_of_ne differ _ _
    next => rfl
  | claimScheduledWorkflowFire k instant =>
    have tried : (s.onPod pod fun p => { p with attempts := p.attempts ++ [(k, instant)] }).pods
        other = s.pods other := Function.update_of_ne differ _ _
    have claimed (s : State ι) : (s.claim pod k instant).2.pods other = s.pods other := by
      unfold State.claim
      split <;> rfl
    simp only [State.perform]
    apply orFail_cases (P := fun s' => s'.pods other = s.pods other) tried
    split
    next => exact (Function.update_of_ne differ _ _).trans ((claimed _).trans tried)
    next => exact (claimed _).trans tried

theorem moves_of_about {choice : Choice} {op : Op}
    (same : (s.perform pod choice op).2.about key = s.about key) :
    ∀ other, other ≠ pod → Moves key other s (s.perform pod choice op).2 := by
  intro other differ
  refine ⟨pods_perform differ choice op, ?_, ?_⟩
  · rw [same]
  · rw [same]
    exact fun _ member _ => member

/-! ### A tick of a pod -/

/-- What the pod remembers is not earlier than anything it has attempted. -/
def Idle (key : WorkflowKey) (pod : ι) (s : State ι) : Prop :=
  ∀ t, ((s.about key).pods pod).last = some t → ∀ a ∈ ((s.about key).pods pod).attempts, a ≤ t

/-- The pod is in its tick of time `now`, and idle with respect to the workflow. -/
structure During (key : WorkflowKey) (pod : ι) (now : Int) (s : State ι) : Prop where
  reading : ((s.about key).pods pod).now = now
  idle : Idle key pod s

/-- The anchor of the tick, if it has one. -/
structure Anchored (key : WorkflowKey) (pod : ι) (now : Int) (last : Option Int) (s : State ι) :
    Prop extends During key pod now s where
  anchor : ∀ t, last = some t → (s.pods pod).anchor = some t ∧ t ≤ now ∧ Representable t ∧
    ∀ a ∈ ((s.about key).pods pod).attempts, a ≤ t

/-- The tick fires for an interval that the pod has not attempted yet. -/
structure Ready (key : WorkflowKey) (dur : String) (d : Nat) (pod : ι) (now i : Int) (s : State ι) :
    Prop extends During key pod now s where
  due : intervalFireInstant dur now = some i
  whole : seconds d ∣ i
  representable : Representable i
  past : i ≤ now
  later : ∀ a ∈ ((s.about key).pods pod).attempts, a < i
  anchor : ∃ t, (s.pods pod).anchor = some t ∧ t + seconds d ≤ now

/-- The tick has won the claim and has not created the run yet. -/
structure Won (key : WorkflowKey) (dur : String) (d : Nat) (pod : ι) (now i : Int) (s : State ι) :
    Prop where
  reading : ((s.about key).pods pod).now = now
  due : intervalFireInstant dur now = some i
  label : (s.pods pod).won = some i
  mine : (i, pod) ∈ (s.about key).claims
  attempted : i ∈ ((s.about key).pods pod).attempts
  unfired : ∀ run ∈ (s.about key).runs, run.createdBy = pod → run.firedFor ≠ some i
  anchor : ∃ t, (s.pods pod).anchor = some t ∧ t + seconds d ≤ now

section

variable {now i : Int} {s' : State ι}

omit [DecidableEq ι]

private theorem Moves.about (moved : Moves key pod s s') :
    (s'.about key).pods pod = (s.about key).pods pod := congrArg (Pod.about · key) moved.same

theorem Idle.stable (idle : Idle key pod s) (moved : Moves key pod s s') : Idle key pod s' := by
  unfold Idle
  rw [moved.about]
  exact idle

theorem During.stable (during : During key pod now s) (moved : Moves key pod s s') :
    During key pod now s' :=
  ⟨by rw [moved.about]; exact during.reading, during.idle.stable moved⟩

theorem Ready.stable (ready : Ready key dur d pod now i s) (moved : Moves key pod s s') :
    Ready key dur d pod now i s' where
  toDuring := ready.toDuring.stable moved
  due := ready.due
  whole := ready.whole
  representable := ready.representable
  past := ready.past
  later := by rw [moved.about]; exact ready.later
  anchor := by rw [moved.same]; exact ready.anchor

theorem Won.stable (won : Won key dur d pod now i s) (moved : Moves key pod s s') :
    Won key dur d pod now i s' where
  reading := by rw [moved.about]; exact won.reading
  due := won.due
  label := by rw [moved.same]; exact won.label
  mine := moved.claims.subset won.mine
  attempted := by rw [moved.about]; exact won.attempted
  unfired run member mine := won.unfired run (moved.runs run member mine) mine
  anchor := by rw [moved.same]; exact won.anchor

theorem During.of_about (during : During key pod now s) (same : s'.about key = s.about key) :
    During key pod now s' := by
  refine ⟨?_, ?_⟩
  · rw [same]
    exact during.reading
  · unfold Idle
    rw [same]
    exact during.idle

end

/-! ### Calls for the workflow -/

/-- The contract of one workflow, under the condition that its calls are made in time. -/
abbrev Keeping (crates : Crates) (key : WorkflowKey) (dur : String) (d : Nat) (pod : ι) {α : Type}
    (post : α → State ι → Prop) (program : Tick α) (s : State ι) : Prop :=
  Obeys (inTime key) (intervalContract crates key dur d) pod post program s

variable {now : Int}

theorem keeping_setLastFired {post : Unit → State ι → Prop}
    (here : ((s.about key).pods pod).now = now)
    (after : ∀ s', During key pod now s' → post () s') :
    Keeping crates key dur d pod post (ask (.setLastFired key now)) s := by
  intro s₁ moved sound choice reply s₂ served
  obtain ⟨-, -, rfl⟩ := inTime_serve served
  have here₁ : ((s₁.about key).pods pod).now = now := by rw [moved.about]; exact here
  have about : (s₁.perform pod choice (.setLastFired key now)).2.about key =
      (s₁.about key).set pod { (s₁.about key).pods pod with last := some now } := by
    simp only [State.perform]
    rw [about_onPod_eq]
    simp [Pod.about, State.about]
  have kept : Sound crates key dur d
      ((s₁.perform pod choice (.setLastFired key now)).2.about key) := by
    rw [about]
    apply sound.setLast pod
    rintro t same
    obtain rfl := Option.some.inj same
    exact ⟨here₁.ge, here₁ ▸ (sound.clock pod).2⟩
  refine ⟨kept, fun other differ => ⟨pods_perform differ _ _, ?_, ?_⟩, after _ ⟨?_, ?_⟩⟩
  · rw [about]
    exact List.prefix_rfl
  · rw [about]
    exact fun _ member _ => member
  · rw [about]
    simpa using here₁
  · -- Every attempt was made at or before this tick.
    intro t found a member
    have recent := (kept.attempted pod a member).2.1
    rw [about] at found recent
    simp only [About.set_self, Option.some.injEq] at found recent
    subst found
    exact recent.trans here₁.le

omit [DecidableEq ι] in
private theorem fst_claims (s : State ι) :
    (s.about key).claims.map Prod.fst = (s.fires.filter (·.key = key)).map Fire.scheduledFor := by
  simp [State.about, Function.comp_def]

omit [DecidableEq ι] in
/-- The latest claim is not earlier than what any pod has attempted. -/
private theorem le_latest (sound : Sound crates key dur d (s.about key)) {t a : Int}
    (latest : s.latest key = some t) (member : a ∈ ((s.about key).pods pod).attempts) : a ≤ t := by
  have claimed := (sound.attempted pod a member).2.2
  rw [fst_claims] at claimed
  exact (List.max?_eq_some_iff.mp latest).2 a claimed

omit [DecidableEq ι] in
private theorem representable_latest (sound : Sound crates key dur d (s.about key)) {t : Int}
    (latest : s.latest key = some t) : Representable t := by
  have claimed := (List.max?_eq_some_iff.mp latest).1
  rw [← fst_claims] at claimed
  obtain ⟨claim, member, rfl⟩ := List.mem_map.mp claimed
  exact (sound.whole claim member).2

theorem keeping_resolveAnchor {now : Int} (during : During key pod now s) :
    Keeping crates key dur d pod
      (fun last s' => Sound crates key dur d (s'.about key) ∧ Anchored key pod now last s')
      (resolveAnchor key) s := by
  apply Obeys.ask_bind
  intro s₁ moved (sound : Sound crates key dur d (s₁.about key)) choice reply s₂ served
  obtain ⟨-, rfl, rfl⟩ := inTime_serve served
  have during₁ := during.stable moved
  cases remembered : (s₁.pods pod).lastFired key with
  | some t =>
    have about : (s₁.perform pod choice (.getLastFired key)).2.about key = s₁.about key := by
      simp only [State.perform, remembered]
      exact about_onPod rfl
    refine ⟨sound.of_about about, moves_of_about about, ?_⟩
    simp only [State.perform, remembered] at about ⊢
    refine ⟨sound.of_about about, during₁.of_about about, ?_⟩
    intro t' same
    obtain rfl := Option.some.inj same
    rw [about_onPod rfl]
    obtain ⟨past, representable⟩ := sound.last pod t remembered
    exact ⟨by simp [State.onPod], during₁.reading ▸ past, representable, during₁.idle t remembered⟩
  | none =>
    have unchanged : (s₁.perform pod choice (.getLastFired key)).2 = s₁ := by
      simp only [State.perform, remembered]
    have answer : (s₁.perform pod choice (.getLastFired key)).1 = none := remembered
    rw [unchanged, answer]
    refine ⟨sound, fun other _ => (intervalContract crates key dur d).refl other s₁, ?_⟩
    -- The map has no entry: the latest claim is read.
    apply Obeys.ask_bind
    intro s₃ moved' (sound' : Sound crates key dur d (s₃.about key)) choice' reply' s₄ served'
    obtain ⟨timely, rfl, rfl⟩ := inTime_serve served'
    have during₃ := during₁.stable moved'
    have about : (s₃.perform pod choice' (.latestScheduledWorkflowFire key)).2.about key =
        s₃.about key :=
      orFail_cases (P := fun s' => s'.about key = s₃.about key) rfl (about_onPod rfl)
    refine ⟨sound'.of_about about, moves_of_about about, ?_⟩
    cases fault : choice'.fault with
    | some e =>
      simp only [State.perform, State.orFail, fault] at about ⊢
      exact ⟨sound'.of_about about, during₃.of_about about, nofun⟩
    | none =>
      simp only [State.perform, State.orFail, fault] at about ⊢
      refine ⟨sound'.of_about about, during₃.of_about about, ?_⟩
      intro t latest
      rw [about_onPod rfl]
      have past : t ≤ now := by
        have reading := during₃.reading
        rw [← reading]
        exact timely rfl t latest
      exact ⟨by simp [State.onPod, latest], past, representable_latest sound' latest,
        fun a member => le_latest sound' latest member⟩

section

variable (parsed : parseDurationSecs dur = .ok d) (long : 60 ≤ d)
include parsed long

omit [DecidableEq ι] in
/-- A tick that fires does so for a later interval than any that the pod has attempted. -/
private theorem ready_of_fires {now t i : Int} (sound : Sound crates key dur d (s.about key))
    (anchored : Anchored key pod now (some t) s) (fires : intervalShouldFire dur (some t) now = true)
    (due : intervalFireInstant dur now = some i) : Ready key dur d pod now i s := by
  obtain ⟨anchor, past, representable, latest⟩ := anchored.anchor t rfl
  have elapsed := (intervalShouldFire_iff parsed).mp fires
  have interval : t + seconds d ≤ now := elapsed_le past elapsed
  have now_representable : Representable now := anchored.reading ▸ (sound.clock pod).2
  have small : d < 2 ^ 63 := by
    unfold Representable timestamp at representable now_representable
    unfold seconds at interval
    omega
  have bucket := intervalFireInstant_eq_some parsed small due
  have positive : (0 : Int) < d := by omega
  have whole : seconds d ∣ i := bucket ▸ seconds_dvd_bucket now d
  refine ⟨anchored.toDuring, due, whole, ?_, bucket ▸ bucket_le positive, ?_, t, anchor, interval⟩
  · unfold intervalFireInstant fromTimestamp at due
    simp only [parsed] at due
    split at due
    next =>
      split at due
      next inside => exact Option.some.inj due ▸ inside
      next => cases due
    next => cases due
  · intro a member
    have before := latest a member
    have next_whole : seconds d ∣ a + seconds d :=
      Int.dvd_add (sound.attempted pod a member).1 (Int.dvd_refl _)
    have step := le_bucket positive next_whole (by omega : a + seconds d ≤ now)
    have length : 0 < seconds d := by
      unfold seconds
      omega
    omega

theorem keeping_scheduledFor {now : Int} (during : During key pod now s) :
    Keeping crates key dur d pod (fun result s' => During key pod now s' ∧
      ∀ i triggerType, result = some (i, triggerType) →
        triggerType = .interval ∧ Ready key dur d pod now i s')
      (scheduledFor crates key now (.schedule none (some dur))) s := by
  apply Obeys.bind
  apply (keeping_resolveAnchor during).mono
  rintro last s ⟨sound, anchored⟩
  change Keeping crates key dur d pod _ (intervalPrefilterShouldFire key dur last now >>= _) s
  cases fires : intervalShouldFire dur last now with
  | true =>
    have passes : intervalPrefilterShouldFire key dur last now = Prog.pure true := by
      rw [intervalPrefilterShouldFire, fires]
      rfl
    rw [passes]
    refine ⟨anchored.toDuring, ?_⟩
    intro i triggerType found
    obtain ⟨instant, due, same⟩ := Option.map_eq_some_iff.mp found
    cases same
    cases last with
    | none => exact absurd fires (by rw [intervalShouldFire_none parsed (by omega)]; decide)
    | some t => exact ⟨rfl, ready_of_fires parsed long sound anchored fires due⟩
  | false =>
    cases last with
    | some t =>
      have suppressed : intervalPrefilterShouldFire key dur (some t) now = Prog.pure false := by
        rw [intervalPrefilterShouldFire, fires]
        rfl
      rw [suppressed]
      exact ⟨anchored.toDuring, nofun⟩
    | none =>
      -- The cold start: the interval is measured from here on.
      have seeded : intervalPrefilterShouldFire key dur none now =
          (ask (.setLastFired key now) >>= fun _ => Prog.pure false) := by
        rw [intervalPrefilterShouldFire, fires]
        rfl
      rw [seeded]
      apply Obeys.bind
      apply Obeys.bind
      exact keeping_setLastFired anchored.reading fun s' during' => ⟨during', nofun⟩

end

/-! ### The claim and the run -/

variable {i : Int}

private theorem about_claimed (sound : Sound crates key dur d (s.about key)) {choice : Choice}
    (served : choice.fault = none) :
    let s' := (s.perform pod choice (.claimScheduledWorkflowFire key i)).2
    let tried := { (s.about key).pods pod with
      attempts := ((s.about key).pods pod).attempts ++ [i] }
    ((s.perform pod choice (.claimScheduledWorkflowFire key i)).1 = .ok none ∧
      i ∈ (s.about key).claims.map Prod.fst ∧ s'.about key = (s.about key).set pod tried) ∨
    ((s.perform pod choice (.claimScheduledWorkflowFire key i)).1 = .ok (some ()) ∧
      i ∉ (s.about key).claims.map Prod.fst ∧ (s'.pods pod).won = some i ∧
      (s'.pods pod).anchor = (s.pods pod).anchor ∧
      s'.about key = { (s.about key).set pod tried with
        claims := (s.about key).claims ++ [(i, pod)] }) := by
  intro s' tried
  let s₁ := s.onPod pod fun p => { p with attempts := p.attempts ++ [(key, i)] }
  have about₁ : s₁.about key = (s.about key).set pod tried := by
    rw [about_onPod_eq]
    simp [Pod.about, State.about, tried]
  have claimed : s₁.Claimed key i ↔ i ∈ (s.about key).claims.map Prod.fst := by
    simp [State.Claimed, State.about, s₁, State.onPod, and_assoc]
  have known : ∃ w ∈ s₁.workflows.rows, w.key = key := sound.table.exists_
  by_cases old : i ∈ (s.about key).claims.map Prod.fst
  · have lost : s₁.claim pod key i = (none, s₁) := if_neg (by simp [claimed, old])
    have result : s.perform pod choice (.claimScheduledWorkflowFire key i) = (.ok none, s₁) := by
      simp only [State.perform]
      rw [lost]
      simp only [State.orFail, served, s₁]
    left
    simp only [s', result]
    exact ⟨trivial, old, about₁⟩
  · let row : Fire ι := ⟨key, i, none, pod⟩
    let s₂ : State ι := { s₁ with fires := s₁.fires ++ [row] }
    have accepted : s₁.claim pod key i = (some (), s₂) := if_pos ⟨known, by simp [claimed, old]⟩
    have result : s.perform pod choice (.claimScheduledWorkflowFire key i) =
        (.ok (some ()), s₂.onPod pod fun p => { p with won := some i }) := by
      simp only [State.perform]
      rw [accepted]
      simp only [State.orFail, served]
    have about₂ : s₂.about key = { s₁.about key with
        claims := (s.about key).claims ++ [(i, pod)] } := by
      simp [State.about, s₂, s₁, row, State.onPod]
    right
    simp only [s', result]
    refine ⟨trivial, old, by simp [State.onPod], by simp [State.onPod, s₂, s₁], ?_⟩
    rw [about_onPod rfl, about₂, about₁]

private theorem keeping_advance {now : Int} (here : ((s.about key).pods pod).now = now) :
    Keeping crates key dur d pod (fun _ s' => During key pod now s') (advance key .interval now) s :=
  keeping_setLastFired here fun _ during => during

/-- The run of a claim that was won, created in time. -/
theorem keeping_created {now : Int} (won : Won key dur d pod now i s) (context : TriggerContext) :
    Keeping crates key dur d pod (fun _ s' => During key pod now s')
      (ask (.createWorkflowRun key context) >>= fun reply => match reply with
        | .ok runId => do
          let _ ← ask (.attachScheduledWorkflowRun key i runId)
          advance key .interval now
        | .error _ => pure ()) s := by
  apply Obeys.ask_bind
  intro s₁ moved (sound : Sound crates key dur d (s₁.about key)) choice reply s₂ served
  obtain ⟨timely, rfl, rfl⟩ := inTime_serve served
  obtain ⟨served, newer⟩ := timely rfl
  rw [Option.isNone_iff_eq_none] at served
  have won₁ := won.stable moved
  let run : Run ι := ⟨key, choice.runId, context, pod, (s₁.pods pod).now, (s₁.pods pod).won⟩
  have result : s₁.perform pod choice (.createWorkflowRun key context) =
      (.ok choice.runId, { s₁ with runs := s₁.runs ++ [run] }) := by
    simp only [State.perform, State.orFail, served, run]
  have about : ({ s₁ with runs := s₁.runs ++ [run] } : State ι).about key =
      { s₁.about key with runs := (s₁.about key).runs ++ [run] } := by
    simp [State.about, run]
  have at_now : (s₁.pods pod).now = now := won₁.reading
  obtain ⟨t, anchor, interval⟩ := won₁.anchor
  have kept : Sound crates key dur d (({ s₁ with runs := s₁.runs ++ [run] } : State ι).about key) := by
    rw [about]
    have due : intervalFireInstant dur run.at_ = some i :=
      (congrArg (intervalFireInstant dur) at_now).trans won₁.due
    refine sound.run won₁.label due won₁.mine won₁.attempted won₁.unfired ?_
    intro old member other
    obtain ⟨member, named⟩ := List.mem_filter.mp member
    obtain ⟨t', anchor', before⟩ := newer old member (by simpa using named) other
    obtain rfl : t = t' := Option.some.inj (anchor.symm.trans anchor')
    simp only [run, at_now]
    omega
  rw [result]
  refine ⟨kept, fun other differ => ⟨rfl, ?_, ?_⟩, ?_⟩
  · rw [about]
  · rw [about]
    intro old member mine
    rcases List.mem_append.mp member with member | member
    · exact member
    · rw [List.mem_singleton.mp member] at mine
      exact absurd mine.symm differ
  · -- The claim is linked to its run, and the interval clock starts again.
    apply Obeys.ask_bind
    intro s₃ moved' (sound' : Sound crates key dur d (s₃.about key)) choice' reply' s₄ served'
    obtain ⟨-, rfl, rfl⟩ := inTime_serve served'
    have same : (s₃.perform pod choice' (.attachScheduledWorkflowRun key i choice.runId)).2.about
        key = s₃.about key :=
      orFail_cases (P := fun s' => s'.about key = s₃.about key) rfl (about_attach key i _)
    refine ⟨sound'.of_about same, moves_of_about same, keeping_advance ?_⟩
    rw [same, moved'.about, about]
    exact won₁.reading

theorem keeping_fire {now : Int} (ready : Ready key dur d pod now i s) (channelId : Uuid) :
    Keeping crates key dur d pod (fun _ s' => During key pod now s')
      (fire key channelId now i .interval) s := by
  apply Obeys.ask_bind
  intro s₁ moved (sound : Sound crates key dur d (s₁.about key)) choice reply s₂ served
  obtain ⟨timely, rfl, rfl⟩ := inTime_serve served
  have ready₁ := ready.stable moved
  have past : i ≤ ((s₁.about key).pods pod).now := ready₁.reading ▸ ready₁.past
  have served := Option.isNone_iff_eq_none.mp (timely rfl)
  rcases about_claimed sound served with ⟨answer, old, about⟩ | ⟨answer, fresh, label, anchor, about⟩
  · have kept := sound.attempt ready₁.whole ready₁.representable past ready₁.later
      (Or.inl ⟨old, rfl⟩)
    rw [answer]
    refine ⟨by change Sound _ _ _ _ _; rw [about]; exact kept, fun other differ =>
      ⟨pods_perform differ _ _, ?_, ?_⟩, keeping_advance ?_⟩
    · rw [about]
      exact List.prefix_rfl
    · rw [about]
      exact fun _ member _ => member
    · rw [about, About.set_self]
      exact ready₁.reading
  · have kept := sound.attempt ready₁.whole ready₁.representable past ready₁.later
      (Or.inr ⟨fresh, rfl⟩)
    rw [answer]
    refine ⟨by change Sound _ _ _ _ _; rw [about]; exact kept, fun other differ =>
      ⟨pods_perform differ _ _, ?_, ?_⟩, keeping_created ?_ _⟩
    · rw [about]
      exact List.prefix_append _ _
    · rw [about]
      exact fun _ member _ => member
    · constructor
      case reading =>
        rw [about]
        exact (congrArg Memory.now (About.set_self _ _ _)).trans ready₁.reading
      case due => exact ready₁.due
      case label => exact label
      case mine =>
        rw [about]
        exact List.mem_append_right _ (List.mem_singleton_self _)
      case attempted =>
        rw [about]
        simp [About.set]
      case unfired =>
        -- A run of this pod for the interval would come from an earlier attempt.
        rw [about]
        intro run member mine fired
        obtain ⟨bucket, fired', -, attempted⟩ := sound.claimed run member
        obtain rfl : bucket = i := Option.some.inj (fired'.symm.trans fired)
        rw [mine] at attempted
        exact absurd (ready₁.later bucket attempted) (lt_irrefl _)
      case anchor =>
        rw [anchor]
        exact ready₁.anchor

/-! ### The tick -/

/-- A record that was listed with this key has the interval. -/
def HasInterval (crates : Crates) (key : WorkflowKey) (dur : String) (w : WorkflowRecord) : Prop :=
  w.key = key → ∀ d, crates.fromValue w.definition = some d → d.trigger = .schedule none (some dur)

private theorem keeping_of_about {now : Int} {choice : Choice} {op : Op}
    (sound : Sound crates key dur d (s.about key)) (during : During key pod now s)
    (same : (s.perform pod choice op).2.about key = s.about key) :
    (intervalContract crates key dur d).inv (s.perform pod choice op).2 ∧
      (∀ other, other ≠ pod → (intervalContract crates key dur d).rely other s
        (s.perform pod choice op).2) ∧ During key pod now (s.perform pod choice op).2 :=
  ⟨sound.of_about same, moves_of_about same, during.of_about same⟩

theorem keeping_checkOwnerAuthority {now : Int} (ready : Ready key dur d pod now i s)
    (communityId : CommunityId) (channelId : Uuid) (ownerPubkey : List UInt8) (def_ : WorkflowDef) :
    Keeping crates key dur d pod (fun _ s' => Ready key dur d pod now i s')
      (checkOwnerAuthority communityId channelId ownerPubkey def_) s := by
  apply Obeys.ask_bind
  intro s₁ moved (sound : Sound crates key dur d (s₁.about key)) choice reply s₂ served
  obtain ⟨-, rfl, rfl⟩ := inTime_serve served
  have unchanged : (s₁.perform pod choice (.getMemberRole communityId channelId ownerPubkey)).2 =
      s₁ := orFail_cases (P := fun s' => s' = s₁) rfl rfl
  have ready₁ := ready.stable moved
  rw [unchanged]
  refine ⟨sound, fun other _ => (intervalContract crates key dur d).refl other s₁, ?_⟩
  cases (s₁.perform pod choice (.getMemberRole communityId channelId ownerPubkey)).1 with
  | error e => exact ready₁
  | ok role =>
    simp only
    split
    next => exact ready₁
    next => exact ready₁

section

variable (parsed : parseDurationSecs dur = .ok d) (long : 60 ≤ d) {w : WorkflowRecord}
include parsed long

theorem keeping_visit {now : Int} (has : HasInterval crates key dur w)
    (during : During key pod now s) :
    Keeping crates key dur d pod (fun _ s' => During key pod now s') (visit crates now w) s := by
  by_cases named : w.key = key
  · subst named
    unfold visit
    cases decoded : crates.fromValue w.definition with
    | none => exact during
    | some def_ =>
      simp only
      split
      next =>
        cases w.channelId with
        | none => exact during
        | some channelId =>
          simp only [has rfl def_ decoded]
          apply Obeys.bind
          apply (keeping_scheduledFor parsed long during).mono
          rintro (_ | ⟨i, triggerType⟩) s ⟨during', fires⟩
          · exact during'
          · obtain ⟨rfl, ready⟩ := fires i triggerType rfl
            apply Obeys.bind
            apply (keeping_checkOwnerAuthority ready w.communityId channelId w.ownerPubkey def_).mono
            rintro (e | _) s ready'
            · exact ready'.toDuring
            · exact keeping_fire ready' channelId
      next => exact during
  · -- Another workflow: nothing is said about this one.
    apply Obeys.of_calls (visit_apart named crates now)
    · exact fun s s' moved during => during.stable moved
    · intro op apart s sound during choice reply s' served
      obtain ⟨-, -, rfl⟩ := inTime_serve served
      exact keeping_of_about sound during (about_perform_apart apart choice)
    · exact during

theorem keeping_visitAll {now : Int} {ws : List WorkflowRecord}
    (has : ∀ w ∈ ws, HasInterval crates key dur w) (during : During key pod now s) :
    Keeping crates key dur d pod (fun _ s' => During key pod now s') (visitAll crates now ws) s := by
  induction ws generalizing s with
  | nil => exact during
  | cons w ws ih =>
    apply Obeys.bind
    apply (keeping_visit parsed long (has w (by simp)) during).mono
    exact fun _ s' during' => ih (fun w member => has w (List.mem_cons_of_mem _ member)) during'

theorem keeping_tick {now : Int} (during : During key pod now s) :
    Keeping crates key dur d pod (fun _ s' => Idle key pod s') (tick crates now) s := by
  apply Obeys.ask_bind
  intro s₁ moved (sound : Sound crates key dur d (s₁.about key)) choice reply s₂ served
  obtain ⟨-, rfl, rfl⟩ := inTime_serve served
  have unchanged : (s₁.perform pod choice .listAllEnabledWorkflows).2 = s₁ :=
    orFail_cases (P := fun s' => s' = s₁) rfl rfl
  have during₁ := during.stable moved
  rw [unchanged]
  refine ⟨sound, fun other _ => (intervalContract crates key dur d).refl other s₁, ?_⟩
  cases fault : choice.fault with
  | some e =>
    simp only [State.perform, State.orFail, fault]
    exact during₁.idle
  | none =>
    simp only [State.perform, State.orFail, fault]
    have has : ∀ w ∈ s₁.workflows.listed, HasInterval crates key dur w := fun w member named =>
      sound.table.trigger w (List.mem_of_mem_filter (List.mem_of_mem_take member)) named
    apply Obeys.bind
    apply (keeping_visitAll parsed long has during₁).mono
    -- Entries of workflows that are no longer listed are forgotten.
    intro _ s during' s₃ moved' (sound' : Sound crates key dur d (s₃.about key)) choice' reply' s₄
      served'
    obtain ⟨-, -, rfl⟩ := inTime_serve served'
    have during₃ := during'.stable moved'
    let last := if key ∈ s₁.workflows.listed.map WorkflowRecord.key then
      ((s₃.about key).pods pod).last else none
    have about : (s₃.perform pod choice'
        (.retainLastFired (s₁.workflows.listed.map WorkflowRecord.key))).2.about key =
        (s₃.about key).set pod { (s₃.about key).pods pod with last } := by
      simp only [State.perform]
      rw [about_onPod_eq]
      rfl
    have shorter : ∀ t, last = some t → ((s₃.about key).pods pod).last = some t := by
      intro t found
      simp only [last] at found
      split at found
      next => exact found
      next => cases found
    have kept := sound'.setLast pod fun t found => sound'.last pod t (shorter t found)
    refine ⟨by change Sound _ _ _ _ _; rw [about]; exact kept, fun other differ =>
      ⟨pods_perform differ _ _, ?_, ?_⟩, ?_⟩
    · rw [about]
      exact List.prefix_rfl
    · rw [about]
      exact fun _ member _ => member
    · intro t found a member
      rw [about] at found member
      rw [About.set_self] at found member
      exact during₃.idle t (shorter t found) a member

end

/-! ### All pods -/

/-- Nothing has happened to the workflow yet. -/
structure Fresh (v : About ι) : Prop where
  claims : v.claims = []
  runs : v.runs = []
  pods : ∀ pod, (v.pods pod).last = none ∧ (v.pods pod).attempts = [] ∧
    (v.pods pod).now ≤ v.clock ∧ Representable (v.pods pod).now

omit [DecidableEq ι] in
theorem Fresh.sound {v : About ι} (fresh : Fresh v)
    (table : IntervalWorkflow crates key dur v.workflows) : Sound crates key dur d v := by
  constructor
  case toOncePerInterval =>
    constructor
    all_goals simp [fresh.runs, (fresh.pods _).2.1]
  all_goals simp [fresh.claims, fresh.runs, fresh.pods, table]

/-- The workflow is sound, and every pod keeps it so. -/
structure Safe (crates : Crates) (key : WorkflowKey) (dur : String) (d : Nat)
    (cluster : Cluster ι) : Prop where
  sound : Sound crates key dur d (cluster.shared.about key)
  keeping : ∀ pod, Keeping crates key dur d pod (fun _ s => Idle key pod s) (cluster.program pod)
    cluster.shared

theorem Safe.replace {cluster : Cluster ι} {s' : State ι} {program : Tick Unit}
    (safe : Safe crates key dur d cluster) (sound : Sound crates key dur d (s'.about key))
    (moves : ∀ other, other ≠ pod → Moves key other cluster.shared s')
    (mine : Keeping crates key dur d pod (fun _ s => Idle key pod s) program s') :
    Safe crates key dur d ⟨s', Function.update cluster.program pod program⟩ := by
  refine ⟨sound, fun other => ?_⟩
  by_cases here : other = pod
  · subst here
    simpa using mine
  · simp only [Function.update_of_ne here]
    exact (safe.keeping other).stable (fun _ _ _ moved idle => idle.stable moved) (moves other here)

theorem step_wake {cluster cluster' : Cluster ι}
    (stepped : cluster.step crates (.wake pod now) = some cluster') :
    cluster.program pod = .pure () ∧ cluster.shared.clock ≤ now ∧ Representable now ∧
      cluster' = ⟨cluster.shared.wake pod now,
        Function.update cluster.program pod (tick crates now)⟩ := by
  simp only [Cluster.step] at stepped
  split at stepped
  next => cases stepped
  next done =>
    split at stepped
    next due => exact ⟨done, due.1, due.2, (Option.some.inj stepped).symm⟩
    next => cases stepped

private theorem about_wake (s : State ι) (pod : ι) (now : Int) :
    (s.wake pod now).about key =
      { (s.about key).set pod { (s.about key).pods pod with now } with clock := now } := by
  have woken : (s.onPod pod fun p => { p with now }).about key =
      (s.about key).set pod { (s.about key).pods pod with now } := about_onPod_eq _
  exact congrArg (fun v : About ι => { v with clock := now }) woken

private theorem about_restart (s : State ι) (pod : ι) :
    (s.onPod pod fun p => { p with lastFired := fun _ => none }).about key =
      (s.about key).set pod { (s.about key).pods pod with last := none } := about_onPod_eq _

section

variable (parsed : parseDurationSecs dur = .ok d) (long : 60 ≤ d)
include parsed long

theorem safe_step {cluster cluster' : Cluster ι} {action : Action ι}
    (safe : Safe crates key dur d cluster) (keeps : Keeps crates key dur action)
    (timely : InTime key cluster action) (stepped : cluster.step crates action = some cluster') :
    Safe crates key dur d cluster' := by
  cases action with
  | turn pod choice =>
    have stepped' : (inTime key).step cluster (pod, choice) = some cluster' :=
      step_restrict (fun op next waiting => timely op (by simp [pending, waiting])) stepped
    have settled (pod : ι) (_ : Unit) (s s' : State ι)
        (moved : (intervalContract crates key dur d).rely pod s s') (idle : Idle key pod s) :
        Idle key pod s' := idle.stable moved
    obtain ⟨sound, keeping⟩ := step_obeys settled safe.sound safe.keeping stepped'
    exact ⟨sound, keeping⟩
  | wake pod now =>
    obtain ⟨done, later, representable, rfl⟩ := step_wake stepped
    have idle : Idle key pod cluster.shared := by
      have asleep := safe.keeping pod
      rw [done] at asleep
      exact asleep
    have about : (cluster.shared.wake pod now).about key = _ := about_wake cluster.shared pod now
    apply safe.replace
    · rw [about]
      exact safe.sound.wake pod later representable
    · intro other differ
      refine ⟨Function.update_of_ne differ _ _, ?_, ?_⟩
      · rw [about]
        exact List.prefix_rfl
      · rw [about]
        exact fun _ member _ => member
    · apply keeping_tick parsed long
      constructor
      · rw [about]
        simp [About.set]
      · unfold Idle
        rw [about]
        simpa [About.set, Idle] using idle
  | restart pod =>
    obtain rfl := (Option.some.inj stepped).symm
    have about : _ = (cluster.shared.about key).set pod _ := about_restart cluster.shared pod
    apply safe.replace
    · rw [about]
      exact safe.sound.setLast pod nofun
    · intro other differ
      refine ⟨Function.update_of_ne differ _ _, ?_, ?_⟩
      · rw [about]
        exact List.prefix_rfl
      · rw [about]
        exact fun _ member _ => member
    · intro t found
      rw [about] at found
      simp at found
  | edit workflows roles =>
    obtain rfl := (Option.some.inj stepped).symm
    have sound := safe.sound.edit keeps
    refine ⟨sound, fun pod => (safe.keeping pod).stable (fun _ _ _ moved idle => idle.stable moved) ?_⟩
    exact ⟨rfl, List.prefix_rfl, fun _ member _ => member⟩

/-- In every run whose calls for the workflow are made in time, whatever the tick times, starts
and restarts of the pods, every interval is fired once. -/
theorem oncePerInterval_of_inTime {start : State ι} {cluster : Cluster ι}
    (fresh : Fresh (start.about key)) (table : IntervalWorkflow crates key dur start.workflows)
    (runs : Runs crates (fun cluster action => Keeps crates key dur action ∧
      InTime key cluster action) (Cluster.start start) cluster) :
    OncePerInterval dur d (cluster.shared.about key) := by
  have safe : Safe crates key dur d cluster := by
    induction runs with
    | start =>
      refine ⟨fresh.sound table, fun pod t found => ?_⟩
      cases (fresh.pods pod).1.symm.trans found
    | step _ meets stepped ih => exact safe_step parsed long ih meets.1 meets.2 stepped
  exact safe.sound.toOncePerInterval

end

/-! ### Two pods -/

/-- Perform actions one after the other, each of which passes a check. -/
def performAll (crates : Crates) (check : Cluster ι → Action ι → Bool) (start : Cluster ι)
    (actions : List (Action ι)) : Option (Cluster ι) :=
  actions.foldlM (fun cluster action =>
    if check cluster action then cluster.step crates action else none) start

theorem runs_performAll {check : Cluster ι → Action ι → Bool} {P : Cluster ι → Action ι → Prop}
    {start cluster : Cluster ι} {actions : List (Action ι)}
    (passes : ∀ cluster action, check cluster action = true → P cluster action)
    (performed : performAll crates check start actions = some cluster) :
    Runs crates P start cluster := by
  -- The run grows at its end, and so does the list.
  induction actions using List.reverseRecOn generalizing cluster with
  | nil =>
    obtain rfl : start = cluster := by simpa [performAll] using performed
    exact .start
  | append_singleton actions action ih =>
    simp only [performAll, List.foldlM_append, List.foldlM_cons, List.foldlM_nil, bind_pure] at performed
    obtain ⟨middle, first, last⟩ := Option.bind_eq_some_iff.mp performed
    split at last
    next checked => exact .step (ih first) (passes middle action checked) last
    next => cases last

namespace Interval

def definition : WorkflowDef := ⟨.schedule none (some "100s"), [.sendMessage], true⟩

def decoder : Crates where
  Schedule := Empty
  parseSchedule _ := none
  after := nofun
  fromValue _ := some definition

def workflow : WorkflowRecord where
  communityId := ⟨⟨1⟩⟩
  id := ⟨2⟩
  ownerPubkey := []
  channelId := some ⟨3⟩
  definition := .obj [("trigger", .obj [("on", .str "schedule")])]

/-- Two pods that have just started. -/
def start : State Bool where
  workflows := ⟨[workflow], by simp⟩
  roles _ _ _ := some "member"

theorem parsed : parseDurationSecs "100s" = .ok 100 := by
  unfold parseDurationSecs
  decide

theorem fresh : Fresh (start.about workflow.key) :=
  ⟨rfl, rfl, fun _ => ⟨rfl, rfl, le_rfl, (by decide : Representable 0)⟩⟩

theorem table : IntervalWorkflow decoder workflow.key "100s" start.workflows where
  exists_ := ⟨workflow, by simp [start], rfl⟩
  trigger _ _ _ d decoded := by
    obtain rfl := Option.some.inj decoded
    rfl

/-- A tick that makes so many calls, without failures. -/
def ticks (pod : Bool) (secs : Int) (calls : Nat) : List (Action Bool) :=
  .wake pod (seconds secs) :: List.replicate calls (.turn pod {})

/-- Both pods start their clocks; the first one fires, the second one loses the same interval
and fires the next one. -/
def alternating : List (Action Bool) :=
  ticks false 50 5 ++ ticks true 60 5 ++ ticks false 150 8 ++ ticks true 160 6 ++ ticks true 260 8

/-- The first pod fires at the end of an interval, and the second one starts right after it. -/
def lateStart : List (Action Bool) :=
  ticks false 50 5 ++ ticks false 199 8 ++ ticks true 200 9

/-- No edits, and every call in time. -/
def check (cluster : Cluster Bool) (action : Action Bool) : Bool :=
  match action with
  | .edit _ _ => false
  | action => decide (InTime workflow.key cluster action)

theorem check_passes (cluster : Cluster Bool) (action : Action Bool)
    (checked : check cluster action = true) :
    Keeps decoder workflow.key "100s" action ∧ InTime workflow.key cluster action := by
  cases action with
  | edit workflows roles => cases checked
  | turn pod choice => exact ⟨trivial, of_decide_eq_true checked⟩
  | wake pod now => exact ⟨trivial, trivial⟩
  | restart pod => exact ⟨trivial, trivial⟩

/-- The pods and the times of the runs. -/
def runs (cluster : Cluster Bool) : List (Bool × Int) :=
  (cluster.shared.about workflow.key).runs.map fun run => (run.createdBy, run.at_)

end Interval

theorem oncePerInterval_alternating : ∃ cluster,
    Runs Interval.decoder (fun cluster action =>
      Keeps Interval.decoder Interval.workflow.key "100s" action ∧
        InTime Interval.workflow.key cluster action) (Cluster.start Interval.start) cluster ∧
    Interval.runs cluster = [(false, seconds 150), (true, seconds 260)] ∧
    OncePerInterval "100s" 100 (cluster.shared.about Interval.workflow.key) := by
  have performed : (performAll Interval.decoder Interval.check (Cluster.start Interval.start)
      Interval.alternating).map Interval.runs = some [(false, seconds 150), (true, seconds 260)] := by
    decide +kernel
  obtain ⟨cluster, reached, runs⟩ := Option.map_eq_some_iff.mp performed
  have ran := runs_performAll Interval.check_passes reached
  exact ⟨cluster, ran, runs, oncePerInterval_of_inTime Interval.parsed (by decide) Interval.fresh
    Interval.table ran⟩

/-- A pod that starts at the beginning of an interval measures from the beginning of the one
before, and fires a second after the other pod. -/
theorem fires_a_second_apart :
    ¬ ∀ (crates : Crates) (key : WorkflowKey) (dur : String) (d : Nat) (start : State Bool)
      (cluster : Cluster Bool), parseDurationSecs dur = .ok d → 60 ≤ d →
      Fresh (start.about key) → IntervalWorkflow crates key dur start.workflows →
      Runs crates (fun _ action => Keeps crates key dur action) (Cluster.start start) cluster →
      OncePerInterval dur d (cluster.shared.about key) := by
  intro always
  let check (_ : Cluster Bool) (action : Action Bool) : Bool :=
    match action with
    | .edit _ _ => false
    | _ => true
  have performed : (performAll Interval.decoder check (Cluster.start Interval.start)
      Interval.lateStart).map Interval.runs = some [(false, seconds 199), (true, seconds 200)] := by
    decide +kernel
  obtain ⟨cluster, reached, runs⟩ := Option.map_eq_some_iff.mp performed
  have ran : Runs Interval.decoder (fun _ action =>
      Keeps Interval.decoder Interval.workflow.key "100s" action) (Cluster.start Interval.start)
      cluster := by
    apply runs_performAll _ reached
    rintro _ (_ | _ | _ | _) checked
    case edit => cases checked
    all_goals trivial
  have apart := (always _ _ _ _ _ cluster Interval.parsed (by decide) Interval.fresh Interval.table
    ran).apart
  rw [Interval.runs] at runs
  have apart' := (List.pairwise_map (f := fun run : Run Bool => (run.createdBy, run.at_))
    (R := fun a b => a.1 ≠ b.1 → seconds (100 : Nat) ≤ |b.2 - a.2|)).mpr apart
  rw [runs] at apart'
  revert apart'
  decide

end Workflow
