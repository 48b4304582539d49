import Mathlib.Data.List.Chain
import Buzz.Workflow.Engine

/-!
# Cron ticks

A tick looks back over the last 60 seconds, but it comes 60 seconds after the work of the tick
before it is done. The windows of two ticks never overlap and a window holds at most one
instant, so no instant is fired twice; what lies between two windows is never fired at all.
-/
namespace Workflow

open Lib Nostr Relay

/-! ### Windows -/

section

variable {crates : Crates} {expr : String} {schedule : crates.Schedule} {instants : Set Int}

/-- Instants are at least a minute apart. -/
def Spaced (instants : Set Int) : Prop :=
  ∀ i ∈ instants, ∀ j ∈ instants, i < j → i + seconds 60 ≤ j

/-- A tick fires for the instant in its window. -/
theorem cronFireInstant_eq_some_iff (parsed : crates.parseSchedule (normalizeCron expr) = some schedule)
    (yields : crates.Yields schedule instants) (spaced : Spaced instants) {now i : Int} :
    cronFireInstant crates expr now 60 = some i ↔
      i ∈ instants ∧ now - seconds 60 < i ∧ i ≤ now := by
  simp only [cronFireInstant, parsed, Option.filter_eq_some_iff, decide_eq_true_eq]
  constructor
  · rintro ⟨found, before⟩
    obtain ⟨member, later⟩ := yields.mem _ _ found
    exact ⟨member, later, before⟩
  · rintro ⟨member, later, before⟩
    refine ⟨?_, before⟩
    cases next : crates.after schedule (now - seconds 60) with
    | none => exact absurd (yields.exhausted _ next i member) (by omega)
    | some j =>
      -- An earlier instant in the window would be less than a minute before this one.
      obtain ⟨member', later'⟩ := yields.mem _ _ next
      have first := yields.first _ _ next i member later
      rcases first.lt_or_eq with earlier | rfl
      · have apart := spaced j member' i member earlier
        omega
      · rfl

end

/-! ### Ticks -/

/-- The loop sleeps for 60 seconds after at most a second of work. -/
def Ticking (ticks : List Int) : Prop :=
  ticks.IsChain fun t t' => t + seconds 60 ≤ t' ∧ t' ≤ t + seconds 61

/-- No instant lies after a tick and before the window of the next one. -/
def Gapless (instants : Set Int) (ticks : List Int) : Prop :=
  ticks.IsChain fun t t' => ∀ i ∈ instants, t < i → t' - seconds 60 < i

/-- The ticks whose window holds the instant. -/
def hits (i : Int) (ticks : List Int) : List Int :=
  ticks.filter fun now => now - seconds 60 < i ∧ i ≤ now

theorem Ticking.later {first : Int} {rest : List Int} (ticking : Ticking (first :: rest)) :
    ∀ t ∈ rest, first + seconds 60 ≤ t := by
  induction rest generalizing first with
  | nil => exact nofun
  | cons next rest ih =>
    obtain ⟨step, ticking'⟩ := List.isChain_cons_cons.mp ticking
    intro t member
    rcases List.mem_cons.mp member with rfl | member
    · exact step.1
    · have onward := ih ticking' t member
      unfold seconds at *
      omega

theorem Ticking.first_le {first : Int} {rest : List Int} (ticking : Ticking (first :: rest)) :
    ∀ t ∈ first :: rest, first ≤ t := by
  intro t member
  rcases List.mem_cons.mp member with rfl | member
  · exact le_rfl
  · have later := ticking.later t member
    unfold seconds at later
    omega

theorem Ticking.le_getLast {first : Int} {rest : List Int} (ticking : Ticking (first :: rest)) :
    ∀ t ∈ first :: rest, t ≤ (first :: rest).getLast (List.cons_ne_nil _ _) := by
  induction rest generalizing first with
  | nil => simp
  | cons next rest ih =>
    have last := ih (List.isChain_cons_cons.mp ticking).2
    intro t member
    rcases List.mem_cons.mp member with rfl | member
    · have from_first := ticking.first_le next (by simp)
      have onward := last next (by simp)
      rw [List.getLast_cons (List.cons_ne_nil _ _)]
      omega
    · rw [List.getLast_cons (List.cons_ne_nil _ _)]
      exact last t member

private theorem hits_eq_nil {i first : Int} {rest : List Int} (ticking : Ticking (first :: rest))
    (before : i ≤ first) : hits i rest = [] := by
  rw [hits, List.filter_eq_nil_iff]
  intro t member
  have later := ticking.later t member
  simp only [decide_eq_true_eq, not_and]
  omega

/-- An instant between the first and the last tick is in the window of exactly one tick, unless
it lies between two windows. -/
theorem length_hits_eq_one_iff {i first : Int} {rest : List Int}
    (ticking : Ticking (first :: rest)) (after : first < i)
    (before : i ≤ (first :: rest).getLast (List.cons_ne_nil _ _)) :
    (hits i (first :: rest)).length = 1 ↔
      (first :: rest).IsChain fun t t' => t < i → t' - seconds 60 < i := by
  have missed : hits i (first :: rest) = hits i rest := by
    rw [hits, List.filter_cons_of_neg (by simp only [decide_eq_true_eq, not_and]; omega), hits]
  rw [missed]
  induction rest generalizing first with
  | nil => exact absurd before (by simpa using after)
  | cons next rest ih =>
    have ticking' : Ticking (next :: rest) := (List.isChain_cons_cons.mp ticking).2
    rw [List.isChain_cons_cons]
    by_cases reached : i ≤ next
    · -- The instant is due at the next tick, and no later window reaches back to it.
      have quiet : (next :: rest).IsChain fun t t' => t < i → t' - seconds 60 < i := by
        apply List.IsChain.imp_of_mem_imp _ ticking'
        intro t t' member _ _ earlier
        have from_next : next ≤ t := ticking'.first_le t member
        omega
      have later : hits i rest = [] := hits_eq_nil ticking' reached
      by_cases inside : next - seconds 60 < i
      · have hit : hits i (next :: rest) = [next] := by
          rw [hits, List.filter_cons_of_pos (by simpa using ⟨inside, reached⟩)]
          exact congrArg _ later
        simp [hit, inside, quiet]
      · have miss : hits i (next :: rest) = [] := by
          rw [hits, List.filter_cons_of_neg (by simp [inside])]
          exact later
        simp [miss, inside, after]
    · -- The instant is after the next tick: go on from there.
      have missed' : hits i (next :: rest) = hits i rest := by
        rw [hits, List.filter_cons_of_neg (by simp [reached]), hits]
      have passed : first < i → next - seconds 60 < i := by
        unfold seconds
        omega
      have onward := ih ticking' (by omega) (by simpa using before) missed'
      rw [missed']
      exact onward.trans ⟨fun chain => ⟨passed, chain⟩, fun chain => chain.2⟩

/-- Every instant of the schedule after the first tick and up to the last one is in the window
of exactly one tick if and only if none lies between two windows. -/
theorem all_hit_once_iff {instants : Set Int} {first : Int} {rest : List Int}
    (ticking : Ticking (first :: rest)) :
    (∀ i ∈ instants, first < i → i ≤ (first :: rest).getLast (List.cons_ne_nil _ _) →
      (hits i (first :: rest)).length = 1) ↔ Gapless instants (first :: rest) := by
  constructor
  · intro once
    have each (i : Int) (member : i ∈ instants) :
        (first :: rest).IsChain fun t t' => t < i → t' - seconds 60 < i := by
      by_cases after : first < i
      · by_cases before : i ≤ (first :: rest).getLast (List.cons_ne_nil _ _)
        · exact (length_hits_eq_one_iff ticking after before).mp (once i member after before)
        · -- After the last tick, no window is missed yet.
          apply List.IsChain.imp_of_mem_imp _ ticking
          intro t t' _ member' _ _
          have last := ticking.le_getLast t' member'
          unfold seconds
          omega
      · apply List.IsChain.imp_of_mem_imp _ ticking
        intro t t' member _ _ earlier
        have from_first := ticking.first_le t member
        omega
    rw [Gapless, List.isChain_iff_getElem]
    intro k bound i member
    exact List.isChain_iff_getElem.mp (each i member) k bound
  · intro gapless i member after before
    rw [length_hits_eq_one_iff ticking after before]
    exact List.IsChain.imp (fun _ _ gap => gap i member) gapless

/-! ### Runs

One engine, whose database does not fail. -/

/-- The loop of one engine over the times of its ticks. -/
def execute (crates : Crates) (newId : State Unit → Uuid) (ticks : List Int) (s : State Unit) :
    State Unit :=
  ticks.foldl (fun s now => ((tick crates now).eval (serve newId) (s.wake () now)).2) s
where
  /-- Every call succeeds. -/
  serve (newId : State Unit → Uuid) (op : Op) (s : State Unit) : Reply op × State Unit :=
    State.perform () { runId := newId s } s op

/-- The instants of a workflow that were claimed. -/
def State.firesOf {ι : Type} (s : State ι) (key : WorkflowKey) : List Int :=
  (s.fires.filter (·.key = key)).map Fire.scheduledFor

/-- What the runs of a workflow were created for. -/
def State.runsOf {ι : Type} (s : State ι) (key : WorkflowKey) : List (Option Int) :=
  (s.runs.filter (·.key = key)).map Run.firedFor

/-- What a visit to one workflow leaves alone in all others. -/
structure View where
  workflows : Workflows
  roles : CommunityId → Uuid → List UInt8 → Option String
  fires : List Int
  runs : List (Option Int)

def State.view {ι : Type} (s : State ι) (key : WorkflowKey) : View :=
  ⟨s.workflows, s.roles, s.firesOf key, s.runsOf key⟩

/-- A claim and its run, unless the claim was made before. -/
def View.fire (v : View) (i : Int) : View :=
  if i ∈ v.fires then v else { v with fires := v.fires ++ [i], runs := v.runs ++ [some i] }

section

variable (newId : State Unit → Uuid) {key : WorkflowKey}

private theorem view_attach (s : State Unit) (k : WorkflowKey) (instant : Int) (runId : Uuid) :
    (s.attach k instant runId).view key = s.view key := by
  have kept : (s.attach k instant runId).firesOf key = s.firesOf key := by
    simp [State.firesOf, State.attach, List.filter_map, Function.comp_def]
  simp only [State.view, kept]
  rfl

private theorem view_apart (op : Op) (apart : op.Apart key) (s : State Unit) :
    (execute.serve newId op s).2.view key = s.view key := by
  cases op with
  | listAllEnabledWorkflows => rfl
  | setLastFired k t => rfl
  | retainLastFired active => rfl
  | latestScheduledWorkflowFire k => rfl
  | getMemberRole communityId channelId pubkey => rfl
  | attachScheduledWorkflowRun k instant runId => exact view_attach s k instant runId
  | getLastFired k =>
    simp only [execute.serve, State.perform]
    split
    next => rfl
    next => rfl
  | claimScheduledWorkflowFire k instant =>
    have other : k ≠ key := apart
    simp only [execute.serve, State.perform, State.claim]
    split
    next => simp [State.orFail, State.view, State.firesOf, State.runsOf, State.onPod, other]
    next => rfl
  | createWorkflowRun k context =>
    have other : k ≠ key := apart
    simp [execute.serve, State.perform, State.orFail, State.view, State.firesOf, State.runsOf,
      other]

private theorem claimed_iff (s : State Unit) (i : Int) :
    s.Claimed key i ↔ i ∈ s.firesOf key := by
  simp only [State.Claimed, State.firesOf, List.mem_map, List.mem_filter, decide_eq_true_eq,
    and_assoc]

private theorem view_fire {s : State Unit} {w : WorkflowRecord} (exists_ : w ∈ s.workflows.rows)
    (channelId : Uuid) (now i : Int) :
    ((fire w.key channelId now i .cron).eval (execute.serve newId) s).2.view w.key =
      (s.view w.key).fire i := by
  let tried := s.onPod () fun p => { p with attempts := p.attempts ++ [(w.key, i)] }
  have same : tried.Claimed w.key i ↔ i ∈ s.firesOf w.key := claimed_iff tried i
  have known : ∃ w' ∈ tried.workflows.rows, w'.key = w.key := ⟨w, exists_, rfl⟩
  by_cases before : i ∈ s.firesOf w.key
  · -- The conflict does nothing, and a cron trigger has no clock to advance.
    have lost : execute.serve newId (.claimScheduledWorkflowFire w.key i) s = (.ok none, tried) := by
      have refused : tried.claim () w.key i = (none, tried) := if_neg (by simp [same, before])
      simp only [execute.serve, State.perform]
      rw [refused]
      rfl
    have unchanged : (s.view w.key).fire i = s.view w.key := if_pos before
    rw [fire, Prog.eval_ask_bind, lost, unchanged]
    rfl
  · let row : Fire Unit := ⟨w.key, i, none, ()⟩
    let claimed : State Unit := { tried with fires := tried.fires ++ [row] }
    let won := claimed.onPod () fun p => { p with won := some i }
    have served : execute.serve newId (.claimScheduledWorkflowFire w.key i) s =
        (.ok (some ()), won) := by
      have accepted : tried.claim () w.key i = (some (), claimed) :=
        if_pos ⟨known, by simp [same, before]⟩
      simp only [execute.serve, State.perform]
      rw [accepted]
      rfl
    have added : (s.view w.key).fire i = { s.view w.key with
        fires := s.firesOf w.key ++ [i], runs := s.runsOf w.key ++ [some i] } := if_neg before
    rw [fire, Prog.eval_ask_bind, served, added]
    -- The run is created for the claim that was just won, and then attached to it.
    refine (view_attach _ w.key i _).trans ?_
    simp [execute.serve, State.perform, State.orFail, State.view, State.firesOf, State.runsOf,
      State.onPod, claimed, won, tried, row]

private theorem eval_checkOwnerAuthority {s : State Unit} {communityId : CommunityId}
    {channelId : Uuid} {ownerPubkey : List UInt8} {d : WorkflowDef}
    (allowed : ownerAuthorityAllows (s.roles communityId channelId ownerPubkey)
      d.requiresElevatedAuthority = true) :
    (checkOwnerAuthority communityId channelId ownerPubkey d).eval (execute.serve newId) s =
      (.ok (), s) := by
  rw [checkOwnerAuthority, Prog.eval_ask_bind]
  simp only [execute.serve, State.perform, State.orFail, allowed, if_true]
  rfl

/-- The workflow is listed with a cron expression, and its owner may run it. -/
structure CronWorkflow (crates : Crates) (w : WorkflowRecord) (expr : String) (v : View) : Prop where
  listed : w ∈ v.workflows.listed
  runnable : ∃ d channelId, crates.fromValue w.definition = some d ∧ d.enabled = true ∧
    d.trigger = .schedule (some expr) none ∧ w.channelId = some channelId ∧
    ownerAuthorityAllows (v.roles w.communityId channelId w.ownerPubkey)
      d.requiresElevatedAuthority = true

/-- The instant of a tick, if it fires. -/
def View.tick (v : View) (instant : Option Int) : View :=
  match instant with
  | some i => v.fire i
  | none => v

variable {crates : Crates} {w : WorkflowRecord} {expr : String}

theorem view_visit {s : State Unit} (cron : CronWorkflow crates w expr (s.view w.key)) (now : Int) :
    ((visit crates now w).eval (execute.serve newId) s).2.view w.key =
      (s.view w.key).tick (cronFireInstant crates expr now 60) := by
  obtain ⟨d, channelId, decoded, enabled, trigger, channel, allowed⟩ := cron.runnable
  have exists_ : w ∈ s.workflows.rows := List.mem_of_mem_filter (List.mem_of_mem_take cron.listed)
  simp only [visit, decoded, enabled, channel, trigger, scheduledFor, if_true]
  cases due : cronFireInstant crates expr now 60 with
  | none => rfl
  | some i =>
    have authorised := eval_checkOwnerAuthority newId allowed
    change (((checkOwnerAuthority w.communityId channelId w.ownerPubkey d) >>= _).eval
      (execute.serve newId) s).2.view w.key = _
    rw [Prog.eval_bind, authorised]
    exact view_fire newId exists_ channelId now i

private theorem view_visit_apart {w' : WorkflowRecord} (other : w'.key ≠ key) (now : Int)
    (s : State Unit) :
    ((visit crates now w').eval (execute.serve newId) s).2.view key = s.view key :=
  (visit_apart other crates now).eval_eq (State.view · key) (view_apart newId) s

private theorem view_visitAll_apart {ws : List WorkflowRecord} (others : ∀ w' ∈ ws, w'.key ≠ key)
    (now : Int) (s : State Unit) :
    ((visitAll crates now ws).eval (execute.serve newId) s).2.view key = s.view key := by
  induction ws generalizing s with
  | nil => rfl
  | cons w' ws ih =>
    rw [visitAll, Prog.eval_bind, ih fun w member => others w (List.mem_cons_of_mem _ member)]
    exact view_visit_apart newId (others w' (by simp)) now s

/-- A visit to all workflows does for each of them what the visit to it does. -/
private theorem view_visitAll {ws : List WorkflowRecord}
    (unique : (ws.map WorkflowRecord.key).Nodup) (member : w ∈ ws) {s : State Unit}
    (cron : CronWorkflow crates w expr (s.view w.key)) (now : Int) :
    ((visitAll crates now ws).eval (execute.serve newId) s).2.view w.key =
      (s.view w.key).tick (cronFireInstant crates expr now 60) := by
  induction ws generalizing s with
  | nil => cases member
  | cons w' ws ih =>
    obtain ⟨fresh, unique'⟩ := List.nodup_cons.mp unique
    rw [visitAll, Prog.eval_bind]
    rcases List.mem_cons.mp member with rfl | member
    · -- The others in the list have other keys.
      have others : ∀ w' ∈ ws, w'.key ≠ w.key := fun w' member' same =>
        fresh (List.mem_map.mpr ⟨w', member', same⟩)
      rw [view_visitAll_apart newId others]
      exact view_visit newId cron now
    · have other : w'.key ≠ w.key := fun same => fresh (List.mem_map.mpr ⟨w, member, same.symm⟩)
      have kept : ((visit crates now w').eval (execute.serve newId) s).2.view w.key =
          s.view w.key := view_visit_apart newId other now s
      rw [ih unique' member (by rw [kept]; exact cron), kept]

theorem listed_unique (table : Workflows) : (table.listed.map WorkflowRecord.key).Nodup := by
  refine List.Nodup.sublist ?_ table.unique
  exact ((List.take_sublist _ _).trans List.filter_sublist).map _

theorem view_tick {s : State Unit} (cron : CronWorkflow crates w expr (s.view w.key)) (now : Int) :
    ((tick crates now).eval (execute.serve newId) (s.wake () now)).2.view w.key =
      (s.view w.key).tick (cronFireInstant crates expr now 60) := by
  have awake : CronWorkflow crates w expr ((s.wake () now).view w.key) := cron
  rw [tick, Prog.eval_ask_bind]
  change ((visitAll crates now s.workflows.listed >>= fun _ =>
    ask (.retainLastFired (s.workflows.listed.map WorkflowRecord.key))).eval (execute.serve newId)
      (s.wake () now)).2.view w.key = _
  rw [Prog.eval_bind]
  exact view_visitAll newId (listed_unique s.workflows) cron.listed awake now

private theorem CronWorkflow.tick {v : View} (cron : CronWorkflow crates w expr v)
    (instant : Option Int) : CronWorkflow crates w expr (v.tick instant) := by
  have kept : (v.tick instant).workflows = v.workflows ∧ (v.tick instant).roles = v.roles := by
    cases instant with
    | none => exact ⟨rfl, rfl⟩
    | some i =>
      rw [View.tick, View.fire]
      split
      next => exact ⟨rfl, rfl⟩
      next => exact ⟨rfl, rfl⟩
  exact ⟨by rw [kept.1]; exact cron.listed, by rw [kept.2]; exact cron.runnable⟩

/-- The runs of an engine depend on what its ticks fire for, and on nothing else. -/
theorem view_execute {s : State Unit} (cron : CronWorkflow crates w expr (s.view w.key))
    (ticks : List Int) :
    (execute crates newId ticks s).view w.key =
      ticks.foldl (fun v now => v.tick (cronFireInstant crates expr now 60)) (s.view w.key) := by
  induction ticks generalizing s with
  | nil => rfl
  | cons now ticks ih =>
    have step := view_tick newId cron now
    rw [execute, List.foldl_cons, List.foldl_cons, ← step]
    exact ih (by rw [step]; exact cron.tick _)

/-- A claimed instant has one run, and an instant that is not claimed has none. -/
def View.Once (v : View) (i : Int) : Prop := v.runs.count (some i) = if i ∈ v.fires then 1 else 0

theorem View.Once.tick {v : View} {i : Int} (once : v.Once i) (instant : Option Int) :
    (v.tick instant).Once i ∧ (i ∈ (v.tick instant).fires ↔ i ∈ v.fires ∨ instant = some i) := by
  cases instant with
  | none => exact ⟨once, by simp [View.tick]⟩
  | some j =>
    rw [View.tick, View.fire]
    split
    next before =>
      refine ⟨once, ⟨Or.inl, ?_⟩⟩
      rintro (member | same)
      · exact member
      · exact Option.some.inj same ▸ before
    next fresh =>
      refine ⟨?_, by simp [eq_comm]⟩
      unfold View.Once at once ⊢
      by_cases same : j = i
      · subst same
        simp [List.count_append, once, fresh]
      · simp [List.count_append, once, same, Ne.symm same]

theorem View.Once.ticks {v : View} {i : Int} (once : v.Once i) (instants : List (Option Int)) :
    (instants.foldl View.tick v).Once i ∧
      (i ∈ (instants.foldl View.tick v).fires ↔ i ∈ v.fires ∨ some i ∈ instants) := by
  induction instants generalizing v with
  | nil => exact ⟨once, by simp⟩
  | cons instant instants ih =>
    obtain ⟨once', fires⟩ := once.tick instant
    obtain ⟨last, fires'⟩ := ih once'
    refine ⟨last, fires'.trans ?_⟩
    rw [fires, List.mem_cons, or_assoc, eq_comm (a := instant)]

end

/-! ### Every instant once -/

/-- The workflow has no claim and no run yet for an instant after this moment. -/
def State.Unfired {ι : Type} (s : State ι) (key : WorkflowKey) (t : Int) : Prop :=
  ∀ i, t < i → i ∉ s.firesOf key ∧ some i ∉ s.runsOf key

/-- Every instant after the first tick and up to the last one is returned at exactly one tick,
and exactly one run is created for it, if and only if no instant lies after a tick and at least
60 seconds before the next one. -/
theorem fires_once_iff_gapless {crates : Crates} {expr : String} {schedule : crates.Schedule}
    {instants : Set Int} {w : WorkflowRecord} {s : State Unit} {newId : State Unit → Uuid}
    {first : Int} {rest : List Int}
    (parsed : crates.parseSchedule (normalizeCron expr) = some schedule)
    (yields : crates.Yields schedule instants) (spaced : Spaced instants)
    (cron : CronWorkflow crates w expr (s.view w.key)) (unfired : s.Unfired w.key first)
    (ticking : Ticking (first :: rest)) :
    (∀ i ∈ instants, first < i → i ≤ (first :: rest).getLast (List.cons_ne_nil _ _) →
      ((first :: rest).filter fun now => cronFireInstant crates expr now 60 = some i).length = 1 ∧
        ((execute crates newId (first :: rest) s).runsOf w.key).count (some i) = 1) ↔
      Gapless instants (first :: rest) := by
  rw [← all_hit_once_iff ticking]
  have returned (i : Int) (member : i ∈ instants) :
      ((first :: rest).filter fun now => cronFireInstant crates expr now 60 = some i) =
        hits i (first :: rest) := by
    apply List.filter_congr
    intro now _
    simp [cronFireInstant_eq_some_iff parsed yields spaced, member]
  constructor
  · intro once i member after before
    rw [← returned i member]
    exact (once i member after before).1
  · intro once i member after before
    have hit := once i member after before
    refine ⟨by rw [returned i member]; exact hit, ?_⟩
    -- Some tick returns the instant, and the first one that does creates its run.
    have start : (s.view w.key).Once i := by
      have fresh := unfired i after
      simp [View.Once, State.view, List.count_eq_zero_of_not_mem fresh.2, fresh.1]
    have final := view_execute newId cron (first :: rest)
    rw [← List.foldl_map (f := fun now => cronFireInstant crates expr now 60) (g := View.tick)] at final
    obtain ⟨last, fired⟩ := start.ticks
      ((first :: rest).map fun now => cronFireInstant crates expr now 60)
    have due : some i ∈ (first :: rest).map fun now => cronFireInstant crates expr now 60 := by
      obtain ⟨now, only⟩ := List.length_eq_one_iff.mp hit
      have now_mem : now ∈ hits i (first :: rest) := by simp [only]
      rw [← returned i member, List.mem_filter] at now_mem
      exact List.mem_map.mpr ⟨now, now_mem.1, by simpa using now_mem.2⟩
    have count := last
    rw [View.Once, ← final, if_pos (by rw [final]; exact fired.mpr (Or.inr due))] at count
    exact count

/-! ### A workflow that runs every minute -/

namespace Sample

def definition : WorkflowDef := ⟨.schedule (some "* * * * *") none, [.sendMessage], true⟩

/-- Crates that know one cron expression and one definition. -/
def crates : Crates where
  Schedule := Unit
  parseSchedule text := if text = "0 * * * * * *" then some () else none
  after _ t := some (seconds ((t / seconds 60 + 1) * 60))
  fromValue _ := some definition

def minutely : WorkflowRecord where
  communityId := ⟨⟨1⟩⟩
  id := ⟨2⟩
  ownerPubkey := []
  channelId := some ⟨3⟩
  definition := .obj [("trigger", .obj [("on", .str "schedule")])]

def state : State Unit where
  workflows := ⟨[minutely], by simp⟩
  roles _ _ _ := some "member"

/-- The full minutes. -/
def minutes : Set Int := { i | 60000000000 ∣ i }

theorem yields_minutes : crates.Yields () minutes where
  mem t i found := by
    obtain rfl := Option.some.inj found
    simp only [minutes, Set.mem_ofPred_eq, seconds]
    omega
  first t i found j member after := by
    obtain rfl := Option.some.inj found
    simp only [minutes, Set.mem_ofPred_eq] at member
    simp only [seconds]
    omega
  exhausted t found := by cases found

theorem spaced_minutes : Spaced minutes := by
  intro i member j member' earlier
  simp only [minutes, Set.mem_ofPred_eq] at member member'
  simp only [seconds]
  omega

theorem cronWorkflow_minutely : CronWorkflow crates minutely "* * * * *" (state.view minutely.key) where
  listed := by
    have only : state.workflows.listed = [minutely] := rfl
    exact only ▸ List.mem_singleton_self minutely
  runnable := ⟨definition, ⟨3⟩, rfl, rfl, rfl, rfl, rfl⟩

theorem unfired_state (t : Int) : state.Unfired minutely.key t :=
  fun _ _ => ⟨List.not_mem_nil, List.not_mem_nil⟩

end Sample

/-- Ticks that drift by a second and by half a second, with full minutes in their windows. -/
theorem fires_once_drifting :
    Ticking [seconds 10, seconds 71, seconds 131 + 500000000] ∧
      ∀ i ∈ Sample.minutes, seconds 10 < i → i ≤ seconds 131 + 500000000 →
        (([seconds 10, seconds 71, seconds 131 + 500000000].filter fun now =>
          cronFireInstant Sample.crates "* * * * *" now 60 = some i).length = 1 ∧
        ((execute Sample.crates (fun _ => ⟨4⟩) [seconds 10, seconds 71, seconds 131 + 500000000]
          Sample.state).runsOf Sample.minutely.key).count (some i) = 1) := by
  have ticking : Ticking [seconds 10, seconds 71, seconds 131 + 500000000] := by
    simp [Ticking, seconds]
  have gapless : Gapless Sample.minutes [seconds 10, seconds 71, seconds 131 + 500000000] := by
    simp only [Gapless, List.isChain_cons_cons, List.isChain_singleton, and_true, Sample.minutes,
      Set.mem_ofPred_eq, seconds]
    exact ⟨fun i member after => by omega, fun i member after => by omega⟩
  exact ⟨ticking, (fires_once_iff_gapless rfl Sample.yields_minutes Sample.spaced_minutes
    Sample.cronWorkflow_minutely (Sample.unfired_state _) ticking).mpr gapless⟩

/-- A tick at 59.5 seconds and the next one 61 seconds later: the minute between them is never
fired. -/
theorem minute_skipped :
    ¬ ∀ (crates : Crates) (expr : String) (schedule : crates.Schedule) (instants : Set Int)
      (w : WorkflowRecord) (s : State Unit) (newId : State Unit → Uuid) (first : Int)
      (rest : List Int), crates.parseSchedule (normalizeCron expr) = some schedule →
      crates.Yields schedule instants → Spaced instants →
      CronWorkflow crates w expr (s.view w.key) → s.Unfired w.key first →
      Ticking (first :: rest) →
      ∀ i ∈ instants, first < i → i ≤ (first :: rest).getLast (List.cons_ne_nil _ _) →
        ((first :: rest).filter fun now => cronFireInstant crates expr now 60 = some i).length = 1 ∧
          ((execute crates newId (first :: rest) s).runsOf w.key).count (some i) = 1 := by
  intro always
  have once := (always Sample.crates "* * * * *" () Sample.minutes Sample.minutely Sample.state
    (fun _ => ⟨4⟩) (seconds 59 + 500000000) [seconds 120 + 500000000] rfl Sample.yields_minutes
    Sample.spaced_minutes Sample.cronWorkflow_minutely (Sample.unfired_state _)
    (by simp [Ticking, seconds]) (seconds 60) ⟨1, rfl⟩ (by decide) (by decide)).1
  revert once
  decide

end Workflow
