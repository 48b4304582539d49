import Buzz.Lib.Transaction

/-!
# Transactions under locks of their own

Each session takes a lock of its own before it reads or writes anything, and two sessions may
have the same one. Sessions with one lock run one after the other; sessions with different
locks run side by side, so what they see must not overlap.

`Server.Apart.refines`: every interleaving is one of calls that run alone. `Apart.inOrder`: run
one by one, in the order of their ends, the calls give the same values and the same database.
-/
namespace Lib

namespace Server

variable {Stmt : Type} {Reply : Stmt → Type} {Lock Change D ι α : Type}

/-- Until it asks for the lock, the transaction reads and writes nothing. -/
inductive Enters (server : Server Stmt Reply Lock Change D) (lock : Lock) :
    Prog Stmt Reply (Ending α) → Prop where
  | refuse (value : α) : Enters server lock (.pure (.rollback value))
  | take {stmt : Stmt} {next : Reply stmt → Prog Stmt Reply (Ending α)}
      (locks : ∀ db, server.lock stmt db = some lock) : Enters server lock (.call stmt next)
  | mute {stmt : Stmt} {next : Reply stmt → Prog Stmt Reply (Ending α)} (reply : Reply stmt)
      (mute : ∀ db, server.exec stmt db = (reply, [])) (later : Enters server lock (next reply)) :
      Enters server lock (.call stmt next)

/-- Sessions with different locks do not see each other. -/
structure Apart (server : Server Stmt Reply Lock Change D) (lock : ι → Lock)
    (body : ι → Prog Stmt Reply (Ending α)) (P : ι → Stmt → Prop) (agree : ι → D → D → Prop)
    (good : D → Prop) : Prop where
  enters : ∀ i, server.Enters (lock i) (body i)
  calls : ∀ i, (body i).Calls (P i)
  isolated : ∀ i, server.Isolated (P i) (agree i)
  /-- A call that runs alone keeps the database in order. -/
  keeps : ∀ i db value db', good db → (body i).eval server.serve db = (.commit value, db') → good db'
  foreign : ∀ i j, lock i ≠ lock j → ∀ db value db', good db →
    (body j).eval server.serve db = (.commit value, db') → agree i db db'

/-- A session has not read anything yet, or it holds its lock and has run alone so far. -/
def Entered (server : Server Stmt Reply Lock Change D) (lock : ι → Lock)
    (body : ι → Prog Stmt Reply (Ending α)) (s : Sessions Stmt Reply Lock Change D ι α) : Prop :=
  ∀ i rest changes, s.session i = .active rest changes →
    (changes = [] ∧ server.Enters (lock i) rest ∧ ∀ db, server.Ran (body i) db rest []) ∨
      (s.holder (lock i) = some i ∧ server.Ran (body i) s.committed rest changes)

section

variable [DecidableEq ι] [DecidableEq Lock] {server : Server Stmt Reply Lock Change D}
  {lock : ι → Lock} {body : ι → Prog Stmt Reply (Ending α)} {P : ι → Stmt → Prop}
  {agree : ι → D → D → Prop} {good : D → Prop} {s s' : Sessions Stmt Reply Lock Change D ι α}

omit [DecidableEq ι] [DecidableEq Lock] in
theorem entered_init (apart : server.Apart lock body P agree good) (db : D) :
    server.Entered lock body (Sessions.init db body) := by
  intro i rest changes running
  cases running
  exact Or.inl ⟨rfl, apart.enters i, fun _ => .start⟩

omit [DecidableEq ι] in
/-- A statement takes a lock that is free, so nobody loses one. -/
private theorem holder_of_locks {i j : ι} {stmt : Stmt} {seen : D} {held : Lock}
    (locks : (server.lock stmt seen = none ∧ s'.holder = s.holder) ∨
      ∃ lock, server.lock stmt seen = some lock ∧
        (s.holder lock = none ∨ s.holder lock = some i) ∧
        s'.holder = Function.update s.holder lock (some i))
    (holds : s.holder held = some j) : s'.holder held = some j := by
  rcases locks with ⟨-, kept⟩ | ⟨taken, -, available, changed⟩
  · rw [kept, holds]
  · rw [changed]
    by_cases same : held = taken
    · subst same
      rw [Function.update_self]
      rw [holds] at available
      rcases available with free | mine
      · cases free
      · rw [mine]
    · rw [Function.update_of_ne same, holds]

theorem Entered.stmt (entered : server.Entered lock body s) {i : ι} {stmt : Stmt}
    {next : Reply stmt → Prog Stmt Reply (Ending α)} {changes : List Change}
    (was : s.session i = .active (.call stmt next) changes)
    (now : s'.session = Function.update s.session i
      (.active (next (server.exec stmt (server.view s.committed changes)).1)
        (changes ++ (server.exec stmt (server.view s.committed changes)).2)))
    (kept : s'.committed = s.committed)
    (locks : (server.lock stmt (server.view s.committed changes) = none ∧
        s'.holder = s.holder) ∨
      ∃ lock, server.lock stmt (server.view s.committed changes) = some lock ∧
        (s.holder lock = none ∨ s.holder lock = some i) ∧
        s'.holder = Function.update s.holder lock (some i)) :
    server.Entered lock body s' := by
  intro j rest more running
  rw [now] at running
  by_cases same : j = i
  · subst same
    rw [Function.update_self] at running
    cases running
    rcases entered j _ changes was with ⟨rfl, enters, ran⟩ | ⟨mine, ran⟩
    · cases enters with
      | take wanted =>
        -- This is the statement that takes the lock.
        rcases locks with ⟨free, -⟩ | ⟨taken, wanted', -, holder⟩
        · rw [wanted] at free
          cases free
        · rw [wanted] at wanted'
          cases wanted'
          refine Or.inr ⟨by rw [holder, Function.update_self], ?_⟩
          rw [kept]
          exact (ran s.committed).stmt
      | mute reply mute later =>
        refine Or.inl ⟨by rw [mute]; rfl, by rw [mute]; exact later, fun db => ?_⟩
        have ran' := (ran db).stmt
        rw [mute] at ran' ⊢
        exact ran'
    · refine Or.inr ⟨holder_of_locks locks mine, ?_⟩
      rw [kept]
      exact ran.stmt
  · rw [Function.update_of_ne same] at running
    rcases entered j rest more running with waiting | ⟨holds, ran⟩
    · exact Or.inl waiting
    · refine Or.inr ⟨holder_of_locks locks holds, ?_⟩
      rw [kept]
      exact ran

omit [DecidableEq Lock] in
/-- The end of a session: what it publishes is not seen by those that hold other locks. -/
private theorem Entered.close (entered : server.Entered lock body s) {i : ι} {value : Option α}
    {db : D} (unseen : ∀ j rest changes, j ≠ i → s.holder (lock j) = some j →
      server.Ran (body j) s.committed rest changes → server.Ran (body j) db rest changes) :
    server.Entered lock body (s.close i value db) := by
  intro j rest changes running
  have other : j ≠ i := by
    rintro rfl
    simp [Sessions.close] at running
  have before : s.session j = .active rest changes := by
    simpa [Sessions.close, other] using running
  rcases entered j rest changes before with waiting | ⟨holds, ran⟩
  · exact Or.inl waiting
  · exact Or.inr ⟨by simp [Sessions.close, holds, other], unseen j rest changes other holds ran⟩

omit [DecidableEq ι] [DecidableEq Lock] in
/-- A transaction that ends has run alone, and it publishes something only under its lock. -/
private theorem Entered.ended (entered : server.Entered lock body s) {i : ι} {ending : Ending α}
    {changes : List Change} (was : s.session i = .active (.pure ending) changes) :
    (body i).eval server.serve s.committed = (ending, server.view s.committed changes) ∧
      ((∃ value, ending = .rollback value) ∨ s.holder (lock i) = some i) := by
  rcases entered i _ changes was with ⟨rfl, enters, ran⟩ | ⟨mine, ran⟩
  · cases enters with
    | refuse value => exact ⟨(ran s.committed).eval, Or.inl ⟨value, rfl⟩⟩
  · exact ⟨ran.eval, Or.inr mine⟩

/-- Every interleaving is one of calls that run alone. -/
theorem Apart.refines (apart : server.Apart lock body P agree good)
    (entered : server.Entered lock body s) (inOrder : good s.committed) {turn : Turn ι}
    (stepped : server.step s turn = some s') :
    server.Entered lock body s' ∧ good s'.committed ∧
      server.Atomic body (fun _ _ => False) s.outcomes s'.outcomes := by
  cases stepped_of_step stepped with
  | stmt was now kept locks =>
    refine ⟨entered.stmt was now kept locks, by rw [kept]; exact inOrder, ?_⟩
    rw [outcomes_active was now kept]
    exact .quiet _
  | @ended i ending changes was now =>
    obtain ⟨alone, under⟩ := entered.ended was
    have waiting : s.outcomes.result i = none := by simp [Sessions.outcomes, was, Session.result]
    subst now
    rw [outcomes_close]
    cases ending with
    | rollback value =>
      exact ⟨entered.close fun _ _ _ _ _ ran => ran, inOrder, .ended waiting alone⟩
    | commit value =>
      have mine : s.holder (lock i) = some i := by
        rcases under with ⟨_, different⟩ | mine
        · cases different
        · exact mine
      refine ⟨entered.close fun j rest more other holds ran => ?_,
        apart.keeps i _ value _ inOrder alone, .ended waiting alone⟩
      -- Another session that has read something has another lock.
      have different : lock j ≠ lock i := by
        intro same
        rw [same, mine] at holds
        exact other (Option.some.inj holds).symm
      exact ran.transfer (apart.isolated j) (apart.calls j)
        (apart.foreign j i different _ value _ inOrder alone)
  | @failed i rest changes was now =>
    subst now
    refine ⟨entered.close fun _ _ _ _ _ ran => ran, inOrder, ?_⟩
    rw [outcomes_close]
    exact .failed (by simp [Sessions.outcomes, was, Session.result])

end

/-! ### The order of the calls -/

section

variable (server : Server Stmt Reply Lock Change D) (body : ι → Prog Stmt Reply (Ending α))

/-- The database after a call that ran alone. -/
def after (db : D) (i : ι) : D :=
  match (body i).eval server.serve db with
  | (.commit _, db') => db'
  | (.rollback _, _) => db

/-- The value of a call that runs alone. -/
def answer (db : D) (i : ι) : α := ((body i).eval server.serve db).1.value

/-- The calls that have ended are those of the list, and run alone in its order they give the same
values and the same database. -/
structure InOrder (start : D) (c : Outcomes D ι α) (order : List ι) : Prop where
  nodup : order.Nodup
  ended : ∀ i, i ∈ order ↔ ∃ value, c.result i = some (some value)
  db : c.db = order.foldl (server.after body) start
  value : ∀ earlier i later, order = earlier ++ i :: later →
    c.result i = some (some (server.answer body (earlier.foldl (server.after body) start) i))

variable {server body} [DecidableEq ι] {start : D} {c c' : Outcomes D ι α} {order : List ι}

omit [DecidableEq ι] in
theorem inOrder_init (db : D) :
    server.InOrder body db (Sessions.init db body : Sessions Stmt Reply Lock Change D ι α).outcomes
      [] where
  nodup := List.nodup_nil
  ended i := by simp [Sessions.outcomes, Sessions.init, Session.result]
  db := rfl
  value earlier i later same := by simp at same

/-- A call that ends comes last. -/
private theorem InOrder.ended_last (inOrder : server.InOrder body start c order) {i : ι}
    (waiting : c.result i = none) :
    server.InOrder body start ⟨server.after body c.db i,
      Function.update c.result i (some (some (server.answer body c.db i)))⟩ (order ++ [i]) := by
  have fresh : i ∉ order := by
    rw [inOrder.ended, waiting]
    rintro ⟨value, same⟩
    cases same
  refine ⟨?_, fun j => ?_, ?_, fun earlier j later split => ?_⟩
  · refine List.nodup_append.mpr ⟨inOrder.nodup, List.pairwise_singleton _ i, ?_⟩
    rintro j member _ single rfl
    rw [List.mem_singleton.mp single] at member
    exact fresh member
  · rw [List.mem_append, inOrder.ended, List.mem_singleton]
    by_cases same : j = i
    · subst same
      simp
    · simp [same]
  · rw [List.foldl_append, ← inOrder.db, List.foldl_cons, List.foldl_nil]
  · dsimp only
    rcases List.append_eq_append_iff.mp split with ⟨middle, rfl, tail⟩ | ⟨middle, whole, tail⟩
    · -- The last entry of the list is `i`, and what comes before it is the old order.
      cases middle with
      | nil =>
        obtain ⟨rfl, rfl⟩ := List.cons.inj tail
        rw [List.append_nil, ← inOrder.db, Function.update_self]
      | cons first rest => simp at tail
    · cases middle with
      | nil =>
        obtain ⟨rfl, -⟩ := List.cons.inj tail
        rw [List.append_nil] at whole
        rw [← whole, ← inOrder.db, Function.update_self]
      | cons first rest =>
        obtain ⟨rfl, -⟩ := List.cons.inj tail
        have other : j ≠ i := by
          rintro rfl
          exact fresh (by simp [whole])
        rw [Function.update_of_ne other]
        exact inOrder.value earlier j rest whole

theorem InOrder.atomic (inOrder : server.InOrder body start c order)
    (step : server.Atomic body (fun _ _ => False) c c') :
    ∃ later, later.length ≤ 1 ∧ server.InOrder body start c' (order ++ later) := by
  cases step with
  | quiet => exact ⟨[], by simp, by rwa [List.append_nil]⟩
  | @ended i ending db waiting alone =>
    refine ⟨[i], by simp, ?_⟩
    have last := inOrder.ended_last waiting
    rw [after, answer, alone] at last
    cases ending with
    | commit value => exact last
    | rollback value => exact last
  | @failed i waiting =>
    refine ⟨[], by simp, ?_⟩
    rw [List.append_nil]
    have result (j : ι) (value : α) : Function.update c.result i (some none) j = some (some value) ↔
        c.result j = some (some value) := by
      by_cases same : j = i
      · subst same
        simp [waiting]
      · rw [Function.update_of_ne same]
    exact {
      nodup := inOrder.nodup
      ended := fun j => (inOrder.ended j).trans (exists_congr fun value => (result j value).symm)
      db := inOrder.db
      value := fun earlier j later split =>
        (result j _).mpr (inOrder.value earlier j later split) }
  | others agrees => exact absurd agrees id

end

section

variable [DecidableEq ι] [DecidableEq Lock] {server : Server Stmt Reply Lock Change D}
  {lock : ι → Lock} {body : ι → Prog Stmt Reply (Ending α)} {P : ι → Stmt → Prop}
  {agree : ι → D → D → Prop} {good : D → Prop} {s s' : Sessions Stmt Reply Lock Change D ι α}

/-- The session that the turn brings to its end. -/
def ender (s : Sessions Stmt Reply Lock Change D ι α) : Turn ι → List ι
  | .go i => match s.session i with
    | .active (.pure _) _ => [i]
    | _ => []
  | .fail _ => []

/-- The sessions in the order of their ends. -/
def ends (server : Server Stmt Reply Lock Change D) :
    Sessions Stmt Reply Lock Change D ι α → List (Turn ι) → List ι
  | _, [] => []
  | s, turn :: turns => ender s turn ++ match server.step s turn with
    | none => []
    | some s' => ends server s' turns

omit [DecidableEq Lock] in
private theorem result_close (i : ι) (value : Option α) (db : D) (j : ι) :
    (s.close i value db).outcomes.result j =
      if j = i then some value else s.outcomes.result j := by
  rw [outcomes_close]
  by_cases same : j = i
  · subst same
    simp
  · simp [same]

/-- A turn gives a value to the session that it brings to its end, and to no other. -/
theorem ended_step {turn : Turn ι} (stepped : server.step s turn = some s') (i : ι) :
    (∃ value, s'.outcomes.result i = some (some value)) ↔
      i ∈ ender s turn ∨ ∃ value, s.outcomes.result i = some (some value) := by
  cases turn with
  | fail j =>
    simp only [step] at stepped
    split at stepped
    next => cases stepped
    next rest changes was =>
      cases stepped
      have waiting : s.outcomes.result j = none := by
        simp [Sessions.outcomes, was, Session.result]
      rw [result_close]
      by_cases same : i = j
      · subst same
        simp [ender, waiting]
      · simp [ender, same]
  | go j =>
    simp only [step, go] at stepped
    split at stepped
    next => cases stepped
    next ending changes was =>
      cases stepped
      rw [result_close]
      by_cases same : i = j
      · subst same
        simp [ender, was]
      · simp [ender, was, same]
    next stmt next changes was =>
      have quiet : s'.outcomes.result = s.outcomes.result ∧ ender s (.go j) = [] := by
        refine ⟨?_, by simp [ender, was]⟩
        split at stepped
        next =>
          cases stepped
          exact congrArg Outcomes.result (outcomes_active was rfl rfl)
        next =>
          split at stepped
          next =>
            cases stepped
            exact congrArg Outcomes.result (outcomes_active was rfl rfl)
          next => cases stepped
      simp [quiet]

theorem InOrder.step {start : D} {order : List ι}
    (inOrder : server.InOrder body start s.outcomes order) {turn : Turn ι}
    (stepped : server.step s turn = some s')
    (atomic : server.Atomic body (fun _ _ => False) s.outcomes s'.outcomes) :
    server.InOrder body start s'.outcomes (order ++ ender s turn) := by
  obtain ⟨later, short, inOrder'⟩ := inOrder.atomic atomic
  have apart := List.nodup_append.mp inOrder'.nodup
  -- Both lists hold at most one session, the one that has just got a value.
  have members (i : ι) : i ∈ later ↔ i ∈ ender s turn := by
    have now := (inOrder'.ended i).trans (ended_step stepped i)
    rw [List.mem_append, ← inOrder.ended i] at now
    constructor
    · intro member
      rcases now.mp (Or.inr member) with here | before
      · exact here
      · exact absurd rfl (apart.2.2 i before i member)
    · intro member
      rcases now.mpr (Or.inl member) with before | here
      · obtain ⟨value, was⟩ := (inOrder.ended i).mp before
        cases turn with
        | fail j => simp [ender] at member
        | go j =>
          simp only [ender] at member
          split at member
          next ending changes active =>
            obtain rfl := List.mem_singleton.mp member
            simp [Sessions.outcomes, active, Session.result] at was
          next => cases member
      · exact here
  have single : (ender s turn).length ≤ 1 := by
    cases turn with
    | fail j => simp [ender]
    | go j =>
      rw [ender]
      split <;> simp
  have same : later = ender s turn := by
    generalize ender s turn = last at members single
    cases later with
    | nil =>
      cases last with
      | nil => rfl
      | cons j rest => simpa using (members j).mpr List.mem_cons_self
    | cons i rest =>
      cases last with
      | nil => simpa using (members i).mp List.mem_cons_self
      | cons j rest' =>
        obtain rfl : rest = [] := by simpa using short
        obtain rfl : rest' = [] := by simpa using single
        simpa using (members i).mp List.mem_cons_self
  rwa [← same]

/-- Whatever the interleaving, the calls that have ended look as if they had run one by one in the
order of their ends. -/
theorem Apart.inOrder (apart : server.Apart lock body P agree good) {start : D}
    (fine : good start) {turns : List (Turn ι)}
    (ran : server.run (Sessions.init start body) turns = some s) :
    server.InOrder body start s.outcomes (server.ends (Sessions.init start body) turns) := by
  -- One turn at a time, with the order that the turns so far have given.
  have along : ∀ (turns : List (Turn ι)) (s s' : Sessions Stmt Reply Lock Change D ι α)
      (order : List ι), server.Entered lock body s → good s.committed →
      server.InOrder body start s.outcomes order → server.run s turns = some s' →
      server.InOrder body start s'.outcomes (order ++ server.ends s turns) := by
    intro turns
    induction turns with
    | nil =>
      rintro s s' order - - ordered ran
      obtain rfl : s = s' := by simpa [run] using ran
      rwa [ends, List.append_nil]
    | cons turn turns ih =>
      rintro s s' order entered kept ordered ran
      obtain ⟨middle, stepped, later⟩ : ∃ middle, server.step s turn = some middle ∧
          server.run middle turns = some s' := by
        simpa [run, List.foldlM_cons, Option.bind_eq_some_iff] using ran
      obtain ⟨entered', kept', atomic⟩ := apart.refines entered kept stepped
      have rest := ih middle s' _ entered' kept' (ordered.step stepped atomic) later
      rw [ends, stepped, ← List.append_assoc]
      exact rest
  exact along turns _ s [] (entered_init apart start) fine (inOrder_init start) ran

omit [DecidableEq ι] [DecidableEq Lock] in

end

end Server

end Lib
