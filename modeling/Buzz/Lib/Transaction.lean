import Buzz.Lib.Prog
import Mathlib.Logic.Relation

/-!
# Transactions

Sessions that run one transaction each against a shared database. A statement sees the
committed state with the changes of its own transaction over it; it may have to wait for a
lock, which the session then keeps until its transaction ends. A commit publishes the changes
of the transaction at once. A session can fail at any moment, and then nothing of it remains.

`Server.refines` is the reason to hold one lock during a whole transaction: whatever the
interleaving, the calls that start with that lock look as if each had run alone, at the moment
it ended.
-/
namespace Lib

/-- How a transaction ends, with the value that its caller gets. -/
inductive Ending (α : Type) where
  | commit (value : α)
  | rollback (value : α)
deriving DecidableEq

def Ending.value {α : Type} : Ending α → α
  | .commit value => value
  | .rollback value => value

def Ending.map {α β : Type} (f : α → β) : Ending α → Ending β
  | .commit value => .commit (f value)
  | .rollback value => .rollback (f value)

/-- A database server. In the state that it sees, a statement waits for a lock, or for none,
gives a reply and makes changes. -/
structure Server (Stmt : Type) (Reply : Stmt → Type) (Lock Change D : Type) where
  lock : Stmt → D → Option Lock
  exec : (stmt : Stmt) → D → Reply stmt × List Change
  apply : D → Change → D

inductive Session (Stmt : Type) (Reply : Stmt → Type) (Change α : Type) where
  /-- What is left of the transaction, and its changes so far. -/
  | active (rest : Prog Stmt Reply (Ending α)) (changes : List Change)
  /-- The value of the call, or none when it failed. -/
  | closed (value : Option α)

structure Sessions (Stmt : Type) (Reply : Stmt → Type) (Lock Change D ι α : Type) where
  committed : D
  holder : Lock → Option ι
  session : ι → Session Stmt Reply Change α

/-- A session goes on with its next statement or with its end, or it fails. -/
inductive Turn (ι : Type) where
  | go (i : ι)
  | fail (i : ι)
deriving DecidableEq

variable {Stmt : Type} {Reply : Stmt → Type} {Lock Change D ι α : Type}

namespace Session

def result : Session Stmt Reply Change α → Option (Option α)
  | active _ _ => none
  | closed value => some value

end Session

namespace Sessions

/-- Nobody has started. -/
def init (db : D) (body : ι → Prog Stmt Reply (Ending α)) :
    Sessions Stmt Reply Lock Change D ι α where
  committed := db
  holder _ := none
  session i := .active (body i) []

variable [DecidableEq ι]

/-- The session ends and gives its locks back. -/
def close (s : Sessions Stmt Reply Lock Change D ι α) (i : ι) (value : Option α) (db : D) :
    Sessions Stmt Reply Lock Change D ι α where
  committed := db
  holder lock := (s.holder lock).filter (· ≠ i)
  session := Function.update s.session i (.closed value)

end Sessions

namespace Server

variable (server : Server Stmt Reply Lock Change D)

/-- The committed state with changes over it. -/
def view (db : D) (changes : List Change) : D := changes.foldl server.apply db

/-- What is committed once a transaction with these changes has ended. -/
def settle (db : D) (changes : List Change) : Ending α → D
  | .commit _ => server.view db changes
  | .rollback _ => db

/-- The statement with nobody else around. -/
def serve (stmt : Stmt) (db : D) : Reply stmt × D :=
  ((server.exec stmt db).1, server.view db (server.exec stmt db).2)

theorem view_append (db : D) (changes more : List Change) :
    server.view db (changes ++ more) = server.view (server.view db changes) more :=
  List.foldl_append

variable [DecidableEq ι] [DecidableEq Lock]

def go (s : Sessions Stmt Reply Lock Change D ι α) (i : ι) :
    Option (Sessions Stmt Reply Lock Change D ι α) :=
  match s.session i with
  | .closed _ => none
  | .active (.pure ending) changes =>
    some (s.close i (some ending.value) (server.settle s.committed changes ending))
  | .active (.call stmt next) changes =>
    let seen := server.view s.committed changes
    let (reply, more) := server.exec stmt seen
    let session := Function.update s.session i (.active (next reply) (changes ++ more))
    match server.lock stmt seen with
    | none => some { s with session }
    | some lock =>
      if s.holder lock = none ∨ s.holder lock = some i then
        some { s with session, holder := Function.update s.holder lock (some i) }
      else none

def step (s : Sessions Stmt Reply Lock Change D ι α) :
    Turn ι → Option (Sessions Stmt Reply Lock Change D ι α)
  | .go i => server.go s i
  | .fail i =>
    match s.session i with
    | .closed _ => none
    | .active _ _ => some (s.close i none s.committed)

def run (s : Sessions Stmt Reply Lock Change D ι α) (turns : List (Turn ι)) :
    Option (Sessions Stmt Reply Lock Change D ι α) :=
  turns.foldlM server.step s

/-- A move of a session, or of the rest of the system as far as `env` allows it. -/
inductive Moves (env : Sessions Stmt Reply Lock Change D ι α → D → Prop) :
    Sessions Stmt Reply Lock Change D ι α → Sessions Stmt Reply Lock Change D ι α → Prop where
  | turn {s s' : Sessions Stmt Reply Lock Change D ι α} {turn : Turn ι}
      (stepped : server.step s turn = some s') : Moves env s s'
  | others {s : Sessions Stmt Reply Lock Change D ι α} {db : D} (allowed : env s db) :
      Moves env s { s with committed := db }

/-- The states of all interleavings. -/
def Reaches (env : Sessions Stmt Reply Lock Change D ι α → D → Prop) :
    Sessions Stmt Reply Lock Change D ι α → Sessions Stmt Reply Lock Change D ι α → Prop :=
  Relation.ReflTransGen (server.Moves env)

theorem reaches_of_run {env : Sessions Stmt Reply Lock Change D ι α → D → Prop}
    {s s' : Sessions Stmt Reply Lock Change D ι α} {turns : List (Turn ι)}
    (ran : server.run s turns = some s') : server.Reaches env s s' := by
  induction turns generalizing s with
  | nil =>
    obtain rfl : s = s' := by simpa [run] using ran
    exact .refl
  | cons turn turns ih =>
    obtain ⟨middle, stepped, later⟩ : ∃ middle, server.step s turn = some middle ∧
        server.run middle turns = some s' := by
      simpa [run, List.foldlM_cons, Option.bind_eq_some_iff] using ran
    exact .head (.turn stepped) (ih later)

/-! ### What one turn does -/

/-- Everything that a turn can do. -/
inductive Stepped (s s' : Sessions Stmt Reply Lock Change D ι α) : Prop where
  | stmt {i : ι} {stmt : Stmt} {next : Reply stmt → Prog Stmt Reply (Ending α)}
      {changes : List Change} (was : s.session i = .active (.call stmt next) changes)
      (now : s'.session = Function.update s.session i
        (.active (next (server.exec stmt (server.view s.committed changes)).1)
          (changes ++ (server.exec stmt (server.view s.committed changes)).2)))
      (kept : s'.committed = s.committed)
      (locks : (server.lock stmt (server.view s.committed changes) = none ∧
          s'.holder = s.holder) ∨
        ∃ lock, server.lock stmt (server.view s.committed changes) = some lock ∧
          (s.holder lock = none ∨ s.holder lock = some i) ∧
          s'.holder = Function.update s.holder lock (some i))
  | ended {i : ι} {ending : Ending α} {changes : List Change}
      (was : s.session i = .active (.pure ending) changes)
      (now : s' = s.close i (some ending.value) (server.settle s.committed changes ending))
  | failed {i : ι} {rest : Prog Stmt Reply (Ending α)} {changes : List Change}
      (was : s.session i = .active rest changes) (now : s' = s.close i none s.committed)

variable {server} {s s' : Sessions Stmt Reply Lock Change D ι α}

theorem stepped_of_go {i : ι} (gone : server.go s i = some s') : server.Stepped s s' := by
  unfold go at gone
  split at gone
  next => cases gone
  next ending changes was =>
    cases gone
    exact .ended was rfl
  next stmt next changes was =>
    dsimp only at gone
    split at gone
    next free =>
      cases gone
      exact .stmt was rfl rfl (Or.inl ⟨free, rfl⟩)
    next lock wanted =>
      split at gone
      next available =>
        cases gone
        exact .stmt was rfl rfl (Or.inr ⟨lock, wanted, available, rfl⟩)
      next => cases gone

theorem stepped_of_step {turn : Turn ι} (stepped : server.step s turn = some s') :
    server.Stepped s s' := by
  cases turn with
  | go i => exact stepped_of_go stepped
  | fail i =>
    simp only [step] at stepped
    split at stepped
    next => cases stepped
    next rest changes was =>
      cases stepped
      exact .failed was rfl

/-! ### Calls that run alone -/

end Server

/-- The database with the values of the calls that have ended. -/
structure Outcomes (D ι α : Type) where
  db : D
  result : ι → Option (Option α)

def Sessions.outcomes (s : Sessions Stmt Reply Lock Change D ι α) : Outcomes D ι α where
  db := s.committed
  result i := (s.session i).result

namespace Server

variable [DecidableEq ι] (server : Server Stmt Reply Lock Change D)

/-- Each call takes effect at once, when it ends. -/
inductive Atomic (body : ι → Prog Stmt Reply (Ending α)) (agree : D → D → Prop) :
    Outcomes D ι α → Outcomes D ι α → Prop where
  | quiet (c : Outcomes D ι α) : Atomic body agree c c
  | ended {c : Outcomes D ι α} {i : ι} {ending : Ending α} {db : D}
      (waiting : c.result i = none) (alone : (body i).eval server.serve c.db = (ending, db)) :
      Atomic body agree c
        { db := match ending with
            | .commit _ => db
            | .rollback _ => c.db
          result := Function.update c.result i (some (some ending.value)) }
  | failed {c : Outcomes D ι α} {i : ι} (waiting : c.result i = none) :
      Atomic body agree c { c with result := Function.update c.result i (some none) }
  | others {c : Outcomes D ι α} {db : D} (agrees : agree c.db db) :
      Atomic body agree c { c with db }

/-- The first statements of the transaction, run alone, leave this to do and these changes. -/
inductive Ran (body : Prog Stmt Reply (Ending α)) (db : D) :
    Prog Stmt Reply (Ending α) → List Change → Prop where
  | start : Ran body db body []
  | stmt {stmt : Stmt} {next : Reply stmt → Prog Stmt Reply (Ending α)} {changes : List Change}
      (before : Ran body db (.call stmt next) changes) :
      Ran body db (next (server.exec stmt (server.view db changes)).1)
        (changes ++ (server.exec stmt (server.view db changes)).2)

/-- The transaction does nothing before it has the lock. -/
inductive Guarded (lock : Lock) : Prog Stmt Reply (Ending α) → Prop where
  | refuse (value : α) : Guarded lock (.pure (.rollback value))
  | enter {stmt : Stmt} {next : Reply stmt → Prog Stmt Reply (Ending α)}
      (locks : ∀ db, server.lock stmt db = some lock) : Guarded lock (.call stmt next)

/-- The statements in `P` see only what states that agree have in common. -/
structure Isolated (P : Stmt → Prop) (agree : D → D → Prop) : Prop where
  exec : ∀ stmt, P stmt → ∀ db db', agree db db' → server.exec stmt db = server.exec stmt db'
  apply : ∀ change db db', agree db db' → agree (server.apply db change) (server.apply db' change)

variable {server} {body : Prog Stmt Reply (Ending α)} {P : Stmt → Prop} {agree : D → D → Prop}
  {db db' : D} {rest : Prog Stmt Reply (Ending α)} {changes : List Change}

theorem Isolated.view (isolated : server.Isolated P agree) (agrees : agree db db')
    (changes : List Change) : agree (server.view db changes) (server.view db' changes) := by
  induction changes generalizing db db' with
  | nil => exact agrees
  | cons change changes ih => exact ih (isolated.apply change db db' agrees)

namespace Ran

theorem eval (ran : server.Ran body db rest changes) :
    body.eval server.serve db = rest.eval server.serve (server.view db changes) := by
  induction ran with
  | start => rfl
  | stmt _ ih =>
    rw [ih, view_append]
    rfl

theorem calls (ran : server.Ran body db rest changes) (calls : body.Calls P) : rest.Calls P := by
  induction ran with
  | start => exact calls
  | stmt _ ih =>
    cases ih with
    | call _ later => exact later _

/-- What the others do cannot be told from the statements that have run. -/
theorem transfer (isolated : server.Isolated P agree) (calls : body.Calls P)
    (agrees : agree db db') (ran : server.Ran body db rest changes) :
    server.Ran body db' rest changes := by
  induction ran with
  | start => exact .start
  | @stmt stmt next changes before ih =>
    have allowed : P stmt := by
      cases before.calls calls with
      | call holds _ => exact holds
    rw [isolated.exec stmt allowed _ _ (isolated.view agrees changes)]
    exact ih.stmt

end Ran

/-! ### The lock makes the calls atomic -/

/-- A session has not started, or it holds the lock and has run alone so far. -/
def Serial (server : Server Stmt Reply Lock Change D) (lock : Lock)
    (body : ι → Prog Stmt Reply (Ending α)) (s : Sessions Stmt Reply Lock Change D ι α) : Prop :=
  ∀ i rest changes, s.session i = .active rest changes →
    (rest = body i ∧ changes = []) ∨
      (s.holder lock = some i ∧ server.Ran (body i) s.committed rest changes)

section

variable [DecidableEq Lock] {lock : Lock} {body : ι → Prog Stmt Reply (Ending α)}
  {s s' : Sessions Stmt Reply Lock Change D ι α}

omit [DecidableEq ι] [DecidableEq Lock] in
/-- Only one session is past its first statement. -/
private theorem Serial.unique (serial : server.Serial lock body s) {i j : ι}
    (held : s.holder lock = none ∨ s.holder lock = some i) (other : j ≠ i)
    {rest : Prog Stmt Reply (Ending α)} {changes : List Change}
    (running : s.session j = .active rest changes) : rest = body j ∧ changes = [] := by
  rcases serial j rest changes running with waiting | ⟨holds, -⟩
  · exact waiting
  · rcases held with free | mine
    · rw [free] at holds
      cases holds
    · rw [mine] at holds
      cases holds
      exact absurd rfl other

omit [DecidableEq Lock] in
theorem outcomes_active {i : ι} {rest rest' : Prog Stmt Reply (Ending α)}
    {changes changes' : List Change} (was : s.session i = .active rest changes)
    (now : s'.session = Function.update s.session i (.active rest' changes'))
    (kept : s'.committed = s.committed) : s'.outcomes = s.outcomes := by
  have results : (fun j => (s'.session j).result) = fun j => (s.session j).result := by
    funext j
    rw [now]
    by_cases same : j = i
    · subst same
      rw [Function.update_self, was]
      rfl
    · rw [Function.update_of_ne same]
  unfold Sessions.outcomes
  rw [kept, results]

omit [DecidableEq Lock] in
theorem outcomes_close (i : ι) (value : Option α) (db : D) :
    (s.close i value db).outcomes =
      ⟨db, Function.update s.outcomes.result i (some value)⟩ := by
  have results : (fun j => ((s.close i value db).session j).result) =
      Function.update s.outcomes.result i (some value) := by
    funext j
    by_cases same : j = i
    · subst same
      simp [Sessions.close, Session.result]
    · simp [Sessions.close, Sessions.outcomes, same]
  rw [← results]
  rfl

omit [DecidableEq Lock] in
/-- A closed session leaves the others where they are, if it has not published anything that
they could have read. -/
private theorem Serial.close (serial : server.Serial lock body s) {i : ι} {value : Option α}
    {db : D} (unseen : db = s.committed ∨ s.holder lock = some i) :
    server.Serial lock body (s.close i value db) := by
  intro j rest changes running
  have other : j ≠ i := by
    rintro rfl
    simp [Sessions.close] at running
  have before : s.session j = .active rest changes := by
    simpa [Sessions.close, other] using running
  rcases unseen with rfl | mine
  · rcases serial j rest changes before with waiting | ⟨holds, ran⟩
    · exact Or.inl waiting
    · exact Or.inr ⟨by simp [Sessions.close, holds, other], ran⟩
  · exact Or.inl (serial.unique (Or.inr mine) other before)

theorem Serial.stmt (serial : server.Serial lock body s)
    (guarded : ∀ i, server.Guarded lock (body i)) {i : ι} {stmt : Stmt}
    {next : Reply stmt → Prog Stmt Reply (Ending α)} {changes : List Change}
    (was : s.session i = .active (.call stmt next) changes)
    (now : s'.session = Function.update s.session i
      (.active (next (server.exec stmt (server.view s.committed changes)).1)
        (changes ++ (server.exec stmt (server.view s.committed changes)).2)))
    (kept : s'.committed = s.committed)
    (locks : (server.lock stmt (server.view s.committed changes) = none ∧
        s'.holder = s.holder) ∨
      ∃ lock, server.lock stmt (server.view s.committed changes) = some lock ∧
        (s.holder lock = none ∨ s.holder lock = some i) ∧
        s'.holder = Function.update s.holder lock (some i)) :
    server.Serial lock body s' := by
  -- With its first statement the session gets the lock; later it has it already.
  obtain ⟨ran, held, holds⟩ : server.Ran (body i) s.committed (.call stmt next) changes ∧
      (s.holder lock = none ∨ s.holder lock = some i) ∧ s'.holder lock = some i := by
    rcases serial i _ changes was with ⟨first, rfl⟩ | ⟨mine, ran⟩
    · refine ⟨first ▸ .start, ?_⟩
      have guard := guarded i
      rw [← first] at guard
      cases guard with
      | enter wanted =>
        rcases locks with ⟨free, -⟩ | ⟨lock', wanted', available, holder⟩
        · rw [wanted] at free
          cases free
        · rw [wanted] at wanted'
          cases wanted'
          exact ⟨available, by rw [holder, Function.update_self]⟩
    · refine ⟨ran, Or.inr mine, ?_⟩
      rcases locks with ⟨-, holder⟩ | ⟨lock', -, -, holder⟩
      · rw [holder, mine]
      · rw [holder]
        by_cases same : lock = lock'
        · subst same
          exact Function.update_self _ _ _
        · rw [Function.update_of_ne same, mine]
  intro j rest more running
  rw [now] at running
  by_cases same : j = i
  · subst same
    rw [Function.update_self] at running
    cases running
    rw [kept]
    exact Or.inr ⟨holds, ran.stmt⟩
  · rw [Function.update_of_ne same] at running
    exact Or.inl (serial.unique held same running)

omit [DecidableEq ι] [DecidableEq Lock] in
/-- A transaction that ends has run alone. -/
private theorem Serial.ended (serial : server.Serial lock body s)
    (guarded : ∀ i, server.Guarded lock (body i)) {i : ι} {ending : Ending α}
    {changes : List Change} (was : s.session i = .active (.pure ending) changes) :
    (body i).eval server.serve s.committed = (ending, server.view s.committed changes) ∧
      (server.settle s.committed changes ending = s.committed ∨ s.holder lock = some i) := by
  rcases serial i _ changes was with ⟨first, rfl⟩ | ⟨mine, ran⟩
  · have guard := guarded i
    rw [← first] at guard ⊢
    cases guard with
    | refuse value => exact ⟨rfl, Or.inl rfl⟩
  · exact ⟨ran.eval, Or.inr mine⟩

/-- Under the lock every interleaving is one of calls that run alone. -/
theorem refines {env : Sessions Stmt Reply Lock Change D ι α → D → Prop}
    (guarded : ∀ i, server.Guarded lock (body i)) (calls : ∀ i, (body i).Calls P)
    (isolated : server.Isolated P agree) (rely : ∀ s db, env s db → agree s.committed db)
    (serial : server.Serial lock body s) (moved : server.Moves env s s') :
    server.Serial lock body s' ∧ server.Atomic body agree s.outcomes s'.outcomes := by
  cases moved with
  | turn stepped =>
    cases stepped_of_step stepped with
    | stmt was now kept locks =>
      refine ⟨serial.stmt guarded was now kept locks, ?_⟩
      rw [outcomes_active was now kept]
      exact .quiet _
    | @ended i ending changes was now =>
      obtain ⟨alone, unseen⟩ := serial.ended guarded was
      subst now
      refine ⟨serial.close unseen, ?_⟩
      rw [outcomes_close]
      have waiting : s.outcomes.result i = none := by simp [Sessions.outcomes, was, Session.result]
      cases ending with
      | commit value => exact .ended waiting alone
      | rollback value => exact .ended waiting alone
    | @failed i rest changes was now =>
      subst now
      refine ⟨serial.close (Or.inl rfl), ?_⟩
      rw [outcomes_close]
      exact .failed (by simp [Sessions.outcomes, was, Session.result])
  | others allowed =>
    have agrees := rely _ _ allowed
    refine ⟨fun i rest changes running => ?_, .others agrees⟩
    rcases serial i rest changes running with waiting | ⟨holds, ran⟩
    · exact Or.inl waiting
    · exact Or.inr ⟨holds, ran.transfer isolated (calls i) agrees⟩

omit [DecidableEq ι] [DecidableEq Lock] in
theorem serial_init (db : D) : server.Serial lock body (Sessions.init db body) := by
  intro i rest changes running
  cases running
  exact Or.inl ⟨rfl, rfl⟩

end

end Server

end Lib
