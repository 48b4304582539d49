import Buzz.Lib.Transaction

/-!
# Transactions with shared and exclusive locks

Sessions run one transaction each. A transaction has a notion of time that is fixed when it
starts. A statement sees what is committed and the changes of its own transaction; it may have to
wait for a lock, shared or exclusive, that is then held until the transaction ends. A session can
fail at any moment. What has been committed is kept as a history.

`Contract` is the rely-guarantee reading of such transactions. While a transaction runs, the
commits of the others move the past along `rely`, which depends on the locks that it holds; its
own commit keeps the invariant, is one of the moves that `act` describes, and is a `rely` move for
everybody whose locks leave room for it. `run_kept` is the composition rule: `Safe`
transactions keep the invariant in every interleaving, and all commits are `act` moves.
-/
namespace Lib

namespace Locking

inductive Mode where
  | shared
  | exclusive
deriving DecidableEq

/-- Only shared holders get along. -/
def Mode.compatible : Mode → Mode → Bool
  | .shared, .shared => true
  | _, _ => false

theorem Mode.compatible_comm (m m' : Mode) : m.compatible m' = m'.compatible m := by
  cases m <;> cases m' <;> rfl

/-- In the state that it sees, a statement waits for its locks, gives a reply and makes changes. -/
structure Database (Stmt : Type) (Reply : Stmt → Type) (Lock Change D : Type) where
  locks : Stmt → D → List (Lock × Mode)
  exec : (stmt : Stmt) → D → Reply stmt × List Change
  apply : D → Change → D

inductive Session (Stmt : Type) (Reply : Stmt → Type) (Change α : Type) where
  | idle
  /-- The time of its start, what is left of the transaction, and its changes so far. -/
  | active (now : Int) (rest : Prog Stmt Reply (Ending α)) (changes : List Change)
  | closed (value : Option α)

structure Commit (D ι α : Type) where
  session : ι
  now : Int
  clock : Int
  value : α
  before : D
  after : D

structure System (Stmt : Type) (Reply : Stmt → Type) (Lock Change D ι α : Type) where
  clock : Int
  db : D
  holders : Lock → List (ι × Mode)
  session : ι → Session Stmt Reply Change α
  /-- The commits, the last one first. -/
  history : List (Commit D ι α)

inductive Event (ι : Type) where
  | start (i : ι)
  | go (i : ι)
  | fail (i : ι)
  | tick (clock : Int)
deriving DecidableEq

variable {Stmt : Type} {Reply : Stmt → Type} {Lock Change D ι α : Type}

namespace System

def init (clock : Int) (db : D) : System Stmt Reply Lock Change D ι α where
  clock := clock
  db := db
  holders _ := []
  session _ := .idle
  history := []

variable [DecidableEq ι]

/-- The session ends and gives its locks back. -/
def close (s : System Stmt Reply Lock Change D ι α) (i : ι) (value : Option α) :
    System Stmt Reply Lock Change D ι α :=
  { s with
    holders := fun lock => (s.holders lock).filter (·.1 ≠ i)
    session := Function.update s.session i (.closed value) }

end System

namespace Database

variable (server : Database Stmt Reply Lock Change D)

def view (db : D) (changes : List Change) : D := changes.foldl server.apply db

variable (body : ι → Int → Prog Stmt Reply (Ending α)) [DecidableEq ι] [DecidableEq Lock]

/-- The locks are free for the session. -/
def grants (s : System Stmt Reply Lock Change D ι α) (i : ι) (locks : List (Lock × Mode)) : Bool :=
  locks.all fun want =>
    (s.holders want.1).all fun holder => holder.1 = i || want.2.compatible holder.2

def take (holders : Lock → List (ι × Mode)) (i : ι) (locks : List (Lock × Mode)) :
    Lock → List (ι × Mode) :=
  fun lock => ((locks.filter (·.1 = lock)).map fun want => (i, want.2)) ++ holders lock

def go (s : System Stmt Reply Lock Change D ι α) (i : ι) :
    Option (System Stmt Reply Lock Change D ι α) :=
  match s.session i with
  | .active _ (.pure (.rollback value)) _ => some (s.close i (some value))
  | .active now (.pure (.commit value)) changes =>
    let after := server.view s.db changes
    some { s.close i (some value) with
      db := after
      history := ⟨i, now, s.clock, value, s.db, after⟩ :: s.history }
  | .active now (.call stmt next) changes =>
    let seen := server.view s.db changes
    let (reply, more) := server.exec stmt seen
    if grants s i (server.locks stmt seen) then
      some { s with
        session := Function.update s.session i (.active now (next reply) (changes ++ more))
        holders := take s.holders i (server.locks stmt seen) }
    else none
  | _ => none

def step (s : System Stmt Reply Lock Change D ι α) :
    Event ι → Option (System Stmt Reply Lock Change D ι α)
  | .start i => match s.session i with
    | .idle => some { s with
        session := Function.update s.session i (.active s.clock (body i s.clock) []) }
    | _ => none
  | .go i => server.go s i
  | .fail i => match s.session i with
    | .active _ _ _ => some (s.close i none)
    | _ => none
  | .tick clock => some { s with clock := max s.clock clock }

def run (s : System Stmt Reply Lock Change D ι α) (events : List (Event ι)) :
    Option (System Stmt Reply Lock Change D ι α) :=
  events.foldlM (server.step body) s

end Database

/-! ### Contracts -/

/-- The locks of a session with their modes. -/
abbrev Held (Lock : Type) := Lock → Mode → Prop

namespace Held

def none : Held Lock := fun _ _ => False

def take (held : Held Lock) (locks : List (Lock × Mode)) : Held Lock :=
  fun lock mode => (lock, mode) ∈ locks ∨ held lock mode

/-- Two sessions can hold these at once. -/
def Apart (held other : Held Lock) : Prop :=
  ∀ lock mode mode', held lock mode → other lock mode' → mode.compatible mode' = true

end Held

/-- The commits so far, the last one first, and the database that they have made. -/
structure Past (D ι α : Type) where
  history : List (Commit D ι α)
  db : D

def Past.next (past : Past D ι α) (i : ι) (now clock : Int) (value : α) (after : D) : Past D ι α :=
  ⟨⟨i, now, clock, value, past.db, after⟩ :: past.history, after⟩

/-- What a transaction relies on and what it guarantees. -/
structure Contract (Stmt : Type) (Reply : Stmt → Type) (Lock D ι α : Type) where
  inv : D → Prop
  /-- What the commits of the others may do while the rest of the transaction of a session, which
  started at `now`, is to come and it holds these locks. -/
  rely : ι → Int → Prog Stmt Reply (Ending α) → Held Lock → Past D ι α → Past D ι α → Prop
  /-- What the commit of a session does, that started at `now` and ends at `clock`. -/
  act : ι → Int → Int → α → Past D ι α → D → Prop
  /-- A commit may have to wait for what another session has left to do. -/
  clear : ι → α → ι → Prog Stmt Reply (Ending α) → Prop
  refl : ∀ i now rest held past, rely i now rest held past past
  trans : ∀ i now rest held past past' past'', rely i now rest held past past' →
    rely i now rest held past' past'' → rely i now rest held past past''

section

variable (server : Database Stmt Reply Lock Change D) (contract : Contract Stmt Reply Lock D ι α)

/-- From the changes, the locks and the past the rest of the transaction keeps the contract. -/
def Safe (i : ι) (now : Int) :
    Prog Stmt Reply (Ending α) → List Change → Held Lock → Past D ι α → Prop
  | .pure ending, changes, held, past => ∀ value, ending = .commit value →
      ∀ past', contract.rely i now (.pure ending) held past past' → contract.inv past'.db →
        ∀ clock, now ≤ clock →
          contract.inv (server.view past'.db changes) ∧
          contract.act i now clock value past' (server.view past'.db changes) ∧
          ∀ j now' rest other, j ≠ i → now' ≤ clock → held.Apart other →
            contract.clear i value j rest →
            contract.rely j now' rest other past'
              (past'.next i now clock value (server.view past'.db changes))
  | .call stmt next, changes, held, past =>
      ∀ past', contract.rely i now (.call stmt next) held past past' → contract.inv past'.db →
        Safe i now (next (server.exec stmt (server.view past'.db changes)).1)
          (changes ++ (server.exec stmt (server.view past'.db changes)).2)
          (held.take (server.locks stmt (server.view past'.db changes))) past'

/-- The history of commits that `act` allows. -/
inductive Chain (start : D) : List (Commit D ι α) → D → Prop where
  | nil : Chain start [] start
  | commit {older : List (Commit D ι α)} (c : Commit D ι α) (before : Chain start older c.before)
      (inv : contract.inv c.before) (acts : contract.act c.session c.now c.clock c.value
        ⟨older, c.before⟩ c.after) (inv' : contract.inv c.after) (later : c.now ≤ c.clock) :
      Chain start (c :: older) c.after

/-- No session is in the way of what the event commits. -/
def Clear (s : System Stmt Reply Lock Change D ι α) : Event ι → Prop
  | .go i => ∀ now value changes, s.session i = .active now (.pure (.commit value)) changes →
      ∀ j, j ≠ i → ∀ now' rest changes', s.session j = .active now' rest changes' →
        contract.clear i value j rest
  | _ => True

variable (body : ι → Int → Prog Stmt Reply (Ending α))

def AllClear [DecidableEq ι] [DecidableEq Lock] :
    System Stmt Reply Lock Change D ι α → List (Event ι) → Prop
  | _, [] => True
  | s, event :: events => Clear contract s event ∧
      ∀ s', server.step body s event = some s' → AllClear s' events

def System.held (s : System Stmt Reply Lock Change D ι α) (i : ι) : Held Lock :=
  fun lock mode => (i, mode) ∈ s.holders lock

def System.past (s : System Stmt Reply Lock Change D ι α) : Past D ι α := ⟨s.history, s.db⟩

/-- What holds of every reachable state. -/
structure Kept (start : D) (s : System Stmt Reply Lock Change D ι α) : Prop where
  inv : contract.inv s.db
  safe : ∀ i now rest changes, s.session i = .active now rest changes →
    now ≤ s.clock ∧ Safe server contract i now rest changes (s.held i) s.past
  idle : ∀ i, s.session i = .idle → s.held i = Held.none
  apart : ∀ i j, i ≠ j → (s.held i).Apart (s.held j)
  history : Chain contract start s.history s.db
  ended : ∀ c ∈ s.history, s.session c.session = .closed (some c.value)

variable {server contract body}

theorem Safe.mono {i : ι} {now : Int} {rest : Prog Stmt Reply (Ending α)} {changes : List Change}
    {held : Held Lock} {past past' : Past D ι α}
    (safe : Safe server contract i now rest changes held past)
    (moved : contract.rely i now rest held past past') :
    Safe server contract i now rest changes held past' := by
  cases rest with
  | pure ending =>
    intro value same past'' later
    exact safe value same past'' (contract.trans _ _ _ _ _ _ _ moved later)
  | call stmt next =>
    intro past'' later
    exact safe past'' (contract.trans _ _ _ _ _ _ _ moved later)

theorem Chain.at {start db : D} {newer older : List (Commit D ι α)} {c : Commit D ι α}
    (chain : Chain contract start (newer ++ c :: older) db) :
    Chain contract start older c.before ∧ contract.inv c.before ∧
      contract.act c.session c.now c.clock c.value ⟨older, c.before⟩ c.after := by
  induction newer generalizing db with
  | nil =>
    cases chain with
    | commit _ before inv acts _ _ => exact ⟨before, inv, acts⟩
  | cons later newer ih =>
    cases chain with
    | commit _ before _ _ _ _ => exact ih before

/-- What the commits keep holds from a commit on. -/
theorem Chain.since {start db : D} {newer older : List (Commit D ι α)} {c : Commit D ι α}
    (chain : Chain contract start (newer ++ c :: older) db) {P : D → Prop} (holds : P c.after)
    (kept : ∀ (c : Commit D ι α) (older : List (Commit D ι α)),
      contract.act c.session c.now c.clock c.value ⟨older, c.before⟩ c.after →
      P c.before → P c.after) : P db := by
  induction newer generalizing db with
  | nil =>
    cases chain with
    | commit _ _ _ _ _ _ => exact holds
  | cons later newer ih =>
    cases chain with
    | commit _ before _ acts _ _ => exact kept later _ acts (ih before)

/-- What the commits keep holds from a commit on, until one of them ends it. -/
theorem Chain.until {start db : D} {newer older : List (Commit D ι α)} {c : Commit D ι α}
    (chain : Chain contract start (newer ++ c :: older) db) {P : D → Prop}
    {Ends : Commit D ι α → Prop} (holds : P c.after)
    (kept : ∀ (c : Commit D ι α) (older : List (Commit D ι α)),
      contract.act c.session c.now c.clock c.value ⟨older, c.before⟩ c.after →
      P c.before → P c.after ∨ Ends c) : P db ∨ ∃ later ∈ newer, Ends later := by
  induction newer generalizing db with
  | nil =>
    cases chain with
    | commit _ _ _ _ _ _ => exact Or.inl holds
  | cons last newer ih =>
    cases chain with
    | commit _ before _ acts _ _ =>
      rcases ih before with still | ⟨later, member, ends⟩
      · rcases kept last _ acts still with still | ends
        · exact Or.inl still
        · exact Or.inr ⟨last, List.mem_cons_self, ends⟩
      · exact Or.inr ⟨later, List.mem_cons_of_mem _ member, ends⟩

theorem allClear_of_forall [DecidableEq ι] [DecidableEq Lock]
    (clear : ∀ i value j rest, contract.clear i value j rest)
    (s : System Stmt Reply Lock Change D ι α) (events : List (Event ι)) :
    AllClear server contract body s events := by
  induction events generalizing s with
  | nil => exact trivial
  | cons event events ih =>
    refine ⟨?_, fun s' _ => ih s'⟩
    cases event with
    | go i => exact fun _ _ _ _ _ _ _ _ _ _ => clear _ _ _ _
    | _ => exact trivial

end

/-! ### One session at a time -/

section

variable {server : Database Stmt Reply Lock Change D} {contract : Contract Stmt Reply Lock D ι α}
  {body : ι → Int → Prog Stmt Reply (Ending α)} [DecidableEq ι] [DecidableEq Lock]

def Session.isActive : Session Stmt Reply Change α → Bool
  | .active _ _ _ => true
  | _ => false

/-- Of the sessions only the one that goes on is active. -/
def alone (sessions : List ι) (s : System Stmt Reply Lock Change D ι α) : Event ι → Bool
  | .start i => i ∈ sessions
  | .go i => sessions.all fun j => j = i || !(s.session j).isActive
  | _ => true

variable (server body) in
def aloneRun (sessions : List ι) : System Stmt Reply Lock Change D ι α → List (Event ι) → Bool
  | _, [] => true
  | s, event :: events => alone sessions s event &&
    (server.step body s event).all fun s' => aloneRun sessions s' events

private theorem active_of_step {s s' : System Stmt Reply Lock Change D ι α} {event : Event ι}
    (stepped : server.step body s event = some s') {i : ι} (active : (s'.session i).isActive = true) :
    (s.session i).isActive = true ∨ event = .start i := by
  have moved : ∀ j session, (Function.update s.session j session i).isActive = true →
      (s.session i).isActive = true ∨ i = j := by
    intro j session active
    by_cases same : i = j
    · exact .inr same
    · rw [Function.update_of_ne same] at active
      exact .inl active
  cases event with
  | tick clock =>
    cases stepped
    exact .inl active
  | start j =>
    simp only [Database.step] at stepped
    split at stepped
    · cases stepped
      rcases moved _ _ active with was | rfl
      · exact .inl was
      · exact .inr rfl
    · cases stepped
  | fail j =>
    simp only [Database.step] at stepped
    split at stepped
    next running =>
      cases stepped
      refine .inl ((moved _ _ active).elim id ?_)
      rintro rfl
      rw [running]
      rfl
    next => cases stepped
  | go j =>
    have was : (s.session j).isActive = true := by
      cases running : s.session j with
      | active => rfl
      | _ => simp [Database.step, Database.go, running] at stepped
    refine .inl ?_
    simp only [Database.step, Database.go] at stepped
    split at stepped
    · cases stepped
      exact (moved _ _ active).elim id fun same => same ▸ was
    · cases stepped
      exact (moved _ _ active).elim id fun same => same ▸ was
    · split at stepped
      · cases stepped
        exact (moved _ _ active).elim id fun same => same ▸ was
      · cases stepped
    · cases stepped

theorem allClear_of_alone {sessions : List ι} {s : System Stmt Reply Lock Change D ι α}
    {events : List (Event ι)} (named : ∀ i, (s.session i).isActive = true → i ∈ sessions)
    (ran : aloneRun server body sessions s events = true) :
    AllClear server contract body s events := by
  induction events generalizing s with
  | nil => exact trivial
  | cons event events ih =>
    simp only [aloneRun, Bool.and_eq_true] at ran
    obtain ⟨here, later⟩ := ran
    refine ⟨?_, fun s' stepped => ih (fun i active => ?_) ?_⟩
    · cases event with
      | go i =>
        intro now value changes _ j other now' rest changes' running
        have active : (s.session j).isActive = true := by rw [running]; rfl
        have only := List.all_eq_true.mp here j (named j active)
        simp [other, active] at only
      | _ => exact trivial
    · rcases active_of_step stepped active with was | rfl
      · exact named i was
      · exact of_decide_eq_true here
    · rw [stepped] at later
      exact later

end

/-! ### Composition -/

section

variable [DecidableEq ι] [DecidableEq Lock] {server : Database Stmt Reply Lock Change D}
  {contract : Contract Stmt Reply Lock D ι α} {body : ι → Int → Prog Stmt Reply (Ending α)}
  {start : D} {s s' : System Stmt Reply Lock Change D ι α}

omit [DecidableEq ι] [DecidableEq Lock] in
theorem kept_init (clock : Int) (inv : contract.inv start) :
    Kept server contract start (System.init clock start) where
  inv := inv
  safe _ _ _ _ same := by cases same
  idle i _ := by
    funext lock mode
    refine propext ⟨fun member => ?_, False.elim⟩
    cases member
  apart _ _ _ _ _ _ member := by cases member
  history := .nil
  ended _ member := by cases member

omit [DecidableEq Lock] in
theorem held_close (i j : ι) (value : Option α) :
    (s.close i value).held j = if j = i then Held.none else s.held j := by
  funext lock mode
  refine propext ?_
  change (j, mode) ∈ (s.holders lock).filter (fun holder => holder.1 ≠ i) ↔ _
  rw [List.mem_filter, decide_eq_true_eq]
  by_cases same : j = i
  · simp [same, Held.none]
  · simp [same, System.held]

omit [DecidableEq Lock] in
/-- A session ends, and what it publishes is a move that the others rely on. -/
private theorem Kept.close (kept : Kept server contract start s) {i : ι} {now : Int}
    {rest : Prog Stmt Reply (Ending α)} {changes : List Change} {value : Option α}
    {db : D} {history : List (Commit D ι α)} (was : s.session i = .active now rest changes)
    (inv : contract.inv db) (chain : Chain contract start history db)
    (ended : ∀ c ∈ history, c ∈ s.history ∨ c.session = i ∧ value = some c.value)
    (moved : ∀ j now rest changes, j ≠ i → s.session j = .active now rest changes →
      now ≤ s.clock → contract.rely j now rest (s.held j) s.past ⟨history, db⟩) :
    Kept server contract start { s.close i value with db, history } where
  inv := inv
  safe j now rest changes running := by
    have other : j ≠ i := by
      rintro rfl
      simp [System.close] at running
    have before : s.session j = .active now rest changes := by
      simpa [System.close, other] using running
    obtain ⟨inTime, safe⟩ := kept.safe j now rest changes before
    refine ⟨inTime, ?_⟩
    have same := held_close (s := s) i j value
    rw [if_neg other] at same
    change Safe server contract j now rest changes ((s.close i value).held j) ⟨history, db⟩
    rw [same]
    exact safe.mono (moved j now rest changes other before inTime)
  idle j none := by
    have other : j ≠ i := by
      rintro rfl
      simp [System.close] at none
    have same := held_close (s := s) i j value
    rw [if_neg other] at same
    exact same.trans (kept.idle j (by simpa [System.close, other] using none))
  apart j k different := by
    have left := held_close (s := s) i j value
    have right := held_close (s := s) i k value
    change ((s.close i value).held j).Apart ((s.close i value).held k)
    rw [left, right]
    intro lock mode mode' holds holds'
    by_cases one : j = i
    · rw [if_pos one] at holds
      exact holds.elim
    · by_cases two : k = i
      · rw [if_pos two] at holds'
        exact holds'.elim
      · rw [if_neg one] at holds
        rw [if_neg two] at holds'
        exact kept.apart j k different lock mode mode' holds holds'
  history := chain
  ended c member := by
    change Function.update s.session i (.closed value) c.session = _
    rcases ended c member with old | ⟨rfl, rfl⟩
    · have closed := kept.ended c old
      have other : c.session ≠ i := by
        intro same
        rw [same, was] at closed
        cases closed
      rw [Function.update_of_ne other, closed]
    · rw [Function.update_self]

omit [DecidableEq ι] in
theorem held_take (i j : ι) (locks : List (Lock × Mode)) (lock : Lock) (mode : Mode) :
    (j, mode) ∈ Database.take s.holders i locks lock ↔
      j = i ∧ (lock, mode) ∈ locks ∨ s.held j lock mode := by
  unfold Database.take System.held
  rw [List.mem_append, List.mem_map]
  refine or_congr ⟨?_, ?_⟩ Iff.rfl
  · rintro ⟨⟨lock', mode'⟩, member, same⟩
    obtain ⟨rfl, rfl⟩ := Prod.mk.inj same
    obtain ⟨member, same⟩ := List.mem_filter.mp member
    have same : lock' = lock := of_decide_eq_true same
    exact ⟨rfl, same ▸ member⟩
  · rintro ⟨rfl, member⟩
    exact ⟨(lock, mode), List.mem_filter.mpr ⟨member, decide_eq_true rfl⟩, rfl⟩

/-- A statement of a session: its locks were free, so they stay apart from all others. -/
private theorem Kept.stmt (kept : Kept server contract start s) {i : ι} {now : Int} {stmt : Stmt}
    {next : Reply stmt → Prog Stmt Reply (Ending α)} {changes : List Change}
    (running : s.session i = .active now (.call stmt next) changes)
    (granted : Database.grants s i (server.locks stmt (server.view s.db changes)) = true) :
    Kept server contract start { s with
      session := Function.update s.session i (.active now
        (next (server.exec stmt (server.view s.db changes)).1)
        (changes ++ (server.exec stmt (server.view s.db changes)).2))
      holders := Database.take s.holders i (server.locks stmt (server.view s.db changes)) } where
  inv := kept.inv
  safe j now' rest changes' active := by
    have holds : System.held { s with
        holders := Database.take s.holders i (server.locks stmt (server.view s.db changes)) } j =
        if j = i then (s.held i).take (server.locks stmt (server.view s.db changes))
        else s.held j := by
      funext lock mode
      refine propext ((held_take i j _ lock mode).trans ?_)
      by_cases same : j = i
      · simp [same, Held.take]
      · simp [same]
    change now' ≤ s.clock ∧ Safe server contract j now' rest changes' (System.held { s with
        holders := Database.take s.holders i (server.locks stmt (server.view s.db changes)) } j)
        s.past
    rw [holds]
    by_cases same : j = i
    · subst same
      simp only [Function.update_self] at active
      obtain ⟨rfl, rfl, rfl⟩ := Session.active.inj active
      obtain ⟨inTime, safe⟩ := kept.safe j _ _ _ running
      rw [if_pos rfl]
      exact ⟨inTime, safe s.past (contract.refl _ _ _ _ _) kept.inv⟩
    · simp only [Function.update_of_ne same] at active
      rw [if_neg same]
      exact kept.safe j now' rest changes' active
  idle j none := by
    have other : j ≠ i := by
      rintro rfl
      simp at none
    simp only [Function.update_of_ne other] at none
    rw [← kept.idle j none]
    funext lock mode
    refine propext ((held_take i j _ lock mode).trans ?_)
    simp [other]
  apart j k different := by
    intro lock mode mode' holds holds'
    have free (j : ι) (other : j ≠ i) (mode mode' : Mode)
        (wanted : (lock, mode) ∈ server.locks stmt (server.view s.db changes))
        (has : s.held j lock mode') : mode.compatible mode' = true := by
      have room := List.all_eq_true.mp (List.all_eq_true.mp granted _ wanted) _ has
      simpa [other] using room
    rcases (held_take i j _ lock mode).mp holds with ⟨rfl, wanted⟩ | has
    · rcases (held_take j k _ lock mode').mp holds' with ⟨same, _⟩ | has'
      · exact absurd same.symm different
      · exact free k (Ne.symm different) mode mode' wanted has'
    · rcases (held_take i k _ lock mode').mp holds' with ⟨rfl, wanted⟩ | has'
      · rw [Mode.compatible_comm]
        exact free j different mode' mode wanted has
      · exact kept.apart j k different lock mode mode' has has'
  history := kept.history
  ended c member := by
    have closed := kept.ended c member
    have other : c.session ≠ i := by
      intro same
      rw [same, running] at closed
      cases closed
    change Function.update s.session i _ c.session = _
    rw [Function.update_of_ne other, closed]

private theorem Kept.go (kept : Kept server contract start s) {i : ι}
    (clear : Clear contract s (.go i)) (gone : server.go s i = some s') :
    Kept server contract start s' := by
  cases running : s.session i with
  | idle => simp [Database.go, running] at gone
  | closed value => simp [Database.go, running] at gone
  | active now rest changes =>
    cases rest with
    | pure ending =>
      cases ending with
      | rollback value =>
        simp only [Database.go, running, Option.some.injEq] at gone
        subst gone
        exact kept.close running kept.inv kept.history (fun _ => Or.inl)
          fun _ _ _ _ _ _ _ => contract.refl _ _ _ _ _
      | commit value =>
        simp only [Database.go, running, Option.some.injEq] at gone
        subst gone
        obtain ⟨inTime, safe⟩ := kept.safe i now _ changes running
        obtain ⟨inv, acts, moved⟩ :=
          safe value rfl s.past (contract.refl _ _ _ _ _) kept.inv s.clock inTime
        refine kept.close running inv (.commit ⟨i, now, s.clock, value, s.db, _⟩ kept.history
          kept.inv acts inv inTime) ?_ ?_
        · intro c member
          rcases List.mem_cons.mp member with rfl | old
          · exact .inr ⟨rfl, rfl⟩
          · exact .inl old
        · intro j now' rest changes' other active inTime'
          exact moved j now' rest _ other inTime' (kept.apart i j (Ne.symm other))
            (clear now value changes running j other now' rest changes' active)
    | call stmt next =>
      simp only [Database.go, running] at gone
      split at gone
      next granted =>
        cases gone
        exact kept.stmt running granted
      next => cases gone

/-- One event. -/
theorem Kept.step (kept : Kept server contract start s)
    (safe : ∀ i now past, contract.inv past.db →
      Safe server contract i now (body i now) [] Held.none past)
    {event : Event ι} (clear : Clear contract s event)
    (stepped : server.step body s event = some s') : Kept server contract start s' := by
  cases event with
  | go i => exact kept.go clear stepped
  | fail i =>
    cases running : s.session i with
    | idle => simp [Database.step, running] at stepped
    | closed value => simp [Database.step, running] at stepped
    | active now rest changes =>
      simp only [Database.step, running, Option.some.injEq] at stepped
      subst stepped
      exact kept.close running kept.inv kept.history (fun _ => Or.inl)
        fun _ _ _ _ _ _ _ => contract.refl _ _ _ _ _
  | tick clock =>
    cases stepped
    exact ⟨kept.inv, fun i now rest changes active =>
      ⟨Int.le_trans (kept.safe i now rest changes active).1 (Int.le_max_left _ _),
        (kept.safe i now rest changes active).2⟩,
      kept.idle, kept.apart, kept.history, kept.ended⟩
  | start i =>
    cases running : s.session i with
    | active now rest changes => simp [Database.step, running] at stepped
    | closed value => simp [Database.step, running] at stepped
    | idle =>
      simp only [Database.step, running, Option.some.injEq] at stepped
      subst stepped
      refine ⟨kept.inv, ?_, ?_, kept.apart, kept.history, ?_⟩
      · intro j now rest changes active
        by_cases same : j = i
        · subst same
          simp only [Function.update_self] at active
          obtain ⟨rfl, rfl, rfl⟩ := Session.active.inj active
          refine ⟨Int.le_refl _, ?_⟩
          change Safe server contract j s.clock (body j s.clock) [] (s.held j) s.past
          rw [kept.idle j running]
          exact safe j s.clock s.past kept.inv
        · simp only [Function.update_of_ne same] at active
          exact kept.safe j now rest changes active
      · intro j none
        have other : j ≠ i := by
          rintro rfl
          simp at none
        simp only [Function.update_of_ne other] at none
        exact kept.idle j none
      · intro c member
        have closed := kept.ended c member
        have other : c.session ≠ i := by
          intro same
          rw [same, running] at closed
          cases closed
        change Function.update s.session i _ c.session = _
        rw [Function.update_of_ne other, closed]

/-- Safe transactions keep the contract in every interleaving. -/
theorem run_kept (kept : Kept server contract start s)
    (safe : ∀ i now past, contract.inv past.db →
      Safe server contract i now (body i now) [] Held.none past)
    {events : List (Event ι)} (clear : AllClear server contract body s events)
    (ran : server.run body s events = some s') : Kept server contract start s' := by
  induction events generalizing s with
  | nil =>
    cases ran
    exact kept
  | cons event events ih =>
    obtain ⟨next, stepped, ran⟩ := Option.bind_eq_some_iff.mp ran
    exact ih (kept.step safe clear.1 stepped) (clear.2 next stepped) ran

end

end Locking

end Lib
