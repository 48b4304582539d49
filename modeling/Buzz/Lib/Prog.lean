import Mathlib.Logic.Function.Basic
import Mathlib.Order.Defs.PartialOrder

/-!
# Concurrent programs over a shared service

A program is a tree of atomic calls: every call waits for a reply and goes on
with the program the reply selects. A `Service` answers the calls of all
programs out of one shared state; what it leaves open (failures, the order of
events, values it invents) is a choice that a schedule supplies, so that a run
is a computation and every interleaving is some schedule.

`Obeys` is the rely-guarantee reading of a program. While it waits, the others
may move the state along `rely`; each of its own calls must keep the invariant
and look like `rely` to everybody else; its result satisfies the postcondition.
`Service.run_obeys` is the parallel composition rule, and the remaining lemmas
take programs apart at calls and binds.
-/
namespace Lib

/-- A program that makes calls from `Op` and returns a value of `α`. -/
inductive Prog (Op : Type) (Reply : Op → Type) (α : Type) where
  | pure (a : α)
  | call (op : Op) (next : Reply op → Prog Op Reply α)

namespace Prog

variable {Op : Type} {Reply : Op → Type} {α β : Type}

def bind : Prog Op Reply α → (α → Prog Op Reply β) → Prog Op Reply β
  | .pure a, k => k a
  | .call op next, k => .call op fun reply => (next reply).bind k

instance : Monad (Prog Op Reply) where
  pure := .pure
  bind := bind

theorem bind_pure (program : Prog Op Reply α) : program.bind .pure = program := by
  induction program with
  | pure a => rfl
  | call op next ih => exact congrArg (call op) (funext ih)

instance : LawfulMonad (Prog Op Reply) := .mk' _ bind_pure (fun _ _ => rfl) fun program f k => by
  induction program with
  | pure a => rfl
  | call op next ih => exact congrArg (call op) (funext ih)

/-- The program that makes one call and returns the reply. -/
def ask (op : Op) : Prog Op Reply (Reply op) := .call op .pure

/-- Run the program alone, with a service that always answers. -/
def eval {σ : Type} (serve : (op : Op) → σ → Reply op × σ) : Prog Op Reply α → σ → α × σ
  | .pure a, s => (a, s)
  | .call op next, s => (next (serve op s).1).eval serve (serve op s).2

theorem eval_bind {σ : Type} (serve : (op : Op) → σ → Reply op × σ) (program : Prog Op Reply α)
    (k : α → Prog Op Reply β) (s : σ) :
    (program >>= k).eval serve s = (k (program.eval serve s).1).eval serve (program.eval serve s).2 := by
  induction program generalizing s with
  | pure a => rfl
  | call op next ih => exact ih (serve op s).1 (serve op s).2

theorem eval_ask_bind {σ : Type} (serve : (op : Op) → σ → Reply op × σ) (op : Op)
    (k : Reply op → Prog Op Reply β) (s : σ) :
    (ask op >>= k).eval serve s = (k (serve op s).1).eval serve (serve op s).2 := rfl

/-- Every call that the program can make satisfies `P`. -/
inductive Calls (P : Op → Prop) : Prog Op Reply α → Prop where
  | pure (a : α) : Calls P (.pure a)
  | call {op : Op} {next : Reply op → Prog Op Reply α} (holds : P op)
      (rest : ∀ reply, Calls P (next reply)) : Calls P (.call op next)

namespace Calls

variable {P : Op → Prop}

theorem ask {op : Op} (holds : P op) : (Prog.ask op : Prog Op Reply (Reply op)).Calls P :=
  .call holds .pure

theorem bind {program : Prog Op Reply α} {k : α → Prog Op Reply β} (first : program.Calls P)
    (later : ∀ a, (k a).Calls P) : (program >>= k).Calls P := by
  induction first with
  | pure a => exact later a
  | call holds _ ih => exact .call holds ih

theorem eval_eq {σ τ : Type} {serve : (op : Op) → σ → Reply op × σ} (view : σ → τ)
    {program : Prog Op Reply α} (calls : program.Calls P)
    (kept : ∀ op, P op → ∀ s, view (serve op s).2 = view s) (s : σ) :
    view (program.eval serve s).2 = view s := by
  induction calls generalizing s with
  | pure a => rfl
  | call holds _ ih => exact (ih _ _).trans (kept _ holds s)

theorem eval_inv {σ : Type} {serve : (op : Op) → σ → Reply op × σ} {I : σ → Prop}
    {program : Prog Op Reply α} (calls : program.Calls P)
    (kept : ∀ op, P op → ∀ s, I s → I (serve op s).2) {s : σ} (holds : I s) :
    I (program.eval serve s).2 := by
  induction calls generalizing s with
  | pure a => exact holds
  | call allowed _ ih => exact ih _ (kept _ allowed s holds)

end Calls

/-- Poll `timer` before every call and give up with `expired` when it has fired. -/
def withTimeout (timer : Op) (fired : Reply timer → Bool) (expired : α) :
    Prog Op Reply α → Prog Op Reply α
  | .pure a => .pure a
  | .call op next => .call timer fun reply =>
      if fired reply then .pure expired
      else .call op fun reply => (next reply).withTimeout timer fired expired

end Prog

/-- A program that may fail with `ε`. -/
abbrev Task (Op : Type) (Reply : Op → Type) (ε : Type) := ExceptT ε (Prog Op Reply)

namespace Task

variable {Op : Type} {Reply : Op → Type} {ε ε' α : Type}

/-- Make a call and look at its reply. -/
def ask (op : Op) : Task Op Reply ε (Reply op) := ExceptT.lift (Prog.ask op)

/-- `?` with a conversion of the error. -/
def mapErr (f : ε → ε') (task : Task Op Reply ε α) : Task Op Reply ε' α :=
  ExceptT.mk (task.run.bind fun result => .pure (result.mapError f))

/-- `?` on a result that is already there. -/
def ofExcept (f : ε → ε') (result : Except ε α) : Task Op Reply ε' α :=
  ExceptT.mk (.pure (result.mapError f))

/-- `?` on the reply of a call. -/
def reply (task : Task Op Reply ε (Except ε α)) : Task Op Reply ε α := do
  let result ← task
  ofExcept id result

/-- Go on when the check holds. -/
def guard (p : Prop) [Decidable p] (e : ε) : Task Op Reply ε Unit :=
  if p then pure () else throw e

/-- The result of a task whose failure is not passed on. -/
def attempt (task : Task Op Reply ε α) : Task Op Reply ε' (Except ε α) := ExceptT.lift task.run

section

variable {σ β : Type} {serve : (op : Op) → σ → Reply op × σ} {s s' : σ}
  {task : Task Op Reply ε α} {k : α → Task Op Reply ε β}

theorem run_bind (task : Task Op Reply ε α) (k : α → Task Op Reply ε β) :
    (task >>= k).run = task.run >>= fun
      | .ok a => (k a).run
      | .error e => .pure (.error e) := rfl

theorem eval_bind_ok {a : α} (first : task.run.eval serve s = (.ok a, s')) :
    (task >>= k).run.eval serve s = (k a).run.eval serve s' := by
  rw [run_bind, Prog.eval_bind, first]

theorem eval_bind_error {e : ε} (first : task.run.eval serve s = (.error e, s')) :
    (task >>= k).run.eval serve s = (.error e, s') := by
  rw [run_bind, Prog.eval_bind, first]
  rfl

theorem calls_bind {P : Op → Prop} (first : task.run.Calls P) (later : ∀ a, (k a).run.Calls P) :
    (task >>= k).run.Calls P := by
  rw [run_bind]
  apply first.bind
  intro result
  cases result with
  | ok a => exact later a
  | error e => exact .pure _

theorem calls_ask {P : Op → Prop} {op : Op} (holds : P op) :
    (Task.ask op : Task Op Reply ε (Reply op)).run.Calls P := .call holds fun _ => .pure _

theorem calls_reply {P : Op → Prop} {task : Task Op Reply ε (Except ε α)}
    (first : task.run.Calls P) : task.reply.run.Calls P :=
  calls_bind first fun _ => .pure _

theorem calls_ofExcept {P : Op → Prop} {f : ε' → ε} {result : Except ε' α} :
    (Task.ofExcept f result : Task Op Reply ε α).run.Calls P := .pure _

theorem calls_guard {P : Op → Prop} {p : Prop} [Decidable p] {e : ε} :
    (Task.guard p e : Task Op Reply ε Unit).run.Calls P := by
  unfold Task.guard
  split
  next => exact .pure _
  next => exact .pure _

/-- Run alone, the task has a value and `Q` holds at its end, or it fails with an error that
satisfies `E`. -/
def Yields (serve : (op : Op) → σ → Reply op × σ) (task : Task Op Reply ε α)
    (Q : α → σ → Prop) (E : ε → Prop) (s : σ) : Prop :=
  match task.run.eval serve s with
  | (.ok a, s') => Q a s'
  | (.error e, _) => E e

variable {Q : α → σ → Prop} {E : ε → Prop}

theorem yields_pure {a : α} (holds : Q a s) :
    (pure a : Task Op Reply ε α).Yields serve Q E s := holds

theorem yields_throw {e : ε} (fails : E e) : (throw e : Task Op Reply ε α).Yields serve Q E s :=
  fails

theorem yields_bind {Q : β → σ → Prop}
    (first : task.Yields serve (fun a s => (k a).Yields serve Q E s) E s) :
    (task >>= k).Yields serve Q E s := by
  unfold Yields at first
  cases ran : task.run.eval serve s with
  | mk result middle =>
    rw [ran] at first
    cases result with
    | ok a =>
      unfold Yields
      rw [eval_bind_ok ran]
      exact first
    | error e =>
      unfold Yields
      rw [eval_bind_error ran]
      exact first

theorem yields_ask {op : Op} {Q : Reply op → σ → Prop} (holds : Q (serve op s).1 (serve op s).2) :
    (Task.ask op : Task Op Reply ε (Reply op)).Yields serve Q E s := holds

theorem yields_guard {p : Prop} [Decidable p] {e : ε} {Q : Unit → σ → Prop}
    (holds : p → Q () s) (fails : ¬ p → E e) :
    (Task.guard p e : Task Op Reply ε Unit).Yields serve Q E s := by
  unfold Task.guard
  split
  next met => exact yields_pure (holds met)
  next missed => exact yields_throw (fails missed)

theorem yields_ofExcept {f : ε' → ε} {result : Except ε' α}
    (holds : ∀ a, result = .ok a → Q a s) (fails : ∀ e, result = .error e → E (f e)) :
    (Task.ofExcept f result : Task Op Reply ε α).Yields serve Q E s := by
  cases result with
  | ok a => exact yields_pure (holds a rfl)
  | error e => exact yields_throw (fails e rfl)

end

end Task

/-- A service for threads `ι` with state `σ`; `κ` are its choices. A choice that
does not fit the call is refused. -/
structure Service (Op : Type) (Reply : Op → Type) (ι σ κ : Type) where
  serve : ι → κ → σ → (op : Op) → Option (Reply op × σ)

/-- The shared state and what every thread has left to do. -/
structure Threads (Op : Type) (Reply : Op → Type) (ι σ α : Type) where
  shared : σ
  program : ι → Prog Op Reply α

namespace Service

variable {Op : Type} {Reply : Op → Type} {ι σ κ α β : Type}

/-- Thread `i` makes its next call. -/
def step [DecidableEq ι] (service : Service Op Reply ι σ κ) (threads : Threads Op Reply ι σ α)
    (turn : ι × κ) : Option (Threads Op Reply ι σ α) :=
  match threads.program turn.1 with
  | .pure _ => none
  | .call op next =>
    (service.serve turn.1 turn.2 threads.shared op).map fun (reply, shared) =>
      { shared, program := Function.update threads.program turn.1 (next reply) }

def run [DecidableEq ι] (service : Service Op Reply ι σ κ) (threads : Threads Op Reply ι σ α)
    (schedule : List (ι × κ)) : Option (Threads Op Reply ι σ α) :=
  schedule.foldlM service.step threads

/-- What a thread may assume and must keep: an invariant of the shared state, and
for each thread the moves the others may make. -/
structure Contract (ι σ : Type) where
  inv : σ → Prop
  rely : ι → σ → σ → Prop
  refl : ∀ i s, rely i s s
  trans : ∀ i s₁ s₂ s₃, rely i s₁ s₂ → rely i s₂ s₃ → rely i s₁ s₃

variable (service : Service Op Reply ι σ κ) (contract : Contract ι σ)

/-- Run by thread `i` from `s`, the program keeps the contract and ends in `post`. -/
def Obeys (i : ι) (post : α → σ → Prop) : Prog Op Reply α → σ → Prop
  | .pure a, s => post a s
  | .call op next, s => ∀ s₁, contract.rely i s s₁ → contract.inv s₁ →
      ∀ choice reply s₂, service.serve i choice s₁ op = some (reply, s₂) →
        contract.inv s₂ ∧ (∀ j, j ≠ i → contract.rely j s₁ s₂) ∧ Obeys i post (next reply) s₂

variable {service contract} {i : ι} {post : α → σ → Prop} {s s' : σ}

theorem Obeys.mono {post' : α → σ → Prop} {program : Prog Op Reply α}
    (obeys : Obeys service contract i post program s)
    (weaker : ∀ a s, post a s → post' a s) : Obeys service contract i post' program s := by
  induction program generalizing s with
  | pure a => exact weaker a s obeys
  | call op next ih =>
    intro s₁ moved inv choice reply s₂ served
    obtain ⟨kept, guarantee, rest⟩ := obeys s₁ moved inv choice reply s₂ served
    exact ⟨kept, guarantee, ih reply rest⟩

theorem Obeys.bind {post : β → σ → Prop} {program : Prog Op Reply α}
    {k : α → Prog Op Reply β}
    (obeys : Obeys service contract i (fun a s => Obeys service contract i post (k a) s) program s) :
    Obeys service contract i post (program.bind k) s := by
  induction program generalizing s with
  | pure a => exact obeys
  | call op next ih =>
    intro s₁ moved inv choice reply s₂ served
    obtain ⟨kept, guarantee, rest⟩ := obeys s₁ moved inv choice reply s₂ served
    exact ⟨kept, guarantee, ih reply rest⟩

theorem Obeys.ask_bind {op : Op} {k : Reply op → Prog Op Reply α}
    (served : ∀ s₁, contract.rely i s s₁ → contract.inv s₁ → ∀ choice reply s₂,
      service.serve i choice s₁ op = some (reply, s₂) →
        contract.inv s₂ ∧ (∀ j, j ≠ i → contract.rely j s₁ s₂) ∧
          Obeys service contract i post (k reply) s₂) :
    Obeys service contract i post (Prog.ask op >>= k) s := served

/-- A waiting program does not mind what the others do. -/
theorem Obeys.stable {program : Prog Op Reply α}
    (settled : ∀ a s s', contract.rely i s s' → post a s → post a s')
    (obeys : Obeys service contract i post program s) (moved : contract.rely i s s') :
    Obeys service contract i post program s' := by
  cases program with
  | pure a => exact settled a s s' moved obeys
  | call op next =>
    intro s₁ moved' inv
    exact obeys s₁ (contract.trans i s s' s₁ moved moved') inv

/-- A program whose calls keep the invariant, are relied on by the others, and keep a property
that also the moves of the others keep. -/
theorem Obeys.of_calls {program : Prog Op Reply α} {P : Op → Prop} {I : σ → Prop}
    (calls : program.Calls P) (stable : ∀ s s', contract.rely i s s' → I s → I s')
    (kept : ∀ op, P op → ∀ s, contract.inv s → I s → ∀ choice reply s',
      service.serve i choice s op = some (reply, s') →
        contract.inv s' ∧ (∀ j, j ≠ i → contract.rely j s s') ∧ I s')
    (holds : I s) : Obeys service contract i (fun _ s => I s) program s := by
  induction calls generalizing s with
  | pure a => exact holds
  | call allowed _ ih =>
    intro s₁ moved inv choice reply s₂ served
    obtain ⟨inv', guarantee, holds'⟩ :=
      kept _ allowed s₁ inv (stable s s₁ moved holds) choice reply s₂ served
    exact ⟨inv', guarantee, ih reply holds'⟩

/-! ### Programs that can fail -/

variable {ε ε' : Type}

/-- A program that may fail: `ok` on its value, `err` on its error. -/
def Meets (service : Service Op Reply ι σ κ) (contract : Contract ι σ) (i : ι)
    (task : Task Op Reply ε α) (ok : α → σ → Prop) (err : ε → σ → Prop) (s : σ) : Prop :=
  Obeys service contract i
    (fun result s => match result with
      | .ok a => ok a s
      | .error e => err e s) task.run s

theorem Meets.mono {task : Task Op Reply ε α} {ok ok' : α → σ → Prop} {err err' : ε → σ → Prop}
    (meets : Meets service contract i task ok err s) (value : ∀ a s, ok a s → ok' a s)
    (failure : ∀ e s, err e s → err' e s) : Meets service contract i task ok' err' s := by
  refine Obeys.mono meets fun result s holds => ?_
  cases result with
  | ok a => exact value a s holds
  | error e => exact failure e s holds

theorem Meets.bind {task : Task Op Reply ε α} {k : α → Task Op Reply ε β} {ok : β → σ → Prop}
    {err : ε → σ → Prop}
    (meets : Meets service contract i task
      (fun a s => Meets service contract i (k a) ok err s) err s) :
    Meets service contract i (task >>= k) ok err s := by
  refine Obeys.bind (Obeys.mono meets fun result s holds => ?_)
  cases result with
  | ok a => exact holds
  | error e => exact holds

theorem Meets.ask {op : Op} {ok : Reply op → σ → Prop} {err : ε → σ → Prop}
    (served : ∀ s₁, contract.rely i s s₁ → contract.inv s₁ → ∀ choice reply s₂,
      service.serve i choice s₁ op = some (reply, s₂) →
        contract.inv s₂ ∧ (∀ j, j ≠ i → contract.rely j s₁ s₂) ∧ ok reply s₂) :
    Meets service contract i (Task.ask op : Task Op Reply ε (Reply op)) ok err s := served

theorem Meets.ofExcept {f : ε → ε'} {result : Except ε α} {ok : α → σ → Prop}
    {err : ε' → σ → Prop} (value : ∀ a, result = .ok a → ok a s)
    (failure : ∀ e, result = .error e → err (f e) s) :
    Meets service contract i (Task.ofExcept f result) ok err s := by
  cases result with
  | ok a => exact value a rfl
  | error e => exact failure e rfl

theorem Meets.mapErr {task : Task Op Reply ε α} {ok : α → σ → Prop} {err : ε' → σ → Prop}
    {f : ε → ε'} (meets : Meets service contract i task ok (fun e s => err (f e) s) s) :
    Meets service contract i (task.mapErr f) ok err s := by
  refine Obeys.bind (Obeys.mono meets fun result s holds => ?_)
  cases result with
  | ok a => exact holds
  | error e => exact holds

theorem Meets.reply {task : Task Op Reply ε (Except ε α)} {ok : α → σ → Prop} {err : ε → σ → Prop}
    (meets : Meets service contract i task
      (fun result s => (∀ a, result = .ok a → ok a s) ∧ ∀ e, result = .error e → err e s) err s) :
    Meets service contract i task.reply ok err s :=
  Meets.bind (meets.mono (fun _ _ holds => Meets.ofExcept holds.1 holds.2) fun _ _ failed => failed)

/-- A task that is run for its result does not fail. -/
theorem Meets.attempt {task : Task Op Reply ε α} {ok : α → σ → Prop} {err : ε → σ → Prop}
    {err' : ε' → σ → Prop} (meets : Meets service contract i task ok err s) :
    Meets service contract i (task.attempt : Task Op Reply ε' (Except ε α))
      (fun result s => (∀ a, result = .ok a → ok a s) ∧ ∀ e, result = .error e → err e s) err' s := by
  refine Obeys.bind (Obeys.mono meets fun result s holds => ?_)
  cases result with
  | ok a => exact ⟨fun _ same => by cases same; exact holds, nofun⟩
  | error e => exact ⟨nofun, fun _ same => by cases same; exact holds⟩

/-! ### Quiet programs

A program whose own calls look to its thread like the moves of the others. What
such a program does before it fails or is interrupted can be ignored. -/

/-- As `Obeys`, with every call in the `rely` of all threads. -/
def Calm (service : Service Op Reply ι σ κ) (contract : Contract ι σ) (i : ι)
    (post : α → σ → Prop) : Prog Op Reply α → σ → Prop
  | .pure a, s => post a s
  | .call op next, s => ∀ s₁, contract.rely i s s₁ → contract.inv s₁ →
      ∀ choice reply s₂, service.serve i choice s₁ op = some (reply, s₂) →
        contract.inv s₂ ∧ (∀ j, contract.rely j s₁ s₂) ∧
          Calm service contract i post (next reply) s₂

namespace Calm

/-- The result comes in a state that the start relies on. -/
theorem obeys {program : Prog Op Reply α} {start : σ} (reached : contract.rely i start s)
    (inv : contract.inv s) (calm : Calm service contract i post program s) :
    Obeys service contract i
      (fun a s' => contract.rely i start s' ∧ contract.inv s' ∧ post a s') program s := by
  induction program generalizing s with
  | pure a => exact ⟨reached, inv, calm⟩
  | call op next ih =>
    intro s₁ moved inv₁ choice reply s₂ served
    obtain ⟨kept, guarantee, rest⟩ := calm s₁ moved inv₁ choice reply s₂ served
    have reached' := contract.trans i s s₁ s₂ moved (guarantee i)
    exact ⟨kept, fun j _ => guarantee j,
      ih reply (contract.trans i start s s₂ reached reached') kept rest⟩

theorem bind {post' : β → σ → Prop} {program : Prog Op Reply α} {k : α → Prog Op Reply β}
    {start : σ} (reached : contract.rely i start s) (inv : contract.inv s)
    (first : Calm service contract i post program s)
    (later : ∀ a s', contract.rely i start s' → contract.inv s' → post a s' →
      Calm service contract i post' (k a) s') :
    Calm service contract i post' (program.bind k) s := by
  induction program generalizing s with
  | pure a => exact later a s reached inv first
  | call op next ih =>
    intro s₁ moved inv₁ choice reply s₂ served
    obtain ⟨kept, guarantee, rest⟩ := first s₁ moved inv₁ choice reply s₂ served
    have reached' := contract.trans i s s₁ s₂ moved (guarantee i)
    exact ⟨kept, guarantee, ih reply (contract.trans i start s s₂ reached reached') kept rest⟩

theorem withTimeout {timer : Op} {fired : Reply timer → Bool} {expired : α}
    {program : Prog Op Reply α}
    (polled : ∀ s₁, contract.inv s₁ → ∀ choice reply s₂,
      service.serve i choice s₁ timer = some (reply, s₂) →
        contract.inv s₂ ∧ ∀ j, contract.rely j s₁ s₂)
    (late : ∀ s, post expired s) (calm : Calm service contract i post program s) :
    Calm service contract i post (program.withTimeout timer fired expired) s := by
  induction program generalizing s with
  | pure a => exact calm
  | call op next ih =>
    intro s₁ moved inv choice reply s₂ served
    obtain ⟨kept, guarantee⟩ := polled s₁ inv choice reply s₂ served
    refine ⟨kept, guarantee, ?_⟩
    simp only
    split
    next => exact late s₂
    next =>
      intro s₃ moved' inv₃ choice reply s₄ served
      have reached := contract.trans i s s₁ s₂ moved (guarantee i)
      obtain ⟨kept', guarantee', rest⟩ :=
        calm s₃ (contract.trans i s s₂ s₃ reached moved') inv₃ choice reply s₄ served
      exact ⟨kept', guarantee', ih reply rest⟩

end Calm

/-- From a state with the invariant the task is calm, and `ok` holds of its value. -/
structure Quiet (service : Service Op Reply ι σ κ) (contract : Contract ι σ) (i : ι)
    (task : Task Op Reply ε α) (ok : α → σ → Prop) (s : σ) : Prop where
  calm : contract.inv s → Calm service contract i
    (fun result s' => ∀ a, result = .ok a → ok a s') task.run s

namespace Quiet

variable {ok : α → σ → Prop}

theorem meets {task : Task Op Reply ε α} (quiet : Quiet service contract i task ok s)
    (inv : contract.inv s) :
    Meets service contract i task
      (fun a s' => contract.rely i s s' ∧ contract.inv s' ∧ ok a s')
      (fun _ s' => contract.rely i s s' ∧ contract.inv s') s := by
  refine Obeys.mono ((quiet.calm inv).obeys (contract.refl i s) inv) fun result s' holds => ?_
  cases result with
  | ok a => exact ⟨holds.1, holds.2.1, holds.2.2 a rfl⟩
  | error e => exact ⟨holds.1, holds.2.1⟩

theorem pure {a : α} (holds : ok a s) :
    Quiet service contract i (Pure.pure a : Task Op Reply ε α) ok s := by
  refine ⟨fun _ b same => ?_⟩
  cases same
  exact holds

theorem throw {e : ε} : Quiet service contract i (throw e : Task Op Reply ε α) ok s := by
  refine ⟨fun _ b same => ?_⟩
  cases same

theorem bind {task : Task Op Reply ε α} {k : α → Task Op Reply ε β} {ok' : β → σ → Prop}
    (first : Quiet service contract i task ok s)
    (later : ∀ a s', contract.rely i s s' → contract.inv s' → ok a s' →
      Quiet service contract i (k a) ok' s') :
    Quiet service contract i (task >>= k) ok' s := by
  refine ⟨fun inv => ?_⟩
  refine Calm.bind (contract.refl i s) inv (first.calm inv) fun result s' moved kept holds => ?_
  cases result with
  | ok a => exact (later a s' moved kept (holds a rfl)).calm kept
  | error e => intro b same; cases same

theorem mono {task : Task Op Reply ε α} {ok' : α → σ → Prop}
    (quiet : Quiet service contract i task ok s)
    (value : ∀ a s', contract.rely i s s' → contract.inv s' → ok a s' → ok' a s') :
    Quiet service contract i task ok' s := by
  refine ⟨fun inv => ?_⟩
  have whole : task.run.bind Prog.pure = task.run := Prog.bind_pure _
  rw [← whole]
  refine Calm.bind (contract.refl i s) inv (quiet.calm inv) fun result s' moved kept holds => ?_
  exact fun a same => value a s' moved kept (holds a same)

theorem ofExcept {f : ε → ε'} {result : Except ε α} (value : ∀ a, result = .ok a → ok a s) :
    Quiet service contract i (Task.ofExcept f result) ok s := by
  cases result with
  | ok a => exact ⟨(pure (ε := ε') (value a rfl)).calm⟩
  | error e => exact ⟨(throw (e := f e)).calm⟩

/-- A result that is already there does not take a call. -/
theorem ofExcept_bind {f : ε → ε'} {result : Except ε β} {k : β → Task Op Reply ε' α}
    (later : ∀ b, result = .ok b → Quiet service contract i (k b) ok s) :
    Quiet service contract i (Task.ofExcept f result >>= k) ok s := by
  cases result with
  | ok b => exact ⟨(later b rfl).calm⟩
  | error e => exact ⟨(throw (e := f e)).calm⟩

theorem guard_bind {p : Prop} [Decidable p] {e : ε} {k : Unit → Task Op Reply ε α}
    (later : p → Quiet service contract i (k ()) ok s) :
    Quiet service contract i (Task.guard p e >>= k) ok s := by
  unfold Task.guard
  split
  next holds => exact ⟨(later holds).calm⟩
  next => exact ⟨(throw (e := e)).calm⟩

theorem mapErr {f : ε → ε'} {task : Task Op Reply ε α}
    (quiet : Quiet service contract i task ok s) :
    Quiet service contract i (task.mapErr f) ok s := by
  refine ⟨fun inv => ?_⟩
  refine Calm.bind (contract.refl i s) inv (quiet.calm inv) fun result s' _ _ holds => ?_
  cases result with
  | ok a => intro b same; cases same; exact holds a rfl
  | error e => intro b same; cases same

theorem reply {task : Task Op Reply ε (Except ε α)} {ok : Except ε α → σ → Prop}
    (quiet : Quiet service contract i task ok s) :
    Quiet service contract i task.reply (fun a s => ok (.ok a) s) s :=
  quiet.bind fun _ _ _ _ holds => ofExcept fun a same => by rw [← same]; exact holds

/-- A program that is run for its result may fail as it likes. -/
theorem lift {program : Prog Op Reply (Except ε α)}
    (quiet : Quiet service contract i (ExceptT.mk program : Task Op Reply ε α) ok s) :
    Quiet service contract i (ExceptT.lift program : Task Op Reply ε' (Except ε α))
      (fun result s => ∀ a, result = .ok a → ok a s) s := by
  refine ⟨fun inv => ?_⟩
  refine Calm.bind (contract.refl i s) inv (quiet.calm inv) fun result s' _ _ holds => ?_
  intro read same
  cases same
  exact holds

theorem ask {op : Op} {ok : Reply op → σ → Prop}
    (served : ∀ s₁, contract.rely i s s₁ → contract.inv s₁ → ∀ choice reply s₂,
      service.serve i choice s₁ op = some (reply, s₂) →
        contract.inv s₂ ∧ (∀ j, contract.rely j s₁ s₂) ∧ ok reply s₂) :
    Quiet service contract i (Task.ask op : Task Op Reply ε (Reply op)) ok s := by
  refine ⟨fun _ s₁ moved inv choice reply s₂ answer => ?_⟩
  obtain ⟨kept, guarantee, holds⟩ := served s₁ moved inv choice reply s₂ answer
  refine ⟨kept, guarantee, fun a same => ?_⟩
  cases same
  exact holds

/-- A quiet task before another one: whatever it does, its failure is harmless. -/
theorem bind_meets {task : Task Op Reply ε α} {k : α → Task Op Reply ε β} {ok' : β → σ → Prop}
    {err : ε → σ → Prop} (first : Quiet service contract i task ok s) (inv : contract.inv s)
    (failed : ∀ e s', contract.rely i s s' → contract.inv s' → err e s')
    (later : ∀ a s', contract.rely i s s' → contract.inv s' → ok a s' →
      Meets service contract i (k a) ok' err s') :
    Meets service contract i (task >>= k) ok' err s := by
  refine Meets.bind ((first.meets inv).mono ?_ ?_)
  · rintro a s' ⟨moved, kept, holds⟩
    exact later a s' moved kept holds
  · rintro e s' ⟨moved, kept⟩
    exact failed e s' moved kept

end Quiet

/-! ### Calls under a condition -/

open Classical in
/-- The service that answers only the calls that meet a condition. Its runs are the runs of
the service in which every call meets it. -/
noncomputable def restrict (service : Service Op Reply ι σ κ) (P : ι → κ → σ → Op → Prop) :
    Service Op Reply ι σ κ where
  serve i choice s op := if P i choice s op then service.serve i choice s op else none

theorem serve_restrict {P : ι → κ → σ → Op → Prop} {choice : κ} {op : Op}
    {answer : Reply op × σ} :
    (service.restrict P).serve i choice s op = some answer ↔
      P i choice s op ∧ service.serve i choice s op = some answer := by
  by_cases holds : P i choice s op
  · simp [restrict, holds]
  · simp [restrict, holds]

theorem step_restrict [DecidableEq ι] {P : ι → κ → σ → Op → Prop}
    {threads threads' : Threads Op Reply ι σ α} {turn : ι × κ}
    (meets : ∀ op next, threads.program turn.1 = .call op next →
      P turn.1 turn.2 threads.shared op)
    (stepped : service.step threads turn = some threads') :
    (service.restrict P).step threads turn = some threads' := by
  unfold step at stepped ⊢
  split at stepped
  next => cases stepped
  next op next waiting =>
    obtain ⟨⟨reply, shared⟩, served, rfl⟩ := Option.map_eq_some_iff.mp stepped
    rw [serve_restrict.mpr ⟨meets op next waiting, served⟩]
    rfl

/-! ### Parallel composition -/

variable [DecidableEq ι] {posts : ι → α → σ → Prop}

theorem step_obeys {threads threads' : Threads Op Reply ι σ α} {turn : ι × κ}
    (settled : ∀ i a s s', contract.rely i s s' → posts i a s → posts i a s')
    (inv : contract.inv threads.shared)
    (obey : ∀ i, Obeys service contract i (posts i) (threads.program i) threads.shared)
    (stepped : service.step threads turn = some threads') :
    contract.inv threads'.shared ∧
      ∀ i, Obeys service contract i (posts i) (threads'.program i) threads'.shared := by
  unfold step at stepped
  have mine := obey turn.1
  split at stepped
  next => cases stepped
  next op next waiting =>
    rw [waiting] at mine
    obtain ⟨⟨reply, shared⟩, served, rfl⟩ := Option.map_eq_some_iff.mp stepped
    obtain ⟨kept, guarantee, rest⟩ :=
      mine threads.shared (contract.refl _ _) inv turn.2 reply shared served
    refine ⟨kept, fun j => ?_⟩
    by_cases same : j = turn.1
    · subst same
      simpa using rest
    · -- The others only see a move that they rely on.
      simpa [Function.update_of_ne same] using
        (obey j).stable (settled j) (guarantee j same)

/-- Parallel composition: threads that obey one contract keep its invariant in every
interleaving, and every thread that has finished satisfies its postcondition. -/
theorem run_obeys {threads threads' : Threads Op Reply ι σ α} {schedule : List (ι × κ)}
    (settled : ∀ i a s s', contract.rely i s s' → posts i a s → posts i a s')
    (inv : contract.inv threads.shared)
    (obey : ∀ i, Obeys service contract i (posts i) (threads.program i) threads.shared)
    (ran : service.run threads schedule = some threads') :
    contract.inv threads'.shared ∧
      ∀ i, Obeys service contract i (posts i) (threads'.program i) threads'.shared := by
  induction schedule generalizing threads with
  | nil =>
    obtain rfl : threads = threads' := by simpa [run] using ran
    exact ⟨inv, obey⟩
  | cons turn rest ih =>
    obtain ⟨middle, stepped, later⟩ : ∃ middle, service.step threads turn = some middle ∧
        service.run middle rest = some threads' := by
      simpa [run, List.foldlM_cons, Option.bind_eq_some_iff] using ran
    obtain ⟨kept, obey'⟩ := step_obeys settled inv obey stepped
    exact ih kept obey' later

end Service

end Lib
