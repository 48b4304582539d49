import Buzz.Lib.Text
import Mathlib.Logic.Function.Basic

/-!
# Redis

The part of Redis that a fenced lease needs: string keys, some of them with a time to live, and
the commands that read and write them. A key with a time to live may still be there for a while
after its time has passed, so it goes in a step of its own (`expire`).

A Lua script runs as one step. It gets the integer reply of a command as a Lua number, which is
a double, and turns it into text with the format `%.14g`.
-/
namespace Lib

structure RedisValue where
  text : String
  /-- In milliseconds; none for a key that stays. -/
  expiresAt : Option Nat
deriving DecidableEq

structure Redis where
  now : Nat
  keys : String → Option RedisValue

inductive RedisError where
  | notAnInteger
  | wouldOverflow
deriving DecidableEq

/-- `string2ll`: how Redis reads an integer, in its shortest form only. -/
def string2ll (s : String) : Option Int :=
  let natural (digits : List Char) : Option Nat :=
    if digits ≠ [] ∧ digits.all Char.isDigit ∧ digits.head? ≠ some '0' then
      some (Nat.ofDigitChars 10 digits 0)
    else none
  match s.toList with
  | ['0'] => some 0
  | '-' :: digits => (natural digits).bind fun n => if n ≤ 2 ^ 63 then some (-n) else none
  | digits => (natural digits).bind fun n => if n < 2 ^ 63 then some n else none

/-! ### Decimal texts -/

theorem toString_toList (n : Nat) : (toString n).toList = Nat.toDigits 10 n := by simp

theorem toString_injective : Function.Injective (toString : Nat → String) := by
  intro m n same
  have digits := congrArg String.toList same
  rw [toString_toList, toString_toList] at digits
  rw [← Nat.ofDigitChars_ten_toDigits (n := m), digits, Nat.ofDigitChars_ten_toDigits]

private theorem all_isDigit_toDigits (n : Nat) : (Nat.toDigits 10 n).all Char.isDigit = true := by
  rw [List.all_eq_true]
  exact fun c member => Nat.isDigit_of_mem_toDigits (by decide) (by decide) member

private theorem toDigits_ne_nil (n : Nat) : Nat.toDigits 10 n ≠ [] := by
  intro empty
  have size := Nat.length_toDigits_pos (b := 10) (n := n)
  simp [empty] at size

private theorem head?_toDigits_ne_zero {n : Nat} (positive : 0 < n) :
    (Nat.toDigits 10 n).head? ≠ some '0' := by
  induction n using Nat.strongRecOn with
  | _ n ih =>
    by_cases small : n < 10
    · rw [Nat.toDigits_of_lt_base small]
      have all : ∀ d : Fin 10, 0 < d.val → [Nat.digitChar d].head? ≠ some '0' := by decide
      exact all ⟨n, small⟩ positive
    · have large : 10 ≤ n := by omega
      rw [Nat.toDigits_of_base_le (by decide) large,
        List.head?_append_of_ne_nil _ (toDigits_ne_nil _)]
      exact ih (n / 10) (by omega) (by omega)

theorem parseU64_toString {n : Nat} (fits : n < 2 ^ 64) : parseU64 (toString n) = some n := by
  have value : (Nat.toDigits 10 n).foldl (fun n c => n * 10 + (c.toNat - '0'.toNat)) 0 = n := by
    have read := Nat.ofDigitChars_ten_toDigits (n := n)
    rw [Nat.ofDigitChars_eq_foldl] at read
    simpa [Nat.mul_comm] using read
  have digits := all_isDigit_toDigits n
  unfold parseU64
  rw [toString_toList]
  split
  next rest starts =>
    rw [starts] at digits
    simp at digits
  next =>
    simp only
    rw [if_pos ⟨toDigits_ne_nil n, digits⟩, value, if_pos fits]

theorem string2ll_toString {n : Nat} (positive : 0 < n) (fits : n < 2 ^ 63) :
    string2ll (toString n) = some (n : Int) := by
  have digits := all_isDigit_toDigits n
  have leading := head?_toDigits_ne_zero positive
  unfold string2ll
  simp only [toString_toList]
  split
  next zero => simp [zero] at leading
  next rest starts =>
    rw [starts] at digits
    simp at digits
  next =>
    rw [if_pos ⟨toDigits_ne_nil n, digits, leading⟩, Nat.ofDigitChars_ten_toDigits,
      Option.bind_some, if_pos fits]

namespace Redis

def get (r : Redis) (key : String) : Option String := (r.keys key).map RedisValue.text

/-- `SET key text PX ttl`. -/
def setPx (r : Redis) (key text : String) (ttl : Nat) : Redis :=
  { r with keys := Function.update r.keys key (some ⟨text, some (r.now + ttl)⟩) }

def pexpire (r : Redis) (key : String) (ttl : Nat) : Redis :=
  { r with
    keys := Function.update r.keys key
      ((r.keys key).map fun value => { value with expiresAt := some (r.now + ttl) }) }

def del (r : Redis) (key : String) : Redis := { r with keys := Function.update r.keys key none }

/-- `INCR key`: a key that is not there counts as zero, and one that is keeps its time to live. -/
def incr (r : Redis) (key : String) : Except RedisError Int × Redis :=
  let value : RedisValue := (r.keys key).getD ⟨"0", none⟩
  match string2ll value.text with
  | none => (.error .notAnInteger, r)
  | some n =>
    if n = 2 ^ 63 - 1 then (.error .wouldOverflow, r)
    else (.ok (n + 1),
      { r with keys := Function.update r.keys key (some { value with text := toString (n + 1) }) })

/-- The time of the key has passed, and it goes. -/
def expire (r : Redis) (key : String) : Option Redis :=
  match r.keys key with
  | some ⟨_, some deadline⟩ => if deadline ≤ r.now then some (r.del key) else none
  | _ => none

def tick (r : Redis) (ms : Nat) : Redis := { r with now := r.now + ms }

@[simp] theorem get_setPx (r : Redis) (key key' text : String) (ttl : Nat) :
    (r.setPx key text ttl).get key' = if key' = key then some text else r.get key' := by
  by_cases same : key' = key <;> simp [get, setPx, Function.update, same]

@[simp] theorem get_pexpire (r : Redis) (key key' : String) (ttl : Nat) :
    (r.pexpire key ttl).get key' = r.get key' := by
  by_cases same : key' = key
  · subst same
    cases held : r.keys key' <;> simp [get, pexpire, held]
  · simp [get, pexpire, same]

@[simp] theorem get_del (r : Redis) (key key' : String) :
    (r.del key).get key' = if key' = key then none else r.get key' := by
  by_cases same : key' = key <;> simp [get, del, Function.update, same]

@[simp] theorem get_tick (r : Redis) (key : String) (ms : Nat) : (r.tick ms).get key = r.get key :=
  rfl

theorem eq_del_of_expire {r r' : Redis} {key : String} (gone : r.expire key = some r') :
    r' = r.del key := by
  unfold expire at gone
  split at gone
  next => split at gone <;> simp_all
  next => cases gone

private theorem text_getD (r : Redis) (key : String) :
    ((r.keys key).getD ⟨"0", none⟩).text = (r.get key).getD "0" := by
  cases held : r.keys key <;> simp [get, held]

theorem incr_of_counted {r : Redis} {key : String} {n : Int}
    (counted : string2ll ((r.get key).getD "0") = some n) (room : n ≠ 2 ^ 63 - 1) :
    (r.incr key).1 = .ok (n + 1) ∧ (r.incr key).2.get key = some (toString (n + 1)) := by
  simp only [incr, text_getD, counted, if_neg room]
  exact ⟨trivial, by simp [get]⟩

/-- The counter goes up by one, or nothing happens. -/
theorem incr_cases (r : Redis) (key : String) :
    (∃ e, r.incr key = (.error e, r)) ∨
      ∃ n : Int, string2ll ((r.get key).getD "0") = some n ∧ (r.incr key).1 = .ok (n + 1) ∧
        (r.incr key).2.get key = some (toString (n + 1)) := by
  cases counted : string2ll ((r.get key).getD "0") with
  | none =>
    simp only [incr, text_getD, counted]
    exact Or.inl ⟨_, rfl⟩
  | some n =>
    by_cases full : n = 2 ^ 63 - 1
    · simp only [incr, text_getD, counted, if_pos full]
      exact Or.inl ⟨_, rfl⟩
    · exact Or.inr ⟨n, rfl, incr_of_counted counted full⟩

theorem get_incr_of_ne (r : Redis) {key key' : String} (other : key' ≠ key) :
    (r.incr key).2.get key' = r.get key' := by
  simp only [incr]
  split
  next => rfl
  next n _ =>
    split
    next => rfl
    next => simp [get, other]

end Redis

/-! ### Lua numbers -/

namespace Lua

/-- The nearest multiple of `unit`, and of two the even one. -/
def roundTo (unit n : Nat) : Nat :=
  let below := n / unit
  let rest := n % unit
  unit * (if 2 * rest < unit ∨ (2 * rest = unit ∧ below % 2 = 0) then below else below + 1)

/-- The double of an integer. -/
def toDouble (n : Nat) : Nat := roundTo (2 ^ (Nat.log2 n + 1 - 53)) n

/-- `%.14g` of an integral double: fourteen significant digits, with an exponent when that is
not enough. -/
def format (x : Nat) : String :=
  if x < 10 ^ 14 then toString x
  else
    let digits := Nat.toDigits 10 (roundTo (10 ^ ((Nat.toDigits 10 x).length - 14)) x)
    let exponent := digits.length - 1
    let mantissa := (digits.reverse.dropWhile (· = '0')).reverse
    let fraction := match mantissa.tail with
      | [] => ""
      | rest => "." ++ String.ofList rest
    String.ofList (mantissa.take 1) ++ fraction ++ "e+" ++ toString exponent

/-- `tostring` of an integer reply. -/
def tostring (n : Int) : String :=
  if n < 0 then "-" ++ format (toDouble n.natAbs) else format (toDouble n.natAbs)

theorem roundTo_one (n : Nat) : roundTo 1 n = n := by
  simp [roundTo, Nat.mod_one]

/-- A double holds every integer of at most fourteen digits, and the format shows it in full. -/
theorem tostring_of_lt {n : Nat} (small : n < 10 ^ 14) : tostring n = toString n := by
  have exact : toDouble n = n := by
    by_cases zero : n = 0
    · subst zero
      decide
    · have few : Nat.log2 n < 52 := by
        rw [Nat.log2_lt zero]
        exact lt_trans small (by decide)
      have unit : 2 ^ (Nat.log2 n + 1 - 53) = 1 := by
        rw [show Nat.log2 n + 1 - 53 = 0 by omega, pow_zero]
      rw [toDouble, unit, roundTo_one]
  have positive : ¬ ((n : Int) < 0) := by omega
  rw [tostring, if_neg positive, Int.natAbs_natCast, exact, format, if_pos small]

end Lua

end Lib
