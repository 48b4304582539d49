import Buzz.Lib.Find
import Buzz.Workflow.Engine
import Mathlib.Data.List.Forall2

/-!
# Templates

`resolve_template` of `buzz-workflow/src/executor.rs` replaces `\x7b\x7btrigger.X\x7d\x7d` and
`\x7b\x7bsteps.ID.output.X\x7d\x7d` in the parameters of a step. The loop is compared with the pieces
of the template: text, and spans from a pair of opening braces to the next pair of closing ones.

The encoding of public keys comes from the `nostr` crate and is a parameter.
-/
namespace Workflow

open Lib

def opening : List Char := ['\x7b', '\x7b']
def closing : List Char := ['\x7d', '\x7d']

/-- `WorkflowError::TemplateError`. -/
structure TemplateError where
  message : String
deriving DecidableEq

def TriggerContext.getField (ctx : TriggerContext) (name : String) : Option String :=
  match name with
  | "text" => some ctx.text
  | "author" => some ctx.author
  | "channel_id" => some ctx.channelId
  | "timestamp" => some ctx.timestamp
  | "emoji" => some ctx.emoji
  | "message_id" => some ctx.messageId
  | other => ctx.webhookFields.lookup other

/-- Convert a JSON value to a plain string for template substitution. -/
def jsonToString : Json → String
  | .str s => s
  | .bool b => if b then "true" else "false"
  | .num literal => String.ofList literal.text
  | .null => ""
  | other => String.ofList other.print

def jsonGetStr (value : Json) (key : String) : Option String :=
  match value with
  | .obj members => ((Json.obj members).get? key).map jsonToString
  | _ => none

section

variable (npubOf : String → Option String) (ctx : TriggerContext) (outputs : List (String × Json))

/-- Resolve a single variable path to its string value. -/
def resolveVariable (path : String) : Option String :=
  match stripStart "trigger." path with
  | some field => ctx.getField field
  | none => do
    let rest ← stripStart "steps." path
    let (stepId, rest) ← splitOnce '.' rest
    let (middle, field) ← splitOnce '.' rest
    if middle ≠ "output" then none
    else
      let output ← outputs.lookup stepId
      jsonGetStr output field

/-- `npubOf` is `PublicKey::from_hex` and `to_bech32`, when both succeed. -/
def applyFilter (value filter : String) : Except TemplateError String :=
  let filter := trim filter
  match (stripStart "truncate(" filter).bind (stripEnd ")") with
  | some inner =>
    match parseU64 (trim inner) with
    | some n => .ok (String.ofList (value.toList.take n))
    | none => .error ⟨"truncate() requires a number, got: " ++ inner⟩
  | none =>
    if filter = "npub" ∨ filter = "truncate_pubkey" then .ok ((npubOf value).getD value)
    else .error ⟨"unknown filter: " ++ filter⟩

/-- `splitn(2, '|')`: the path of the variable and the filter. -/
def varPath (expr : String) : String := trim ((splitOnce '|' expr).elim expr Prod.fst)

def filterOf (expr : String) : Option String := (splitOnce '|' expr).map fun parts => trim parts.2

/-- The value of a placeholder; none for an unknown variable. -/
def exprValue (expr : String) : Option (Except TemplateError String) :=
  (resolveVariable ctx outputs (varPath expr)).map fun value =>
    match filterOf expr with
    | some filter => applyFilter npubOf value filter
    | none => .ok value

/-- The loop, with what it has written and what remains; `value` is `exprValue`. -/
def resolveLoop (value : String → Option (Except TemplateError String))
    (result remaining : List Char) : Except TemplateError (List Char) :=
  match _opened : find opening remaining with
  | none => .ok (result ++ remaining)
  | some start =>
    let behind := remaining.drop (start + 2)
    match find closing behind with
    | none => .ok (result ++ remaining.take start ++ opening ++ behind)
    | some stop =>
      let expr := trim (String.ofList (behind.take stop))
      match value expr with
      | none =>
        -- Unknown variable.
        resolveLoop value (result ++ remaining.take start ++ opening ++ expr.toList ++ closing)
          (behind.drop (stop + 2))
      | some (.ok v) =>
        resolveLoop value (result ++ remaining.take start ++ v.toList) (behind.drop (stop + 2))
      | some (.error e) => .error e
termination_by remaining.length
decreasing_by
  all_goals
    have short : start + 2 ≤ remaining.length := (find_eq_some _opened).2
    simp only [List.length_drop]
    omega

def resolveTemplate (template : String) : Except TemplateError String :=
  if ¬ opening <:+: template.toList then .ok template
  else (resolveLoop (exprValue npubOf ctx outputs) [] template.toList).map String.ofList

end

/-! ### The pieces of a template -/

inductive Piece where
  | text (t : List Char)
  /-- What stands between the braces. -/
  | span (inner : List Char)
deriving DecidableEq

/-- A piece as it stands in the template. -/
def Piece.source : Piece → List Char
  | .text t => t
  | .span inner => opening ++ inner ++ closing

/-- From left to right: each span goes from the first opening braces to the next closing ones. -/
inductive Reads : List Char → List Piece → Prop where
  | plain {t : List Char} (none : ¬ opening <:+: t) : Reads t [.text t]
  | unclosed {t before behind : List Char} (first : First opening t before behind)
      (none : ¬ closing <:+: behind) : Reads t [.text t]
  | span {t before behind inner rest : List Char} {pieces : List Piece}
      (first : First opening t before behind) (next : First closing behind inner rest)
      (later : Reads rest pieces) : Reads t (.text before :: .span inner :: pieces)

theorem exists_reads (t : List Char) : ∃ pieces, Reads t pieces := by
  -- On the length: behind a complete span the template is shorter.
  induction length : t.length using Nat.strong_induction_on generalizing t with
  | h n ih =>
    cases opened : find opening t with
    | none => exact ⟨_, .plain (find_eq_none.mp opened)⟩
    | some start =>
      obtain ⟨first, -⟩ := find_eq_some opened
      cases closed : find closing (t.drop (start + opening.length)) with
      | none => exact ⟨_, .unclosed first (find_eq_none.mp closed)⟩
      | some stop =>
        obtain ⟨next, -⟩ := find_eq_some closed
        have shorter := first.length
        have shorter' := next.length
        have two : opening.length = 2 := rfl
        obtain ⟨pieces, later⟩ := ih ((t.drop (start + opening.length)).drop
          (stop + closing.length)).length (by omega) _ rfl
        exact ⟨_, .span first next later⟩

theorem Reads.unique {t : List Char} {pieces pieces' : List Piece} (reads : Reads t pieces)
    (reads' : Reads t pieces') : pieces = pieces' := by
  -- The first opening braces are at one place, and so are the closing ones behind them.
  induction reads generalizing pieces' with
  | plain none =>
    cases reads' with
    | plain => rfl
    | unclosed => rfl
    | span first => exact absurd first.occurs none
  | unclosed first none =>
    cases reads' with
    | plain => rfl
    | unclosed => rfl
    | span first' next =>
      obtain ⟨-, rfl⟩ := first.unique first'
      exact absurd next.occurs none
  | span first next later ih =>
    cases reads' with
    | plain none => exact absurd first.occurs none
    | unclosed first' none =>
      obtain ⟨-, rfl⟩ := first.unique first'
      exact absurd next.occurs none
    | span first' next' later' =>
      obtain ⟨rfl, rfl⟩ := first.unique first'
      obtain ⟨rfl, rfl⟩ := next.unique next'
      rw [ih later']

/-! ### What the loop writes -/

section

variable {value : String → Option (Except TemplateError String)} {t : List Char}

/-- What the loop looks up for a span. -/
def exprOf (inner : List Char) : String := trim (String.ofList inner)

/-- What the loop writes for a piece. -/
def Piece.written (value : String → Option (Except TemplateError String)) :
    Piece → Except TemplateError (List Char)
  | .text t => .ok t
  | .span inner =>
    match value (exprOf inner) with
    | none => .ok (opening ++ (exprOf inner).toList ++ closing)
    | some (.ok v) => .ok v.toList
    | some (.error e) => .error e

theorem resolveLoop_plain (none : ¬ opening <:+: t) (result : List Char) :
    resolveLoop value result t = .ok (result ++ t) := by
  unfold resolveLoop
  split
  next => rfl
  next start found => exact absurd (find_eq_some found).1.occurs none

theorem resolveLoop_unclosed {before behind : List Char} (first : First opening t before behind)
    (none : ¬ closing <:+: behind) (result : List Char) :
    resolveLoop value result t = .ok (result ++ t) := by
  have rest : t.drop (before.length + 2) = behind := first.drop
  unfold resolveLoop
  split
  next missing => exact absurd first.occurs (find_eq_none.mp missing)
  next start found =>
    obtain rfl := Option.some.inj ((find_of_first first).symm.trans found)
    rw [rest]
    dsimp only
    rw [find_eq_none.mpr none, first.take]
    simp [first.text_eq]

theorem resolveLoop_span {before behind inner rest : List Char}
    (first : First opening t before behind) (next : First closing behind inner rest)
    (result : List Char) :
    resolveLoop value result t = ((Piece.span inner).written value).bind fun part =>
      resolveLoop value (result ++ before ++ part) rest := by
  have toBehind : t.drop (before.length + 2) = behind := first.drop
  have toRest : behind.drop (inner.length + 2) = rest := next.drop
  rw [resolveLoop]
  split
  next missing => exact absurd first.occurs (find_eq_none.mp missing)
  next start found =>
    obtain rfl := Option.some.inj ((find_of_first first).symm.trans found)
    rw [toBehind]
    dsimp only
    rw [find_of_first next, first.take]
    dsimp only
    rw [toRest, next.take]
    -- The three outcomes of a lookup: unknown, a value, or a failed filter.
    simp only [Piece.written, exprOf]
    cases value (trim (String.ofList inner)) with
    | none => simp [Except.bind]
    | some answer =>
      cases answer with
      | error e => rfl
      | ok v => rfl

private theorem written_text {result out : List Char} :
    (∃ parts, List.Forall₂ (fun p part => Piece.written value p = .ok part) [.text t] parts ∧
      out = result ++ parts.flatten) ↔ out = result ++ t := by
  constructor
  · rintro ⟨parts, all, rfl⟩
    obtain ⟨part, others, written, none, rfl⟩ := List.forall₂_cons_left_iff.mp all
    obtain rfl := List.forall₂_nil_left_iff.mp none
    cases written
    simp
  · rintro rfl
    exact ⟨[t], .cons rfl .nil, by simp⟩

/-- The loop succeeds when every piece is written, and then it writes them one after the other. -/
theorem resolveLoop_eq_ok {pieces : List Piece} (reads : Reads t pieces) {result out : List Char} :
    resolveLoop value result t = .ok out ↔
      ∃ parts, List.Forall₂ (fun p part => Piece.written value p = .ok part) pieces parts ∧
        out = result ++ parts.flatten := by
  -- On the reading; the loop goes on behind each span with what it has written.
  induction reads generalizing result with
  | plain none => rw [resolveLoop_plain none, written_text, Except.ok.injEq, eq_comm]
  | unclosed first none => rw [resolveLoop_unclosed first none, written_text, Except.ok.injEq, eq_comm]
  | @span t before behind inner rest pieces first next later ih =>
    rw [resolveLoop_span first next]
    constructor
    · intro answered
      cases written : (Piece.span inner).written value with
      | error e =>
        rw [written] at answered
        cases answered
      | ok part =>
        rw [written] at answered
        obtain ⟨parts, all, rfl⟩ := ih.mp answered
        exact ⟨before :: part :: parts, .cons rfl (.cons written all), by simp⟩
    · rintro ⟨parts, all, rfl⟩
      obtain ⟨front, others, text, tail, rfl⟩ := List.forall₂_cons_left_iff.mp all
      obtain ⟨part, parts, written, last, rfl⟩ := List.forall₂_cons_left_iff.mp tail
      cases text
      rw [written]
      exact ih.mpr ⟨parts, last, by simp⟩

/-! ### Literal substitution -/

/-- A span with a value is replaced by it; everything else stays as it is. -/
def Piece.literal (value : String → Option (Except TemplateError String)) : Piece → List Char
  | .text t => t
  | .span inner =>
    match value (exprOf inner) with
    | some (.ok v) => v.toList
    | _ => (Piece.span inner).source

/-- A span of an unknown variable has no white space behind the opening and before the closing
braces. -/
def Piece.Bare (value : String → Option (Except TemplateError String)) : Piece → Prop
  | .text _ => True
  | .span inner => value (exprOf inner) = none → (exprOf inner).toList = inner

theorem exprOf_eq_of_length {inner : List Char} (same : inner.length ≤ (exprOf inner).toList.length) :
    (exprOf inner).toList = inner := by
  unfold exprOf trim trimBy at same ⊢
  rw [String.toList_ofList, String.toList_ofList] at *
  -- Trimming takes away at both ends, and neither end got shorter.
  have front := List.dropWhile_suffix (l := inner) isWhiteSpace
  have back := List.dropWhile_suffix (l := (inner.dropWhile isWhiteSpace).reverse) isWhiteSpace
  have short := front.length_le
  have short' := back.length_le
  rw [List.length_reverse] at same short'
  have whole := back.eq_of_length (by rw [List.length_reverse]; omega)
  rw [whole, List.reverse_reverse]
  exact front.eq_of_length (by omega)

theorem written_congr {value' : String → Option (Except TemplateError String)} {inner : List Char}
    (same : value (exprOf inner) = value' (exprOf inner)) :
    (Piece.span inner).written value = (Piece.span inner).written value' := by
  simp only [Piece.written, same]

theorem written_cases {p : Piece} {part : List Char} (written : p.written value = .ok part) :
    (p.Bare value ∧ part = p.literal value) ∨
      (¬ p.Bare value ∧ part.length < (p.literal value).length) := by
  cases p with
  | text t =>
    cases written
    exact .inl ⟨trivial, rfl⟩
  | span inner =>
    simp only [Piece.written] at written
    simp only [Piece.Bare, Piece.literal]
    cases found : value (exprOf inner) with
    | some answer =>
      rw [found] at written
      cases answer with
      | error e => cases written
      | ok v =>
        cases written
        exact .inl ⟨nofun, rfl⟩
    | none =>
      rw [found] at written
      cases written
      -- An unknown variable is written back trimmed.
      by_cases bare : (exprOf inner).toList = inner
      · exact .inl ⟨fun _ => bare, by rw [bare]; rfl⟩
      · refine .inr ⟨fun all => bare (all rfl), ?_⟩
        have shorter := mt exprOf_eq_of_length bare
        simp only [Piece.source, List.length_append]
        omega

/-- The parts are the literal ones exactly when no piece is padded. -/
theorem flatten_eq_iff {pieces : List Piece} {parts : List (List Char)}
    (all : List.Forall₂ (fun p part => Piece.written value p = .ok part) pieces parts) :
    (parts.flatten = pieces.flatMap (Piece.literal value) ↔ ∀ p ∈ pieces, p.Bare value) ∧
      parts.flatten.length ≤ (pieces.flatMap (Piece.literal value)).length := by
  -- Piece by piece; no part is longer than the literal one, so one that is shorter cannot be made
  -- up for.
  induction all with
  | nil => simp
  | @cons p part pieces parts written all ih =>
    rw [List.flatten_cons, List.flatMap_cons, List.length_append, List.length_append,
      List.forall_mem_cons]
    rcases written_cases written with ⟨bare, rfl⟩ | ⟨padded, shorter⟩
    · rw [List.append_cancel_left_eq, ih.1]
      exact ⟨by simp [bare], by omega⟩
    · refine ⟨⟨fun same => ?_, fun bare => absurd bare.1 padded⟩, by omega⟩
      -- what is lost here is not won back later
      have lengths := congrArg List.length same
      rw [List.length_append, List.length_append] at lengths
      omega

end

/-! ### The template -/

section

variable (npubOf : String → Option String) (ctx : TriggerContext) (outputs : List (String × Json))

variable {ctx outputs} in
theorem exprValue_congr {ctx' : TriggerContext} {outputs' : List (String × Json)} {expr : String}
    (same : resolveVariable ctx' outputs' (varPath expr) = resolveVariable ctx outputs (varPath expr)) :
    exprValue npubOf ctx' outputs' expr = exprValue npubOf ctx outputs expr := by
  unfold exprValue
  rw [same]

theorem resolveTemplate_eq_ok {template : String} {pieces : List Piece}
    (reads : Reads template.toList pieces) {out : String} :
    resolveTemplate npubOf ctx outputs template = .ok out ↔
      ∃ parts, List.Forall₂
        (fun p part => Piece.written (exprValue npubOf ctx outputs) p = .ok part) pieces parts ∧
        out.toList = parts.flatten := by
  -- The early exit returns what the loop would.
  have loop : resolveTemplate npubOf ctx outputs template =
      (resolveLoop (exprValue npubOf ctx outputs) [] template.toList).map String.ofList := by
    unfold resolveTemplate
    split
    next plain => simp [resolveLoop_plain plain, Except.map]
    next => rfl
  have answers : resolveTemplate npubOf ctx outputs template = .ok out ↔
      resolveLoop (exprValue npubOf ctx outputs) [] template.toList = .ok out.toList := by
    rw [loop]
    cases resolveLoop (exprValue npubOf ctx outputs) [] template.toList with
    | error e => simp [Except.map]
    | ok chars =>
      rw [Except.map, Except.ok.injEq, Except.ok.injEq]
      exact ⟨fun same => by rw [← same, String.toList_ofList],
        fun same => by rw [same, String.ofList_toList]⟩
  rw [answers, resolveLoop_eq_ok reads]
  simp only [List.nil_append]

/-- A template is read in one way, and when its substitution succeeds: the result is the template with
every span whose variable is known replaced by its value, and all else literally, exactly when no span
of an unknown variable is padded; and nothing but the values of its variables matters. -/
theorem resolveTemplate_literal_iff (template : String) :
    ∃ pieces, Reads template.toList pieces ∧ (∀ pieces', Reads template.toList pieces' →
      pieces' = pieces) ∧
    ∀ out, resolveTemplate npubOf ctx outputs template = .ok out →
      (out.toList = pieces.flatMap (Piece.literal (exprValue npubOf ctx outputs)) ↔
        ∀ p ∈ pieces, p.Bare (exprValue npubOf ctx outputs)) ∧
      ∀ ctx' outputs', (∀ inner, .span inner ∈ pieces →
          resolveVariable ctx' outputs' (varPath (exprOf inner)) =
            resolveVariable ctx outputs (varPath (exprOf inner))) →
        resolveTemplate npubOf ctx' outputs' template = .ok out := by
  obtain ⟨pieces, reads⟩ := exists_reads template.toList
  refine ⟨pieces, reads, fun pieces' reads' => reads'.unique reads, fun out answered => ?_⟩
  obtain ⟨parts, all, written⟩ := (resolveTemplate_eq_ok npubOf ctx outputs reads).mp answered
  rw [written]
  refine ⟨(flatten_eq_iff all).1, fun ctx' outputs' same => ?_⟩
  refine (resolveTemplate_eq_ok npubOf ctx' outputs' reads).mpr ⟨parts, ?_, written⟩
  -- The same parts are written with the other values, since each span of the template looks up the
  -- same.
  have inside : List.Forall₂ (fun p part => p ∈ pieces ∧
      Piece.written (exprValue npubOf ctx outputs) p = .ok part) pieces parts :=
    List.forall₂_and_left pieces parts |>.mpr ⟨fun p member => member, all⟩
  refine inside.imp fun p part ⟨member, here⟩ => ?_
  cases p with
  | text t =>
    cases here
    rfl
  | span inner => rw [← here, written_congr (exprValue_congr npubOf (same inner member))]

end

namespace Sample

/-- A placeholder with blanks inside of its braces. -/
def padded : String := "\x7b\x7b foo \x7d\x7d"

def paddedPieces : List Piece := [.text [], .span " foo ".toList, .text []]

theorem reads_padded : Reads padded.toList paddedPieces := by
  have front : First opening padded.toList [] " foo \x7d\x7d".toList := ⟨by decide, nofun⟩
  have back : First closing " foo \x7d\x7d".toList " foo ".toList [] := ⟨by decide, by decide⟩
  exact .span front back (.plain (by decide))

theorem exprValue_foo : exprValue (fun _ => none) {} [] "foo" = none := by decide

theorem exprOf_padded : exprOf " foo ".toList = "foo" := by decide

end Sample

/-- The blanks around an unknown variable are lost. -/
theorem resolveTemplate_padded :
    resolveTemplate (fun _ => none) {} [] Sample.padded = .ok "\x7b\x7bfoo\x7d\x7d" ∧
    Reads Sample.padded.toList Sample.paddedPieces ∧
    Sample.paddedPieces.flatMap (Piece.literal (exprValue (fun _ => none) {} [])) =
      Sample.padded.toList ∧
    Sample.padded ≠ "\x7b\x7bfoo\x7d\x7d" := by
  refine ⟨?_, Sample.reads_padded, ?_, by decide⟩
  · refine (resolveTemplate_eq_ok _ _ _ Sample.reads_padded).mpr
      ⟨[[], "\x7b\x7bfoo\x7d\x7d".toList, []], ?_, by decide⟩
    refine .cons rfl (.cons ?_ (.cons rfl .nil))
    simp only [Piece.written, Sample.exprOf_padded, Sample.exprValue_foo]
    decide
  · unfold Sample.paddedPieces
    simp only [List.flatMap_cons, Piece.literal, Sample.exprOf_padded, Sample.exprValue_foo]
    decide

end Workflow
