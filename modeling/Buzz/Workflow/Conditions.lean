import Buzz.Lib.Cells
import Buzz.Lib.JsonShape
import Buzz.Workflow.Template
import Mathlib.Data.List.Perm.Basic

/-!
# The variables of conditions

`build_eval_context` of `buzz-workflow/src/executor.rs`: the condition of a step sees the trigger and
the outputs of the steps before it under names in which underscores stand for the dots of a
template's path. The iteration orders of the two hash maps are arguments.

The `evalexpr` crate and the numbers of `serde_json` are parameters.
-/
namespace Workflow

open Lib

/-! ### Step ids -/

def validStepId (id : String) : Bool :=
  id ≠ "" && byteLen id ≤ 64 && id.toList.all fun c => isAsciiAlphanumeric c || c == '_'

/-- The checks of `WorkflowDef::validate` on the ids of the steps, behind those already seen. -/
def validateStepIds (seen : List String) : List String → Except WorkflowError Unit
  | [] => .ok ()
  | id :: rest =>
    if trim id = "" then .error (.invalidDefinition "step id must not be empty")
    else if !validStepId id then
      .error (.invalidDefinition ("step id '" ++ id ++
        "' is invalid: must contain only alphanumeric characters and underscores"))
    else if id ∈ seen then .error (.invalidDefinition ("duplicate step id: " ++ id))
    else validateStepIds (id :: seen) rest

theorem validStepId_of_validate {seen ids : List String} (valid : validateStepIds seen ids = .ok ()) :
    ∀ id ∈ ids, validStepId id = true := by
  induction ids generalizing seen with
  | nil => simp
  | cons first rest ih =>
    simp only [validateStepIds] at valid
    split at valid
    · cases valid
    split at valid
    · cases valid
    next checked =>
      split at valid
      · cases valid
      · exact List.forall_mem_cons.mpr ⟨by simpa using checked, ih valid⟩

/-! ### The context of a condition -/

/-- `evalexpr::Value`, without its tuples. -/
inductive EvalValue (F : Type) where
  | string (s : String)
  | float (f : F)
  | int (i : Int)
  | boolean (b : Bool)
  | empty
deriving DecidableEq

inductive ValueType where
  | string
  | float
  | int
  | boolean
  | empty
deriving DecidableEq

def EvalValue.type {F : Type} : EvalValue F → ValueType
  | string _ => .string
  | float _ => .float
  | int _ => .int
  | boolean _ => .boolean
  | empty => .empty

/-- The functions that are registered. -/
inductive Helper where
  | strContains
  | strStartsWith
  | strEndsWith
  | strLen
deriving DecidableEq

def Helper.name : Helper → String
  | strContains => "str_contains"
  | strStartsWith => "str_starts_with"
  | strEndsWith => "str_ends_with"
  | strLen => "str_len"

/-- `serde_json::Number`, by its literal. -/
structure JsonNumbers (F : Type) where
  asI64 : NumberLiteral → Option Int
  asF64 : NumberLiteral → Option F

/-- `evalexpr::HashMapContext`, with its errors as texts. -/
structure HashMapContext (σ F : Type) where
  new : σ
  setFunction : σ → String → Helper → Except String σ
  setValue : σ → String → EvalValue F → Except String σ
  getValue : σ → String → Option (EvalValue F)

structure ConditionError where
  message : String
deriving DecidableEq

section

variable {σ F : Type} (crate : HashMapContext σ F) (numbers : JsonNumbers F)

/-- The variables of a context, with the errors of the executor. -/
def HashMapContext.cells : Cells σ String (EvalValue F) ConditionError where
  get := crate.getValue
  set s name value := (crate.setValue s name value).mapError .mk

/-- Functions are no variables, and a variable keeps its type. -/
structure HashMapContext.Documented : Prop where
  getValue_new : ∀ name, crate.getValue crate.new name = none
  setFunction_ok : ∀ s name helper, ∃ s', crate.setFunction s name helper = .ok s' ∧
    ∀ variable', crate.getValue s' variable' = crate.getValue s variable'
  cells_typed : crate.cells.Typed EvalValue.type

/-- Convert a `serde_json::Value` to an `evalexpr::Value`. -/
def jsonValueToEval : Json → EvalValue F
  | .str s => .string s
  | .bool b => .boolean b
  | .num n =>
    match numbers.asI64 n with
    | some i => .int i
    | none =>
      match numbers.asF64 n with
      | some f => .float f
      | none => .string (String.ofList n.text)
  | .null => .empty
  | other => .string (String.ofList other.print)

def TriggerContext.standardFields (ctx : TriggerContext) : List (String × String) :=
  [("text", ctx.text), ("author", ctx.author), ("channel_id", ctx.channelId),
    ("timestamp", ctx.timestamp), ("emoji", ctx.emoji), ("message_id", ctx.messageId)]

def triggerVar (field : String) : String := "trigger_" ++ field

def outputVar (stepId field : String) : String := "steps_" ++ stepId ++ "_output_" ++ field

def reserved (key : String) : Bool := startsWith "trigger_" key || startsWith "steps_" key

def registerHelpers (s : σ) : Except ConditionError σ :=
  [Helper.strContains, .strStartsWith, .strEndsWith, .strLen].foldlM
    (fun s helper => (crate.setFunction s helper.name helper).mapError .mk) s

def buildEvalContext (ctx : TriggerContext) (webhookFields : List (String × String))
    (stepOutputs : List (String × Json)) : Except ConditionError σ := do
  let s ← registerHelpers crate crate.new
  let s ← webhookFields.foldlM (fun s field =>
    if reserved field.1 then .ok s
    else crate.cells.set s (triggerVar field.1) (.string field.2)) s
  let s ← ctx.standardFields.foldlM
    (fun s field => crate.cells.set s (triggerVar field.1) (.string field.2)) s
  stepOutputs.foldlM (fun s output =>
    match output.2 with
    | .obj members => members.foldlM (fun s member =>
        crate.cells.set s (outputVar output.1 member.1) (jsonValueToEval numbers member.2)) s
    | _ => .ok s) s

end

/-! ### What templates see -/

/-- A hash map has one entry for a key, and so has a JSON object. -/
structure OneEach (ctx : TriggerContext) (outputs : List (String × Json)) : Prop where
  webhookFields : (ctx.webhookFields.map Prod.fst).Nodup
  stepOutputs : (outputs.map Prod.fst).Nodup
  members : ∀ id members, (id, Json.obj members) ∈ outputs → (members.map Prod.fst).Nodup

/-- The field of an output that a path leads to. -/
def outputField (outputs : List (String × Json)) (stepId field : String) : Option Json :=
  (outputs.lookup stepId).bind (·.get? field)

theorem resolveVariable_trigger (ctx : TriggerContext) (outputs : List (String × Json))
    (field : String) : resolveVariable ctx outputs ("trigger." ++ field) = ctx.getField field := by
  rw [resolveVariable, stripStart_append]

theorem jsonGetStr_eq (value : Json) (key : String) :
    jsonGetStr value key = (value.get? key).map jsonToString := by
  cases value <;> rfl

theorem resolveVariable_steps (ctx : TriggerContext) (outputs : List (String × Json)) {id : String}
    (valid : validStepId id = true) (field : String) :
    resolveVariable ctx outputs ("steps." ++ id ++ ".output." ++ field) =
      (outputField outputs id field).map jsonToString := by
  have undotted : '.' ∉ id.toList := by
    intro dot
    simp only [validStepId, Bool.and_eq_true, List.all_eq_true] at valid
    exact absurd (valid.2 '.' dot) (by decide)
  have path : "steps." ++ id ++ ".output." ++ field =
      "steps." ++ (id ++ (String.singleton '.' ++ ("output" ++ (String.singleton '.' ++ field)))) := by
    have dots : ".output." = String.singleton '.' ++ ("output" ++ String.singleton '.') := by decide
    rw [dots]
    simp only [String.append_assoc]
  have other (rest : String) : stripStart "trigger." ("steps." ++ rest) = none := by
    simp [stripStart, startsWith]
  have within : splitOnce '.' ("output" ++ (String.singleton '.' ++ field)) =
      some ("output", field) := splitOnce_append (by decide) field
  rw [path, resolveVariable, other]
  simp only [stripStart_append, splitOnce_append undotted, within, Option.bind_eq_bind,
    Option.bind_some, ne_eq, not_true_eq_false, if_false, outputField, jsonGetStr_eq,
    Option.map_bind]
  rfl

/-! ### Names -/

theorem triggerVar_injective : Function.Injective triggerVar := by
  intro field field' same
  simpa [triggerVar, ← String.toList_inj] using same

theorem outputVar_injective {id field field' : String}
    (same : outputVar id field = outputVar id field') : field = field' := by
  simpa [outputVar, ← String.toList_inj] using same

theorem outputVar_ne_triggerVar (id field field' : String) :
    outputVar id field ≠ triggerVar field' := by
  simp [outputVar, triggerVar, ← String.toList_inj]

/-! ### What a condition sees -/

section

variable {σ F : Type} {crate : HashMapContext σ F} {numbers : JsonNumbers F}

/-- What the webhook fields, the standard fields and the outputs write. -/
def webhookEntries (F : Type) (webhookFields : List (String × String)) :
    List (String × EvalValue F) :=
  (webhookFields.filter fun field => !reserved field.1).map
    fun field => (triggerVar field.1, .string field.2)

def standardEntries (F : Type) (ctx : TriggerContext) : List (String × EvalValue F) :=
  ctx.standardFields.map fun field => (triggerVar field.1, .string field.2)

def memberEntries (numbers : JsonNumbers F) (output : String × Json) :
    List (String × EvalValue F) :=
  match output.2 with
  | .obj members => members.map fun member =>
      (outputVar output.1 member.1, jsonValueToEval numbers member.2)
  | _ => []

def outputEntries (numbers : JsonNumbers F) (stepOutputs : List (String × Json)) :
    List (String × EvalValue F) := stepOutputs.flatMap (memberEntries numbers)

theorem setAll_webhookEntries (s : σ) (webhookFields : List (String × String)) :
    webhookFields.foldlM (fun s field =>
      if reserved field.1 then .ok s
      else crate.cells.set s (triggerVar field.1) (.string field.2)) s =
    crate.cells.setAll s (webhookEntries F webhookFields) := by
  induction webhookFields generalizing s with
  | nil => rfl
  | cons field rest ih =>
    cases skipped : reserved field.1 with
    | true =>
      have left : webhookEntries F (field :: rest) = webhookEntries F rest := by
        simp [webhookEntries, skipped]
      rw [left, List.foldlM_cons, if_pos skipped]
      exact ih s
    | false =>
      simp only [List.foldlM_cons, skipped, webhookEntries, Cells.setAll, Bool.not_false,
        List.filter_cons_of_pos, List.map_cons, Bool.false_eq_true, if_false]
      exact bind_congr fun s' => ih s'

theorem setAll_outputEntries (s : σ) (stepOutputs : List (String × Json)) :
    stepOutputs.foldlM (fun s output =>
      match output.2 with
      | .obj members => members.foldlM (fun s member =>
          crate.cells.set s (outputVar output.1 member.1) (jsonValueToEval numbers member.2)) s
      | _ => .ok s) s =
    crate.cells.setAll s (outputEntries numbers stepOutputs) := by
  induction stepOutputs generalizing s with
  | nil => rfl
  | cons output rest ih =>
    rw [List.foldlM_cons, outputEntries, List.flatMap_cons, Cells.setAll, List.foldlM_append]
    have own : (match output.2 with
        | .obj members => members.foldlM (fun s member => crate.cells.set s
            (outputVar output.1 member.1) (jsonValueToEval numbers member.2)) s
        | _ => Except.ok s) =
        crate.cells.setAll s (memberEntries numbers output) := by
      unfold memberEntries
      split
      next => simp only [Cells.setAll, List.foldlM_map]
      next => rfl
    rw [own]
    exact bind_congr fun s' => ih s'

theorem exists_registerHelpers (documented : crate.Documented) :
    ∃ s, registerHelpers crate crate.new = .ok s ∧ ∀ name, crate.getValue s name = none := by
  have all (helpers : List Helper) (s : σ) (free : ∀ name, crate.getValue s name = none) :
      ∃ s', helpers.foldlM (fun s helper =>
          (crate.setFunction s helper.name helper).mapError ConditionError.mk) s = .ok s' ∧
        ∀ name, crate.getValue s' name = none := by
    induction helpers generalizing s with
    | nil => exact ⟨s, rfl, free⟩
    | cons helper rest ih =>
      obtain ⟨s', registered, kept⟩ := documented.setFunction_ok s helper.name helper
      rw [List.foldlM_cons, registered]
      exact ih s' fun name => (kept name).trans (free name)
  exact all _ _ documented.getValue_new

theorem buildEvalContext_eq {s : σ} (ctx : TriggerContext)
    (registered : registerHelpers crate crate.new = .ok s)
    (webhookFields : List (String × String)) (stepOutputs : List (String × Json)) :
    buildEvalContext crate numbers ctx webhookFields stepOutputs =
      crate.cells.setAll s (webhookEntries F webhookFields ++ standardEntries F ctx ++
        outputEntries numbers stepOutputs) := by
  unfold buildEvalContext
  rw [registered]
  simp only [setAll_webhookEntries, setAll_outputEntries, Cells.setAll, List.foldlM_append,
    standardEntries, List.foldlM_map, bind_assoc]
  rfl

/-! ### Every variable -/

theorem mem_webhookEntries {webhookFields : List (String × String)} {field : String}
    {value : EvalValue F} : (triggerVar field, value) ∈ webhookEntries F webhookFields ↔
      ∃ text, (field, text) ∈ webhookFields ∧ reserved field = false ∧ value = .string text := by
  simp only [webhookEntries, List.mem_map, List.mem_filter, Bool.not_eq_true', Prod.mk.injEq]
  constructor
  · rintro ⟨⟨field', text⟩, ⟨member, free⟩, same, rfl⟩
    cases triggerVar_injective same
    exact ⟨text, member, free, rfl⟩
  · rintro ⟨text, member, free, rfl⟩
    exact ⟨(field, text), ⟨member, free⟩, rfl, rfl⟩

theorem agreeing_webhookEntries {webhookFields : List (String × String)}
    (nodup : (webhookFields.map Prod.fst).Nodup) : Agreeing (webhookEntries F webhookFields) :=
  (Agreeing.of_nodup (nodup.sublist (List.filter_sublist.map _))).map triggerVar_injective EvalValue.string

theorem mem_standardEntries {ctx : TriggerContext} {field : String} {value : EvalValue F} :
    (triggerVar field, value) ∈ standardEntries F ctx ↔
      ∃ text, (field, text) ∈ ctx.standardFields ∧ value = .string text := by
  simp only [standardEntries, List.mem_map, Prod.mk.injEq]
  constructor
  · rintro ⟨⟨field', text⟩, member, same, rfl⟩
    cases triggerVar_injective same
    exact ⟨text, member, rfl⟩
  · rintro ⟨text, member, rfl⟩
    exact ⟨(field, text), member, rfl, rfl⟩

theorem agreeing_standardEntries (ctx : TriggerContext) : Agreeing (standardEntries F ctx) := by
  have nodup : (ctx.standardFields.map Prod.fst).Nodup := by
    simp [TriggerContext.standardFields]
  exact (Agreeing.of_nodup nodup).map triggerVar_injective EvalValue.string

theorem outputField_eq_some {ctx : TriggerContext} {outputs : List (String × Json)}
    (once : OneEach ctx outputs) {id field : String} {value : Json} :
    outputField outputs id field = some value ↔
      ∃ members, (id, Json.obj members) ∈ outputs ∧ (field, value) ∈ members := by
  have agree : Agreeing outputs := Agreeing.of_nodup once.stepOutputs
  constructor
  · intro found
    obtain ⟨output, known, inside⟩ := Option.bind_eq_some_iff.mp found
    cases output with
    | obj members =>
      exact ⟨members, agree.lookup_eq_some.mp known, Json.mem_of_get? inside⟩
    | _ => cases inside
  · rintro ⟨members, known, inside⟩
    exact Option.bind_eq_some_iff.mpr ⟨_, agree.lookup_eq_some.mpr known,
      Json.get?_of_mem (once.members id members known) inside⟩

theorem mem_outputEntries {ctx : TriggerContext} {outputs : List (String × Json)}
    (once : OneEach ctx outputs) {name : String} {value : EvalValue F} :
    (name, value) ∈ outputEntries numbers outputs ↔ ∃ id field json,
      outputField outputs id field = some json ∧ name = outputVar id field ∧
        value = jsonValueToEval numbers json := by
  simp only [outputEntries, List.mem_flatMap, outputField_eq_some once]
  constructor
  · rintro ⟨⟨id, output⟩, known, member⟩
    cases output with
    | obj members =>
      obtain ⟨⟨field, json⟩, inside, same⟩ := List.mem_map.mp member
      cases same
      exact ⟨id, field, json, ⟨members, known, inside⟩, rfl, rfl⟩
    | _ => cases member
  · rintro ⟨id, field, json, ⟨members, known, inside⟩, rfl, rfl⟩
    exact ⟨_, known, List.mem_map.mpr ⟨(field, json), inside, rfl⟩⟩

/-- Output variables are written last and apart from those of the trigger. -/
def seen (numbers : JsonNumbers F) (ctx : TriggerContext) (webhookFields : List (String × String))
    (stepOutputs : List (String × Json)) (name : String) : Option (EvalValue F) :=
  ((outputEntries numbers stepOutputs).lookup name).or
    (((standardEntries F ctx).lookup name).or ((webhookEntries F webhookFields).lookup name))

section

variable {ctx : TriggerContext} {outputs : List (String × Json)} {steps : List String}

theorem lookup_outputEntries_trigger (once : OneEach ctx outputs) (field : String) :
    (outputEntries numbers outputs).lookup (triggerVar field) = none := by
  rw [List.lookup_eq_none_iff]
  rintro ⟨name, value⟩ member
  obtain ⟨id, field', -, -, rfl, -⟩ := (mem_outputEntries once).mp member
  simpa using (outputVar_ne_triggerVar id field' field).symm

theorem lookup_trigger_outputVar {entries : List (String × String)} (id field : String) :
    (entries.map fun entry => (triggerVar entry.1, EvalValue.string (F := F) entry.2)).lookup
      (outputVar id field) = none := by
  rw [List.lookup_eq_none_iff]
  intro entry member
  obtain ⟨field', -, rfl⟩ := List.mem_map.mp member
  simpa using outputVar_ne_triggerVar id field field'.1

/-- The context is built, whatever the orders are, and they do not matter. -/
theorem exists_buildEvalContext (documented : crate.Documented) (once : OneEach ctx outputs)
    (agree : Agreeing (outputEntries numbers outputs)) {webhookFields : List (String × String)}
    (fields : webhookFields.Perm ctx.webhookFields) {stepOutputs : List (String × Json)}
    (order : stepOutputs.Perm outputs) :
    ∃ s, buildEvalContext crate numbers ctx webhookFields stepOutputs = .ok s ∧
      ∀ name, crate.getValue s name = seen numbers ctx ctx.webhookFields outputs name := by
  obtain ⟨s₀, registered, free⟩ := exists_registerHelpers documented
  have typed := documented.cells_typed
  have webhook : Agreeing (webhookEntries F ctx.webhookFields) :=
    agreeing_webhookEntries once.webhookFields
  have webhookOrder : (webhookEntries F webhookFields).Perm (webhookEntries F ctx.webhookFields) :=
    (fields.filter _).map _
  have outputOrder : (outputEntries numbers stepOutputs).Perm (outputEntries numbers outputs) :=
    order.flatMap_right _
  obtain ⟨s₁, wrote₁, reads₁⟩ := typed.setAll (webhook.perm webhookOrder) (s := s₀)
    fun entry _ old holds => by
      rw [Option.mem_def, show crate.cells.get s₀ entry.1 = none from free entry.1] at holds
      cases holds
  -- the standard fields replace strings by strings
  obtain ⟨s₂, wrote₂, reads₂⟩ := typed.setAll (agreeing_standardEntries ctx) (s := s₁)
    fun entry member old holds => by
      obtain ⟨field, -, rfl⟩ := List.mem_map.mp member
      rw [Option.mem_def, reads₁, webhook.lookup_perm webhookOrder,
        show crate.cells.get s₀ (triggerVar field.1) = none from free _, Option.or_none,
        webhook.lookup_eq_some, mem_webhookEntries] at holds
      obtain ⟨text, -, -, rfl⟩ := holds
      rfl
  -- no output has been written
  obtain ⟨s₃, wrote₃, reads₃⟩ := typed.setAll (agree.perm outputOrder) (s := s₂)
    fun ⟨name, value⟩ member old holds => by
      obtain ⟨id, field, json, -, rfl, -⟩ := (mem_outputEntries once).mp (outputOrder.subset member)
      rw [Option.mem_def, reads₂, reads₁, webhook.lookup_perm webhookOrder, standardEntries,
        lookup_trigger_outputVar, webhookEntries, lookup_trigger_outputVar,
        show crate.cells.get s₀ _ = none from free _] at holds
      cases holds
  refine ⟨s₃, ?_, fun name => ?_⟩
  · rw [buildEvalContext_eq ctx registered, Cells.setAll_append, Cells.setAll_append, wrote₁]
    change crate.cells.setAll s₁ _ >>= _ = _
    rw [wrote₂]
    exact wrote₃
  · rw [show crate.getValue s₃ name = crate.cells.get s₃ name from rfl, reads₃, reads₂, reads₁,
      agree.lookup_perm outputOrder, webhook.lookup_perm webhookOrder,
      show crate.cells.get s₀ name = none from free name, Option.or_none]
    rfl

end

/-! ### Conditions and templates -/

section

variable (numbers : JsonNumbers F) (ctx : TriggerContext) (outputs : List (String × Json))
  (steps : List String)

/-- A condition sees what a template sees. -/
structure SeesSame (view : String → Option (EvalValue F)) : Prop where
  standard : ∀ field ∈ ctx.standardFields, view (triggerVar field.1) = some (.string field.2)
  trigger : ∀ field, field ∉ ctx.standardFields.map Prod.fst →
    view (triggerVar field) =
      (resolveVariable ctx outputs ("trigger." ++ field)).map .string
  output : ∀ id ∈ steps, ∀ field,
    resolveVariable ctx outputs ("steps." ++ id ++ ".output." ++ field) =
        (outputField outputs id field).map jsonToString ∧
      view (outputVar id field) = (outputField outputs id field).map (jsonValueToEval numbers)

/-- No webhook field is skipped, and no output has the variable of another step's field, unless that
field has the same value. -/
structure Unaliased : Prop where
  unreserved : ∀ field ∈ ctx.webhookFields, reserved field.1 = false
  apart : ∀ id ∈ steps, ∀ id' ∈ steps, id ≠ id' → ∀ field field' json,
    outputField outputs id' field' = some json → outputVar id field = outputVar id' field' →
      ∃ json', outputField outputs id field = some json' ∧
        jsonValueToEval numbers json' = jsonValueToEval numbers json

end

section

variable {ctx : TriggerContext} {outputs : List (String × Json)} {steps : List String}

theorem getField_of_notMem {field : String} (other : field ∉ ctx.standardFields.map Prod.fst) :
    ctx.getField field = ctx.webhookFields.lookup field := by
  simp only [TriggerContext.standardFields, List.map_cons, List.map_nil, List.mem_cons,
    List.not_mem_nil, or_false, not_or] at other
  unfold TriggerContext.getField
  split <;> simp_all

theorem Unaliased.value_eq (unaliased : Unaliased numbers ctx outputs steps)
    (known : ∀ output ∈ outputs, output.1 ∈ steps) (once : OneEach ctx outputs)
    {id id' field field' : String} (step : id ∈ steps) {json : Json}
    (found : outputField outputs id' field' = some json)
    (same : outputVar id field = outputVar id' field') :
    ∃ json', outputField outputs id field = some json' ∧
      jsonValueToEval numbers json' = jsonValueToEval numbers json := by
  by_cases own : id = id'
  · subst own
    cases outputVar_injective same
    exact ⟨json, found, rfl⟩
  · obtain ⟨members, listed, -⟩ := (outputField_eq_some once).mp found
    exact unaliased.apart id step id' (known _ listed) own field field' json found same

theorem Unaliased.agreeing (unaliased : Unaliased numbers ctx outputs steps)
    (known : ∀ output ∈ outputs, output.1 ∈ steps) (once : OneEach ctx outputs) :
    Agreeing (outputEntries numbers outputs) := by
  rintro ⟨name, value⟩ member ⟨name', value'⟩ member' same
  obtain ⟨id, field, json, found, called, rfl⟩ := (mem_outputEntries once).mp member
  obtain ⟨id', field', json', found', called', rfl⟩ := (mem_outputEntries once).mp member'
  obtain ⟨members, listed, -⟩ := (outputField_eq_some once).mp found
  obtain ⟨json'', there, equal⟩ := unaliased.value_eq known once (known _ listed) found'
    (called.symm.trans (same.trans called'))
  cases there.symm.trans found
  exact equal

theorem sees_seen (once : OneEach ctx outputs) (valid : ∀ id ∈ steps, validStepId id = true)
    (known : ∀ output ∈ outputs, output.1 ∈ steps)
    (unaliased : Unaliased numbers ctx outputs steps) :
    SeesSame numbers ctx outputs steps (seen numbers ctx ctx.webhookFields outputs) := by
  have agree := unaliased.agreeing known once
  constructor
  case standard =>
    intro field member
    have written := (agreeing_standardEntries (F := F) ctx).lookup_eq_some.mpr
      (mem_standardEntries.mpr ⟨field.2, member, rfl⟩)
    rw [seen, lookup_outputEntries_trigger once, written]
    rfl
  case trigger =>
    intro field other
    have absent : (standardEntries F ctx).lookup (triggerVar field) = none := by
      rw [List.lookup_eq_none_iff]
      intro entry member
      obtain ⟨field', there, rfl⟩ := List.mem_map.mp member
      rw [bne_iff_ne]
      intro same
      exact other (triggerVar_injective same ▸ List.mem_map_of_mem there)
    rw [seen, lookup_outputEntries_trigger once, absent, resolveVariable_trigger,
      getField_of_notMem other, Option.none_or, Option.none_or]
    ext value
    rw [(agreeing_webhookEntries once.webhookFields).lookup_eq_some, mem_webhookEntries,
      Option.map_eq_some_iff]
    constructor
    · rintro ⟨text, member, -, rfl⟩
      exact ⟨text, (Agreeing.of_nodup once.webhookFields).lookup_eq_some.mpr member, rfl⟩
    · rintro ⟨text, found, rfl⟩
      have member := (Agreeing.of_nodup once.webhookFields).lookup_eq_some.mp found
      exact ⟨text, member, unaliased.unreserved _ member, rfl⟩
  case output =>
    intro id step field
    refine ⟨resolveVariable_steps ctx outputs (valid id step) field, ?_⟩
    rw [seen, standardEntries, lookup_trigger_outputVar, webhookEntries, lookup_trigger_outputVar,
      Option.or_none, Option.or_none]
    ext value
    rw [agree.lookup_eq_some, mem_outputEntries once, Option.map_eq_some_iff]
    constructor
    · rintro ⟨id', field', json, found, same, rfl⟩
      exact unaliased.value_eq known once step found same
    · rintro ⟨json, found, rfl⟩
      exact ⟨id, field, json, found, rfl, rfl⟩

theorem getValue_reserved (documented : crate.Documented) (once : OneEach ctx outputs)
    {field : String} (skipped : reserved field = true)
    (other : field ∉ ctx.standardFields.map Prod.fst) {s : σ}
    (built : buildEvalContext crate numbers ctx ctx.webhookFields outputs = .ok s) :
    crate.getValue s (triggerVar field) = none := by
  obtain ⟨s₀, registered, free⟩ := exists_registerHelpers documented
  rw [buildEvalContext_eq ctx registered] at built
  refine (documented.cells_typed.get_setAll_of_notMem ?_ built).trans (free _)
  rw [List.mem_map]
  rintro ⟨⟨name, value⟩, member, rfl⟩
  rcases List.mem_append.mp member with member | member
  · rcases List.mem_append.mp member with member | member
    · obtain ⟨-, -, unreserved, -⟩ := mem_webhookEntries.mp member
      rw [skipped] at unreserved
      cases unreserved
    · obtain ⟨text, there, -⟩ := mem_standardEntries.mp member
      exact other (List.mem_map_of_mem there)
  · obtain ⟨id, field', -, -, same, -⟩ := (mem_outputEntries once).mp member
    exact outputVar_ne_triggerVar id field' field same.symm

/-- Conditions see what templates see, in whatever order the maps are read, exactly when no webhook
field has a reserved name and no two steps share a variable. -/
theorem conditions_see_templates_iff (documented : crate.Documented) (once : OneEach ctx outputs)
    (valid : validateStepIds [] steps = .ok ()) (known : ∀ output ∈ outputs, output.1 ∈ steps) :
    (∃ view, SeesSame numbers ctx outputs steps view ∧
      ∀ webhookFields stepOutputs, webhookFields.Perm ctx.webhookFields →
        stepOutputs.Perm outputs →
        ∃ s, buildEvalContext crate numbers ctx webhookFields stepOutputs = .ok s ∧
          ∀ name, crate.getValue s name = view name) ↔
      Unaliased numbers ctx outputs steps := by
  constructor
  · rintro ⟨view, sees, built⟩
    constructor
    case unreserved =>
      intro field member
      by_contra skipped
      rw [Bool.not_eq_false] at skipped
      have other : field.1 ∉ ctx.standardFields.map Prod.fst := by
        intro standard
        have free : ∀ name ∈ ctx.standardFields.map Prod.fst, reserved name = false := by
          simp only [TriggerContext.standardFields, List.map_cons, List.map_nil,
            List.forall_mem_cons]
          decide
        rw [free _ standard] at skipped
        cases skipped
      obtain ⟨s, ok, reads⟩ := built _ _ (.refl _) (.refl _)
      have resolved : resolveVariable ctx outputs ("trigger." ++ field.1) = some field.2 := by
        rw [resolveVariable_trigger, getField_of_notMem other]
        exact (Agreeing.of_nodup once.webhookFields).lookup_eq_some.mpr member
      have holds := sees.trigger field.1 other
      rw [← reads, getValue_reserved documented once skipped other ok, resolved] at holds
      cases holds
    case apart =>
      intro id step id' step' _ field field' json found same
      have mine := (sees.output id step field).2
      have its := (sees.output id' step' field').2
      rw [same, its, found] at mine
      exact Option.map_eq_some_iff.mp mine.symm
  · intro unaliased
    have valid := validStepId_of_validate valid
    exact ⟨_, sees_seen once valid known unaliased, fun _ _ fields order =>
      exists_buildEvalContext documented once (unaliased.agreeing known once) fields order⟩

end

end

namespace Sample

/-- A context as the function of its variables. -/
def hashMapContext : HashMapContext (String → Option (EvalValue Unit)) Unit where
  new _ := none
  setFunction s _ _ := .ok s
  setValue s name value :=
    if ∀ old ∈ s name, old.type = value.type then
      .ok fun name' => if name' = name then some value else s name'
    else .error "type mismatch"
  getValue s name := s name

theorem documented : hashMapContext.Documented where
  getValue_new _ := rfl
  setFunction_ok s _ _ := ⟨s, rfl, fun _ => rfl⟩
  cells_typed.get_set := by
    intro s s' name value written name'
    simp only [HashMapContext.cells, hashMapContext] at written ⊢
    split at written
    · cases written
      rfl
    · cases written
  cells_typed.set_typed := by
    intro s name value fits
    refine ⟨fun name' => if name' = name then some value else s name', ?_⟩
    simp only [HashMapContext.cells, hashMapContext] at fits ⊢
    rw [if_pos fits]
    rfl

/-- Neither reader of numbers is asked. -/
def numbers : JsonNumbers Unit := ⟨fun _ => none, fun _ => none⟩

def hook : TriggerContext := { webhookFields := [("note", "n")] }

def outputs (field value field' value' : String) : List (String × Json) :=
  [("a", .obj [(field, .str value)]), ("a_output_b", .obj [(field', .str value')])]

theorem oneEach (field value field' value' : String) :
    OneEach hook (outputs field value field' value') where
  webhookFields := by simp [hook]
  stepOutputs := by simp [outputs]
  members := by
    intro id members member
    simp only [outputs, List.mem_cons, Prod.mk.injEq, Json.obj.injEq, List.not_mem_nil,
      or_false] at member
    rcases member with ⟨-, rfl⟩ | ⟨-, rfl⟩ <;> simp

theorem valid : validateStepIds [] ["a", "a_output_b"] = .ok () := by decide

theorem known {field value field' value' : String} :
    ∀ output ∈ outputs field value field' value', output.1 ∈ ["a", "a_output_b"] := by
  simp [outputs]

end Sample

/-- The paths `steps.a.output.b_output_c` and `steps.a_output_b.output.c` lead to one variable. -/
theorem conditions_see_templates_aliased :
    (∃ view, SeesSame Sample.numbers Sample.hook (Sample.outputs "b_output_c" "x" "c" "y")
        ["a", "a_output_b"] view ∧
      ∀ webhookFields stepOutputs, webhookFields.Perm Sample.hook.webhookFields →
        stepOutputs.Perm (Sample.outputs "b_output_c" "x" "c" "y") →
        ∃ s, buildEvalContext Sample.hashMapContext Sample.numbers Sample.hook webhookFields
            stepOutputs = .ok s ∧
          ∀ name, Sample.hashMapContext.getValue s name = view name) ↔
      Unaliased Sample.numbers Sample.hook (Sample.outputs "b_output_c" "x" "c" "y")
        ["a", "a_output_b"] :=
  conditions_see_templates_iff Sample.documented (Sample.oneEach _ _ _ _) Sample.valid Sample.known

/-- Two valid steps whose outputs overwrite each other. -/
theorem outputs_overwrite :
    ¬ ∀ (ctx : TriggerContext) (outputs : List (String × Json)) (steps : List String),
      OneEach ctx outputs → validateStepIds [] steps = .ok () →
      (∀ output ∈ outputs, output.1 ∈ steps) →
      ∃ view, SeesSame Sample.numbers ctx outputs steps view ∧
        ∀ webhookFields stepOutputs, webhookFields.Perm ctx.webhookFields →
          stepOutputs.Perm outputs →
          ∃ s, buildEvalContext Sample.hashMapContext Sample.numbers ctx webhookFields
              stepOutputs = .ok s ∧
            ∀ name, Sample.hashMapContext.getValue s name = view name := by
  intro claimed
  obtain ⟨view, sees, -⟩ := claimed _ _ _ (Sample.oneEach "b_output_c" "x" "c" "y") Sample.valid
    Sample.known
  have first := (sees.output "a" (by simp) "b_output_c").2
  have second := (sees.output "a_output_b" (by simp) "c").2
  have same : outputVar "a" "b_output_c" = outputVar "a_output_b" "c" := by decide
  rw [same, second] at first
  revert first
  decide

end Workflow
