import Traceline.Evaluators.Condition
import Traceline.TraceRules.Evaluate

-- The languages in which a predicate is validated and in which it is scored.
namespace Evaluators

open Events Predicates

-- What an evaluator of type `cel_predicate` declares.
structure CelPredicate where
  predicate        : Option String
  language_version : Option Version

namespace CelPredicate

variable (lang : Language) (e : CelPredicate)

-- The check of `_config_matches_type`, which drops the predicate it has compiled.
def validate : Except String Predicate :=
  if Spec.nonempty e.predicate then
    (lang.compile (e.predicate.getD "") (some (e.language_version.getD .cel))).mapError fun
      | .value message                   => message
      | .semantic message                => s!"cel_predicate does not compile: {message}"
      | .syntax_error _ position message =>
        s!"cel_predicate does not compile: {message} (at position {position})"
  else .error "cel_predicate evaluator requires a non-empty 'predicate'"

-- The predicate that `_score_scalar` compiles.
def scored : Except Exc Predicate :=
  (lang.compile (e.predicate.getD "") none).mapError fun
    | .value message                   => .value message
    | .semantic message                => .evaluation s!"cel_predicate does not compile: {message}"
    | .syntax_error _ position message =>
      .evaluation s!"cel_predicate does not compile: {message} (at position {position})"

-- Whether a predicate is true of all of the selected events.
def passes (pred : Predicate) (sel : List TraceEvent) : Except Exc Bool :=
  sel.allM fun event => (pred event).mapError Exc.value

def passed (sel : List TraceEvent) : Except Exc Bool := do
  let pred ← e.scored lang
  passes pred sel

end CelPredicate

section Versions

variable {lang : Language} {e : CelPredicate} {p : Predicate}

theorem validate_eq_ok_iff : e.validate lang = .ok p ↔ Spec.nonempty e.predicate ∧
    lang.compile (e.predicate.getD "") (some (e.language_version.getD .cel)) = .ok p := by
  unfold CelPredicate.validate
  split
  case isTrue h  => rw [Except.mapError_eq_ok_iff, and_iff_right h]
  case isFalse h => exact iff_of_false (by simp) fun hp => h hp.left

theorem passes_singleton (event : TraceEvent) :
    CelPredicate.passes p [event] = (p event).mapError Exc.value := by
  unfold CelPredicate.passes
  cases h : p event with
  | error m => simp [List.allM, h, Except.mapError, bind, Except.bind]
  | ok b    => cases b <;> simp [List.allM, h, Except.mapError, bind, Except.bind, pure, Except.pure]

end Versions

end Evaluators

-- The subset of JSON Schema that a metric may ask for. A missing instance is none.
namespace Evaluators

open Events

namespace Schema

abbrev Fields := List (String × Json)

-- `_matches_json_type`
def matches_json_type (expected : Json) (inst : Option Json) : Bool :=
  match expected, inst with
  | .str "object",  some (.obj _)  => true
  | .str "array",   some (.arr _)  => true
  | .str "string",  some (.str _)  => true
  | .str "number",  some value     => value.isNumber
  | .str "integer", some (.int _)  => true
  | .str "boolean", some (.bool _) => true
  | .str "null",    some .null     => true
  | _,              _              => false

-- `for element in value`
def iterate (value : Json) : Except Exc (List Json) :=
  match value with
  | .arr xs  => .ok xs
  | .obj kvs => .ok (kvs.map fun (key, _) => .str key)
  | .str s   => .ok (s.toList.map fun c => .str (String.singleton c))
  | value    => .error (.value s!"'{value.type_name}' object is not iterable")

def type_ok (schema : Fields) (inst : Option Json) : Bool :=
  match schema.lookup "type" with
  | none | some .null    => true
  | some (.arr expected) => expected.any (matches_json_type · inst)
  | some expected        => matches_json_type expected inst

def enum_ok (schema : Fields) (inst : Option Json) : Except Exc Bool :=
  match schema.lookup "enum" with
  | none      => .ok true
  | some enum => do
    let values ← iterate enum
    return values.any (typed_eq inst)

def const_ok (schema : Fields) (inst : Option Json) : Bool :=
  match schema.lookup "const" with
  | none       => true
  | some const => typed_eq inst const

-- A number that something is compared with, for which a bool is one too.
def bound (value : Json) : Except Exc PyFloat :=
  match value with
  | .bool b => .ok (.finite b.toInt)
  | value   =>
    match value.number? with
    | some x => .ok x
    | none   => .error (.value s!"'{value.type_name}' does not order with a number")

-- A limit that a number is to respect, where the schema sets it.
def limit_ok (schema : Fields) (key : String) (respects : PyFloat → Bool) : Except Exc Bool :=
  match (schema.lookup key).getD .null with
  | .null => .ok true
  | value => do
    let x ← bound value
    return respects x

def numeric_ok (schema : Fields) (inst : Option Json) : Except Exc Bool :=
  match inst.bind Json.number? with
  | none   => .ok true
  | some n => do
    if !(← limit_ok schema "minimum" (·.le n)) then return false
    limit_ok schema "maximum" n.le

def string_ok (regex : String → Except String (String → Bool)) (schema : Fields)
    (inst : Option Json) : Except Exc Bool :=
  match inst.bind Json.string? with
  | none   => .ok true
  | some s => do
    let length : PyFloat := .finite s.length
    if !(← limit_ok schema "minLength" fun least => !length.lt least) then return false
    if !(← limit_ok schema "maxLength" fun most => !most.lt length) then return false
    match (schema.lookup "pattern").getD .null with
    | .null        => return true
    | .str pattern =>
      match regex pattern with
      | .ok search     => return search s
      | .error message =>
        throw (.evaluation s!"json_schema pattern does not compile: {message}")
    | _            => throw (.value "first argument must be string or compiled pattern")

-- `key not in instance` for each key, of which an array or an object does not hash.
def required_ok (schema : Fields) (kvs : Fields) : Except Exc Bool := do
  let required ← iterate ((schema.lookup "required").getD (.arr []))
  required.allM fun key =>
    match key with
    | .str key         => .ok (kvs.lookup key).isSome
    | .arr _ | .obj _  => .error (.value s!"unhashable type: '{key.type_name}'")
    | _                => .ok false

-- `(schema.get("properties") or {}).items()`
def properties (schema : Fields) : Except Exc Fields :=
  let value := (schema.lookup "properties").getD .null
  if !value.truthy then .ok []
  else
    match value with
    | .obj kvs => .ok kvs
    | value    => .error (.value s!"'{value.type_name}' object has no attribute 'items'")

theorem sizeOf_lookup {key : String} {kvs : Fields} {value : Json}
    (h : kvs.lookup key = some value) : sizeOf value < sizeOf kvs := by
  induction kvs with
  | nil           => cases h
  | cons kv kvs ih =>
    obtain ⟨k, v⟩ := kv
    rw [List.lookup_cons] at h
    split at h
    case h_1 =>
      obtain rfl := Option.some.inj h
      simp only [List.cons.sizeOf_spec, Prod.mk.sizeOf_spec]
      omega
    case h_2 =>
      have := ih h
      simp only [List.cons.sizeOf_spec]
      omega

-- The keywords that are not about parts of the instance, up to the first that it does not respect.
def keywords_ok (regex : String → Except String (String → Bool)) (schema : Fields)
    (inst : Option Json) : Except Exc Bool :=
  [.ok (type_ok schema inst), enum_ok schema inst, .ok (const_ok schema inst),
    numeric_ok schema inst, string_ok regex schema inst].allM id

-- `_json_ok`
def json_ok (regex : String → Except String (String → Bool)) (schema : Json)
    (inst : Option Json) : Except Exc Bool :=
  match schema with
  | .bool b     => .ok b
  | .obj schema => do
    if !(← keywords_ok regex schema inst) then return false
    match inst with
    | some (.obj kvs) =>
      if !(← required_ok schema kvs) then return false
      let subschemas ← properties schema
      subschemas.allM fun (key, subschema) =>
        match _h : kvs.lookup key with
        | none       => .ok true
        | some value => json_ok regex subschema (some value)
    | some (.arr xs)  =>
      match (schema.lookup "items").getD .null with
      | .null => return true
      | items => xs.attach.allM fun ⟨element, _h⟩ => json_ok regex items (some element)
    | _               => return true
  | _           => .ok false
  termination_by sizeOf inst
  decreasing_by
    · have := sizeOf_lookup _h
      simp only [Option.some.sizeOf_spec, Json.obj.sizeOf_spec]
      omega
    · have := List.sizeOf_lt_of_mem _h
      simp only [Option.some.sizeOf_spec, Json.arr.sizeOf_spec]
      omega

end Schema

-- `_Condition.compile(text).evaluate`
def compile_condition (py : Python) (text : String) : Except String (Option Json → Bool) :=
  match Conditions.compile py text.toList with
  | .ok node                                => .ok fun raw => Conditions.evaluate raw node
  | .error (.condition _ position message)  => .error s!"{message} (at position {position})"
  | .error (.value message)                 => .error message

-- The languages of a metric, of which the program implements two itself.
def Languages.implemented (L : Languages) (py : Python) : Languages :=
  { L with
    condition   := compile_condition py
    json_schema := fun schema => Schema.json_ok L.regex (.obj schema) }

-- The branch of `_score_scalar` for a `cel_predicate`.
def Sample.score_cel_predicate (x : Sample) (L : Languages) (lang : Predicates.Language)
    (e : CelPredicate) (sel : List TraceEvent) : Except Exc CaseScore := do
  let passed ← e.passed lang sel
  x.boolean_case_score L passed (ids_of sel) "cel_predicate"

end Evaluators
