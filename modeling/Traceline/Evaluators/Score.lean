import Traceline.Events
import Traceline.Spec

namespace Evaluators

open Spec Events

inductive CaseStatus
  | PASS
  | FAIL
  | ERROR
  | SKIPPED
  deriving DecidableEq, Repr

-- The exceptions of an evaluation, by who catches them: `evaluation` stands for EvaluationError,
-- TraceRuleError and JudgmentError, `value` for ValueError, TypeError, KeyError and AttributeError.
inductive Exc
  | evaluation (message : String)
  | value (message : String)
  | other (message : String)
  deriving DecidableEq, Repr

def Exc.message : Exc → String
  | .evaluation message | .value message | .other message => message

structure CaseScore where
  metric_id          : String
  case_id            : String
  score              : Option PyFloat
  passed             : Bool
  evidence_event_ids : List String
  status             : CaseStatus
  message            : String
  attempt            : Int
  on_retry_override  : Bool
  provisional        : Bool
  raw_value          : Json
  evaluator_version  : Option String
  deriving DecidableEq, Repr

structure RuleResult where
  result  : Bool
  matched : List String := []
  failing : List String := []
  value   : Option Int := none
  deriving DecidableEq, Repr

inductive SelectorToken
  | key (k : String)
  | index (n : ℕ)
  | wildcard
  deriving DecidableEq, Repr

-- The languages embedded in a metric. A missing value is none.
structure Languages where
  condition   : String → Except String (Option Json → Bool)
  predicate   : String → Except String (TraceEvent → Bool)
  rule        : List (String × Json) → List TraceEvent → Except Exc RuleResult
  regex       : String → Except String (String → Bool)
  json_schema : List (String × Json) → Option Json → Except Exc Bool
  selector    : String → Except Exc (List SelectorToken)
  repr        : Option Json → String

-- What every scoring function passes along to the score it returns.
structure Sample where
  metric            : Metric
  case_id           : String
  attempt           : Int
  on_retry_override : Bool
  provisional       : Bool

def Sample.result (x : Sample) (score : Option PyFloat) (status : CaseStatus)
    (evidence : List String) (message : String) (raw_value : Json) : CaseScore where
  metric_id          := x.metric.metric_id
  case_id            := x.case_id
  score
  passed             := status = .PASS
  evidence_event_ids := evidence
  status
  message
  attempt            := x.attempt
  on_retry_override  := x.on_retry_override
  provisional        := x.provisional
  raw_value
  evaluator_version  := none

def Sample.error (x : Sample) (message : String) : CaseScore :=
  x.result none .ERROR [] ("cannot evaluate: " ++ message) .null

def Sample.on_missing (x : Sample) (reason : String) : Except Exc CaseScore :=
  match x.metric.target.on_missing with
  | some .pass => .ok <| x.result (some (.finite 1)) .PASS [] s!"on_missing=pass ({reason})" .null
  | some .skip => .ok <| x.result none .SKIPPED [] s!"on_missing=skip ({reason})" .null
  | some .fail => .ok <| x.result (some (.finite 0)) .FAIL [] s!"on_missing=fail ({reason})" .null
  | none       =>
    .error <| .evaluation
      "target.on_missing must be fail|skip|pass, got None (§7A.3 — no default)"

-- An observed value, or one for each selected event.
inductive Raw
  | one (value : Option Json)
  | many (values : List (Option Json))

-- `isinstance(raw, list)`
def Raw.elements? : Raw → Option (List (Option Json))
  | .one (some (.arr xs)) => some (xs.map some)
  | .one _                => none
  | .many values          => some values

def Raw.of (values : List (Option Json)) : Raw :=
  match values with
  | [value] => .one value
  | values  => .many values

-- `_safe_raw_value`, which stores a missing value as null.
def Raw.safe : Raw → Json
  | .one value   => value.getD .null
  | .many values => .arr (values.map (·.getD .null))

def typed_eq : Option Json → Json → Bool
  | none,            _       => false
  | some (.bool a),  .bool b => a = b
  | some (.bool _),  _       => false
  | some _,          .bool _ => false
  | some (.int a),   b       => b.isNumber && (Json.int a).pyEq b
  | some (.float a), b       => b.isNumber && (Json.float a).pyEq b
  | some a,          b       => !b.isNumber && a.pyEq b

def dedupe_ids (ids : List String) : List String :=
  ids.eraseDups

namespace Languages

variable (L : Languages)

def repr_range (r : Option (PyFloat × PyFloat)) : String :=
  match r with
  | none          => L.repr (some .null)
  | some (lo, hi) => s!"({L.repr (some (.float lo))}, {L.repr (some (.float hi))})"

-- `str(value)`
def str : Json → String
  | .str s => s
  | value  => L.repr (some value)

def eval_condition (metric : Metric) (raw : Option Json) : Except Exc Bool :=
  match metric.scoring.condition with
  | some condition =>
    if condition = "" then missing else
      match L.condition condition with
      | .ok holds      => .ok (holds raw)
      | .error message => .error (.evaluation message)
  | none => missing
where
  missing : Except Exc Bool :=
    .error <| .evaluation <|
      s!"binary scoring of {L.repr (some (.str metric.evaluator.type.toString))} requires " ++
      "scoring.condition (a predicate over raw_value, §7A.2 — never defaulted)"

end Languages

def in_score_range (scoring : Scoring) (raw : Option Json) : Bool :=
  match raw.bind Json.number?, scoring.range with
  | some x, some (lo, hi) => lo.le x && x.le hi
  | _,      _             => false

def normalize_score (scoring : Scoring) (raw : Option Json) : Except Exc PyFloat :=
  match raw, raw.bind Json.number?, scoring.range with
  | some value, some x, some (lo, hi) =>
    if lo.lt hi then
      match value.toFloat with
      | .ok y          => .ok <| ((y.sub lo).div (hi.sub lo)).max (.finite 0) |>.min (.finite 1)
      | .error message => .error (.other message)
    else .ok <| .finite (if x.eq lo then 1 else 0)
  | _, some _, none => .error (.value "cannot unpack non-iterable NoneType object")
  | _, _,      _    => .ok (.finite 0)

-- `1.0 if passed else 0.0`
def unit (passed : Bool) : PyFloat :=
  .finite (if passed then 1 else 0)

def verdict (passed : Bool) : CaseStatus :=
  if passed then .PASS else .FAIL

namespace Sample

variable (x : Sample) (L : Languages)

def score_list (raw : Raw) (elements : List (Option Json)) (evidence : List String)
    (what : String) : Except Exc CaseScore :=
  match x.metric.scoring.type with
  | .binary => do
    let passed ← elements.allM (L.eval_condition x.metric)
    return x.result (some (unit passed)) (verdict passed) evidence
      (s!"{what}: every selected value must satisfy the condition " ++
        s!"(got {elements.length} values)") raw.safe
  | .numeric => do
    let norms ← elements.mapM (normalize_score x.metric.scoring)
    let passed := elements.all (in_score_range x.metric.scoring)
    if norms = [] then
      throw (.other "division by zero")
    return x.result (some <| (PyFloat.sum norms).div (.finite norms.length)) (verdict passed)
      evidence s!"{what}: normalized mean over {elements.length} selected values" raw.safe
  | .categorical =>
    .error <| .evaluation s!"categorical scoring cannot consume a list of values ({what})"

def score_one (raw : Option Json) (evidence : List String) (what : String) :
    Except Exc CaseScore :=
  match x.metric.scoring.type with
  | .binary => do
    let passed ← L.eval_condition x.metric raw
    return x.result (some (unit passed)) (verdict passed) evidence
      (s!"{what}: condition over raw_value={L.repr raw} " ++ if passed then "passed" else "failed")
      (raw.getD .null)
  | .numeric => do
    let passed := in_score_range x.metric.scoring raw
    let score ← normalize_score x.metric.scoring raw
    return x.result (some score) (verdict passed) evidence
      (s!"{what}: raw_value={L.repr raw} " ++ (if passed then "within" else "outside") ++
        s!" range {L.repr_range x.metric.scoring.range}") (raw.getD .null)
  | .categorical =>
    let categories := x.metric.scoring.categories.getD []
    let raw_s := raw.map L.str
    let shown := L.repr (some ((raw_s.map Json.str).getD .null))
    match raw_s.bind fun s => categories.idxOf? s with
    | some idx =>
      let score : ℚ := if categories.length > 1 then idx / (categories.length - 1 : ℚ) else 1
      .ok <| x.result (some (.finite score)) .PASS evidence s!"{what}: value {shown} in categories"
        (raw.getD .null)
    | none =>
      .ok <| x.result (some (.finite 0)) .FAIL evidence
        s!"{what}: value {shown} not in categories {L.repr (some (.arr (categories.map .str)))}"
        (raw.getD .null)

-- `_score_raw_value`
def score_raw_value (raw : Raw) (evidence : List String) (what : String) : Except Exc CaseScore :=
  match raw with
  | .many values          => x.score_list L raw values evidence what
  | .one (some (.arr xs)) => x.score_list L raw (xs.map some) evidence what
  | .one value            => x.score_one L value evidence what

-- `_boolean_case_score`
def boolean_case_score (passed : Bool) (evidence : List String) (what : String) :
    Except Exc CaseScore :=
  if x.metric.scoring.type = .binary then
    .ok <| x.result (some (unit passed)) (verdict passed) evidence
      (s!"{what} " ++ if passed then "passed" else "failed") (.bool passed)
  else
    x.score_raw_value L (.one (some (.float (unit passed)))) evidence what

end Sample

end Evaluators
