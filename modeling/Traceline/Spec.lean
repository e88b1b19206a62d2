import Mathlib.Data.List.Nodup
import Traceline.Python

-- The frozen evaluation object. A value of one of these types has passed the validators of its
-- model, so every check a validator makes is a field here.
namespace Spec

inductive TargetType
  | input
  | model_output
  | tool_invocation
  | tool_arguments
  | tool_output
  | retrieval
  | state_change
  | workflow_node
  | final_response
  | trace
  | run
  | external
  deriving DecidableEq, Repr

def TargetType.toString : TargetType → String
  | .input           => "input"
  | .model_output    => "model_output"
  | .tool_invocation => "tool_invocation"
  | .tool_arguments  => "tool_arguments"
  | .tool_output     => "tool_output"
  | .retrieval       => "retrieval"
  | .state_change    => "state_change"
  | .workflow_node   => "workflow_node"
  | .final_response  => "final_response"
  | .trace           => "trace"
  | .run             => "run"
  | .external        => "external"

def TargetType.toolScoped : TargetType → Bool
  | .tool_invocation | .tool_arguments | .tool_output => true
  | _                                                 => false

inductive Occurrence
  | first
  | last
  | all
  | index (n : ℕ)
  deriving DecidableEq, Repr

inductive OnMissing
  | fail
  | skip
  | pass
  deriving DecidableEq, Repr

structure Target where
  type       : TargetType
  tool       : Option String
  selector   : Option String
  occurrence : Option Occurrence
  on_missing : Option OnMissing
  selector_shape             : ∀ s ∈ selector, s.startsWith "$"
  tool_for_tool_scoped_types : type.toolScoped → tool.isSome
  on_missing_required        : type ≠ .run → on_missing.isSome

inductive EvaluatorType
  | exact_match
  | json_schema
  | regex
  | numeric
  | reference
  | cel_predicate
  | trace_rule
  | llm_judge
  | composite
  | recall_at_k
  | citation_correctness
  deriving DecidableEq, Repr

def EvaluatorType.toString : EvaluatorType → String
  | .exact_match          => "exact_match"
  | .json_schema          => "json_schema"
  | .regex                => "regex"
  | .numeric              => "numeric"
  | .reference            => "reference"
  | .cel_predicate        => "cel_predicate"
  | .trace_rule           => "trace_rule"
  | .llm_judge            => "llm_judge"
  | .composite            => "composite"
  | .recall_at_k          => "recall_at_k"
  | .citation_correctness => "citation_correctness"

structure EvaluatorConfig where
  type              : EvaluatorType
  expected          : Json := .null
  tolerance         : Option PyFloat := none
  pattern           : Option String := none
  schema            : Option (List (String × Json)) := none
  predicate         : Option String := none
  rule              : Option (List (String × Json)) := none
  rubric_version_id : Option String := none
  k                 : Option Int := none
  evidence          : Option (List (String × Bool)) := none

def nonempty (s : Option String) : Bool :=
  s.any (· ≠ "")

-- The shape `recall_at_k` asks of its expected ids.
def strings? : Json → Option (List String)
  | .arr xs => xs.mapM Json.string?
  | _       => none

def EvaluatorConfig.config_matches_type (e : EvaluatorConfig) : Bool :=
  match e.type with
  | .exact_match          => e.expected ≠ .null
  | .json_schema          => e.schema.isSome
  | .regex                => nonempty e.pattern
  | .numeric              => e.expected.isNumber && e.tolerance.isSome
  | .reference            => e.expected.string?.isSome
  | .cel_predicate        => nonempty e.predicate
  | .trace_rule           => e.rule.isSome
  | .llm_judge            => nonempty e.rubric_version_id
  | .composite            => true
  | .recall_at_k          =>
    (strings? e.expected).any (·.all (· ≠ "")) && e.k.any (1 ≤ ·)
  | .citation_correctness => e.evidence.isSome

structure Evaluator extends EvaluatorConfig where
  config_matches_type : toEvaluatorConfig.config_matches_type = true

inductive ScoringType
  | binary
  | numeric
  | categorical
  deriving DecidableEq, Repr

structure Scoring where
  type       : ScoringType
  range      : Option (PyFloat × PyFloat)
  categories : Option (List String)
  condition  : Option String
  range_required      : type = .binary ∨ type = .numeric → range.isSome
  range_ordered       : ∀ r ∈ range, r.2.lt r.1 = false
  categories_required : type = .categorical → categories.isSome

inductive Method
  | pass_rate
  | mean
  | p50
  | p95
  | min
  | sum
  deriving DecidableEq, Repr

inductive OnError
  | fail
  | exclude
  deriving DecidableEq, Repr

structure Aggregation where
  method   : Method
  on_error : OnError
  deriving DecidableEq, Repr

structure Gate where
  min : Option PyFloat
  max : Option PyFloat
  bounded : min.isSome ∨ max.isSome
  ordered : ∀ lo ∈ min, ∀ hi ∈ max, hi.lt lo = false

structure JudgeBinding where
  provider       : String
  model          : String
  schema_version : String
  rubric_version : String
  deriving DecidableEq, Repr

inductive MetricType
  | trace_rule
  | scalar
  | judge
  deriving DecidableEq, Repr

-- The evaluators whose raw output is a number.
def Evaluator.numeric_producing (e : Evaluator) : Bool :=
  match e.type with
  | .numeric | .recall_at_k | .citation_correctness => true
  | .trace_rule => e.rule.any fun rule => rule.lookup "op" = some (.str "count")
  | _           => false

structure Metric where
  metric_id     : String
  name          : String
  type          : MetricType
  target        : Target
  evaluator     : Evaluator
  scoring       : Scoring
  aggregation   : Aggregation
  gate          : Option Gate
  judge_binding : Option JudgeBinding
  provisional   : Bool
  judge_requires_binding     :
    type = .judge → judge_binding.isSome ∧ evaluator.type = .llm_judge
  scoring_condition_required :
    scoring.type = .binary → evaluator.numeric_producing → nonempty scoring.condition

inductive ExpectedTag
  | user_stated
  | inferred
  | derived_from_trace
  deriving DecidableEq, Repr

def ExpectedTag.toString : ExpectedTag → String
  | .user_stated        => "user_stated"
  | .inferred           => "inferred"
  | .derived_from_trace => "derived_from_trace"

structure ExpectedValue where
  tag   : ExpectedTag := .user_stated
  value : Json
  deriving DecidableEq, Repr

structure TestCase where
  case_id  : String
  input    : List (String × Json)
  expected : List (String × ExpectedValue)
  deriving DecidableEq, Repr

structure EvaluationSpec where
  name    : String
  cases   : List TestCase
  metrics : List Metric
  unique_cases   : (cases.map (·.case_id)).Nodup
  unique_metrics : (metrics.map (·.metric_id)).Nodup

namespace EvaluationSpec

variable {spec : EvaluationSpec} {case case' : TestCase}

theorem eq_of_case_id_eq (h : case ∈ spec.cases) (h' : case' ∈ spec.cases)
    (hid : case.case_id = case'.case_id) : case = case' :=
  List.inj_on_of_nodup_map spec.unique_cases h h' hid

theorem find_case (h : case ∈ spec.cases) :
    spec.cases.find? (·.case_id = case.case_id) = some case := by
  have hs : (spec.cases.find? (·.case_id = case.case_id)).isSome :=
    List.find?_isSome.mpr ⟨case, h, by simp⟩
  have ⟨case', hf⟩ := Option.isSome_iff_exists.mp hs
  have hid : case'.case_id = case.case_id := by simpa using List.find?_some hf
  rw [hf, eq_of_case_id_eq (List.mem_of_find?_eq_some hf) h hid]

end EvaluationSpec

end Spec
