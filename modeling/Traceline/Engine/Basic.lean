import Traceline.Library.Prog
import Traceline.Storage

-- The engine over the storage of one run: what it asks of the code around it, and its evaluators.
namespace Engine

open Lifecycle Spec Events Evaluators Storage

def MAX_EVENTS_PER_ATTEMPT : ℕ :=
  1000

inductive InvocationStatus
  | completed
  | timed_out
  | invocation_failed
  | provider_unreachable
  | no_trace
  | cancelled
  deriving DecidableEq, Repr

-- The outcome of one invocation of the agent. A payload or an error of None is null, and an error
-- that is the agent's own message may be any value.
structure InvocationResult where
  status         : InvocationStatus
  exit_code      : Option Int
  trace_events   : List TraceEvent := []
  result_payload : Json := .null
  error          : Json := .null
  deriving DecidableEq

structure AdapterResult where
  outcome       : String
  output        : Json
  trace_events  : List TraceEvent
  remote_job_id : Option String
  deriving DecidableEq

-- What one invocation of a target adapter does: the remote jobs it asks to persist, in order, its
-- result or the exception it raises, and what the proxy records taken meanwhile convert to.
structure TargetAnswer where
  persisted    : List String
  result       : Except String AdapterResult
  proxy_events : Except String (List TraceEvent)

structure Invocation where
  case          : TestCase
  attempt_id    : String
  repeat_index  : ℕ
  attempt       : ℕ
  remote_job_id : Option String := none

inductive Query
  | should_cancel (case_id : String)
  | uuid4
  | invoke_agent (context : Invocation)
  | invoke_target (manifest : List (String × Json)) (context : Invocation)
  | set_order (ids : List String)

-- A set of ids is walked in any order.
@[reducible]
def Query.Answer : Query → Type
  | .should_cancel _   => Bool
  | .uuid4             => String
  | .invoke_agent _    => Except String InvocationResult
  | .invoke_target _ _ => TargetAnswer
  | .set_order ids     => { order : List String // order.Perm ids }

@[reducible]
def sig : Sig where
  Call   := Storage.Call
  Reply  := Storage.Call.Reply
  Query  := Query
  Answer := Query.Answer
  Error  := Storage.Error

abbrev store (run : Run) (p : Redaction.Patterns) : Store sig where
  State   := Storage.State
  perform := Storage.perform run p

abbrev M := Prog sig

abbrev call (c : Storage.Call) : M c.Reply :=
  Prog.perform (S := sig) c

abbrev ask (q : Query) : M q.Answer :=
  Prog.query (S := sig) q

-- What a judge sees of the attempt it scores.
structure JudgmentContext where
  candidate_output : Option (List (String × Json))
  evidence         : List TraceEvent

-- The snapshot of the active attempt, cut down to the evidence a judge asks for.
def judgment_context (active : Option JudgmentContext) (evidence : List String) :
    Except Exc JudgmentContext :=
  match active with
  | none         => .error (.value "judge context is unavailable outside an active attempt")
  | some context =>
    .ok { context with evidence := context.evidence.filter (·.event_id ∈ evidence) }

-- A judge resolves the context of the attempt when it is asked for a verdict.
structure Judge where
  binding  : JudgeBinding
  evaluate : (List String → Except Exc JudgmentContext) → Metric → TestCase → List String →
    Except Exc JudgeVerdict

structure AttemptResult where
  attempt_id      : String
  repeat_index    : ℕ
  attempt         : ℕ
  status          : AttemptStatus
  exit_code       : Option Int
  event_count     : ℕ
  trace_truncated : Bool
  error           : Json
  scores          : List CaseScore
  result_payload  : Json
  deriving DecidableEq

structure CaseRunResult where
  case_id         : String
  status          : RunCaseStatus
  classification  : Option String
  error_category  : Option String
  repeat_outcomes : List AttemptResult
  retry_outcomes  : List AttemptResult
  warnings        : List String

structure RunResult where
  status         : RunStatus
  case_results   : List CaseRunResult
  metric_results : List RunMetricResult
  gate_results   : List GateResult
  warnings       : List String

end Engine

structure Engine where
  L                  : Evaluators.Languages
  patterns           : Redaction.Patterns
  judge_factory      : Spec.JudgeBinding → Engine.Judge
  custom_evaluators  : List (String × Evaluators.CustomEvaluator)
  judge_readiness    : Option (Spec.JudgeBinding → Evaluators.ReadinessState)
  price_version      : String
  has_target_adapter : Bool

namespace Engine

open Lifecycle Spec Events Evaluators Storage

def lift {α : Type} : Except Exc α → M α
  | .ok a    => pure a
  | .error e => throw (.evaluator e)

-- `except EngineError`
def catch_engine_error {α : Type} (p : M α) : M (Except String α) :=
  tryCatch (Except.ok <$> p) fun
    | .engine_error message => pure (.error message)
    | e                     => throw e

section

variable (E : Engine) (active : Option JudgmentContext)

def judge_for (metric : Metric) : Except Exc (Option JudgeEvaluator) :=
  match metric.type, metric.judge_binding with
  | .judge, some binding =>
    let judge := E.judge_factory binding
    if judge.binding ≠ binding then
      .error <| .value <| s!"judge factory returned a judge bound to another binding, but metric " ++
        s!"{E.L.repr (some (.str metric.metric_id))} declares its own"
    else
      .ok <| some ⟨judge.binding, judge.evaluate (judgment_context active)⟩
  | _, _ => .ok none

-- Whether the live path scores a metric on the output of the attempt, where there is one.
def output_scored (metric : Metric) (result_status : InvocationStatus) : Bool :=
  result_status = .completed && non_event_target metric.target.type

-- The score of one metric while its attempt is active.
def score_metric (run : Run) (case_id : String) (events : List TraceEvent)
    (output : Option (List (String × Json))) (result_status : InvocationStatus) (attempt : ℕ)
    (metric : Metric) : Except Exc CaseScore :=
  match E.custom_evaluators.lookup metric.metric_id with
  | some custom =>
    score_custom E.L run.spec case_id events metric attempt (0 < attempt) custom
      (output.map .obj)
  | none => do
    let judge ← E.judge_for active metric
    match output with
    | some fields =>
      if output_scored metric result_status then
        score_output E.L run.spec case_id metric judge attempt (0 < attempt) (.obj fields)
      else on_events judge
    | none => on_events judge
where
  on_events (judge : Option JudgeEvaluator) : Except Exc CaseScore :=
    if 0 < attempt then score_attempt E.L run.spec case_id events metric judge
    else evaluate_case E.L run.spec case_id events metric judge

def score_attempt_metrics (run : Run) (case_id : String) (events : List TraceEvent)
    (output : Option (List (String × Json))) (result_status : InvocationStatus) (attempt : ℕ) :
    Except Exc (List CaseScore) :=
  run.spec.metrics.mapM (E.score_metric active run case_id events output result_status attempt)

-- The score of one metric on what storage kept of a first attempt.
def rescore_metric (run : Run) (case_id : String) (events : List TraceEvent)
    (output : Option (List (String × Json))) (metric : Metric) : Except Exc CaseScore :=
  match E.custom_evaluators.lookup metric.metric_id with
  | some custom =>
    score_custom E.L run.spec case_id events metric 0 false custom (output.map .obj)
  | none => do
    let judge ← E.judge_for none metric
    evaluate_case E.L run.spec case_id events metric judge

end

-- `_classify_case`: a sample passes where every metric does, and neither passes nor fails where
-- one errored or all were skipped.
def classify_case (repeat_outcomes : List AttemptResult) : Option String × Option String :=
  let first := repeat_outcomes.filter (·.attempt = 0)
  let completed := first.filter (·.status = .completed)
  let scored := completed.filter fun o =>
    o.scores ≠ [] && !o.scores.any (·.status = .ERROR)
  let fails := scored.countP fun o => o.scores.any (·.status = .FAIL)
  let passes := scored.countP fun o =>
    !o.scores.any (·.status = .FAIL) && o.scores.all (·.status = .PASS)
  let categories := first.filterMap fun o =>
    if o.status ≠ .completed then
      some <| if o.status = .timed_out ∨ o.status = .orphaned ∨ o.status = .budget_exceeded then
        "infra" else "agent"
    else if o.scores = [] then some "agent"
    else if o.scores.any (·.status = .ERROR) then some "evaluator"
    else none
  (if passes + fails = 0 then if categories = [] then none else some "ERRORED"
    else if fails = 0 then some "PASSING"
    else if passes = 0 then some "FAILING"
    else some "FLAKY",
    ["infra", "agent", "evaluator"].find? (· ∈ categories))

end Engine
