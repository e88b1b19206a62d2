import Traceline.Engine.Attempt

namespace Engine

open Lifecycle Spec Events Evaluators Storage

variable (E : Engine)

def schema_drift (case_id : String) : Storage.Error :=
  .engine_error s!"case '{case_id}' missing from run — schema drift"

def all_pass (outcome : AttemptResult) : Bool :=
  outcome.status = .completed && outcome.scores ≠ [] &&
    outcome.scores.all (·.status = .PASS)

-- Only a first attempt that completed and failed a metric is retried.
def retried (outcome : AttemptResult) : Bool :=
  outcome.status = .completed && outcome.scores.any (·.status = .FAIL)

-- Attempts `attempt`, `attempt + 1`, … of a repeat, at most `n` of them, until one passes.
def run_retries (run : Run) (case : TestCase) (repeat_index : ℕ) :
    (n attempt : ℕ) → M (List AttemptResult × List String)
  | 0,     _       => pure ([], [])
  | n + 1, attempt => do
    let (retry, warnings) ← E.run_attempt run case repeat_index attempt
    if all_pass retry then return ([retry], warnings)
    let (retries, more) ← run_retries run case repeat_index n (attempt + 1)
    return (retry :: retries, warnings ++ more)

-- The repeats from `repeat_index` on, each with its retries.
def run_repeats (run : Run) (case : TestCase) :
    (n repeat_index : ℕ) → M (List AttemptResult × List AttemptResult × List String)
  | 0,     _            => pure ([], [], [])
  | n + 1, repeat_index => do
    let (first, warnings) ← E.run_attempt run case repeat_index 0
    let (retries, more) ←
      if retried first then E.run_retries run case repeat_index run.retry_max 1
      else pure ([], [])
    let (firsts, others, rest) ← run_repeats run case n (repeat_index + 1)
    return (first :: firsts, retries ++ others, warnings ++ more ++ rest)

def any_cancelled (repeat_outcomes : List AttemptResult) : Bool :=
  repeat_outcomes.any (·.status = .cancelled)

-- Fresh samples continue past the highest repeat index there is.
def repeat_offset (prior : List AttemptRecord) : ℕ :=
  (prior.map (·.repeat_index + 1)).foldl max 0

-- What a case that ran to its end is recorded as.
def close_case (case_id : String) (repeat_outcomes retry_outcomes : List AttemptResult)
    (warnings : List String) : M CaseRunResult := do
  let (classification, error_category) := classify_case repeat_outcomes
  call (.set_case_classification case_id classification error_category)
  call (.set_case_status case_id
    (if repeat_outcomes.any (·.status = .completed) then .completed else .failed))
  match ← call (.get_case case_id) with
  | none        => throw (schema_drift case_id)
  | some record =>
    return { case_id, status := record.status, classification, error_category, repeat_outcomes,
             retry_outcomes, warnings }

-- `_run_case_inner`
def run_case_inner (run : Run) (case_id : String) : M CaseRunResult :=
  match run.spec.cases.find? (·.case_id = case_id) with
  | none      =>
    throw (.engine_error s!"case '{case_id}' is not in run's frozen spec — schema drift")
  | some case => do
    call (.set_case_status case_id .running)
    let prior ← call (.list_attempts (some case_id))
    let (repeat_outcomes, retry_outcomes, warnings) ←
      E.run_repeats run case run.repeats (repeat_offset prior)
    if any_cancelled repeat_outcomes then
      call (.set_case_status case_id .cancelled)
      return { case_id, status := .cancelled, classification := none,
               error_category := some "infra", repeat_outcomes, retry_outcomes, warnings }
    else close_case case_id repeat_outcomes retry_outcomes warnings

-- What a session has done so far: the results of the cases it ran, and the scores that landed.
structure Session where
  executed : List CaseRunResult := []
  landed   : List CaseScore := []
  warnings : List String := []

def Session.add (σ : Session) (result : CaseRunResult) : Session where
  executed := σ.executed ++ [result]
  landed   := σ.landed ++ result.repeat_outcomes.flatMap (·.scores)
  warnings := σ.warnings ++ result.warnings

-- `landed[metric_id]`
def Session.scores (σ : Session) (metric : Metric) : List CaseScore :=
  σ.landed.filter (·.metric_id = metric.metric_id)

def expected_n (run : Run) : ℕ :=
  run.spec.cases.length * run.repeats

def no_ci (run : Run) : Bool :=
  run.repeats < 3

-- Every metric's aggregate of what landed, without a gate.
def upsert_aggregates (run : Run) (σ : Session) (in_progress : Bool) : List Metric → M Unit
  | []                => pure ()
  | metric :: metrics => do
    let aggregate ← lift <|
      aggregate_metric E.L metric (σ.scores metric) (expected_n run) in_progress
    call (.upsert_run_metric_result (State.run_metric_result metric aggregate 1 none (no_ci run)))
    upsert_aggregates run σ in_progress metrics

-- A case that the run loop leaves alone.
def settled (status : RunCaseStatus) : Bool :=
  status = .completed || status = .failed || status = .cancelled || status = .skipped

def cancel_cases : List TestCase → M Unit
  | []            => pure ()
  | case :: cases => do
    match ← call (.get_case case.case_id) with
    | none        => throw (schema_drift case.case_id)
    | some record =>
      if settled record.status then cancel_cases cases
      else do
        call (.set_case_status case.case_id .cancelled)
        cancel_cases cases

-- `_cancel_run`
def cancel_run (run : Run) (σ : Session) : M RunResult := do
  cancel_cases run.spec.cases
  E.upsert_aggregates run σ false run.spec.metrics
  call (.set_run_status .cancelled)
  let metric_results ← call .get_run_metric_results
  return { status := .cancelled, case_results := σ.executed, metric_results, gate_results := [],
           warnings := σ.warnings }

-- The run loop, which ends with the session's scores unless a cancellation ended the session.
def run_cases (run : Run) : List TestCase → Session → M (Session ⊕ RunResult)
  | [],            σ => pure (.inl σ)
  | case :: cases, σ => do
    if ← ask (.should_cancel case.case_id) then
      return .inr (← E.cancel_run run σ)
    match ← call (.get_case case.case_id) with
    | none        => throw (schema_drift case.case_id)
    | some record =>
      if settled record.status then run_cases run cases σ
      else do
        let result ← E.run_case_inner run record.case_id
        let σ := σ.add result
        E.upsert_aggregates run σ true run.spec.metrics
        if any_cancelled result.repeat_outcomes then
          return .inr (← E.cancel_run run σ)
        run_cases run cases σ

-- `_case_first_attempt_scores_from_trace`
def first_attempt_scores (run : Run) (case_id : String) : List AttemptRecord → M (List CaseScore)
  | []            => pure []
  | a :: attempts =>
    if a.is_first_attempt then do
      let events ← call (.get_trace_events case_id a.attempt_id)
      let output ← call (.get_attempt_output a.attempt_id)
      let scores ← lift <| run.spec.metrics.mapM (E.rescore_metric run case_id events output)
      let rest ← first_attempt_scores run case_id attempts
      return scores ++ rest
    else first_attempt_scores run case_id attempts

def case_first_attempt_scores_from_trace (run : Run) (case_id : String) : M (List CaseScore) := do
  let attempts ← call (.list_attempts (some case_id))
  E.first_attempt_scores run case_id attempts

-- The scores of the cases that this session did not run.
def resume_scores (run : Run) (executed : List String) : List TestCase → M (List CaseScore)
  | []            => pure []
  | case :: cases =>
    if case.case_id ∈ executed then resume_scores run executed cases
    else do
      let scores ← E.case_first_attempt_scores_from_trace run case.case_id
      let rest ← resume_scores run executed cases
      return scores ++ rest

def gate_status (gate : GateResult) : GateStatus :=
  if gate.passed then .PASS
  else if gate.active then .FAIL
  else .NOT_APPLICABLE

def upsert_gated (run : Run) (σ : Session) : List Metric → M (List GateResult)
  | []                => pure []
  | metric :: metrics => do
    let aggregate ← lift <|
      aggregate_metric E.L metric (σ.scores metric) (expected_n run) false
    let gate := evaluate_gate E.L metric aggregate
    let gated := may_gate E.judge_readiness metric
    call <| .upsert_run_metric_result <|
      State.run_metric_result metric aggregate 1
        (some (if gated then gate_status gate else .NOT_APPLICABLE)) (no_ci run)
    let rest ← upsert_gated run σ metrics
    return if gated then gate :: rest else rest

-- The cost of a run by price version, in the order the versions first appear.
def cost_summaries (blocks : List CostBlock) : List CostSummary :=
  (blocks.map (·.price_version)).eraseDups.map fun price_version =>
    let own := blocks.filter (·.price_version = price_version)
    {
      price_version
      input_tokens  := (own.map fun b => b.tokens.input + b.tokens.cache_read).sum
      output_tokens := (own.map fun b => b.tokens.output + b.tokens.cache_write).sum
      usd_micros    := (own.map fun b => State.event_row.usd_micros b.cost_usd).sum
    }

def write_cost_summaries : M Unit := do
  let blocks ← call .cost_blocks
  if blocks = [] then return ()
  call (.add_cost_summaries (cost_summaries blocks))

def complete_run (run : Run) (σ : Session) : M RunResult := do
  let gate_results ← E.upsert_gated run σ run.spec.metrics
  write_cost_summaries
  call (.set_run_status .complete)
  let metric_results ← call .get_run_metric_results
  return { status := .complete, case_results := σ.executed, metric_results, gate_results,
           warnings := σ.warnings }

-- `_finalize`
def finalize (run : Run) (σ : Session) : M RunResult := do
  let resumed ← E.resume_scores run (σ.executed.map (·.case_id)) run.spec.cases
  match ← call .get_run with
  | none         => throw (.key_error "run not found")
  | some current => do
    if current.status = .running then
      call (.set_run_status .aggregating)
    E.complete_run run { σ with landed := σ.landed ++ resumed }

end Engine
