import Mathlib.Algebra.Order.Floor.Ring
import Mathlib.Data.Rat.Floor
import Traceline.Evaluators.Evaluate

namespace Evaluators

open Spec

inductive AggregationState
  | IN_PROGRESS
  | PARTIAL
  | COMPLETE
  deriving DecidableEq, Repr

structure RunAggregate where
  metric_id         : String
  value             : Option PyFloat
  pass_rate         : Option PyFloat
  mean              : Option PyFloat
  n_cases           : ℕ
  n_denominator     : ℕ
  error_n           : ℕ
  skipped_n         : ℕ
  aggregation_state : AggregationState
  deriving DecidableEq, Repr

structure GateResult where
  metric_id : String
  value     : Option PyFloat
  passed    : Bool
  active    : Bool
  message   : String
  deriving DecidableEq, Repr

inductive ReadinessState
  | UNCALIBRATED
  | CALIBRATING
  | CALIBRATED
  deriving DecidableEq, Repr

-- Nearest rank over the sorted scores. Where one of them is a NaN their order is not determined.
def percentile (values : List PyFloat) (p : ℚ) : PyFloat :=
  let sorted_values := values.mergeSort fun a b => !b.lt a
  let k := ⌈p * values.length⌉.toNat - 1
  sorted_values[k ⊓ (values.length - 1)]?.getD .nan

-- `min(values)`
def minimum : List PyFloat → PyFloat
  | []      => .nan
  | x :: xs => xs.foldl .min x

-- The scores that count: a retry never re-enters the pass rate.
def retained (scores : List CaseScore) : List CaseScore :=
  scores.filter (!·.on_retry_override)

def counted (on_error : OnError) (status : CaseStatus) : Bool :=
  match status with
  | .PASS | .FAIL => true
  | .ERROR        => on_error = .fail
  | .SKIPPED      => false

def denominator (metric : Metric) (scores : List CaseScore) : List CaseScore :=
  (retained scores).filter fun s => counted metric.aggregation.on_error s.status

-- What a score contributes: an ERROR counted as a failure contributes zero.
def contribution (s : CaseScore) : PyFloat :=
  s.score.getD (.finite 0)

def count (status : CaseStatus) (scores : List CaseScore) : ℕ :=
  scores.countP (·.status = status)

def pass_rate (scores : List CaseScore) : PyFloat :=
  .finite (count .PASS scores / scores.length)

def mean (values : List PyFloat) : PyFloat :=
  (PyFloat.sum values).div (.finite values.length)

def rollup (method : Method) (scores : List CaseScore) : PyFloat :=
  let values := scores.map contribution
  match method with
  | .pass_rate => pass_rate scores
  | .mean      => mean values
  | .p50       => percentile values (1 / 2)
  | .p95       => percentile values (19 / 20)
  | .min       => minimum values
  | .sum       => PyFloat.sum values

def aggregation_state (in_progress : Bool) (n expected_n : ℕ) : AggregationState :=
  if in_progress then .IN_PROGRESS
  else if n < expected_n then .PARTIAL
  else .COMPLETE

def aggregate_metric (L : Languages) (metric : Metric) (scores : List CaseScore)
    (expected_n : ℕ) (in_progress : Bool) : Except Exc RunAggregate :=
  match scores.find? (·.metric_id ≠ metric.metric_id) with
  | some s =>
    .error <| .value <| s!"score for metric {L.repr (some (.str s.metric_id))} aggregated " ++
      s!"under metric {L.repr (some (.str metric.metric_id))}"
  | none =>
    let counted := denominator metric scores
    let some? (x : PyFloat) := if counted = [] then none else some x
    .ok {
      metric_id         := metric.metric_id
      value             := some? (rollup metric.aggregation.method counted)
      pass_rate         := some? (pass_rate counted)
      mean              := some? (mean (counted.map contribution))
      n_cases           := (retained scores).length
      n_denominator     := counted.length
      error_n           := count .ERROR (retained scores)
      skipped_n         := count .SKIPPED (retained scores)
      aggregation_state := aggregation_state in_progress (retained scores).length expected_n
    }

def evaluate_gate (L : Languages) (metric : Metric) (aggregate : RunAggregate) : GateResult :=
  match metric.gate, aggregate.value with
  | none, value => ⟨metric.metric_id, value, true, false, "no gate declared"⟩
  | some _, none =>
    ⟨metric.metric_id, none, false, true,
      "no aggregated value (empty denominator) — the run cannot pass an unmeasured metric"⟩
  | some gate, some value =>
    let shown x := L.repr (some (.float x))
    let low := (gate.min.filter value.lt).map fun min =>
      s!"value {shown value} < gate.min {shown min}"
    let high := (gate.max.filter (·.lt value)).map fun max =>
      s!"value {shown value} > gate.max {shown max}"
    let parts := low.toList ++ high.toList
    let ok := parts.isEmpty
    ⟨metric.metric_id, some value, ok, true,
      if ok then "gate passed" else "gate failed: " ++ "; ".intercalate parts⟩

-- Whether a metric may gate, given the readiness of the judge bindings where there is a registry.
def may_gate (readiness : Option (JudgeBinding → ReadinessState)) (metric : Metric) : Bool :=
  !metric.provisional &&
    (metric.type ≠ .judge ||
      readiness.any fun state => metric.judge_binding.any fun b => state b = .CALIBRATED)

def gate_safe (metrics : List Metric) (readiness : Option (JudgeBinding → ReadinessState)) :
    List Metric :=
  metrics.filter (may_gate readiness)

end Evaluators
