import Mathlib.Data.Prod.Lex
import Traceline.Evaluators.Score

namespace Evaluators

open Spec Events

structure JudgeVerdict where
  score         : PyFloat
  justification : String
  evidence_refs : List String
  deriving DecidableEq, Repr

-- A judge that is ready to be asked.
structure JudgeEvaluator where
  binding  : JudgeBinding
  evaluate : Metric → TestCase → List String → Except Exc JudgeVerdict

-- What a reviewed evaluator artifact is shown besides the test case.
structure Evidence where
  events : List TraceEvent
  output : Option Json

structure CustomEvaluator where
  version_id     : String
  pass_threshold : PyFloat
  evaluate       : Evidence → TestCase → Except Exc Json

-- `_NON_EVENT_TARGETS`
def non_event_target : TargetType → Bool
  | .final_response | .state_change | .workflow_node | .external => true
  | _                                                            => false

def target_event_type? : TargetType → Option EventType
  | .model_output                      => some .llm_response
  | .tool_invocation | .tool_arguments => some .tool_call
  | .tool_output                       => some .tool_result
  | .retrieval                         => some .retrieval
  | _                                  => none

-- The instant of a timestamp, where all of them are aware or all are naive.
def sort_key (e : TraceEvent) : Int ×ₗ Int :=
  toLex (e.timestamp.wall - e.timestamp.offset.getD 0 * 1000000, e.sequence)

-- `sort(key=lambda e: (e.timestamp, e.sequence))`
def sort_events (events : List TraceEvent) : Except Exc (List TraceEvent) :=
  if events.all (·.timestamp.offset.isSome) || events.all (·.timestamp.offset.isNone) then
    .ok <| events.mergeSort fun a b => sort_key a ≤ sort_key b
  else .error (.value "can't compare offset-naive and offset-aware datetimes")

def select_target_events (target : Target) (events : List TraceEvent) :
    Except Exc (List TraceEvent) :=
  match target_event_type? target.type with
  | none            => .ok []
  | some event_type =>
    sort_events <| events.filter fun e =>
      e.type = event_type && (target.tool.isNone || e.tool = target.tool)

def apply_occurrence (occurrence : Option Occurrence) (selected : List TraceEvent) :
    Option (List TraceEvent) :=
  match occurrence with
  | none | some .first => some (selected.take 1)
  | some .last         => some (selected.getLast?.toList)
  | some .all          => some selected
  | some (.index n)    => if n < selected.length then some (selected[n]?.toList) else none

def payload_ctx (event : TraceEvent) (key : String) : Option Json :=
  event.payload.bind (·.lookup key)

def payload (event : TraceEvent) : Json :=
  (event.payload.map Json.obj).getD .null

def ids_of (events : List TraceEvent) : List String :=
  events.map (·.event_id)

def select_token (value : Json) : SelectorToken → Option Json
  | .wildcard =>
    match value with
    | .obj kvs => some (.arr (kvs.map Prod.snd))
    | .arr xs  => some (.arr xs)
    | _        => none
  | .index n =>
    match value with
    | .arr xs => xs[n]?
    | _       => none
  | .key k => value.get? k

def Languages.select_from (L : Languages) (context : Option Json) (selector : Option String) :
    Except Exc (Option Json) :=
  match selector with
  | none   => .ok context
  | some s =>
    match L.selector s with
    | .ok tokens => .ok <| tokens.foldl (fun value token => value.bind (select_token · token)) context
    | .error e   => .error e

def case_from_spec (L : Languages) (spec : EvaluationSpec) (case_id : String) :
    Except Exc TestCase :=
  match spec.cases.find? (·.case_id = case_id) with
  | some case => .ok case
  | none      =>
    .error <| .value
      s!"case_id {L.repr (some (.str case_id))} not found in spec {L.repr (some (.str spec.name))}"

def validate_events (L : Languages) (case_id : String) (events : List TraceEvent) :
    Except Exc Unit :=
  match events.find? (·.case_id ≠ case_id) with
  | none       => .ok ()
  | some event =>
    .error <| .value <|
      s!"event {L.repr (some (.str event.event_id))} belongs to case " ++
      s!"{L.repr (some (.str event.case_id))}, not {L.repr (some (.str case_id))} — " ++
      "cross-case contamination is not scored"

def recall_at_k (relevant ranked : List String) (k : ℕ) : ℚ :=
  let relevant_set := relevant.dedup
  if relevant_set = [] then 0
  else (relevant_set.filter (· ∈ ranked.take k)).length / relevant_set.length

def citation_correctness (citations : List String) (evidence : List (String × Bool)) : Option ℚ :=
  if citations = [] then none
  else do
    let found ← citations.mapM fun citation => evidence.lookup citation
    return (found.filter id).length / citations.length

-- A dotted path into the expected values of a case.
def resolve_reference (L : Languages) (metric : Metric) (case : TestCase) : Except Exc Json :=
  match metric.evaluator.expected with
  | .str path =>
    let shown := L.repr (some (.str path))
    match path.splitOn "." with
    | "test" :: "expected" :: key :: segments =>
      match case.expected.lookup key with
      | none =>
        .error <| .evaluation <| s!"reference path {shown}: no expected value " ++
          s!"{L.repr (some (.str key))} on case {L.repr (some (.str case.case_id))}"
      | some expected =>
        segments.foldlM (fun value segment =>
          match value.get? segment with
          | some value => .ok value
          | none       =>
            .error <| .evaluation <| s!"reference path {shown}: " ++
              s!"{L.repr (some (.str segment))} does not resolve (expected value for " ++
              s!"{L.repr (some (.str key))} is {L.repr (some value)})") expected.value
    | _ =>
      .error <| .evaluation s!"reference path {shown} must start with 'test.expected' (§7A.2)"
  | path =>
    .error <| .evaluation s!"reference evaluator requires a field path, got {L.repr (some path)}"

namespace Sample

variable (x : Sample) (L : Languages)

-- A check of each observed value, which under other than binary scoring is not made.
def check (values : List (Option Json)) (evidence : List String) (what label : String)
    (holds : Option Json → Except Exc Bool) : Except Exc CaseScore :=
  if x.metric.scoring.type = .binary then do
    let passed ← values.allM holds
    x.boolean_case_score L passed evidence what
  else
    x.score_raw_value L (.of values) evidence label

-- `_score_observed_value`
def score_observed_value (values : List (Option Json)) (evidence : List String)
    (target_type : TargetType) (case : TestCase) : Except Exc CaseScore :=
  let evaluator := x.metric.evaluator
  match evaluator.type with
  | .exact_match =>
    x.check L values evidence "exact_match" s!"exact_match ({target_type.toString})" fun v =>
      .ok (typed_eq v evaluator.expected)
  | .regex =>
    match L.regex (evaluator.pattern.getD "") with
    | .error message =>
      .error <| .evaluation s!"regex evaluator pattern does not compile: {message}"
    | .ok search =>
      x.check L values evidence "regex" "regex" fun v =>
        .ok <| (v.bind Json.string?).any search
  | .numeric =>
    x.score_raw_value L (.of values) evidence s!"numeric ({target_type.toString})"
  | .recall_at_k =>
    match (Raw.of values).elements? with
    | none => .error (.evaluation "recall_at_k requires a ranked string list")
    | some elements =>
      match elements.mapM (·.bind Json.string?) with
      | none        => .error (.evaluation "recall_at_k ranked values must be strings")
      | some ranked =>
        let score := recall_at_k ((strings? evaluator.expected).getD []) ranked
          (evaluator.k.getD 1).toNat
        x.score_raw_value L (.one (some (.float (.finite score)))) evidence "recall_at_k"
  | .citation_correctness =>
    match ((Raw.of values).elements?).bind (·.mapM (·.bind Json.string?)) with
    | none => .error (.evaluation "citation_correctness requires a citation string list")
    | some citations =>
      match citation_correctness citations (evaluator.evidence.getD []) with
      | none       => .error (.evaluation "citation evidence is unavailable")
      | some score =>
        x.score_raw_value L (.one (some (.float (.finite score)))) evidence "citation_correctness"
  | .reference => do
    let expected_ref ← resolve_reference L x.metric case
    x.check L values evidence "reference" "reference" fun v => .ok (typed_eq v expected_ref)
  | .json_schema =>
    x.check L values evidence "json_schema" "json_schema" <|
      L.json_schema (evaluator.schema.getD [])
  | .composite =>
    .error <| .evaluation <|
      "composite evaluators need their child metric scores; the schema has no " ++
      "composite children field yet (§7A.2) — wire it before evaluating"
  | ev_type =>
    .error <| .evaluation <|
      s!"scalar metric with evaluator.type {L.repr (some (.str ev_type.toString))} " ++
      "cannot be evaluated here"

-- `_score_trace_rule`
def score_trace_rule (events : List TraceEvent) : Except Exc CaseScore :=
  match x.metric.evaluator.rule with
  | none => .error (.evaluation "a trace rule must be a JSON object")
  | some rule => do
    let result ← L.rule rule events
    if rule.lookup "op" = some (.str "count") then
      x.score_raw_value L (.one (some ((result.value.map Json.int).getD .null))) result.matched
        "count"
    else if result.result then
      return x.result (some (.finite 1)) .PASS result.matched
        s!"rule passed (matched {result.matched.length} events)" (.bool true)
    else
      return x.result (some (.finite 0)) .FAIL (dedupe_ids (result.matched ++ result.failing))
        "rule failed" (.bool false)

def outside_trace (t : TargetType) : String :=
  s!"target.type '{t.toString}' observes a value outside the trace"

-- The events a metric observes, or the reason why it observes none.
def observed (events : List TraceEvent) : Except Exc (List TraceEvent ⊕ String) := do
  match ← select_target_events x.metric.target events with
  | []                 => return .inr "the target matched zero events (§7A.3)"
  | selected@(_ :: _) =>
    match apply_occurrence x.metric.target.occurrence selected with
    | some sel => return .inl sel
    | none     => return .inr "occurrence index:N out of range (§7A.3)"

def observed_value (event : TraceEvent) : Except Exc (Option Json) :=
  let context :=
    match x.metric.target.type with
    | .tool_arguments => payload_ctx event "args"
    | .tool_output    => payload_ctx event "output"
    | .model_output   => payload_ctx event "content"
    | _               => some (payload event)
  L.select_from context x.metric.target.selector

-- `_score_scalar`
def score_scalar (spec : EvaluationSpec) (events : List TraceEvent) : Except Exc CaseScore :=
  let target := x.metric.target
  match target.type with
  | .run   =>
    .error (.value "target.type 'run' metrics are run-scoped (stage-2 scoring, §7A.5)")
  | .trace =>
    .error <| .evaluation
      "a scalar metric cannot evaluate a whole trace; use a trace_rule metric (§9A.3)"
  | .input => do
    let case ← case_from_spec L spec x.case_id
    let value ← L.select_from (some (.obj case.input)) target.selector
    x.score_observed_value L [value] [] .input case
  | t =>
    if non_event_target t then x.on_missing (outside_trace t)
    else do
      match ← x.observed events with
      | .inr reason => x.on_missing reason
      | .inl sel    =>
        if x.metric.evaluator.type = .cel_predicate then
          match L.predicate (x.metric.evaluator.predicate.getD "") with
          | .error message =>
            .error (.evaluation s!"cel_predicate does not compile: {message}")
          | .ok pred => x.boolean_case_score L (sel.all pred) (ids_of sel) "cel_predicate"
        else
          let values ← sel.mapM (x.observed_value L)
          let case ← case_from_spec L spec x.case_id
          x.score_observed_value L values (ids_of sel) t case

-- `_finish_judge`
def finish_judge (judge : JudgeEvaluator) (case : TestCase) (evidence : List String) :
    Except Exc CaseScore :=
  match judge.evaluate x.metric case evidence with
  | .error (.evaluation message) => .error (.evaluation s!"judge verdict invalid: {message}")
  | .error e                     => .error e
  | .ok verdict                  =>
    if x.metric.scoring.range.any fun (lo, hi) =>
        !(lo.le verdict.score && verdict.score.le hi) then
      .error <| .evaluation <| s!"judge score {L.repr (some (.float verdict.score))} " ++
        s!"outside the rubric scale {L.repr_range x.metric.scoring.range}"
    else
      x.score_raw_value L (.one (some (.float verdict.score)))
        (dedupe_ids (evidence ++ verdict.evidence_refs)) s!"judge ({judge.binding.model})"

-- `_score_judge`
def score_judge (spec : EvaluationSpec) (events : List TraceEvent) (judge : JudgeEvaluator) :
    Except Exc CaseScore :=
  match x.metric.target.type with
  | .trace | .run => x.on_missing (outside_trace x.metric.target.type)
  | .input        => do
    let case ← case_from_spec L spec x.case_id
    x.finish_judge L judge case []
  | t =>
    if non_event_target t then x.on_missing (outside_trace t)
    else do
      match ← x.observed events with
      | .inr reason => x.on_missing reason
      | .inl sel    =>
        let case ← case_from_spec L spec x.case_id
        x.finish_judge L judge case (ids_of sel)

-- An evaluation that fails becomes an ERROR score. Other exceptions go through.
def protect (r : Except Exc CaseScore) : Except Exc CaseScore :=
  match r with
  | .error (.evaluation message) => .ok (x.error message)
  | r                            => r

end Sample

section EntryPoints

variable (L : Languages) (spec : EvaluationSpec) (case_id : String) (events : List TraceEvent)
variable (metric : Metric) (judge : Option JudgeEvaluator)

def empty_trace : String :=
  "the attempt trace is empty (zero events) — §9A.5: on_missing governs"

def score_attempt : Except Exc CaseScore := do
  validate_events L case_id events
  let _ ← case_from_spec L spec case_id
  if metric.type = .judge ∧ judge.isNone then
    throw (.value "judge metrics require a JudgeEvaluator — never inline an LLM call here")
  if metric.target.type = .run then
    throw <| .value <| "target.type 'run' metrics are run-scoped (stage-2 scoring, §7A.5); " ++
      "evaluate_case/score_attempt are per-case"
  let attempts := (events.map (·.attempt)).dedup
  if attempts.length > 1 then
    throw <| .value s!"score_attempt requires events from a single attempt, got attempts {attempts}"
  let attempt := attempts.head?.getD 0
  let x : Sample := {
    metric
    case_id
    attempt
    on_retry_override := attempt > 0
    provisional       := metric.provisional
  }
  if events = [] ∧ metric.target.type ≠ .input then
    x.on_missing empty_trace
  else
    Sample.protect x <|
      match metric.type, judge with
      | .trace_rule, _          => x.score_trace_rule L events
      | .scalar,     _          => x.score_scalar L spec events
      | .judge,      some judge => x.score_judge L spec events judge
      | .judge,      none       => .error (.value "judge metrics require a JudgeEvaluator")

-- First attempts are authoritative.
def evaluate_case : Except Exc CaseScore := do
  validate_events L case_id events
  score_attempt L spec case_id (events.filter (·.attempt = 0)) metric judge

variable (attempt : Int) (on_retry_override : Bool)

-- The part of an output that a target without events observes.
def output_context (output : Json) : Json :=
  if metric.target.type = .final_response then (output.get? "final_response").getD output
  else output

def score_output (output : Json) : Except Exc CaseScore := do
  let case ← case_from_spec L spec case_id
  let x : Sample := {
    metric
    case_id
    attempt
    on_retry_override
    provisional := metric.provisional
  }
  Sample.protect x <|
    match metric.type, judge with
    | .judge, none => .error (.evaluation "judge metrics require a configured judge")
    | .judge, some judge =>
      if non_event_target metric.target.type then x.finish_judge L judge case []
      else score_attempt L spec case_id [] metric judge
    | .scalar, judge =>
      if non_event_target metric.target.type then do
        let value ← L.select_from (some (output_context metric output)) metric.target.selector
        x.score_observed_value L [value] [] metric.target.type case
      else score_attempt L spec case_id [] metric judge
    | .trace_rule, judge => score_attempt L spec case_id [] metric judge

-- The verdict of a custom evaluator on the selected events.
def custom_verdict (x : Sample) (evaluator : CustomEvaluator) (selected : List TraceEvent)
    (output : Option Json) (case : TestCase) : Except Exc CaseScore := do
  let result ← evaluator.evaluate ⟨selected, output⟩ case
  let invalid : Except Exc CaseScore := .error (.evaluation "evaluator_score_invalid")
  match result.get? "score" with
  | some raw =>
    match raw.number? with
    | some number =>
      let raw_score ← raw.toFloat.mapError Exc.other
      if !raw_score.isFinite then invalid
      else
        match metric.scoring.range with
        | none =>
          .error (.evaluation "custom evaluator requires an explicit numeric scoring range")
        | some (lo, hi) =>
          if !(lo.le number && number.le hi) then
            .error <| .evaluation <| s!"custom evaluator score {L.repr (some raw)} outside " ++
              s!"scoring range {L.repr_range metric.scoring.range}"
          else
            match refs? result with
            | none      => .error (.evaluation "evaluator_evidence_refs_invalid")
            | some refs => do
              if !refs.all (· ∈ ids_of selected) then
                throw (.evaluation "evaluator_evidence_refs_invalid")
              let score ← normalize_score metric.scoring (some raw)
              let passed := evaluator.pass_threshold.le raw_score
              return {
                x.result (some score) (Evaluators.verdict passed) (dedupe_ids refs)
                  (message result passed) raw with
                evaluator_version := some evaluator.version_id }
    | none => invalid
  | none => invalid
where
  refs? (result : Json) : Option (List String) :=
    match result.get? "evidence_refs" with
    | some refs => strings? refs
    | none      => some []
  message (result : Json) (passed : Bool) : String :=
    match result.get? "justification" with
    | some (.str "")            => default_message passed
    | some (.str justification) => justification
    | _                         => default_message passed
  default_message (passed : Bool) : String :=
    "custom evaluator " ++ if passed then "passed" else "failed"

def score_custom (evaluator : CustomEvaluator) (output : Option Json) :
    Except Exc CaseScore := do
  validate_events L case_id events
  let case ← case_from_spec L spec case_id
  let x : Sample := {
    metric
    case_id
    attempt
    on_retry_override
    provisional := metric.provisional
  }
  let t := metric.target.type
  let selected ←
    if t ≠ .trace ∧ t ≠ .input ∧ !non_event_target t then
      select_target_events metric.target events
    else pure events
  if non_event_target t ∧ output.isNone then
    x.on_missing "custom evaluator output evidence is unavailable"
  else if selected = [] ∧ t = .trace then
    x.on_missing "custom evaluator trace is empty"
  else if selected = [] ∧ t ≠ .input ∧ output.isNone then
    x.on_missing "custom evaluator target matched zero events"
  else
    match custom_verdict L metric x evaluator selected output case with
    | .error (.evaluation message) | .error (.value message) =>
      return {
        x.result none .ERROR [] s!"custom evaluator error: {message}" .null with
        evaluator_version := some evaluator.version_id }
    | result => result

end EntryPoints

end Evaluators
