import Traceline.Engine.Basic

namespace Engine

open Lifecycle Spec Events Evaluators Storage

variable (E : Engine)

-- The status of an invocation, by the outcome of its adapter.
def outcome_status : String → InvocationStatus
  | "ok"                   => .completed
  | "no_trace"             => .no_trace
  | "timeout"              => .timed_out
  | "provider_unreachable" => .provider_unreachable
  | "cancelled"            => .cancelled
  | _                      => .invocation_failed

def save_remote_job (x : Invocation) (remote_job_id state : String) : M Unit :=
  call (.save_remote_job ⟨x.attempt_id, x.case.case_id, remote_job_id, state⟩)

def persist_remote_jobs (x : Invocation) : List String → M Unit
  | []        => pure ()
  | id :: ids => do
    save_remote_job x id "submitted"
    persist_remote_jobs x ids

-- `redact(value).content`, unless the value is None.
def safe_content (value : Json) : Json :=
  if value = .null then .null else (E.patterns.redact (16 * 1024) value).content

-- A payload that is not an object is dropped.
def object_or_null (value : Json) : Json :=
  if value.fields?.isSome then value else .null

-- What an adapter did, as an outcome of the attempt.
def target_result (x : Invocation) (answer : TargetAnswer) : M InvocationResult := do
  persist_remote_jobs x answer.persisted
  match answer.result with
  | .error message => throw (.raised message)
  | .ok result     =>
    match answer.proxy_events with
    | .error message    => throw (.engine_error message)
    | .ok proxy_events => do
      match result.remote_job_id.filter (· ≠ "") with
      | some id =>
        save_remote_job x id (if result.outcome = "ok" then "completed" else result.outcome)
      | none => pure ()
      let status := outcome_status result.outcome
      let success := status = .completed ∨ status = .no_trace
      return {
        status
        exit_code      := if success then some 0 else none
        trace_events   := result.trace_events ++ proxy_events
        result_payload := object_or_null (E.safe_content result.output)
        error          := if success then .null else .str result.outcome
      }

-- The job that an earlier invocation of the case left, if any.
def remote_job (x : Invocation) : M (Option RemoteJob) := do
  match ← call (.get_remote_job x.attempt_id) with
  | some job => return some job
  | none     => call (.get_resumable_remote_job x.case.case_id)

-- `_invoke_target`
def invoke_target (run : Run) (x : Invocation) : M InvocationResult :=
  match run.invocation_manifest with
  | none          =>
    pure {
      status    := .invocation_failed
      exit_code := none
      error     := .str "run has no worker-owned invocation manifest"
    }
  | some manifest => do
    let job ← remote_job x
    let answer ← ask <| .invoke_target manifest
      { x with remote_job_id := job.map (·.remote_job_id) }
    E.target_result x answer

def invoke (run : Run) (x : Invocation) : M InvocationResult :=
  if E.has_target_adapter then E.invoke_target run x
  else do
    match ← ask (.invoke_agent x) with
    | .ok result     => return result
    | .error message => throw (.raised message)

-- An exception here is an engine bug, not an outcome of the agent.
def guarded_invoke (run : Run) (x : Invocation) : M InvocationResult :=
  tryCatch (E.invoke run x) fun e => do
    call (.set_attempt_status x.attempt_id .errored
      { error := .str ("runner crashed: " ++ e.message) })
    throw e

-- The capture contract: an explicit redaction state, and the identity of the attempt.
def refuse (run : Run) (x : Invocation) (event : TraceEvent) : Option String :=
  let shown s := E.L.repr (some (.str s))
  if event.redaction_state.isNone then
    some <| s!"event {shown event.event_id} does not carry an explicit redaction_state — " ++
      "the capture contract (§12A.6) requires redaction at capture, and the engine refuses to " ++
      "ingest unverified events"
  else if event.run_id ≠ run.run_id ∨ event.case_id ≠ x.case.case_id ∨
      event.attempt_id ≠ x.attempt_id then
    some <| s!"event {shown event.event_id} claims run/case/attempt " ++
      s!"{shown event.run_id}/{shown event.case_id}/{shown event.attempt_id}, expected " ++
      s!"{shown run.run_id}/{shown x.case.case_id}/{shown x.attempt_id} — cross-case " ++
      "contamination refused"
  else none

-- A cost is kept under the price version of the engine.
def stamp (event : TraceEvent) : TraceEvent :=
  { event with
    cost := event.cost.map fun cost => { cost with price_version := E.price_version } }

def kept_events (events : List TraceEvent) : List TraceEvent :=
  (events.map E.stamp).take MAX_EVENTS_PER_ATTEMPT

-- `_ingest_events`
def ingest_events (run : Run) (x : Invocation) (events : List TraceEvent) :
    M (List TraceEvent × Bool) :=
  match events.findSome? (E.refuse run x) with
  | some message => throw (.engine_error message)
  | none         => do
    let kept := E.kept_events events
    call (.insert_trace_events kept)
    return (kept, decide (events.length > MAX_EVENTS_PER_ATTEMPT))

def attempt_result (x : Invocation) (status : AttemptStatus) (result : InvocationResult)
    (event_count : ℕ) (trace_truncated : Bool) (error : Json) : AttemptResult where
  attempt_id     := x.attempt_id
  repeat_index   := x.repeat_index
  attempt        := x.attempt
  status
  exit_code      := result.exit_code
  event_count
  trace_truncated
  error
  scores         := []
  result_payload := result.result_payload

-- An attempt whose events were refused.
def refused_attempt (x : Invocation) (result : InvocationResult) (message : String) :
    M AttemptResult := do
  call (.set_attempt_status x.attempt_id .errored { error := .str message })
  return attempt_result x .errored result 0 false (.str message)

-- An attempt that did not complete. Of its events only the proxy's are evidence.
def failed_attempt (run : Run) (x : Invocation) (result : InvocationResult)
    (status : AttemptStatus) : M AttemptResult := do
  let proxy_evidence := result.trace_events.filter (·.source = .proxy)
  let ingested ←
    if proxy_evidence = [] then pure (.ok ([], false))
    else catch_engine_error (E.ingest_events run x proxy_evidence)
  match ingested with
  | .error message          => refused_attempt x result message
  | .ok (kept, truncated) => do
    call (.set_attempt_status x.attempt_id status {
      exit_code       := result.exit_code
      error           := result.error
      event_count     := some kept.length
      trace_truncated := some truncated
    })
    return attempt_result x status result kept.length truncated result.error

def candidate_output (result : InvocationResult) : Option (List (String × Json)) :=
  (E.safe_content result.result_payload).fields?

def no_trace_warning (x : Invocation) : String :=
  s!"case {E.L.repr (some (.str x.case.case_id))} repeat {x.repeat_index} completed with no " ++
    "trace events — the empty trace is scored by on_missing (§9A.5), never fabricated"

-- An attempt of an agent that came to an end: ingest, then score.
def completed_attempt (run : Run) (x : Invocation) (result : InvocationResult) :
    M AttemptResult := do
  match ← catch_engine_error (E.ingest_events run x result.trace_events) with
  | .error message        => refused_attempt x result message
  | .ok (kept, truncated) =>
    call (.set_attempt_status x.attempt_id .completed {
      exit_code       := result.exit_code
      event_count     := some kept.length
      trace_truncated := some truncated
    })
    let output := E.candidate_output result
    call (.save_attempt_output x.attempt_id x.case.case_id output)
    let scores ← lift <| E.score_attempt_metrics (some ⟨output, kept⟩) run x.case.case_id kept
      output result.status x.attempt
    call (.upsert_case_metric_results x.case.case_id scores 1)
    return { attempt_result x .completed result kept.length truncated .null with
      scores
      result_payload := (output.map .obj).getD .null }

-- `_run_attempt`, with the warnings it leaves.
def run_attempt (run : Run) (case : TestCase) (repeat_index attempt : ℕ) :
    M (AttemptResult × List String) := do
  let attempt_id ← ask .uuid4
  let record ← call (.create_attempt attempt_id case.case_id repeat_index attempt)
  let x : Invocation := { case, attempt_id := record.attempt_id, repeat_index, attempt }
  call (.set_attempt_status x.attempt_id .running {})
  let result ← E.guarded_invoke run x
  match result.status with
  | .timed_out => return (← E.failed_attempt run x result .timed_out, [])
  | .cancelled => return (← E.failed_attempt run x result .cancelled, [])
  | .invocation_failed | .provider_unreachable =>
    return (← E.failed_attempt run x result .errored, [])
  | .completed => return (← E.completed_attempt run x result, [])
  | .no_trace  => do
    let outcome ← E.completed_attempt run x result
    return (outcome, if outcome.status = .completed then [E.no_trace_warning x] else [])

end Engine
