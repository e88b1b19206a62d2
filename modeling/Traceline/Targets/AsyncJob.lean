import Traceline.Targets.HttpJson

-- The adapter of a target that is given a job and polled until the job has ended.
namespace Targets

open Plans (Fields or_empty)

-- `template.replace(key, value)`
def fill (template : Json) (key value : String) : Except Error Json :=
  match template with
  | .str text => .ok <| .str (text.replace key value)
  | _         => .error <| .raised "AttributeError"

-- `if isinstance(value, str) and value`
def name? : Json → Option String
  | .str s => if s = "" then none else some s
  | _      => none

namespace HttpJobAdapter

def caps : List (String × String) :=
  [("final_output", "unavailable"), ("tool_execution", "unavailable"), ("provider_cost", "unavailable")]

def result (outcome : String) (observations : Fields := []) (remote_uncertainty : Option String := none) :
    InvocationResult where
  outcome
  output                 := .null
  capabilities           := caps
  connector_observations := observations
  remote_uncertainty

section

variable (L : Libraries) (policy : EndpointPolicy) (target : Fields) (ctx : Context)

-- What the polling of a job goes by.
structure Polling where
  pin      : Pin
  template : Json
  timeout  : PyFloat
  interval : PyFloat

-- `target[key]`
def item (key : String) : Prog sig Json :=
  match target.lookup key with
  | some value => return value
  | none       => throw Error.key_error

def prepare : Prog sig Polling := do
  let pin      ← policy.authorize L (← item target "submit_url")
  let template ← item target "status_url_template"
  let _        ← policy.authorize L (← Prog.ofExcept (fill template "{job_id}" "__job_id__"))
  let timeout  ← Prog.ofExcept (float L <| (target.lookup "poll_timeout_seconds").getD (.int 30))
  let interval ← Prog.ofExcept <|
    float L <| (target.lookup "poll_interval_seconds").getD (.float (.finite (1 / 10)))
  if timeout.le (.finite 0) || interval.lt (.finite 0) then throw Error.value_error
  else return { pin, template, timeout, interval }

-- `except (KeyError, TypeError, ValueError, PolicyDenied) as exc: …`
def rejected (e : Error) : Option InvocationResult :=
  if e = .key_error || e = .type_error || e.isValueError || e.isPolicyDenied then
    some <| result "policy_rejected" [("error", .str e.type_name)] "blocked"
  else none

def headers : Except Error (List (String × String)) := do
  let auth ← get (or_empty (target.lookup "auth")) "type"
  return ("Content-Type", "application/json") ::
    if auth = .str "bearer" then [("Authorization", "Bearer " ++ ctx.secret)] else []

def submitted (job_id : String) : Fields :=
  [("remote_job_id", .str job_id), ("submitted", .bool true)]

-- The job that the endpoint made of the input, unless it made none.
def submit (case_input : Json) (p : Polling) (headers : List (String × String))
    (transport : PinnedTransport) : Prog sig (Except InvocationResult String) := do
  let response ← Prog.perform (S := sig) <| Call.send transport {
    method  := .str "POST"
    url     := (target.lookup "submit_url").getD .null
    headers
    json    := case_input
    timeout := p.timeout }
  let content ← Prog.ofExcept response.content
  if response.status_code < 200 ∨ 300 ≤ response.status_code then return .error <| result "protocol_error"
  else
    let payload ← Prog.ofExcept (L.loads content)
    match (payload.get? "id").bind name? with
    | none        => return .error <| result "protocol_error"
    | some job_id =>
      Prog.query (S := sig) (Query.persist_remote_job job_id)
      return .ok job_id

-- What the state of a job comes to, or none while the job is pending.
def ended (job_id : String) (state : Json) : Except Error (Option InvocationResult) :=
  match (state.get? "state").getD .null with
  | .str "completed"   => .ok <| some {
      outcome                := "ok"
      output                 := (state.get? "output").getD .null
      capabilities           := [("final_output", "observed")]
      connector_observations := submitted job_id ++ [("completed", .bool true)] }
  | .str "failed"      => .ok <| some <| result "failed" (submitted job_id) "failed"
  | .str "cancelled"   => .ok <| some <| result "cancelled" (submitted job_id) "cancelled"
  | .arr _ | .obj _    => .error .type_error
  | _                  => .ok none

-- One request for the state of a job.
def status (p : Polling) (headers : List (String × String)) (job_id : String) :
    Prog sig (Option InvocationResult) := do
  let url       ← Prog.ofExcept (fill p.template "{job_id}" (L.quote job_id))
  let pin       ← policy.authorize L url
  let transport ← Prog.ofExcept (PinnedTransport.new L pin)
  let response  ← Prog.perform (S := sig) <| Call.send transport {
    method := .str "GET", url, headers, json := .null, timeout := p.timeout }
  let content   ← Prog.ofExcept response.content
  if response.status_code ≠ 200 then return some <| result "protocol_error" (submitted job_id)
  else Prog.ofExcept <| ended job_id (← Prog.ofExcept (L.loads content))

-- The rounds of polling that the clock lets begin.
def poll (p : Polling) (headers : List (String × String)) (job_id : String) :
    ℕ → Prog sig InvocationResult
  | 0     => return result "timeout" (submitted job_id) "poll_timeout"
  | n + 1 => do
    if ← Prog.query (S := sig) Query.should_cancel then
      return result "cancelled" (submitted job_id) "cancelled"
    else
      match ← status L policy p headers job_id with
      | some r => return r
      | none   =>
        Prog.ofExcept (L.sleep p.interval)
        poll p headers job_id n

-- `except httpx.TimeoutException: …`, `except (httpx.HTTPError, ValueError): …`
def handler (observations : Fields) (e : Error) : Option InvocationResult :=
  if e = .timeout_exception then
    some <| result "timeout" observations "timeout_after_possible_action"
  else if e.isHTTPError || e.isValueError then
    some <| result "transport_error" observations "transport"
  else none

def invoke (case_input : Json) : Prog sig InvocationResult := do
  match ← attempt (prepare L policy target) rejected with
  | .error r => return r
  | .ok p    =>
    let headers ← Prog.ofExcept (headers target ctx)
    let job ← attempt (do
      let transport ← Prog.ofExcept (PinnedTransport.new L p.pin)
      match name? ctx.remote_job_id with
      | some job_id => return .ok job_id
      | none        => submit L target case_input p headers transport) (handler [])
    match job with
    | .error r           => return r
    | .ok (.error r)     => return r
    | .ok (.ok job_id)   =>
      let n ← Prog.query (S := sig) Query.rounds
      let polled ← attempt (poll L policy p headers job_id n) (handler <| submitted job_id)
      match polled with
      | .error r => return r
      | .ok r    => return r

end

end HttpJobAdapter

end Targets
