import Traceline.Targets.AsyncJob

-- The adapter of a target that holds a session open for the turns of a case.
namespace Targets

open Events (TraceEvent)
open Plans (Fields or_empty)

namespace HttpSessionAdapter

def caps : List (String × String) :=
  [("final_output", "unavailable"), ("tool_execution", "unavailable"), ("provider_cost", "unavailable")]

def result (outcome : String) (remote_uncertainty : Option String := none) (output : Json := .null)
    (observations : Fields := []) : InvocationResult where
  outcome
  output
  capabilities           := caps
  connector_observations := observations
  remote_uncertainty

-- What a session has come to.
structure Progress where
  output          : Json := .null
  turns_completed : ℕ := 0
  observed        : Json := .null
  pending_input   : Bool := false
  trace_events    : List TraceEvent := []

section

variable (L : Libraries) (policy : EndpointPolicy) (target : Fields) (ctx : Context)

-- The turns of a case: those its script tells, or the ones of its input.
inductive Turns
  | script (steps : List Json)
  | plain (turns : List Json)

def turns (case_input : Json) : Option Turns :=
  if ctx.interaction_script.truthy then
    match ctx.interaction_script with
    | .arr steps => some <| .script steps
    | _          => none
  else
    match (case_input.get? "turns").getD .null with
    | .arr (turn :: turns) => some <| .plain (turn :: turns)
    | _                    => none

structure Templates where
  pin   : Pin
  turn  : Json
  close : Json

def prepare : Prog sig Templates := do
  let pin   ← policy.authorize L (← HttpJobAdapter.item target "init_url")
  let turn  ← HttpJobAdapter.item target "turn_url_template"
  let _     ← policy.authorize L (← Prog.ofExcept (fill turn "{session_id}" "__session_id__"))
  let close := (target.lookup "close_url_template").getD .null
  if close.truthy then
    let _ ← policy.authorize L (← Prog.ofExcept (fill close "{session_id}" "__session_id__"))
    return { pin, turn, close }
  else return { pin, turn, close }

-- `except (KeyError, TypeError, PolicyDenied) as exc: …`
def rejected (e : Error) : Option InvocationResult :=
  if e = .key_error || e = .type_error || e.isPolicyDenied then
    some <| result "policy_rejected" "blocked" .null [("error", .str e.type_name)]
  else none

-- `quote(session_id, safe="")`
def quote : Json → Except Error String
  | .str s => .ok <| L.quote s
  | _      => .error .type_error

-- `template.replace("{session_id}", quote(session_id, safe=""))`
def session_url (template session_id : Json) : Except Error Json :=
  match template with
  | .str _ => do fill template "{session_id}" (← quote L session_id)
  | _      => .error <| .raised "AttributeError"

-- One POST with a client of its own.
def post (pin : Pin) (url json : Json) : Prog sig Response := do
  let transport ← Prog.ofExcept (PinnedTransport.new L pin)
  let timeout   ← Prog.ofExcept (float L <| (target.lookup "timeout_seconds").getD (.int 30))
  Prog.perform (S := sig) <| Call.send transport {
    method := .str "POST", url, headers := [], json, timeout }

-- A POST to a URL that the id of the session completes.
def post_to (template session_id json : Json) : Prog sig Response := do
  let url ← Prog.ofExcept (session_url L template session_id)
  let pin ← policy.authorize L url
  post L target pin url json

-- `except (httpx.HTTPError, PolicyDenied, ValueError): return False`
def unclosed (e : Error) : Option Unit :=
  if e.isHTTPError || e.isPolicyDenied || e.isValueError then some () else none

-- Whether the closing of a session was sent, and whether the session counts as closed.
structure Closing where
  sent   : Bool
  closed : Bool
  deriving DecidableEq, Repr

def close_session (t : Templates) (session_id : Json) : Prog sig Closing :=
  if !session_id.truthy || !t.close.truthy then return ⟨false, true⟩
  else do
    let closed ← attempt (do
      let response ← post_to L policy target t.close session_id (.obj [])
      let _ ← Prog.ofExcept response.content
      return response.status_code) unclosed
    match closed with
    | .error _        => return ⟨false, false⟩
    | .ok status_code => return ⟨true, status_code < 300⟩

def session_observations (session_id : Json) (turns_completed : ℕ) : Fields :=
  [("session_id", session_id), ("turns_completed", .int turns_completed)]

-- `send_turn`, with the result of a turn that the endpoint refuses.
def send_turn (t : Templates) (session_id : Json) (p : Progress) (turn : Json) :
    Prog sig (Except InvocationResult (Json × Progress)) := do
  let response ← post_to L policy target t.turn session_id turn
  let content  ← Prog.ofExcept response.content
  if response.status_code ≠ 200 then
    return .error <| result "protocol_error" "session_uncertain" p.output
      (session_observations session_id p.turns_completed)
  else
    let body ← Prog.ofExcept (L.loads content)
    return .ok (body, { p with turns_completed := p.turns_completed + 1 })

-- `body.get("output", body) if isinstance(body, dict) else body`
def output_of (body : Json) : Json :=
  (body.get? "output").getD body

def step_kinds : List String :=
  ["wait_for_input", "user_response"]

-- Whether the endpoint asked for the input that a step waits for.
def awaits (observed requested : Json) : Bool :=
  match observed with
  | .obj fields =>
    let prompt := (fields.lookup "requested_input").getD .null
    (fields.lookup "state" = some (.str "awaiting_input") || prompt ≠ .null) &&
      (requested = .null || prompt.pyEq requested)
  | _           => false

-- One step of a script.
def step (t : Templates) (session_id : Json) (p : Progress) (s : Json) :
    Prog sig (Except InvocationResult Progress) := do
  match s with
  | .obj fields =>
    let kind := (fields.lookup "kind").getD .null
    if !(Plans.hash kind).isOk then throw Error.type_error
    else if kind = .str "wait_for_input" then
      let requested := (fields.lookup "requested_input").getD .null
      if p.pending_input || !awaits p.observed requested then
        return .error <| result "approval_not_requested" "blocked"
      else
        let event ← Prog.ofExcept <| ctx.adapter_event .wait_for_input p.trace_events.length <|
          .obj [("requested_input", requested)]
        return .ok { p with pending_input := true, trace_events := p.trace_events ++ event.toList }
    else if kind = .str "user_response" then
      match p.pending_input, (fields.lookup "provided_input").getD .null with
      | true, .str provided =>
        let event ← Prog.ofExcept <| ctx.adapter_event .user_response p.trace_events.length <| .obj [
          ("provided_input", .str provided),
          ("source", (fields.lookup "source").getD (.str "simulator"))]
        let p := { p with trace_events := p.trace_events ++ event.toList }
        match ← send_turn L policy target t session_id p (.obj [("input", .str provided)]) with
        | .error r       => return .error r
        | .ok (body, p)  =>
          return .ok { p with output := output_of body, observed := body, pending_input := false }
      | _,    _             => return .error <| result "script_invalid" "blocked"
    else return .error <| result "script_invalid" "blocked"
  | _           => return .error <| result "script_invalid" "blocked"

def plain_turn (t : Templates) (session_id : Json) (p : Progress) (turn : Json) :
    Prog sig (Except InvocationResult Progress) := do
  match ← send_turn L policy target t session_id p turn with
  | .error r      => return .error r
  | .ok (body, p) => return .ok { p with output := output_of body }

-- The turns in order, each one unless the run is cancelled before it.
def each (session_id : Json) (turn : Progress → Json → Prog sig (Except InvocationResult Progress))
    (p : Progress) : List Json → Prog sig (Except InvocationResult Progress)
  | []         => return .ok p
  | t :: turns => do
    if ← Prog.query (S := sig) Query.should_cancel then
      return .error <| result "cancelled" "cancelled" p.output
        (session_observations session_id p.turns_completed)
    else
      match ← turn p t with
      | .error r => return .error r
      | .ok p    => each session_id turn p turns

def converse (t : Templates) (session_id payload : Json) :
    Turns → Prog sig (Except InvocationResult Progress)
  | .plain turns  => each session_id (plain_turn L policy target t session_id) {} turns
  | .script steps => do
    match ← each session_id (step L policy target ctx t session_id) { observed := payload } steps with
    | .error r => return .error r
    | .ok p    =>
      if p.pending_input then return .error <| result "script_invalid" "blocked"
      else return .ok p

-- The session that an endpoint opens: its id and what the endpoint said.
def open_session (case_input : Json) (t : Templates) : Prog sig (Json × Json × ℕ) := do
  let url      ← HttpJobAdapter.item target "init_url"
  let response ← post L target t.pin url (.obj [("case", case_input)])
  let content  ← Prog.ofExcept response.content
  let payload  ← Prog.ofExcept (if content = [] then .ok (.obj []) else L.loads content)
  let session_id :=
    let session_id := (payload.get? "session_id").getD .null
    if session_id.truthy then session_id else (payload.get? "id").getD .null
  return (session_id, payload, response.status_code)

-- What the turns of an open session come to, and whether its closing was sent.
def hold (t : Templates) (how : Turns) (session_id payload : Json) (status_code : ℕ) :
    Prog sig (InvocationResult × Bool) := do
  if status_code < 200 ∨ 300 ≤ status_code ∨ session_id.string? = none then
    return (result "protocol_error", false)
  else if ← Prog.query (S := sig) Query.should_cancel then
    return (result "cancelled" "cancelled" .null (session_observations session_id 0), false)
  else
    match ← converse L policy target ctx t session_id payload how with
    | .error r => return (r, false)
    | .ok p    =>
      let closing ← close_session L policy target t session_id
      if closing.closed then
        return ({
          outcome                := "ok"
          output                 := p.output
          capabilities           := [("final_output", "observed")]
          connector_observations := session_observations session_id p.turns_completed
          trace_events           := p.trace_events }, closing.sent)
      else
        return (result "cleanup_failed" "cleanup_failed" p.output [("session_id", session_id)],
          closing.sent)

-- `except (httpx.HTTPError, ValueError, PolicyDenied): …`
def handler (session_id : Json) (e : Error) : Option InvocationResult :=
  if e.isHTTPError || e.isValueError || e.isPolicyDenied then
    some <| result "transport_error" "session_uncertain" .null
      (if session_id.truthy then [("session_id", session_id)] else [])
  else none

-- `finally: close_session()`
def release (t : Templates) (session_id : Json) (sent : Bool) (r : InvocationResult) :
    Prog sig InvocationResult :=
  if sent then return r
  else do
    let _ ← close_session L policy target t session_id
    return r

-- A session that is released even where its turns raise.
def session (t : Templates) (how : Turns) (session_id payload : Json) (status_code : ℕ) :
    Prog sig InvocationResult := do
  let held ← tryCatch
    (.ok <$> attempt (hold L policy target ctx t how session_id payload status_code)
      (handler session_id))
    fun e => pure (.error e)
  match (held : Except Error (Except InvocationResult (InvocationResult × Bool))) with
  | .ok (.ok (r, sent)) => release L policy target t session_id sent r
  | .ok (.error r)      => release L policy target t session_id false r
  | .error e            => do
    let _ ← close_session L policy target t session_id
    throw e

def invoke (case_input : Json) : Prog sig InvocationResult := do
  match turns ctx case_input with
  | none     => return result "script_required" "blocked"
  | some how =>
    match ← attempt (prepare L policy target) rejected with
    | .error r => return r
    | .ok t    =>
      match ← attempt (open_session L target case_input t) (handler .null) with
      | .error r                              => return r
      | .ok (session_id, payload, status_code) =>
        session L policy target ctx t how session_id payload status_code

end

end HttpSessionAdapter

end Targets
