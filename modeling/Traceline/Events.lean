import Traceline.Python
import Traceline.Redaction

namespace Events

inductive EventType
  | llm_call
  | llm_response
  | tool_call
  | tool_result
  | error
  | retrieval
  | delegation
  | guardrail_check
  | wait_for_input
  | user_response
  | stream_start
  | first_token
  | retry
  | budget_exceeded
  deriving DecidableEq, Repr

def EventType.toString : EventType → String
  | .llm_call        => "llm_call"
  | .llm_response    => "llm_response"
  | .tool_call       => "tool_call"
  | .tool_result     => "tool_result"
  | .error           => "error"
  | .retrieval       => "retrieval"
  | .delegation      => "delegation"
  | .guardrail_check => "guardrail_check"
  | .wait_for_input  => "wait_for_input"
  | .user_response   => "user_response"
  | .stream_start    => "stream_start"
  | .first_token     => "first_token"
  | .retry           => "retry"
  | .budget_exceeded => "budget_exceeded"

def EVENT_TYPES : List EventType :=
  [.llm_call, .llm_response, .tool_call, .tool_result, .error, .retrieval, .delegation,
    .guardrail_check, .wait_for_input, .user_response, .stream_start, .first_token, .retry,
    .budget_exceeded]

-- Who authored an event.
inductive Source
  | proxy
  | adapter
  | runner
  deriving DecidableEq, Repr

def Source.toString : Source → String
  | .proxy   => "proxy"
  | .adapter => "adapter"
  | .runner  => "runner"

structure TokenUsage where
  input       : Int := 0
  output      : Int := 0
  cache_read  : Int := 0
  cache_write : Int := 0
  deriving DecidableEq, Repr

structure CostBlock where
  tokens        : TokenUsage := {}
  cost_usd      : PyFloat
  price_version : String
  deriving DecidableEq, Repr

inductive RedactionStatus
  | clean
  | redacted
  | truncated
  deriving DecidableEq, Repr

structure RedactionState where
  status : RedactionStatus := .clean
  rules  : List String := []
  deriving DecidableEq, Repr

structure OtelContext where
  trace_id : Option String
  span_id  : Option String
  deriving DecidableEq, Repr

structure ErrorBlock where
  type      : String
  message   : String
  retryable : Bool
  deriving DecidableEq, Repr

-- A `datetime`: the microseconds its clock face shows since 1970, and its offset from UTC in
-- seconds, which a naive one does not have.
structure Timestamp where
  wall   : Int
  offset : Option Int
  deriving DecidableEq, Repr

namespace Timestamp

-- `a < b`, which raises a TypeError where only one of the two is naive.
def lt (a b : Timestamp) : Except String Bool :=
  match a.offset, b.offset with
  | some x, some y => .ok (a.wall - x * 1000000 < b.wall - y * 1000000)
  | none,   none   => .ok (a.wall < b.wall)
  | _,      _      => .error "can't compare offset-naive and offset-aware datetimes"

def pad (width : ℕ) (n : Int) : String :=
  let digits := toString n.natAbs
  String.ofList (List.replicate (width - digits.length) '0') ++ digits

-- Year, month and day of a day number of the proleptic Gregorian calendar.
def civil (days : Int) : Int × Int × Int :=
  let z := days + 719468
  let era := z / 146097
  let doe := z - era * 146097
  let yoe := (doe - doe / 1460 + doe / 36524 - doe / 146096) / 365
  let doy := doe - (365 * yoe + yoe / 4 - yoe / 100)
  let mp := (5 * doy + 2) / 153
  let month := if mp < 10 then mp + 3 else mp - 9
  (yoe + era * 400 + (if month ≤ 2 then 1 else 0), month, doy - (153 * mp + 2) / 5 + 1)

def isoformat (t : Timestamp) : String :=
  let (year, month, day) := civil (t.wall / 86400000000)
  let time := t.wall % 86400000000
  let seconds := time / 1000000
  let micros := time % 1000000
  pad 4 year ++ "-" ++ pad 2 month ++ "-" ++ pad 2 day ++ "T" ++ pad 2 (seconds / 3600) ++ ":" ++
    pad 2 (seconds / 60 % 60) ++ ":" ++ pad 2 (seconds % 60) ++
    (if micros = 0 then "" else "." ++ pad 6 micros) ++
    match t.offset with
    | none   => ""
    | some x =>
      (if x < 0 then "-" else "+") ++ pad 2 (x.natAbs / 3600) ++ ":" ++
        pad 2 (x.natAbs / 60 % 60) ++
        (if x % 60 = 0 then "" else ":" ++ pad 2 (x.natAbs % 60))

example : (Timestamp.mk 1756684799000001 (some 19800)).isoformat =
    "2025-08-31T23:59:59.000001+05:30" := by
  decide

end Timestamp

-- `redaction_state` is none where the event does not carry it explicitly. Its default is clean.
structure TraceEvent where
  event_id            : String
  run_id              : String
  workspace_id        : String
  case_id             : String
  attempt_id          : String
  repeat_index        : Int := 0
  attempt             : Int := 0
  sequence            : Int := 0
  type                : EventType
  source              : Source := .proxy
  timestamp           : Timestamp
  duration_ms         : Option Int := none
  parent_event_id     : Option String := none
  provider_request_id : Option String := none
  tool                : Option String := none
  otel                : Option OtelContext := none
  cost                : Option CostBlock := none
  redaction_state     : Option RedactionState := none
  payload             : Option (List (String × Json)) := none
  payload_ref         : Option String := none
  error               : Option ErrorBlock := none
  tool_typed_column   : tool.isSome ↔ type = .tool_call ∨ type = .tool_result
  deriving DecidableEq

-- A model call has no tool column.
theorem llm_call_untyped :
    (none : Option String).isSome ↔
      EventType.llm_call = .tool_call ∨ EventType.llm_call = .tool_result := by
  simp

-- The text of a state with the rules that storage found.
def RedactionState.redacted (state : RedactionState) (flags : List String) (truncated : Bool) :
    RedactionState :=
  if flags = [] ∧ truncated = false then state
  else {
    status := if truncated then .truncated else .redacted
    rules  :=
      (state.rules ++ flags.map ("storage:" ++ ·) ++
          if truncated then ["storage:truncated"] else []).dedup.mergeSort
  }

-- `redact` on the block's dump, none of whose keys is sensitive.
def ErrorBlock.redacted (p : Redaction.Patterns) (e : ErrorBlock) :
    ErrorBlock × Redaction.RedactedPayload :=
  let safe := p.redact (16 * 1024) (.obj [("type", .str e.type), ("message", .str e.message)])
  let text key := ((safe.content.get? key).bind Json.string?).getD ""
  ({ e with type := text "type", message := text "message" }, safe)

-- What a stored event holds once `_event_row` has redacted it.
def TraceEvent.redacted (p : Redaction.Patterns) (e : TraceEvent) : TraceEvent :=
  let payload := e.payload.map fun kvs => p.redact (16 * 1024) (.obj kvs)
  let error := e.error.map (·.redacted p)
  let found := payload.toList ++ (error.map Prod.snd).toList
  { e with
    payload         := payload.bind (·.content.fields?)
    error           := error.map Prod.fst
    redaction_state := some <|
      (e.redaction_state.getD {}).redacted (found.flatMap (·.detector_flags)).dedup
        (found.any (·.truncated)) }

end Events
