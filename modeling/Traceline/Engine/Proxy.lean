import Traceline.Engine.Attempt

-- What the engine makes of the metadata that a trusted proxy captures.
namespace Engine

open Lifecycle Spec Events Storage

-- The part of an attempt's context that identifies it.
structure ProxyContext where
  run_id       : String
  workspace_id : String
  case_id      : String
  attempt_id   : String
  repeat_index : ℕ
  attempt      : ℕ
  deriving DecidableEq

def Invocation.context (x : Invocation) (run : Run) : ProxyContext where
  run_id       := run.run_id
  workspace_id := run.workspace_id
  case_id      := x.case.case_id
  attempt_id   := x.attempt_id
  repeat_index := x.repeat_index
  attempt      := x.attempt

-- What the standard library supplies to an event: a fresh id, and the current time.
structure Mark where
  uuid4 : String
  now   : Timestamp

abbrev ProxyEventType :=
  { type : EventType // ¬(type = .tool_call ∨ type = .tool_result) }

-- `EventType(str(raw.get("type") or "llm_response"))`, cut down to the types a proxy may author.
-- The text of a value that is not a string names no type.
def proxy_event_type (raw : Json) : Option ProxyEventType :=
  match (raw.get? "type").getD .null with
  | .str "llm_call"        => some ⟨.llm_call, by simp⟩
  | .str "llm_response"    => some ⟨.llm_response, by simp⟩
  | .str "error"           => some ⟨.error, by simp⟩
  | .str "budget_exceeded" => some ⟨.budget_exceeded, by simp⟩
  | value                  => if value.truthy then none else some ⟨.llm_response, by simp⟩

def proxy_tokens : Json → Option TokenUsage
  | .null => some {}
  | usage =>
    match usage.get? "prompt_tokens", usage.get? "completion_tokens" with
    | some (.int input), some (.int output) =>
      if input < 0 ∨ output < 0 then none else some { input, output }
    | _, _ => none

-- `cost / 1_000_000`
def dollars (micros : Int) : PyFloat :=
  .finite (micros / 1000000)

-- No cost is none within the option.
def proxy_cost (raw : Json) (tokens : TokenUsage) : Option (Option CostBlock) :=
  match (raw.get? "cost_usd_micros").getD .null, raw.get? "price_version" with
  | .null,     _                         => some none
  | .int cost, some (.str price_version) =>
    if cost < 0 then none else some (some { tokens, cost_usd := dollars cost, price_version })
  | _,         _                         => none

def allowed_payload : List String :=
  ["host", "path", "model", "status", "usage"]

def proxy_payload (raw : Json) : List (String × Json) :=
  allowed_payload.filterMap fun key => (raw.get? key).map (key, ·)

-- `datetime.fromisoformat(timestamp)`, or the clock where the record has no text for it.
def proxy_timestamp (fromisoformat : String → Option Timestamp) (raw : Json) (now : Timestamp) :
    Option Timestamp :=
  match raw.get? "timestamp" with
  | some (.str timestamp) => fromisoformat timestamp
  | _                     => some now

section

variable (fromisoformat : String → Option Timestamp) (context : ProxyContext)

def proxy_record_to_event (sequence : ℕ) (mark : Mark) (raw : Json) : Except String TraceEvent :=
  if raw.fields?.isNone ∨ raw.get? "source" ≠ some (.str "proxy") then
    .error "untrusted proxy record rejected"
  else
    match proxy_event_type raw with
    | none      => .error "proxy record has an unsupported event type"
    | some type =>
      match proxy_tokens ((raw.get? "usage").getD .null) with
      | none        => .error "proxy record usage is invalid"
      | some tokens =>
        match proxy_cost raw tokens with
        | none      => .error "proxy record cost is invalid"
        | some cost =>
          match proxy_timestamp fromisoformat raw mark.now with
          | none           => .error "proxy record timestamp is invalid"
          | some timestamp =>
            .ok {
              event_id          := mark.uuid4
              run_id            := context.run_id
              workspace_id      := context.workspace_id
              case_id           := context.case_id
              attempt_id        := context.attempt_id
              repeat_index      := context.repeat_index
              attempt           := context.attempt
              sequence          := sequence
              type              := type.val
              source            := .proxy
              timestamp
              cost
              redaction_state   := some {}
              payload           := some (proxy_payload raw)
              tool_typed_column := by simpa using type.property
            }

-- `_proxy_records_to_events`, from the record at `index` on.
def proxy_records_to_events (sequence_offset : ℕ) (marks : ℕ → Mark) :
    (index : ℕ) → List Json → Except String (List TraceEvent)
  | _,     []             => .ok []
  | index, raw :: records => do
    let event ← proxy_record_to_event fromisoformat context (sequence_offset + index) (marks index) raw
    let events ← proxy_records_to_events sequence_offset marks (index + 1) records
    return event :: events

end

-- What an adapter and the proxy do about one attempt. The proxy appends to one list for the whole
-- session: `unclaimed` is what came since the last invocation returned, `taken` what comes during
-- this one.
structure Capture where
  persisted : List String
  result    : Except String AdapterResult
  unclaimed : List Json
  taken     : List Json
  marks     : ℕ → Mark

-- `proxy_records[proxy_offset:]`, where the offset is the length of the list at the call.
def Capture.records (c : Capture) : List Json :=
  (c.unclaimed ++ c.taken).drop c.unclaimed.length

-- What the events of the records follow.
def Capture.sequence_offset (c : Capture) : ℕ :=
  match c.result with
  | .ok result => result.trace_events.length
  | .error _   => 0

def Capture.proxy_events (c : Capture) (fromisoformat : String → Option Timestamp)
    (context : ProxyContext) : Except String (List TraceEvent) :=
  proxy_records_to_events fromisoformat context c.sequence_offset c.marks 0 c.records

def Capture.answer (c : Capture) (fromisoformat : String → Option Timestamp)
    (context : ProxyContext) : TargetAnswer where
  persisted    := c.persisted
  result       := c.result
  proxy_events := c.proxy_events fromisoformat context

end Engine
