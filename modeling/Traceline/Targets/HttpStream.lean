import Traceline.Streaming.Parser
import Traceline.Targets.HttpJson

-- The adapter of a target that answers with a stream of server-sent events.
namespace Targets

open Events (TraceEvent)
open Plans (Fields or_empty)
open Streaming (SSEParser StreamFrame StreamProtocolError)

-- An exception of the parser, which the adapter tells by its type alone.
def parsed {α : Type} (x : Except StreamProtocolError α) : Except Error α :=
  x.mapError fun _ => .stream_protocol_error

namespace HttpStreamAdapter

def unavailable : List (String × String) :=
  [("final_output", "unavailable")]

-- What an invocation has seen of the stream.
structure Seen where
  first_byte   : Option PyFloat := none
  first_token  : Option PyFloat := none
  final        : Json := .null
  trace_events : List TraceEvent := []

def moment : Option PyFloat → Json
  | some t => .float t
  | none   => .null

section

variable (L : Libraries) (ctx : Context)

def is_final (frame : StreamFrame) : Bool :=
  frame.event = "final" || frame.event = "done"

def token (seen : Seen) (frame : StreamFrame) : Prog sig Seen :=
  if seen.first_token = none ∧ !is_final frame then do
    let now   ← Prog.query (S := sig) Query.time
    let event ← Prog.ofExcept <|
      ctx.adapter_event .first_token seen.trace_events.length (.obj [("event", .str frame.event)])
    return { seen with first_token := some now, trace_events := seen.trace_events ++ event.toList }
  else return seen

-- The output of a final frame.
def final_of (data : String) : Except Error Json :=
  match L.loads_text data with
  | .ok final => .ok final
  | .error e  => .error <| if e.isValueError then .stream_protocol_error else e

def frame (seen : Seen) (frame : StreamFrame) : Prog sig Seen := do
  let seen ← token ctx seen frame
  if is_final frame then
    let final ← Prog.ofExcept (final_of L frame.data)
    let event ← Prog.ofExcept <| ctx.adapter_event .llm_response seen.trace_events.length <|
      .obj [("event", .str frame.event), ("has_output", .bool true)]
    return { seen with final, trace_events := seen.trace_events ++ event.toList }
  else return seen

def cancelled (seen : Seen) : InvocationResult where
  outcome                := "cancelled"
  output                 := .null
  capabilities           := unavailable
  connector_observations :=
    [("first_byte", moment seen.first_byte), ("first_token", moment seen.first_token)]
  remote_uncertainty     := "cancelled"

def chunk (seen : Seen) : Prog sig Seen :=
  if seen.first_byte = none then do
    let now ← Prog.query (S := sig) Query.time
    return { seen with first_byte := some now }
  else return seen

-- The chunks of the body, then its end.
def chunks (parser : SSEParser) (seen : Seen) (broken : Option Error) :
    List Bytes → Prog sig (Except InvocationResult Seen)
  | []            =>
    match broken with
    | some e => throw e
    | none   => do
      Prog.ofExcept (parsed parser.finish)
      return .ok seen
  | bytes :: rest => do
    if ← Prog.query (S := sig) Query.should_cancel then return .error <| cancelled seen
    else
      let seen ← chunk seen
      let (frames, parser) ← Prog.ofExcept (parsed <| parser.feed L.decode bytes)
      let seen ← frames.foldlM (frame L ctx) seen
      chunks parser seen broken rest

def accept : List (String × String) :=
  [("Accept", "text/event-stream")]

def exchange (policy : EndpointPolicy) (target : Fields) (case_input : Json) (parser : SSEParser)
    (seen : Seen) : Prog sig (Except InvocationResult Seen) := do
  let timeout ← Prog.ofExcept (float L <| (target.lookup "timeout_seconds").getD (.int 30))
  let some url := target.lookup "url" | throw Error.key_error
  let pin     ← policy.authorize L url
  if ← Prog.ofExcept (HttpJsonAdapter.rebound target pin) then
    return .error {
      outcome := "dns_rebinding", output := .null, capabilities := unavailable
      remote_uncertainty := "blocked" }
  else
    let transport ← Prog.ofExcept (PinnedTransport.new L pin)
    let response  ← Prog.perform (S := sig) <|
      Call.send transport { method := .str "POST", url, headers := accept, json := case_input, timeout }
    if response.status_code ≠ 200 then
      return .error { outcome := "protocol_error", output := .null, capabilities := unavailable }
    else chunks L ctx parser seen response.broken response.chunks

-- `except (httpx.HTTPError, StreamProtocolError, PolicyDenied, ValueError) as exc: …`
def handler (e : Error) : Option InvocationResult :=
  if e.isHTTPError || e.isValueError || e.isPolicyDenied then
    some {
      outcome := "stream_protocol_error", output := .null, capabilities := unavailable
      connector_observations := [("error", .str e.type_name)]
      remote_uncertainty := "stream_uncertain" }
  else none

def modes : List String :=
  ["stream", "streaming"]

def invoke (policy : EndpointPolicy) (target : Fields) (case_input : Json) :
    Prog sig InvocationResult := do
  let mode := (target.lookup "mode").getD .null
  if !(Plans.hash mode).isOk then throw Error.type_error
  else if !mode.string?.any (· ∈ modes) then
    return { outcome := "unsupported_target_mode", output := .null, capabilities := unavailable }
  else
    let max_frame_bytes ← Prog.ofExcept (int L <| (target.lookup "max_frame_bytes").getD (.int 65536))
    let max_frames      ← Prog.ofExcept (int L <| (target.lookup "max_frames").getD (.int 10000))
    let started ← Prog.query (S := sig) Query.time
    let start   ← Prog.ofExcept <|
      ctx.adapter_event .stream_start 0 <| .obj [("protocol", .str "sse"), ("mode", .str "streaming")]
    let streamed ← attempt
      (exchange L ctx policy target case_input { max_frame_bytes, max_frames }
        { trace_events := start.toList }) handler
    match streamed with
    | .error result       => return result
    | .ok (.error result) => return result
    | .ok (.ok seen)      =>
      if seen.final = .null then
        return {
          outcome := "incomplete_stream", output := .null, capabilities := unavailable
          remote_uncertainty := "stream_incomplete" }
      else
        let final     ← Prog.query (S := sig) Query.time
        let completed ← Prog.query (S := sig) Query.time
        return {
          outcome      := "ok"
          output       := seen.final
          capabilities := [("final_output", "observed")]
          connector_observations := [
            ("stream_start", .float started),
            ("first_byte", moment seen.first_byte),
            ("first_token", moment seen.first_token),
            ("final", .float final),
            ("completed", .float completed)
          ]
          trace_events := seen.trace_events }

end

end HttpStreamAdapter

end Targets
