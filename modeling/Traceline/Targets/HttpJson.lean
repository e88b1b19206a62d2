import Traceline.Events
import Traceline.Plans.Admission
import Traceline.Targets.Network

-- The adapter of a target that answers one JSON request.
namespace Targets

open Events (EventType TraceEvent)
open Plans (Fields or_empty)

-- What the worker hands an adapter besides the manifest and the input of the case.
structure Context where
  secret             : String
  remote_job_id      : Json
  interaction_script : Json
  adapter_event      : EventType → ℕ → Json → Except Error (Option TraceEvent)

structure InvocationResult where
  outcome                : String
  output                 : Json
  capabilities           : List (String × String)
  connector_observations : Fields := []
  remote_uncertainty     : Option String := none
  remote_cost            : String := "unknown"
  trace_events           : List TraceEvent := []
  deriving DecidableEq

def GOLDEN_KEYS : List String :=
  ["expected", "gold", "label", "reference", "golden"]

def MAX_RESPONSE_BYTES : Int :=
  1048576

def FORBIDDEN_HEADERS : List String := [
  "host", "content-length", "connection", "proxy-authorization", "proxy-connection",
  "x-forwarded-for", "x-forwarded-host", "x-forwarded-proto"
]

def RETRIEVAL_KEYS : List String :=
  ["query", "chunks", "scores", "source"]

def mapping_error (message : String) : Error :=
  .workflow_error "mapping_error" message

def Error.isWorkflowError : Error → Bool
  | .workflow_error _ _ | .policy_denied _ _ => true
  | _                                        => false

-- `text.replace(old, new)`, for an old text of two characters and a new one of one.
def replace_pair (first second new : Char) : List Char → List Char
  | []             => []
  | [c]            => [c]
  | c :: d :: text =>
    if c = first ∧ d = second then new :: replace_pair first second new text
    else c :: replace_pair first second new (d :: text)

def unescape (raw : List Char) : String :=
  String.ofList <| replace_pair '~' '0' '~' <| replace_pair '~' '1' '/' raw

-- The tokens of a pointer that starts with a slash.
def tokens (pointer : String) : List String :=
  ((pointer.toList.drop 1).splitOn '/').map unescape

-- `value.items()`
def items (value : Json) : Except Error Fields :=
  match value with
  | .obj kvs => .ok kvs
  | _        => .error <| .raised "AttributeError"

-- `value.get(key)`
def get (value : Json) (key : String) : Except Error Json := do
  return ((← items value).lookup key).getD .null

section

variable (L : Libraries)

def follow (current : Json) (token : String) : Except Error Json :=
  let mismatch := mapping_error "Output mapping did not match the response"
  match current with
  | .arr xs  =>
    match L.int token with
    | none       => .error mismatch
    | some index =>
      if index < 0 then .error mismatch
      else
        match xs[index.toNat]? with
        | some x => .ok x
        | none   => .error mismatch
  | .obj kvs =>
    match kvs.lookup token with
    | some x => .ok x
    | none   => .error mismatch
  | _        => .error mismatch

def apply_pointer (document pointer : Json) : Except Error Json :=
  match pointer with
  | .str text =>
    if text = "" then .ok document
    else if text.toList.head? ≠ some '/' then
      .error <| .workflow_error "validation_error" "JSON Pointer mappings must start with '/'"
    else (tokens text).foldlM (follow L) document
  | _         => .error <| .raised "AttributeError"

-- `needle in text`
def occurs (needle text : String) : Bool :=
  text.toList.tails.any needle.toList.isPrefixOf

-- `key in mapping`
def contains (mapping : Json) (key : String) : Except Error Bool :=
  match mapping with
  | .obj kvs => .ok (kvs.lookup key).isSome
  | .arr xs  => .ok <| .str key ∈ xs
  | .str s   => .ok <| occurs key s
  | _        => .error .type_error

def reject_golden_mapping (mapping : Json) : Except Error Unit :=
  let blob := L.lower (L.str mapping)
  GOLDEN_KEYS.forM fun key => do
    check (¬ ((← contains mapping key) ∨ occurs ("/" ++ key) blob)) <|
      .workflow_error "golden_mapping_forbidden"
        "Expected labels cannot be mapped into agent-visible fields"

def validate_retrieval_mapping (mapping : Json) : Except Error Fields :=
  match mapping with
  | .obj fields => do
    check (∀ kv ∈ fields, kv.1 ∈ RETRIEVAL_KEYS) <|
      mapping_error "Retrieval mapping contains unsupported fields"
    check (fields.lookup "chunks").isSome <| mapping_error "Retrieval mapping requires chunks"
    reject_golden_mapping L mapping
    fields.forM fun kv =>
      check (kv.2.string?.any fun pointer => pointer.toList.head? = some '/') <|
        mapping_error s!"Retrieval mapping for {kv.1} must be a JSON Pointer"
    return fields
  | _           => .error <| mapping_error "Retrieval mapping must be an object"

-- The values that a mapping takes from a document.
def project (document : Json) (mapping : Fields) : Except Error Fields :=
  mapping.mapM fun kv => do return (kv.1, ← apply_pointer L document kv.2)

def apply_retrieval_mapping (document mapping : Json) : Except Error Json := do
  let evidence ← project L document (← validate_retrieval_mapping L mapping)
  match (evidence.lookup "chunks").getD .null with
  | .arr chunks =>
    match evidence.lookup "scores" with
    | none               => return .obj evidence
    | some (.arr scores) =>
      check (scores.length = chunks.length) <|
        mapping_error "Retrieval scores must align with chunks"
      return .obj evidence
    | some _             => .error <| mapping_error "Retrieval scores must align with chunks"
  | _           => .error <| mapping_error "Retrieval chunks must be a JSON array"

-- `destination[1:].split("/", 1)[0]`
def destination_token (destination : String) : String :=
  String.ofList <| (destination.toList.drop 1).takeWhile (· ≠ '/')

-- The value that a request mapping takes from the input, or a literal.
def source_value (envelope source : Json) : Except Error Json :=
  match source with
  | .str _ => apply_pointer L envelope source
  | _      => .ok source

def map_field (envelope : Json) (body : Fields) (kv : String × Json) : Except Error Fields := do
  check (kv.1.toList.head? = some '/') <|
    mapping_error "Request mapping destinations must be JSON Pointers"
  let value ← source_value L envelope kv.2
  check (destination_token kv.1 ∉ GOLDEN_KEYS) <|
    .workflow_error "golden_mapping_forbidden"
      "Expected labels cannot be mapped into agent-visible fields"
  return Plans.assign (destination_token kv.1) value body

-- The input of a case as an object.
def object (case_input : Json) : Json :=
  match case_input with
  | .obj kvs => .obj kvs
  | _        => .obj []

def envelope (case_input : Json) : Json :=
  if (case_input.get? "input").isSome then case_input else .obj [("input", case_input)]

def apply_request_mapping (case_input mapping : Json) : Except Error Json :=
  if mapping.truthy then do
    return .obj (← (← items mapping).foldlM (map_field L (envelope case_input)) [])
  else .ok <| object case_input

namespace HttpJsonAdapter

def capabilities : List (String × String) := [
  ("final_output", "unavailable"),
  ("retrieval", "unavailable"),
  ("tool_execution", "unavailable"),
  ("provider_cost", "unavailable")
]

def result (outcome : String) (remote_uncertainty : Option String := none) (output : Json := .null) :
    InvocationResult :=
  { outcome, output, capabilities, remote_uncertainty }

-- What a loop over a value sees, where all of it is hashed.
def set_of (value : Json) : Except Error (List Json) :=
  match value with
  | .arr xs  => do
    check (∀ x ∈ xs, (Plans.hash x).isOk) .type_error
    return xs
  | .obj kvs => .ok <| kvs.map fun kv => .str kv.1
  | .str s   => .ok <| s.toList.map fun c => .str (String.singleton c)
  | _        => .error .type_error

-- Whether a name resolves to other addresses than when the target was configured.
def rebound (target : Fields) (pin : Pin) : Except Error Bool := do
  let addresses ← get (or_empty (target.lookup "pinned")) "addresses"
  if addresses.truthy ∧ pin.addresses ≠ [] then
    let stored ← set_of addresses
    return ! (stored.all (fun a => a.string?.any (· ∈ pin.addresses)) &&
      pin.addresses.all fun a => .str a ∈ stored)
  else return false

-- The limits of an exchange, or none where they are invalid.
def limits (target : Fields) : Except Error (Option (PyFloat × Int)) :=
  match float L <| (target.lookup "timeout_seconds").getD (.int 5) with
  | .error .type_error | .error .value_error => .ok none
  | .error e                                 => .error e
  | .ok timeout                              =>
    match (target.lookup "max_response_bytes").getD (.int MAX_RESPONSE_BYTES) with
    | .int limit =>
      if timeout.isFinite ∧ (PyFloat.finite 0).lt timeout ∧ 0 < limit ∧ limit ≤ MAX_RESPONSE_BYTES then
        .ok <| some (timeout, limit)
      else .ok none
    | _          => .ok none

-- `apply_request_mapping`, or none where the mapping does not apply.
def body (target : Fields) (case_input : Json) : Except Error (Option Json) :=
  match apply_request_mapping L case_input <| or_empty (target.lookup "request_mapping") with
  | .ok body => .ok <| some body
  | .error e => if e.isWorkflowError then .ok none else .error e

def base_headers : List (String × String) := [
  ("Content-Type", "application/json"),
  ("Accept-Encoding", "identity"),
  ("Connection", "close")
]

-- `headers[key] = value`
def set_header (key value : String) : List (String × String) → List (String × String)
  | []        => [(key, value)]
  | kv :: kvs => if kv.1 = key then (key, value) :: kvs else kv :: set_header key value kvs

-- The headers of a request, or the outcome of a target whose authentication is refused.
def headers (target : Fields) (ctx : Context) (pin : Pin) :
    Except Error (Except String (List (String × String))) := do
  let auth ← items <| or_empty (target.lookup "auth")
  let header := (auth.lookup "header").getD .null
  if (auth.lookup "type").getD (.str "none") ≠ .str "none" ∧ pin.scheme ≠ "https" then
    return .error "https_required"
  else
    match if header.truthy then header else .str "X-API-Key" with
    | .str header =>
      if L.lower header ∈ FORBIDDEN_HEADERS then return .error "auth_denied"
      else if auth.lookup "type" = some (.str "bearer") then
        return .ok <| set_header "Authorization" ("Bearer " ++ ctx.secret) base_headers
      else if auth.lookup "type" = some (.str "api_key") then
        return .ok <| set_header header ctx.secret base_headers
      else return .ok base_headers
    | _           => .error <| .raised "AttributeError"

-- What is sent to an approved destination, within which limit, or the result of not sending it.
def request (target : Fields) (case_input : Json) (ctx : Context) (pin : Pin) :
    Except Error (Except InvocationResult (Request × Int)) := do
  if ← rebound target pin then return .error <| result "dns_rebinding" "blocked"
  else
    match ← limits L target with
    | none                  => return .error <| result "invalid_limits"
    | some (timeout, limit) =>
      match ← body L target case_input with
      | none      => return .error <| result "mapping_error"
      | some json =>
        match ← headers L target ctx pin with
        | .error outcome => return .error <| result outcome
        | .ok headers    =>
          let method := (target.lookup "method").getD .null
          return .ok ({
            method  := if method.truthy then method else .str "POST"
            url     := (target.lookup "url").getD .null
            headers
            json
            timeout }, limit)

-- The body of a response, unless it exceeds the limit or breaks off before.
def read (limit : Int) (response : Response) : Except Error (Option Bytes) :=
  go limit response.broken response.chunks
where
  go (room : Int) (broken : Option Error) : List Bytes → Except Error (Option Bytes)
    | []              =>
      match broken with
      | some e => .error e
      | none   => .ok <| some []
    | chunk :: chunks =>
      if room < chunk.length then .ok none
      else (Option.map (chunk ++ ·)) <$> go (room - chunk.length) broken chunks

-- The body of a response whose status and encoding let it be read.
def receive (limit : Int) (response : Response) : Except Error (Except InvocationResult Bytes) := do
  if 300 ≤ response.status_code ∧ response.status_code < 400 then
    return .error <| result "redirect_blocked" "redirect"
  else if response.status_code = 401 ∨ response.status_code = 403 then
    return .error <| result "auth_denied"
  else if L.lower (L.strip (response.content_encoding.getD "identity")) ≠ "identity" then
    return .error <| result "unsupported_content_encoding"
  else
    match ← read limit response with
    | none         => return .error <| result "oversized_response"
    | some content => return .ok content

-- The outputs that a mapping takes from the payload, and the retrieval evidence, or none where the
-- mappings do not match it.
def outputs (target : Fields) (payload : Json) : Except Error (Option (Fields × Option Json)) :=
  let mapping := or_empty (target.lookup "output_mapping")
  let retrieval_mapping := (target.lookup "retrieval_mapping").getD .null
  let mapped : Except Error (Fields × Option Json) := do
    let output ← project L payload <| ←
      items (if mapping.truthy then mapping else .obj [("final_response", .str "")])
    if retrieval_mapping.truthy then
      return (output, some (← apply_retrieval_mapping L payload retrieval_mapping))
    else return (output, none)
  match mapped with
  | .ok outputs => .ok <| some outputs
  | .error e    => if e.isWorkflowError then .ok none else .error e

-- `{**capabilities, "final_output": "observed"}`, and that of the retrieval where there is evidence.
def observed (retrieval : Bool) : List (String × String) := [
  ("final_output", "observed"),
  ("retrieval", if retrieval then "observed" else "unavailable"),
  ("tool_execution", "unavailable"),
  ("provider_cost", "unavailable")
]

def retrieval_event (ctx : Context) : Option Json → Except Error (Option TraceEvent)
  | some evidence => ctx.adapter_event .retrieval 0 evidence
  | none          => .ok none

-- What a target returns for a body that was read.
def extract (target : Fields) (ctx : Context) (status_code : ℕ) (content : Bytes) :
    Except Error InvocationResult :=
  match L.loads content with
  | .error e    => if e.isValueError then .ok <| result "mapping_error" else .error e
  | .ok payload =>
    if status_code = 200 ∧ ((payload.get? "error").getD .null).truthy then
      .ok <| result "error_envelope" none payload
    else if status_code ≠ 200 then .ok <| result "protocol_error"
    else do
      match ← outputs L target payload with
      | none                     => return result "mapping_error"
      | some (output, retrieval) =>
        let event ← retrieval_event ctx retrieval
        return {
          outcome                := "ok"
          output                 := .obj output
          capabilities           := observed retrieval.isSome
          connector_observations := [("status_code", .int status_code), ("remote_cost", .str "unknown")]
          trace_events           := event.toList }

-- `except httpx.TimeoutException: …`, `except httpx.HTTPError: …`
def handler : Error → Option InvocationResult
  | .timeout_exception => result "timeout" "timeout_after_possible_action"
  | .http_error        => result "transport_error" "transport"
  | _                  => none

-- The exchange over a client of its own.
def exchange (pin : Pin) (request : Request) (limit : Int) :
    Prog sig (Except InvocationResult (ℕ × Bytes)) := do
  let sent ← attempt (do
      let transport ← Prog.ofExcept (PinnedTransport.new L pin)
      let response  ← Prog.perform (S := sig) (Call.send transport request)
      match ← Prog.ofExcept (receive L limit response) with
      | .error result => return .error result
      | .ok content   => return .ok (response.status_code, content)) handler
  match sent with
  | .error result => return .error result
  | .ok received  => return received

def invoke (policy : EndpointPolicy) (target : Fields) (retries case_input : Json) (ctx : Context) :
    Prog sig InvocationResult := do
  if retries.truthy then return result "retries_forbidden"
  else
    match target.lookup "url" with
    | none     => throw Error.key_error
    | some url =>
      match ← attempt (policy.authorize L url) denied with
      | .error result => return result
      | .ok pin       =>
        match ← Prog.ofExcept (request L target case_input ctx pin) with
        | .error result         => return result
        | .ok (request, limit) =>
          match ← exchange L pin request limit with
          | .error result        => return result
          | .ok (status, content) => Prog.ofExcept (extract L target ctx status content)
where
  denied : Error → Option InvocationResult
    | .policy_denied code _ => some <| result code "blocked"
    | _                     => none

end HttpJsonAdapter

end

end Targets
