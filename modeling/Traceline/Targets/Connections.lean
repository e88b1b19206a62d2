import Traceline.Targets.AsyncJob
import Traceline.Targets.HttpJson
import Traceline.Targets.HttpSession
import Traceline.Targets.HttpStream

-- The adapters that put the input of a case into the envelope of a provider.
namespace Targets

open Plans (Fields or_empty assign)

section

variable (L : Libraries)

-- The mapping that a target has where its owner gave none.
def default_output_mapping : Json :=
  .obj [("final_response", .str "/answer")]

-- `target["output_mapping"]`, with the pointer of the provider for the default one.
def provider_output (pointer : String) (target : Fields) : Fields :=
  let mapping := (target.lookup "output_mapping").getD .null
  if !mapping.truthy || mapping.pyEq default_output_mapping then
    assign "output_mapping" (.obj [("final_response", .str pointer)]) target
  else target

def user_message (content : Json) : Json :=
  .obj [("role", .str "user"), ("content", content)]

namespace OpenAICompatibleAdapter

def _messages (case_input : Json) : Json :=
  match case_input.get? "messages" with
  | some (.arr _) => case_input
  | _             => .obj [("messages", .arr [user_message <| .str (L.dumps case_input)])]

-- The input of a case, which the request mapping of the target takes as it is.
def body (target : Fields) (case_input : Json) : Json :=
  if ((target.lookup "request_mapping").getD .null).truthy then case_input
  else _messages L case_input

def invoke (policy : EndpointPolicy) (target : Fields) (retries case_input : Json) (ctx : Context) :
    Prog sig InvocationResult :=
  HttpJsonAdapter.invoke L policy (provider_output "/choices/0/message/content" target) retries
    (body L target case_input) ctx

end OpenAICompatibleAdapter

namespace ProviderEnvelopeAdapter

def _invoke_envelope (default_output_pointer : String) (policy : EndpointPolicy) (target : Fields)
    (retries body : Json) (ctx : Context) : Prog sig InvocationResult :=
  match target.lookup "model" with
  | some (.str model) =>
    if model = "" then return HttpJsonAdapter.result "provider_model_required"
    else
      match target.lookup "max_tokens" with
      | some (.int max_tokens) =>
        if 1 ≤ max_tokens ∧ max_tokens ≤ 1000000 then
          HttpJsonAdapter.invoke L policy
            (provider_output default_output_pointer <| assign "request_mapping" (.obj []) target)
            retries body ctx
        else return HttpJsonAdapter.result "provider_max_tokens_invalid"
      | _                      => return HttpJsonAdapter.result "provider_max_tokens_invalid"
  | _                 => return HttpJsonAdapter.result "provider_model_required"

end ProviderEnvelopeAdapter

namespace AnthropicMessagesAdapter

def body (target : Fields) (case_input : Json) : Json := .obj [
  ("model", (target.lookup "model").getD .null),
  ("max_tokens", (target.lookup "max_tokens").getD .null),
  ("messages", .arr [user_message <| .str (L.dumps case_input)])
]

def invoke (policy : EndpointPolicy) (target : Fields) (retries case_input : Json) (ctx : Context) :
    Prog sig InvocationResult :=
  ProviderEnvelopeAdapter._invoke_envelope L "/content/0/text" policy target retries
    (body L target case_input) ctx

end AnthropicMessagesAdapter

namespace GoogleGenerativeAdapter

def body (target : Fields) (case_input : Json) : Json := .obj [
  ("contents", .arr [.obj [
    ("role", .str "user"),
    ("parts", .arr [.obj [("text", .str (L.dumps case_input))]])
  ]]),
  ("generationConfig", .obj [("maxOutputTokens", (target.lookup "max_tokens").getD .null)])
]

def invoke (policy : EndpointPolicy) (target : Fields) (retries case_input : Json) (ctx : Context) :
    Prog sig InvocationResult :=
  ProviderEnvelopeAdapter._invoke_envelope L "/candidates/0/content/parts/0/text" policy target retries
    (body L target case_input) ctx

end GoogleGenerativeAdapter

end

end Targets

-- The service that configures and verifies targets, and the two places that choose an adapter.
namespace Targets

open Plans (Fields or_empty assign)

inductive Mode
  | stateless_json
  | streaming
  | async
  | session
  deriving DecidableEq, Repr

def Mode.of : Json → Option Mode
  | .str "stateless_json" => some .stateless_json
  | .str "streaming"      => some .streaming
  | .str "async"          => some .async
  | .str "session"        => some .session
  | _                     => none

def Mode.kind : Mode → String
  | .stateless_json => "http_json"
  | .streaming      => "http_stream"
  | .async          => "http_job"
  | .session        => "http_session"

def UNSUPPORTED_MODES : List String :=
  ["streaming", "stateful", "async", "session"]

inductive Framework
  | generic_http
  | openai_compatible
  | anthropic_messages
  | google_generative
  deriving DecidableEq, Repr

def Framework.toString : Framework → String
  | .generic_http       => "generic_http"
  | .openai_compatible  => "openai_compatible"
  | .anthropic_messages => "anthropic_messages"
  | .google_generative  => "google_generative"

def supported_adapters : List Framework :=
  [.generic_http, .openai_compatible, .anthropic_messages, .google_generative]

def Framework.versions : Framework → List Mode
  | .generic_http => [.stateless_json, .streaming, .async, .session]
  | _             => [.stateless_json]

def workflow_error (message : String) (code : String := "validation_error") : Error :=
  .workflow_error code message

-- `value or default`
def or_else (value : Option Json) (default : Json) : Json :=
  if (value.getD .null).truthy then value.getD .null else default

section

variable (L : Libraries)

-- `str(value)`
def str : Json → String
  | .str s => s
  | value  => L.str value

def adapter_capability (framework : String) (version : Mode) : Option Framework :=
  supported_adapters.find? fun f =>
    f.toString = L.lower (L.strip framework) ∧ version ∈ f.versions

def choose_mode (r2_enabled : Bool) (mode : Json) : Except Error Mode := do
  check (Plans.hash mode).isOk .type_error
  check (mode.string?.all (fun m => m ∉ UNSUPPORTED_MODES) ∨
      (r2_enabled ∧ mode.string?.any fun m => m ∈ ["streaming", "async", "session"])) <|
    workflow_error "R1 supports only synchronous stateless JSON HTTP" "unsupported_target_mode"
  match Mode.of mode with
  | some mode => return mode
  | none      => .error <| workflow_error "target mode is not supported" "unsupported_target_mode"

-- A provider asks for a model and for a bound on its tokens.
def check_provider (framework : Framework) (model max_tokens : Json) : Except Error Unit :=
  if framework = .anthropic_messages ∨ framework = .google_generative then do
    check (model.string?.any (· ≠ "")) <|
      workflow_error "provider envelope targets require model" "provider_model_required"
    match max_tokens with
    | .int n =>
      check (1 ≤ n ∧ n ≤ 1000000) <|
        workflow_error "provider envelope targets require bounded max_tokens" "provider_max_tokens_invalid"
    | _      =>
      .error <| workflow_error "provider envelope targets require bounded max_tokens"
        "provider_max_tokens_invalid"
  else .ok ()

-- `dict(value)`
def dict_of : Json → Except Error Fields
  | .obj kvs => .ok kvs
  | .arr xs  => xs.foldlM (fun fields x =>
    match x with
    | .arr [.str k, v] => .ok <| assign k v fields
    | _                => .error .type_error) []
  | _        => .error .type_error

def inline_fields : List String :=
  ["token", "password", "api_key", "value", "secret"]

def check_auth (auth : Fields) : Except Error Unit := do
  let type := or_else (auth.lookup "type") (.str "none")
  check (Plans.hash type).isOk .type_error
  check (type.string?.any fun t => t ∈ ["none", "bearer", "api_key"]) <|
    workflow_error "R1 supports none, bearer, or API-key authentication" "unsupported_auth"
  check (∀ field ∈ inline_fields, ¬ ((auth.lookup field).getD .null).truthy) <|
    workflow_error "Inline credentials are not stored; use secret_ref" "secret_ref_required"
  if type = .str "none" then return ()
  else
    check ((auth.lookup "secret_ref").getD .null).truthy <|
      workflow_error "Bearer and API-key auth require an encrypted secret_ref" "secret_ref_required"
    check (L.lower (str L <| or_else (auth.lookup "header") (.str "X-API-Key")) ∉ FORBIDDEN_HEADERS) <|
      workflow_error "That request header cannot be overridden" "forbidden_header"

-- What `create` has checked before it looks the endpoint up.
structure Checked where
  mode      : Mode
  framework : Framework
  mapping   : Json
  url       : String
  auth      : Fields

def check_body (r2_enabled : Bool) (body : Fields) : Except Error Checked := do
  let mode ← choose_mode r2_enabled <| or_else (body.lookup "mode") (.str "stateless_json")
  let name := L.lower <| L.strip <| str L <| or_else (body.lookup "framework") (.str "generic_http")
  match adapter_capability L name mode with
  | none           => .error <| workflow_error "target framework is not supported" "unsupported_framework"
  | some framework => do
    check_provider framework ((body.lookup "model").getD .null) ((body.lookup "max_tokens").getD .null)
    let retry_max := (body.lookup "retry_max").getD .null
    check (retry_max = .null ∨ retry_max.pyEq (.int 0)) <|
      workflow_error "Remote retries are disabled by default" "retries_forbidden"
    let mapping := or_empty (body.lookup "output_mapping")
    reject_golden_mapping L mapping
    let request_mapping := or_empty (body.lookup "request_mapping")
    if request_mapping.truthy then reject_golden_mapping L request_mapping else .ok ()
    match body.lookup "retrieval_mapping" with
    | none | some .null      => .ok ()
    | some retrieval_mapping => do let _ ← validate_retrieval_mapping L retrieval_mapping
    match body.lookup "url" with
    | some (.str url) =>
      check (url ≠ "") <| workflow_error "url is required"
      let auth ← dict_of <| or_else (body.lookup "auth") (.obj [("type", .str "none")])
      check_auth L auth
      return { mode, framework, mapping, url, auth }
    | _               => .error <| workflow_error "url is required"

def Pin.json (pin : Pin) : Json := .obj [
  ("pinned_host", .str pin.pinned_host),
  ("pinned_port", .int pin.pinned_port),
  ("scheme", .str pin.scheme),
  ("addresses", .arr <| pin.addresses.map .str)
]

-- `isinstance(template, str) and key in template`
def is_template (template : Json) (key : String) : Bool :=
  template.string?.any (occurs key)

-- The fields that a mode adds.
def mode_content (body : Fields) (url : String) : Mode → Except Error Fields
  | .stateless_json => .ok []
  | .streaming      => .ok [
      ("max_frame_bytes", or_else (body.lookup "max_frame_bytes") (.int 65536)),
      ("max_frames", or_else (body.lookup "max_frames") (.int 10000))
    ]
  | .async          => do
    let template := (body.lookup "status_url_template").getD .null
    check (is_template template "{job_id}") <|
      workflow_error "async targets require status_url_template" "target_invalid"
    return [
      ("submit_url", or_else (body.lookup "submit_url") (.str url)),
      ("status_url_template", template),
      ("poll_interval_seconds", or_else (body.lookup "poll_interval_seconds") (.float (.finite (1 / 10)))),
      ("poll_timeout_seconds", or_else (body.lookup "poll_timeout_seconds") (.int 30))
    ]
  | .session        => do
    let template := (body.lookup "turn_url_template").getD .null
    check (is_template template "{session_id}") <|
      workflow_error "session targets require turn_url_template" "target_invalid"
    return [
      ("init_url", or_else (body.lookup "init_url") (.str url)),
      ("turn_url_template", template),
      ("close_url_template", (body.lookup "close_url_template").getD .null)
    ]

-- The mode that a target is stored with.
def Mode.stored : Mode → String
  | .stateless_json => "stateless_json"
  | .streaming      => "stream"
  | .async          => "async"
  | .session        => "session"

def base_content (body : Fields) (c : Checked) (pin : Pin) : Fields := [
  ("kind", .str c.mode.kind),
  ("framework", .str c.framework.toString),
  ("model", (body.lookup "model").getD .null),
  ("max_tokens", (body.lookup "max_tokens").getD .null),
  ("url", .str c.url),
  ("method", or_else (body.lookup "method") (.str "POST")),
  ("auth", .obj c.auth),
  ("request_mapping", or_empty (body.lookup "request_mapping")),
  ("output_mapping", if c.mapping.truthy then c.mapping else default_output_mapping),
  ("retrieval_mapping", or_else (body.lookup "retrieval_mapping") .null),
  ("timeout_seconds", or_else (body.lookup "timeout_seconds") (.int 5)),
  ("max_response_bytes", or_else (body.lookup "max_response_bytes") (.int MAX_RESPONSE_BYTES)),
  ("max_concurrency", or_else (body.lookup "max_concurrency") (.int 2)),
  ("retry_max", .int 0),
  ("mode", .str c.mode.stored),
  ("pinned", pin.json)
]

-- The content of a target, which only a finite JSON object can be.
def content (body : Fields) (c : Checked) (pin : Pin) : Except Error Fields := do
  let fields := base_content body c pin ++ (← mode_content body c.url c.mode)
  check (Json.obj fields).finiteFloats <| workflow_error "Content must be finite JSON"
  return fields

def create (policy : EndpointPolicy) (r2_enabled : Bool) (body : Fields) : Prog sig Fields := do
  let c   ← Prog.ofExcept (check_body L r2_enabled body)
  let pin ← policy.authorize L (.str c.url)
  Prog.ofExcept (content body c pin)

-- The classes of adapters.
inductive AdapterClass
  | http_json
  | http_stream
  | http_job
  | http_session
  | openai_compatible
  | anthropic_messages
  | google_generative
  deriving DecidableEq, Repr

-- The adapter that verifies a target.
def _adapter (content : Fields) : AdapterClass :=
  if content.lookup "kind" = some (.str "http_stream") then .http_stream
  else if content.lookup "kind" = some (.str "http_job") then .http_job
  else if content.lookup "kind" = some (.str "http_session") then .http_session
  else if content.lookup "framework" = some (.str "openai_compatible") then .openai_compatible
  else if content.lookup "framework" = some (.str "anthropic_messages") then .anthropic_messages
  else if content.lookup "framework" = some (.str "google_generative") then .google_generative
  else .http_json

-- The adapter that a run measures a target through.
def measuring_adapter (content : Fields) : AdapterClass :=
  match Plans.adapter_for ((content.lookup "kind").getD .null) with
  | .http_stream  => .http_stream
  | .http_job     => .http_job
  | .http_session => .http_session
  | _             => .http_json

def AdapterClass.invoke (a : AdapterClass) (policy : EndpointPolicy) (target : Fields)
    (case_input : Json) (ctx : Context) : Prog sig InvocationResult :=
  match a with
  | .http_json          => HttpJsonAdapter.invoke L policy target (.int 0) case_input ctx
  | .http_stream        => HttpStreamAdapter.invoke L ctx policy target case_input
  | .http_job           => HttpJobAdapter.invoke L policy target ctx case_input
  | .http_session       => HttpSessionAdapter.invoke L policy target ctx case_input
  | .openai_compatible  => OpenAICompatibleAdapter.invoke L policy target (.int 0) case_input ctx
  | .anthropic_messages => AnthropicMessagesAdapter.invoke L policy target (.int 0) case_input ctx
  | .google_generative  => GoogleGenerativeAdapter.invoke L policy target (.int 0) case_input ctx

-- `verified_content`, with the receipt of the verification.
def verified_content (receipt : Json) (content : Fields) : Fields :=
  assign "verification" receipt content

end

end Targets
