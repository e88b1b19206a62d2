import Traceline.Egress.Recording

namespace Egress

-- `str.lower` and `str.strip`.
structure Strings where
  lower : String → String
  strip : String → String

-- The `WorkflowError` of the registry, whose status is 409.
structure RegistryError where
  message : String
  code    : String
  deriving DecidableEq, Repr

namespace ProviderRouteRegistry

def invalid (message : String) : RegistryError :=
  ⟨message, "proxy_routes_invalid"⟩

def allowed : List String := [
  "host", "origin", "path", "provider", "model", "secret_ref", "dummy_key", "max_input_tokens",
  "max_output_tokens", "input_micros_per_token", "output_micros_per_token", "price_version",
  "max_request_bytes", "input_token_counter", "allow_streaming"
]

def required : List String := [
  "host", "path", "model", "secret_ref", "dummy_key", "max_input_tokens", "max_output_tokens",
  "input_micros_per_token", "output_micros_per_token", "price_version"
]

-- The fields of a route, which have the types that the constructor declares.
def string (raw : Fields) (key : String) (default : Option String) : Option String :=
  match raw.lookup key with
  | none          => default
  | some (.str s) => some s
  | some _        => none

def int (raw : Fields) (key : String) (default : Option Int) : Option Int :=
  match raw.lookup key with
  | none          => default
  | some (.int n) => some n
  | some _        => none

-- The constructor of a route, which is none where it raises.
def construct (bound : String → Fields → Except Error Json) (raw : Fields) :
    Option ProviderRoute := do
  let host                    ← string raw "host" none
  let path                    ← string raw "path" none
  let model                   ← string raw "model" none
  let secret_ref              ← string raw "secret_ref" none
  let dummy_key               ← string raw "dummy_key" none
  let price_version           ← string raw "price_version" none
  let provider                ← string raw "provider" (some "openai")
  let origin                  ←
    match raw.lookup "origin" with
    | none | some .null => some none
    | some (.str s)     => some (some s)
    | some _            => none
  let max_input_tokens        ← int raw "max_input_tokens" none
  let max_output_tokens       ← int raw "max_output_tokens" none
  let input_micros_per_token  ← int raw "input_micros_per_token" none
  let output_micros_per_token ← int raw "output_micros_per_token" none
  let max_request_bytes       ← int raw "max_request_bytes" (some 262144)
  let allow_streaming         ←
    match raw.lookup "allow_streaming" with
    | none           => some false
    | some (.bool b) => some b
    | some _         => none
  if h : host ≠ "" ∧ path.toList.head? = some '/' ∧
      (0 < max_input_tokens ∧ 0 < max_output_tokens ∧ 0 < max_request_bytes) ∧
      0 ≤ input_micros_per_token ∧ 0 ≤ output_micros_per_token then
    some {
      host, path, model, secret_ref, dummy_key, max_input_tokens, max_output_tokens
      input_micros_per_token, output_micros_per_token, price_version, origin, provider
      usage_decoder       := none
      max_request_bytes
      input_token_bound   := some (bound model)
      allow_streaming
      host_ne_empty       := h.left
      path_absolute       := h.right.left
      limits_pos          := h.right.right.left
      input_price_nonneg  := h.right.right.right.left
      output_price_nonneg := h.right.right.right.right
    }
  else none

-- A count that is not a nonnegative integer is not taken.
def bound (token_counter : String → Fields → Except Error Json) (model : String) (body : Fields) :
    Except Error Json := do
  match ← token_counter model body with
  | .int value =>
    if value < 0 then throw <| .denied "input_token_count_unavailable" else return .int value
  | _          => throw <| .denied "input_token_count_unavailable"

variable (strings : Strings) (token_counter : String → Fields → Except Error Json)

def _route (raw : Json) : Except RegistryError ProviderRoute :=
  match raw with
  | .obj raw =>
    if raw.any fun kv => kv.1 ∉ allowed then .error <| invalid "unknown provider route field"
    else if raw.lookup "input_token_counter" ≠ some (.str "trusted_chat_messages") then
      .error <| invalid "provider route requires a trusted input token counter"
    else if required.any fun key => (raw.lookup key).isNone then
      .error <| invalid "provider route is missing required metadata"
    else
      match construct (bound token_counter) raw with
      | some route => .ok route
      | none       => .error <| invalid "provider route metadata is invalid"
  | _        => .error <| invalid "provider route must be an object"

def key (route : ProviderRoute) : String × String × String × String :=
  (strings.lower route.provider, strings.lower route.host, route.path, route.model)

def load_items : List ProviderRoute → List Json → Except RegistryError (List ProviderRoute)
  | routes, []            => .ok routes
  | routes, item :: items =>
    match _route token_counter item with
    | .error e  => .error e
    | .ok route =>
      if key strings route ∈ routes.map (key strings) then
        .error <| invalid "duplicate provider route"
      else load_items (routes ++ [route]) items

-- The table of the configuration file, once it was read.
def load (raw : Json) : Except RegistryError (List ProviderRoute) :=
  match raw with
  | .obj [("routes", .arr [])]    => .error <| invalid "provider route configuration contains no routes"
  | .obj [("routes", .arr items)] => load_items strings token_counter [] items
  | _ => .error <| invalid "provider route configuration must contain a routes list"

end ProviderRouteRegistry

-- What `urlsplit` gives of a request target.
structure SplitResult where
  netloc : String
  path   : String
  query  : String
  deriving DecidableEq, Repr

-- A request as it was read from a connection. The keys of its headers are in lower case and
-- distinct. The length is none where it is not an integer, the body where it is not JSON.
structure Message where
  method         : String
  target         : SplitResult
  headers        : List (String × String)
  content_length : Option Int
  body           : Option Json

-- What the proxy answers itself.
structure Response where
  status : Int
  error  : String
  deriving DecidableEq, Repr

-- A request that is handed to the egress of a route.
structure Dispatched where
  route   : ProviderRoute
  path    : String
  headers : List (String × String)
  body    : Fields

structure ProxyInstance where
  strings   : Strings
  codec     : Codec
  routes    : List ProviderRoute
  -- Whether there is a CA to intercept TLS with.
  ca        : Bool
  routes_ne : routes ≠ []

namespace ProxyInstance

variable (self : ProxyInstance)

def max_request_bytes : Int :=
  (self.routes.map (·.max_request_bytes)).foldl max 0

-- A host in the spelling that routes are looked up by.
def fold (host : String) : String :=
  self.strings.strip (self.strings.lower host)

def route_for_host (host : String) : Option ProviderRoute :=
  self.routes.find? fun route => self.strings.lower route.host = self.fold host

def egress_for (route : ProviderRoute) : RecordingEgress where
  codec := self.codec
  route

def request_path (target : SplitResult) : String :=
  (if target.path = "" then "/" else target.path) ++
    if target.query = "" then "" else "?" ++ target.query

-- `headers.get("host") or parsed.netloc`
def request_host (m : Message) : String :=
  match m.headers.lookup "host" with
  | some host => if host = "" then m.target.netloc else host
  | none      => m.target.netloc

-- `_handle_http` up to the call of the egress
def dispatch (m : Message) : Except Response Dispatched :=
  match m.content_length with
  | none      => .error ⟨400, "invalid_request"⟩
  | some size =>
    if size < 0 ∨ size > self.max_request_bytes then .error ⟨413, "request_too_large"⟩
    else
      match m.body with
      | some (.obj body) =>
        match self.route_for_host (request_host m) with
        | none       => .error ⟨403, "route_not_allowed"⟩
        | some route =>
          if m.method.toUpper ≠ "POST" then .error ⟨405, "method_not_allowed"⟩
          else .ok { route, path := request_path m.target, headers := m.headers, body }
      | _ => .error ⟨400, "invalid_request"⟩

-- `_handle_connect`, once the TLS connection inside the tunnel stands
def connect (target : String) (m : Message) : Except Response Dispatched :=
  match self.route_for_host target with
  | none   => .error ⟨403, "route_not_allowed"⟩
  | some _ =>
    if self.ca then self.dispatch m
    else .error ⟨501, "tls_interception_unavailable"⟩

-- What the egress of the route does with a request, and how a denial is answered.
def serve (d : Dispatched) : Prog sig (Except Response Int) :=
  tryCatch
    (if d.body.lookup "stream" = some (.bool true) then
      .ok <$> (self.egress_for d.route).forward_stream d.path d.headers d.body
    else (fun r => .ok r.1) <$> (self.egress_for d.route).forward d.path d.headers d.body)
    fun e : Error => match e with
      | .denied reason          => return .error ⟨403, reason⟩
      | .budgetExceeded message => return .error ⟨403, message⟩
      | .valueError _           => return .error ⟨400, "invalid_request"⟩
      | .raised                 => throw Error.raised

end ProxyInstance

end Egress
