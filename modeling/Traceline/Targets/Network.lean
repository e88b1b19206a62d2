import Traceline.Library.Prog
import Traceline.Python

-- What a hosted target is reached through: the policy that approves its addresses, and the
-- transport that dials an approved address.
namespace Targets

abbrev Bytes := List UInt8

-- The exceptions that an adapter tells apart.
inductive Error
  | policy_denied (code message : String)
  | workflow_error (code message : String)
  | timeout_exception
  | http_error
  | stream_protocol_error
  | value_error
  | key_error
  | type_error
  | raised (exception : String)
  deriving DecidableEq, Repr

-- `except httpx.HTTPError`
def Error.isHTTPError : Error → Bool
  | .timeout_exception | .http_error => true
  | _                                => false

-- `except ValueError`
def Error.isValueError : Error → Bool
  | .value_error | .stream_protocol_error => true
  | _                                     => false

def Error.isPolicyDenied : Error → Bool
  | .policy_denied _ _ => true
  | _                  => false

-- `type(exc).__name__`, up to the subclasses of httpx's exceptions.
def Error.type_name : Error → String
  | .policy_denied _ _     => "PolicyDenied"
  | .workflow_error _ _    => "WorkflowError"
  | .timeout_exception     => "TimeoutException"
  | .http_error            => "HTTPError"
  | .stream_protocol_error => "StreamProtocolError"
  | .value_error           => "ValueError"
  | .key_error             => "KeyError"
  | .type_error            => "TypeError"
  | .raised exception      => exception

-- What `urlparse` finds in a URL.
structure ParseResult where
  scheme   : String
  username : Option String
  password : Option String
  hostname : Option String
  port     : Option ℕ

-- What `ip_address` finds in an address, and the text it prints it as.
structure Address where
  text         : String
  is_multicast : Bool
  ipv4_mapped  : Bool
  is_global    : Bool

-- What `httpx.URL` finds in a URL.
structure Url where
  scheme   : String
  raw_host : String
  port     : Option ℕ

-- What a client is asked to send.
structure Request where
  method  : Json
  url     : Json
  headers : List (String × String)
  json    : Json
  timeout : PyFloat
  deriving DecidableEq

-- The code around the adapters: the two URL parsers, the host encodings, the addresses, the numbers
-- that a text denotes, the decoder of bodies, and what httpx makes of a request before it is sent.
-- The input of a case was stored as JSON text, so it has one.
structure Libraries where
  urlparse   : String → Option ParseResult
  idna       : String → Option String
  lower      : String → String
  strip      : String → String
  str        : Json → String
  ip_address : String → Option Address
  raw_host   : String → Option String
  prepare    : Request → Except Error Url
  quote      : String → String
  float      : String → Option PyFloat
  int        : String → Option Int
  sleep      : PyFloat → Except Error Unit
  decode     : Bytes → Option String
  loads      : Bytes → Except Error Json
  loads_text : String → Except Error Json
  dumps      : Json → String

-- An approved destination.
structure Pin where
  pinned_host : String
  pinned_port : ℕ
  scheme      : String
  addresses   : List String
  deriving DecidableEq, Repr

-- A single-origin transport that dials an approved address.
structure PinnedTransport where
  address : String
  host    : String
  port    : ℕ
  scheme  : String
  deriving DecidableEq, Repr

-- A response. The body may break off, with a timeout or another error.
structure Response where
  status_code      : ℕ
  content_encoding : Option String
  chunks           : List Bytes
  broken           : Option Error

-- The calls reach the resolver and, through the transport of a client, the endpoint.
inductive Call
  | getaddrinfo (host : String) (port : ℕ)
  | send (transport : PinnedTransport) (request : Request)
  deriving DecidableEq

-- What an invocation asks of its surroundings: whether it is cancelled, the time, how many rounds of
-- polling the clock lets begin, and that the id of a remote job is kept.
inductive Query
  | should_cancel
  | time
  | rounds
  | persist_remote_job (job_id : String)
  deriving DecidableEq

abbrev Call.Reply : Call → Type
  | .getaddrinfo _ _ => Option (List String)
  | .send _ _        => Response

abbrev Query.Answer : Query → Type
  | .should_cancel        => Bool
  | .time                 => PyFloat
  | .rounds               => ℕ
  | .persist_remote_job _ => Unit

abbrev sig : Sig where
  Call   := Call
  Reply  := Call.Reply
  Query  := Query
  Answer := Query.Answer
  Error  := Error

variable {α β : Type}

def check (p : Prop) [Decidable p] (e : Error) : Except Error Unit :=
  if p then .ok () else .error e

-- `try: … except …: return …`, as what the handler returns or what the block yields.
def attempt (p : Prog sig α) (handler : Error → Option β) : Prog sig (Except β α) :=
  tryCatch (Except.ok <$> p) fun e =>
    match handler e with
    | some b => pure (.error b)
    | none   => throw e

structure EndpointPolicy where
  allow_exact : List String

section

variable (L : Libraries)

def EndpointPolicy.new (allow_exact : List String) : EndpointPolicy where
  allow_exact := allow_exact.map L.lower

-- What `authorize` looks up.
structure Destination where
  scheme : String
  host   : String
  port   : ℕ
  deriving DecidableEq, Repr

def destination (url : Json) : Except Error Destination :=
  match url with
  | .str text =>
    match L.urlparse text with
    | none        => .error <| .policy_denied "disallowed_destination" "Target URL is invalid"
    | some parsed => do
      let port := parsed.port.getD (if parsed.scheme = "https" then 443 else 80)
      let host := parsed.hostname.getD ""
      check (parsed.scheme = "http" ∨ parsed.scheme = "https") <|
        .policy_denied "disallowed_destination" "Only http and https targets are supported"
      check (parsed.username = none ∧ parsed.password = none) <|
        .policy_denied "disallowed_destination" "Target URL must not contain credentials"
      check (host ≠ "" ∧ 1 ≤ port ∧ port ≤ 65535 ∧
          text.toList.all (fun c => c ∉ ['\\', '\r', '\n', '\t']) ∧ '%' ∉ host.toList) <|
        .policy_denied "disallowed_destination" "Target host or port is invalid"
      match L.idna host with
      | none      =>
        .error <| .policy_denied "disallowed_destination" "Target hostname is invalid"
      | some host => return ⟨parsed.scheme, L.lower host, port⟩
  | _         =>
    if url.truthy then .error <| .raised "AttributeError"
    else .error <| .policy_denied "disallowed_destination" "Only http and https targets are supported"

-- Whether a destination is on the allow list.
def EndpointPolicy.allowed (policy : EndpointPolicy) (d : Destination) : Bool :=
  s!"{d.host}:{d.port}" ∈ policy.allow_exact

-- Mapped and multicast addresses are never targets. The allow list lifts the rest.
def Address.protected_ (ip : Address) (allowed : Bool) : Bool :=
  ip.is_multicast || ip.ipv4_mapped || !allowed && !ip.is_global

def approve_address (policy : EndpointPolicy) (d : Destination) (address : String) :
    Except Error String :=
  match if '%' ∈ address.toList then none else L.ip_address address with
  | none    =>
    .error <| .policy_denied "disallowed_destination" "Target resolved to an invalid address"
  | some ip =>
    if ip.protected_ (policy.allowed d) then
      .error <| .policy_denied (if d.host ≠ address then "dns_rebinding" else "disallowed_destination")
        "Target resolves to a protected destination"
    else .ok ip.text

def approve (policy : EndpointPolicy) (d : Destination) (records : Option (List String)) :
    Except Error Pin :=
  match records with
  | none         => .error <| .policy_denied "dns_failure" "Target hostname could not be resolved"
  | some records => do
    let addresses ← records.mapM (approve_address L policy d)
    check (addresses ≠ []) <|
      .policy_denied "dns_failure" "Target hostname could not be resolved"
    return ⟨d.host, d.port, d.scheme, addresses.eraseDups⟩

def EndpointPolicy.authorize (policy : EndpointPolicy) (url : Json) : Prog sig Pin := do
  let d       ← Prog.ofExcept (destination L url)
  let records ← Prog.perform (S := sig) (Call.getaddrinfo d.host d.port)
  Prog.ofExcept (approve L policy d records)

def _authority (host : String) : String :=
  if ':' ∈ host.toList then s!"[{host}]" else host

def PinnedTransport.new (pin : Pin) : Except Error PinnedTransport :=
  match pin.addresses with
  | []           => .error .value_error
  | address :: _ =>
    match L.ip_address address with
    | none    => .error .value_error
    | some ip =>
      match L.raw_host (pin.scheme ++ "://" ++ _authority pin.pinned_host) with
      | none      => .error <| .raised "InvalidURL"
      | some host => .ok ⟨ip.text, host, pin.pinned_port, pin.scheme⟩

-- The socket that a request is written to.
structure Connection where
  scheme       : String
  sni_hostname : String
  address      : String
  port         : ℕ
  deriving DecidableEq, Repr

-- `request.url.port or (443 if request.url.scheme == "https" else 80)`
def Url.effective_port (u : Url) : ℕ :=
  (u.port.filter (· ≠ 0)).getD (if u.scheme = "https" then 443 else 80)

def PinnedTransport.handle_request (t : PinnedTransport) (u : Url) : Except Error Connection :=
  if u.raw_host ≠ t.host ∨ u.effective_port ≠ t.port ∨ u.scheme ≠ t.scheme then .error .http_error
  else .ok ⟨u.scheme, u.raw_host, t.address, u.effective_port⟩

-- The connection that a client opens for a request, if any.
def PinnedTransport.connection (t : PinnedTransport) (r : Request) : Except Error Connection := do
  t.handle_request (← L.prepare r)

-- `float(value)`
def float : Json → Except Error PyFloat
  | .bool b  => .ok <| .finite b.toInt
  | .int n   => if n.natAbs < Json.floatLimit then .ok (.finite n) else .error <| .raised "OverflowError"
  | .float x => .ok x
  | .str s   =>
    match L.float s with
    | some x => .ok x
    | none   => .error .value_error
  | _        => .error .type_error

-- `int(value)`
def int : Json → Except Error Int
  | .bool b            => .ok b.toInt
  | .int n             => .ok n
  | .float (.finite q) => .ok <| if 0 ≤ q then ⌊q⌋ else ⌈q⌉
  | .float .nan        => .error .value_error
  | .float _           => .error <| .raised "OverflowError"
  | .str s             =>
    match L.int s with
    | some n => .ok n
    | none   => .error .value_error
  | _                  => .error .type_error

end

-- The body of a response that is read to its end.
def Response.content (r : Response) : Except Error Bytes :=
  match r.broken with
  | some e => .error e
  | none   => .ok r.chunks.flatten

end Targets
