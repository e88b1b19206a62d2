import Traceline.Egress.Route
import Traceline.Library.Pool

namespace Egress

-- The metadata recorded for one request; a timestamp is added on the way out.
structure Record where
  host            : String
  path            : String
  model           : String
  status          : Option Int
  usage           : Option Usage
  cost_usd_micros : Option Int
  price_version   : String
  deriving DecidableEq, Repr

-- How iterating a provider stream ends, after the JSON events it delivered.
inductive StreamEnd
  | finished
  | protocolError
  | osError
  -- Any exception that is none of the ones `stream` catches, as from the transport's own library.
  | raised
  -- The consumer closes the generator, which runs no handler of `stream`.
  | closed

-- What the outbound call returns next to the status.
inductive Payload
  | json (value : Json)
  | bytes
  | stream (events : List Json) (ending : StreamEnd)

inductive Call
  | reserve (worst_case_usd_micros : Int)
  | commit (reservation observed_usd_micros : Int)
  | uncertain (reservation : Option Int)
  | record (r : Record)
  deriving DecidableEq, Repr

-- The code a request calls out to: the secret resolver and the outbound transport. An answer is
-- none where the callable raised.
inductive Query
  | resolve (secret_ref : String)
  | send (body : Fields) (headers : List (String × String))

@[reducible]
def sig : Sig where
  Call := Call
  Reply
    | .reserve _ => Int
    | _          => Unit
  Query := Query
  Answer
    | .resolve _ => Option Json
    | .send _ _  => Option (Int × Payload)
  Error := Error

-- One proxy session: the budget every request of the run shares, and what was recorded.
structure Session where
  budget  : Budget
  records : List Record

-- Each method of `Budget` holds the lock for its whole body.
@[reducible]
def session : Store sig where
  State := Session
  perform
    | .reserve w, s =>
      match s.budget.reserve w with
      | .ok (r, b) => (.ok r, { s with budget := b })
      | .error e   => (.error e, s)
    | .commit r o, s  => (.ok (), { s with budget := s.budget.commit r o })
    | .uncertain r, s => (.ok (), { s with budget := s.budget.uncertain r })
    | .record r, s    => (.ok (), { s with records := s.records ++ [r] })

-- The session an execution of a plan's run starts, by the `limits` of the plan. An error is the code
-- of the `WorkflowError`.
def default_proxy_session_factory (limits : Fields) : Except String Session :=
  match (limits.lookup "budget_usd_micros").getD (.int 0) with
  | .int budget_usd_micros =>
    match Budget.new budget_usd_micros with
    | .ok budget => .ok { budget, records := [] }
    | .error _   => .error "proxy_budget_invalid"
  | _ => .error "proxy_budget_invalid"

def reserve (worst_case_usd_micros : Int) : Prog sig Int :=
  @Prog.perform sig (.reserve worst_case_usd_micros)

def commit (reservation observed_usd_micros : Int) : Prog sig Unit :=
  @Prog.perform sig (.commit reservation observed_usd_micros)

def uncertain (reservation : Option Int) : Prog sig Unit :=
  @Prog.perform sig (.uncertain reservation)

def record (r : Record) : Prog sig Unit :=
  @Prog.perform sig (.record r)

def resolve (secret_ref : String) : Prog sig (Option Json) :=
  @Prog.query sig (.resolve secret_ref)

def send (body : Fields) (headers : List (String × String)) :
    Prog sig (Option (Int × Payload)) :=
  @Prog.query sig (.send body headers)

structure RecordingEgress where
  codec : Codec
  route : ProviderRoute

namespace RecordingEgress

variable (self : RecordingEgress)

def metadata (status : Option Int) (usage : Option Usage) : Record where
  host            := self.route.host
  path            := self.route.path
  model           := self.route.model
  status          := status
  usage           := usage
  cost_usd_micros := none
  price_version   := self.route.price_version

def auth_header : String :=
  if self.route.provider = "anthropic" then "x-api-key"
  else if self.route.provider = "google" then "x-goog-api-key"
  else "authorization"

def expected_auth : String :=
  if self.auth_header ≠ "authorization" then self.route.dummy_key
  else "Bearer " ++ self.route.dummy_key

-- What both paths check before they touch the budget.
def limits? (path : String) (headers : List (String × String)) (body : Fields) :
    Except Error Limits := do
  let limits ← self.route.authorize self.codec path body
  let supplied_auth := headers.find? (·.1.toLower = self.auth_header) |>.map Prod.snd
  if supplied_auth ≠ some self.expected_auth then throw <| .denied "credential_not_recognized"
  return limits

def outbound_headers (headers : List (String × String)) (real : String) :
    List (String × String) :=
  headers.filter (fun h => h.1.toLower ≠ "authorization" ∧ h.1.toLower ≠ self.auth_header) ++
  [if self.auth_header = "authorization" then ("Authorization", "Bearer " ++ real)
   else (self.auth_header, real)]

-- The real credential, or the request ends with its reservation spent.
def secret (reservation : Int) : Prog sig String := do
  match ← resolve self.route.secret_ref with
  | some (.str real) =>
    if real = "" then
      uncertain (some reservation)
      throw (Error.denied "secret_resolution_failed")
    else return real
  | _ =>
    uncertain (some reservation)
    throw (Error.denied "secret_resolution_failed")

-- The request leaves unmeterable: its reservation counts as spent and the budget closes.
def unmeterable (reservation : Int) (status : Option Int) (e : Error) : Prog sig α := do
  uncertain (some reservation)
  record (self.metadata status none)
  throw e

def settle (limits : Limits) (reservation : Int) (status micros : Int) (usage : Usage) :
    Prog sig Unit := do
  commit reservation micros
  let bound_violated :=
    usage.prompt_tokens > limits.input_tokens ∨ usage.completion_tokens > limits.output_tokens
  if bound_violated then
    uncertain none
  record { self.metadata (some status) (some usage) with cost_usd_micros := some micros }
  if bound_violated then
    throw (Error.denied "usage_exceeds_reserved_bound")

def forward (path : String) (headers : List (String × String)) (body : Fields) :
    Prog sig (Int × Payload) := do
  let limits ← @Prog.ofExcept sig _ (self.limits? path headers body)
  let reservation ← reserve (self.route.worst_case limits.input_tokens)
  let real ← self.secret reservation
  match ← send body (self.outbound_headers headers real) with
  | none => self.unmeterable reservation none (.denied "upstream_unreachable")
  | some (status, payload) =>
    let response_usage :=
      match payload with
      | .json (.obj payload) => (self.route.decode_usage payload).map some
      | _                    => .ok none
    match response_usage >>= self.route.observed with
    | .ok (micros, usage) =>
      self.settle limits reservation status micros usage
      return (status, payload)
    -- Only `EgressDenied` and `ValueError` are caught.
    | .error .raised => throw Error.raised
    | .error _       => self.unmeterable reservation (some status) (.denied "usage_unavailable")

-- The usage a stream reports over its events.
def accumulate (observed : PartialUsage) : List Json → Except Error PartialUsage
  | []                   => .ok observed
  | .obj event :: events => do
    match ← self.route.decode_stream_usage event with
    | some usage => accumulate (observed.merge usage) events
    | none       => accumulate observed events
  | _ :: _ => .error <| .valueError "stream event must be an object"

-- The generator `stream`, drained by its consumer.
def stream (limits : Limits) (reservation status : Int) (events : List Json) (ending : StreamEnd) :
    Prog sig Unit := do
  match self.accumulate {} events with
  | .error (.denied e) => self.unmeterable reservation (some status) (.denied e)
  | .error .raised     => throw Error.raised
  | .error _           => self.unmeterable reservation (some status) (.denied "usage_unavailable")
  | .ok observed =>
    match ending with
    | .closed        => return
    | .raised        => throw Error.raised
    | .protocolError => self.unmeterable reservation (some status) (.denied "usage_unavailable")
    | .osError       => self.unmeterable reservation (some status) (.denied "stream_protocol_error")
    | .finished =>
      match self.route.observed (some (.obj observed.toFields)) with
      | .error e            => self.unmeterable reservation (some status) e
      | .ok (micros, usage) => self.settle limits reservation status micros usage

def forward_stream (path : String) (headers : List (String × String)) (body : Fields) :
    Prog sig Int := do
  let limits ← @Prog.ofExcept sig _ (self.limits? path headers body)
  let reservation ← reserve (self.route.worst_case limits.input_tokens)
  let real ← self.secret reservation
  match ← send body (self.outbound_headers headers real) with
  | none => self.unmeterable reservation none (.denied "upstream_unreachable")
  | some (status, payload) =>
    match payload with
    | .stream events ending =>
      self.stream limits reservation status events ending
      return status
    -- A list is iterable, but its items are not bytes.
    | .json (.arr []) =>
      self.stream limits reservation status [] .finished
      return status
    | .json (.arr _) =>
      self.stream limits reservation status [] .protocolError
      return status
    | _ => self.unmeterable reservation (some status) (.denied "stream_protocol_error")

end RecordingEgress

end Egress
