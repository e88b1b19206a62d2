import Traceline.Egress.Listener
import Traceline.Egress.Theorems.Closure

namespace Egress

inductive Transport
  | plain
  | connect
  deriving DecidableEq, Repr

def Transport.default_port : Transport → ℕ
  | .plain   => 80
  | .connect => 443

-- A POST request of an HTTP client that goes through the proxy.
structure ClientRequest where
  transport : Transport
  hostname  : String
  port      : ℕ
  path      : String
  query     : String
  headers   : List (String × String)
  body      : Fields
  size      : ℕ

namespace ClientRequest

variable (q : ClientRequest)

def authority : String :=
  q.hostname ++ ":" ++ toString q.port

-- The `Host` header, which leaves the default port out.
def host : String :=
  if q.port = q.transport.default_port then q.hostname else q.authority

-- What the proxy reads: the target has an authority only outside of a tunnel.
def message : Message where
  method         := "POST"
  target         := {
    netloc := match q.transport with
      | .plain   => q.host
      | .connect => ""
    path   := q.path
    query  := q.query
  }
  headers        := ("host", q.host) :: q.headers
  content_length := some q.size
  body           := some (.obj q.body)

end ClientRequest

namespace ProxyInstance

variable (p : ProxyInstance) (q : ClientRequest) (r : ProviderRoute)

def handle : Except Response Dispatched :=
  match q.transport with
  | .plain   => p.dispatch q.message
  | .connect => p.connect q.authority q.message

-- What a route checks of a request before it touches the budget.
def admits (d : Dispatched) (l : Limits) : Prop :=
  (p.egress_for d.route).limits? d.path d.headers d.body = .ok l

-- The request is for the host of the route, which may be given with the port or without it.
def Names : Prop :=
  p.strings.lower r.host = p.fold q.host ∨ p.strings.lower r.host = p.fold q.authority

structure Authorises : Prop where
  names : p.Names q r
  admitted : ∃ l, p.admits ⟨r, request_path q.message.target, q.message.headers, q.body⟩ l

-- It is the one route of the table that authorises the request.
structure Only : Prop where
  mem        : r ∈ p.routes
  authorises : p.Authorises q r
  unique     : ∀ r' ∈ p.routes, p.Authorises q r' → r' = r

-- The request gets to the budget under the route.
def Forwards : Prop :=
  ∃ d l, p.handle q = .ok d ∧ d.route = r ∧ p.admits d l

-- A request that its route admits asks the budget for what the route may cost.
theorem serve_of_admits {p : ProxyInstance} {d : Dispatched} {l : Limits} (h : p.admits d l) :
    ∃ k, p.serve d = .call (.reserve (d.route.worst_case l.input_tokens)) k := by
  unfold admits at h
  unfold serve
  split
  · unfold RecordingEgress.forward_stream
    rw [h]
    exact ⟨_, rfl⟩
  · unfold RecordingEgress.forward
    rw [h]
    exact ⟨_, rfl⟩

-- The route is the first one of the table that the `Host` header names.
def First : Prop :=
  ∃ earlier later, p.routes = earlier ++ r :: later ∧
    p.strings.lower r.host = p.fold q.host ∧
    ∀ r' ∈ earlier, p.strings.lower r'.host ≠ p.fold q.host

variable {p q r}

theorem route_for_host_eq_some_iff : p.route_for_host q.host = some r ↔ p.First q r := by
  rw [route_for_host, List.find?_eq_some_iff_append, First]
  simp only [decide_eq_true_eq, Bool.not_eq_true', decide_eq_false_iff_not]
  constructor
  · exact fun ⟨hr, earlier, later, hs, hn⟩ => ⟨earlier, later, hs, hr, hn⟩
  · exact fun ⟨earlier, later, hs, hr, hn⟩ => ⟨hr, earlier, later, hs, hn⟩

-- An empty header leaves the authority of the target, which says the same.
theorem request_host_message : request_host q.message = q.host := by
  have hlookup : q.message.headers.lookup "host" = some q.host := List.lookup_cons_self
  rw [request_host, hlookup]
  dsimp only
  split
  case isFalse  => rfl
  case isTrue h =>
    unfold ClientRequest.message
    cases q.transport with
    | plain   => rfl
    | connect => exact h.symm

theorem dispatch_eq_ok_iff {d : Dispatched} : p.dispatch q.message = .ok d ↔
    (q.size : Int) ≤ p.max_request_bytes ∧ p.First q d.route ∧
      d = ⟨d.route, request_path q.message.target, q.message.headers, q.body⟩ := by
  have hpost : q.message.method.toUpper = "POST" := show "POST".toUpper = _ by decide +kernel
  have hlen : q.message.content_length = some (q.size : Int) := rfl
  have hbody : q.message.body = some (.obj q.body) := rfl
  rw [← route_for_host_eq_some_iff, dispatch, hlen, hbody, request_host_message, hpost]
  dsimp only
  split
  case isTrue hs  => exact iff_of_false nofun fun h => by omega
  case isFalse hs =>
    rw [not_or, Int.not_lt] at hs
    have hpost : ¬ "POST" ≠ "POST" := not_not_intro rfl
    simp only [if_neg hpost]
    cases hr : p.route_for_host q.host with
    | none   => simp
    | some r =>
      refine ⟨fun h => ?_, fun ⟨_, hd, h⟩ => ?_⟩
      · obtain rfl := Except.ok.inj h
        exact ⟨by omega, rfl, rfl⟩
      · obtain rfl := Option.some.inj hd
        exact congrArg _ h.symm

-- What the tunnel asks for besides, where the request comes through one.
def Tunnelled (p : ProxyInstance) (q : ClientRequest) : Prop :=
  q.transport = .connect →
    p.ca ∧ ∃ r ∈ p.routes, p.strings.lower r.host = p.fold q.authority

theorem handle_eq_ok_iff {d : Dispatched} : p.handle q = .ok d ↔
    p.Tunnelled q ∧ p.dispatch q.message = .ok d := by
  unfold handle Tunnelled
  cases q.transport with
  | plain   => simp
  | connect =>
    dsimp only
    have hroute : (∃ r ∈ p.routes, p.strings.lower r.host = p.fold q.authority) ↔
        (p.route_for_host q.authority).isSome := by
      simp [route_for_host]
    rw [hroute, connect]
    cases p.route_for_host q.authority with
    | none   => simp
    | some _ => cases p.ca <;> simp

-- The one route that authorises a request is the one it is forwarded under exactly where the raw
-- body fits, no route before it has the same host, and the table spells hosts as the client does:
-- its own like the `Host` header, and some route's like the target of the tunnel.
theorem forwards_iff (h : p.Only q r) : p.Forwards q r ↔
    (q.size : Int) ≤ p.max_request_bytes ∧ p.First q r ∧ p.Tunnelled q := by
  constructor
  · rintro ⟨d, l, hd, rfl, -⟩
    obtain ⟨ht, hd⟩ := handle_eq_ok_iff.mp hd
    obtain ⟨hs, hf, -⟩ := dispatch_eq_ok_iff.mp hd
    exact ⟨hs, hf, ht⟩
  · intro ⟨hs, hf, ht⟩
    obtain ⟨l, hl⟩ := h.authorises.admitted
    exact ⟨_, l, handle_eq_ok_iff.mpr ⟨ht, dispatch_eq_ok_iff.mpr ⟨hs, hf, rfl⟩⟩, rfl, hl⟩

end ProxyInstance

namespace Tunnel

open ProviderRouteRegistry

def strings : Strings where
  lower := String.toLower
  strip := id

def token_counter (_ : String) (_ : Fields) : Except Error Json :=
  .ok (.int 5)

def config : Json :=
  .obj [("routes", .arr [.obj [
    ("host", .str "api.provider.test"), ("path", .str "/v1/chat/completions"), ("model", .str "m"),
    ("secret_ref", .str "key"), ("dummy_key", .str "dummy"), ("max_input_tokens", .int 10),
    ("max_output_tokens", .int 10), ("input_micros_per_token", .int 1),
    ("output_micros_per_token", .int 1), ("price_version", .str "v1"),
    ("input_token_counter", .str "trusted_chat_messages")]])]

def route : ProviderRoute :=
  { Reopening.route with
    max_request_bytes := 262144
    limits_pos        := by decide
    input_token_bound := some (bound token_counter "m") }

theorem load_config : load strings token_counter config = .ok [route] :=
  rfl

def listener : ProxyInstance where
  strings
  codec     := Reopening.request.egress.codec
  routes    := [route]
  ca        := true
  routes_ne := List.cons_ne_nil _ _

def request (transport : Transport) : ClientRequest where
  transport
  hostname  := "api.provider.test"
  port      := transport.default_port
  path      := "/v1/chat/completions"
  query     := ""
  headers   := [("authorization", "Bearer dummy")]
  body      := [("model", .str "m"), ("max_tokens", .int 4)]
  size      := 30

-- What the strings of the table come to, for a request of either transport.
theorem checked : (∀ transport ∈ [Transport.plain, .connect],
      listener.strings.lower route.host = listener.fold (request transport).host ∧
      ((listener.egress_for route).limits? (ProxyInstance.request_path
        (request transport).message.target) (request transport).message.headers
        (request transport).body).toOption.isSome) ∧
    listener.strings.lower route.host ≠ listener.fold (request .connect).authority := by
  decide +kernel

theorem matched (transport : Transport) :
    listener.strings.lower route.host = listener.fold (request transport).host ∧
    ((listener.egress_for route).limits? (ProxyInstance.request_path
      (request transport).message.target) (request transport).message.headers
      (request transport).body).toOption.isSome := by
  obtain ⟨h, -⟩ := checked
  exact h transport (by cases transport <;> simp)

theorem admits (transport : Transport) : ∃ l, listener.admits ⟨route,
    ProxyInstance.request_path (request transport).message.target,
    (request transport).message.headers, (request transport).body⟩ l := by
  obtain ⟨-, h⟩ := matched transport
  unfold ProxyInstance.admits
  dsimp only
  revert h
  cases (listener.egress_for route).limits? _ _ _ with
  | error e => exact fun h => by cases h
  | ok l    => exact fun _ => ⟨l, rfl⟩

theorem only (transport : Transport) : listener.Only (request transport) route where
  mem        := List.mem_singleton_self _
  authorises := {
    names := .inl <| And.left (matched transport)
    admitted := admits transport
  }
  unique     := fun _ hr _ => List.mem_singleton.mp hr

end Tunnel

open Tunnel in
theorem forwards_iff_plain : listener.Forwards (request .plain) route :=
  (ProxyInstance.forwards_iff (only .plain)).mpr
    ⟨by decide, ⟨[], [], rfl, And.left (matched .plain), by simp⟩, nofun⟩

open Tunnel ProviderRouteRegistry in
-- The tunnel to the default port of the only route is refused: the route would have to spell its
-- host with the port for the tunnel, and without it for the request inside.
theorem default_port_unreachable : ¬ ∀ (p : ProxyInstance) token_counter config q r,
    load p.strings token_counter config = .ok p.routes → p.ca → p.Only q r →
    p.Forwards q r := by
  intro h
  have hf := h listener token_counter config (request .connect) route load_config rfl (only .connect)
  obtain ⟨d, _, hd, -⟩ := hf
  obtain ⟨-, r, hr, hn⟩ := ProxyInstance.handle_eq_ok_iff.mp hd |>.left rfl
  obtain rfl := List.mem_singleton.mp hr
  obtain ⟨-, hport⟩ := checked
  exact hport hn

end Egress
