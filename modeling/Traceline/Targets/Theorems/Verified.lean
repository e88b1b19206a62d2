import Traceline.Targets.Theorems.Pinned
import Traceline.Targets.Theorems.Receipts

namespace Targets

open Except (bind_eq_ok_iff)
open Plans (Fields or_empty assign)
open Prog (Keeps)

-- The requests of a log.
def requests (log : Log) : List Request :=
  log.filterMap fun e =>
    match e.call with
    | .send _ r        => some r
    | .getaddrinfo _ _ => none

-- The output that an invocation comes to.
def output : Prog.Outcome Error InvocationResult → Json
  | .ok r    => r.output
  | .error _ => .null
  | .crash   => .null

-- Whatever the resolver and the endpoint answer, the two send the same requests and extract the
-- same output.
def SameExchanges (p q : Prog sig InvocationResult) : Prop :=
  ∀ (M : Store sig) (env : ℕ → ∀ q : Query, q.Answer) (n : ℕ) (s : M.State),
    requests (p.play M.logged env n 0 (s, [])).1.2 = requests (q.play M.logged env n 0 (s, [])).1.2 ∧
      output (p.play M.logged env n 0 (s, [])).2 = output (q.play M.logged env n 0 (s, [])).2

section

variable (L : Libraries) (policy : EndpointPolicy)

-- A target whose configuration the service has accepted.
def Accepted (r2_enabled : Bool) (body content : Fields) : Prop :=
  ∃ (M : Store sig) (allow : ∀ q : Query, q.Answer → Prop) (s t : M.State),
    Prog.Exec M allow (create L policy r2_enabled body) s t (.ok content)

-- What a run measures through a target is what the adapter that verified it does.
def MeasuredAsVerified (content : Fields) : Prop :=
  ∀ receipt case_input ctx, SameExchanges
    ((_adapter content).invoke L policy content case_input ctx)
    ((measuring_adapter (verified_content receipt content)).invoke L policy
      (verified_content receipt content) case_input ctx)

-- The authentication of a target lets its requests go out.
inductive Authenticates (target : Fields) (scheme : String) : Prop
  | intro {auth : Fields} {header : String}
    (fields    : or_empty (target.lookup "auth") = .obj auth)
    (secure    : (auth.lookup "type").getD (.str "none") = .str "none" ∨ scheme = "https")
    (named     : or_else (auth.lookup "header") (.str "X-API-Key") = .str header)
    (permitted : L.lower header ∉ FORBIDDEN_HEADERS)

-- The limits, the authentication and the host of a target are such that a request can be sent.
structure CanSend (target : Fields) (d : Destination) : Prop where
  limits : ∃ timeout limit, HttpJsonAdapter.limits L target = .ok (some (timeout, limit))
  auth   : Authenticates L target d.scheme
  host   : (L.raw_host (d.scheme ++ "://" ++ _authority d.host)).isSome

-- The payloads of the responses that outputs are taken from.
inductive Yields (target : Fields) (payload : Json) : Prop
  | intro {timeout : PyFloat} {limit : Int} {response : Response} {bytes : Bytes}
    (limits   : HttpJsonAdapter.limits L target = .ok (some (timeout, limit)))
    (received : HttpJsonAdapter.receive L limit response = .ok (.ok bytes))
    (status   : response.status_code = 200)
    (decoded  : L.loads bytes = .ok payload)
    (no_error : ((payload.get? "error").getD .null).truthy = false)
    (evidence : ((target.lookup "retrieval_mapping").getD .null).truthy →
      ∃ e, apply_retrieval_mapping L payload ((target.lookup "retrieval_mapping").getD .null) = .ok e)

-- Where the adapter of the provider makes no difference.
inductive Alike (content : Fields) (d : Destination) : Prop
  | kind (h : content.lookup "kind" ≠ some (.str "http_json"))
  | framework (h : content.lookup "framework" = some (.str "generic_http"))
  | unsendable (h : ¬ CanSend L content d)
  | own_mappings
    (framework       : content.lookup "framework" = some (.str "openai_compatible"))
    (request_mapping : ((content.lookup "request_mapping").getD .null).truthy)
    (output_mapping  : ((content.lookup "output_mapping").getD .null).pyEq default_output_mapping = false)
  | unmapped
    (framework       : content.lookup "framework" = some (.str "openai_compatible"))
    (request_mapping : ((content.lookup "request_mapping").getD .null).truthy)
    (h : ∀ case_input body, HttpJsonAdapter.body L content case_input ≠ .ok (some body))
  | indistinct
    (framework       : content.lookup "framework" = some (.str "openai_compatible"))
    (request_mapping : ((content.lookup "request_mapping").getD .null).truthy)
    (h : ∀ payload, Yields L content payload →
      (apply_pointer L payload (.str "/answer")).toOption =
        (apply_pointer L payload (.str "/choices/0/message/content")).toOption)

end

variable {L : Libraries} {policy : EndpointPolicy} {d : Destination} {pin : Pin} {log : Log}
variable {target target' : Fields} {case_input url : Json} {ctx : Context} {r : Request} {limit : Int}
variable {p q : Prog sig InvocationResult}

theorem SameExchanges.of_eq (h : p = q) : SameExchanges p q :=
  fun _ _ _ _ => h ▸ ⟨rfl, rfl⟩

theorem requests_snoc_lookup {host : String} {port : ℕ} {reply : Except Error (Option (List String))} :
    requests (log ++ [⟨Call.getaddrinfo host port, reply⟩]) = requests log := by
  simp [requests]

-- A program that sends nothing and comes to no output.
def Silent (p : Prog sig InvocationResult) : Prop :=
  ∀ (M : Store sig) (log : Log), requests log = [] →
    Keeps M (fun _ _ => True) (requests · = []) p log fun r _ => r.output = .null

theorem Silent.play (h : Silent p) (M : Store sig) (env : ℕ → ∀ q : Query, q.Answer) (n : ℕ)
    (s : M.State) :
    requests (p.play M.logged env n 0 (s, [])).1.2 = [] ∧
      output (p.play M.logged env n 0 (s, [])).2 = .null := by
  have e : Prog.Exec M.logged (fun _ _ => True) p (s, []) (p.play M.logged env n 0 (s, [])).1
      (p.play M.logged env n 0 (s, [])).2 :=
    Prog.play_exec (M := M.logged) (fun _ _ => trivial) p n 0 (s, [])
  refine ⟨(h M [] rfl).exec rfl e, ?_⟩
  generalize (p.play M.logged env n 0 (s, [])).2 = o at e ⊢
  cases o with
  | ok r    => exact (h M [] rfl).exec_ok rfl e
  | error _ => rfl
  | crash   => rfl

-- A request goes out where the parts that make it up do.
theorem HttpJsonAdapter.request_eq_ok_iff :
    HttpJsonAdapter.request L target case_input ctx pin = .ok (.ok (r, limit)) ↔
      HttpJsonAdapter.rebound target pin = .ok false ∧ ∃ timeout json headers,
        HttpJsonAdapter.limits L target = .ok (some (timeout, limit)) ∧
        HttpJsonAdapter.body L target case_input = .ok (some json) ∧
        HttpJsonAdapter.headers L target ctx pin = .ok (.ok headers) ∧
        r = {
          method  := or_else (target.lookup "method") (.str "POST")
          url     := (target.lookup "url").getD .null
          headers
          json
          timeout } := by
  unfold HttpJsonAdapter.request
  rw [bind_eq_ok_iff]
  constructor
  · rintro ⟨b, hb, h⟩
    cases b
    case true => cases h
    obtain ⟨l, hl, h⟩ := bind_eq_ok_iff.mp h
    match l with
    | none                  => cases h
    | some (timeout, limit) =>
      obtain ⟨b, hbody, h⟩ := bind_eq_ok_iff.mp h
      cases b with
      | none      => cases h
      | some json =>
        obtain ⟨hs, hheaders, h⟩ := bind_eq_ok_iff.mp h
        cases hs with
        | error _ => cases h
        | ok hs   =>
          cases h
          exact ⟨hb, timeout, json, hs, hl, hbody, hheaders, rfl⟩
  · rintro ⟨hb, timeout, json, headers, hl, hbody, hheaders, rfl⟩
    refine ⟨false, hb, ?_⟩
    simp only [hl, hbody, hheaders]
    rfl

theorem HttpJsonAdapter.output_of_request {res : InvocationResult}
    (h : HttpJsonAdapter.request L target case_input ctx pin = .ok (.error res)) : res.output = .null := by
  obtain ⟨b, hb, h⟩ := bind_eq_ok_iff.mp h
  cases b
  case true  =>
    cases h
    rfl
  case false =>
    obtain ⟨l, hl, h⟩ := bind_eq_ok_iff.mp h
    match l with
    | none                  =>
      cases h
      rfl
    | some (timeout, limit) =>
      obtain ⟨b, -, h⟩ := bind_eq_ok_iff.mp h
      cases b with
      | none      =>
        cases h
        rfl
      | some json =>
        obtain ⟨hs, -, h⟩ := bind_eq_ok_iff.mp h
        cases hs with
        | error _ =>
          cases h
          rfl
        | ok hs   => cases h

theorem items_eq_ok_iff {j : Json} {fields : Fields} : items j = .ok fields ↔ j = .obj fields := by
  cases j <;> simp [items]

theorem HttpJsonAdapter.headers_ok_iff :
    (∃ hs, HttpJsonAdapter.headers L target ctx pin = .ok (.ok hs)) ↔
      Authenticates L target pin.scheme := by
  constructor
  · rintro ⟨hs, h⟩
    obtain ⟨auth, ha, h⟩ := bind_eq_ok_iff.mp h
    rw [items_eq_ok_iff] at ha
    dsimp only at h
    split at h
    case isTrue         => cases h
    case isFalse hsecure =>
      split at h
      case h_1 header hheader =>
        split at h
        case isTrue         => cases h
        case isFalse hallow =>
          refine ⟨ha, ?_, hheader, hallow⟩
          by_contra hne
          push Not at hne
          exact hsecure hne
      case h_2 => cases h
  · rintro ⟨ha, hsecure, hheader, hallow⟩
    have hne : ¬ (_ ∧ pin.scheme ≠ "https") := fun hne => hsecure.elim hne.left hne.right
    unfold HttpJsonAdapter.headers
    rw [ha]
    simp only [items, bind, Except.bind]
    rw [if_neg hne]
    rw [or_else] at hheader
    rw [hheader]
    dsimp only
    rw [if_neg hallow]
    split
    case isTrue  => exact ⟨_, rfl⟩
    case isFalse =>
      split
      case isTrue  => exact ⟨_, rfl⟩
      case isFalse => exact ⟨_, rfl⟩

-- A pin has the scheme and the host that its authorization parsed.
theorem keeps_authorize_pin {M : Store sig} (hi : requests log = []) (hd : destination L url = .ok d) :
    Keeps M (fun _ _ => True) (requests · = []) (policy.authorize L url) log fun pin _ =>
      pin.scheme = d.scheme ∧ pin.pinned_host = d.host := by
  refine Keeps.ofExcept_bind hi fun d' hd' => ?_
  cases hd.symm.trans hd'
  refine Keeps.bind (Q := fun _ _ => True) (.perform (fun _ => requests_snoc_lookup.trans hi) fun _ => trivial)
    fun records _ _ hi _ => ?_
  refine .ofExcept hi fun pin hp => ?_
  obtain ⟨_, _, _, _, _, rfl⟩ := approve_eq_ok_iff.mp hp
  exact ⟨rfl, rfl⟩

-- Without a request that can go out, an invocation is silent.
theorem HttpJsonAdapter.silent_invoke {retries : Json} (hurl : target.lookup "url" = some url)
    (hd : destination L url = .ok d)
    (hno : ∀ pin r limit, pin.scheme = d.scheme → pin.pinned_host = d.host →
      HttpJsonAdapter.request L target case_input ctx pin = .ok (.ok (r, limit)) →
        ∀ t, PinnedTransport.new L pin ≠ .ok t) :
    Silent (HttpJsonAdapter.invoke L policy target retries case_input ctx) := by
  intro M log hi
  unfold invoke
  refine .ite (fun _ => .pure hi rfl) fun _ => ?_
  rw [hurl]
  refine (keeps_attempt_cases (keeps_authorize_pin hi hd)).bind fun pin _ _ hi hp => ?_
  cases pin with
  | error res =>
    obtain ⟨e, he⟩ := hp.right res rfl
    refine .pure hi ?_
    unfold invoke.denied at he
    split at he <;> cases he
    rfl
  | ok pin    =>
    obtain ⟨hs, hh⟩ := hp.left pin rfl
    refine Keeps.ofExcept_bind hi fun req hreq => ?_
    match req with
    | .error res         => exact .pure hi <| output_of_request hreq
    | .ok (req, limit)   =>
      have hnew := hno pin req limit hs hh hreq
      refine Keeps.bind (Q := fun sent _ => ∃ e, sent = .error e ∧ e.output = .null) ?_
        fun sent _ _ hi hsent => ?_
      · refine Keeps.bind (Q := fun sent _ => ∃ e, sent = .error e ∧ e.output = .null) ?_
          fun sent _ _ hi hsent => ?_
        · refine (keeps_attempt_cases (Q := fun _ _ => False) ?_).mono fun sent _ _ _ h => ?_
          · exact Keeps.ofExcept_bind hi fun t ht => absurd ht (hnew t)
          · cases sent with
            | ok a    => exact (h.left a rfl).elim
            | error b =>
              obtain ⟨e, he⟩ := h.right b rfl
              refine ⟨b, rfl, ?_⟩
              unfold handler at he
              split at he <;> cases he <;> rfl
        · obtain ⟨e, rfl, he⟩ := hsent
          exact .pure hi ⟨e, rfl, he⟩
      · obtain ⟨e, rfl, he⟩ := hsent
        exact .pure hi he

theorem Silent.same (hp : Silent p) (hq : Silent q) : SameExchanges p q := by
  intro M env n s
  have ⟨hp₁, hp₂⟩ := hp.play M env n s
  have ⟨hq₁, hq₂⟩ := hq.play M env n s
  exact ⟨hp₁.trans hq₁.symm, hp₂.trans hq₂.symm⟩

end Targets
