import Traceline.Library.Dialogue
import Traceline.Targets.Theorems.Verified

-- Which requests carry the credential of a target, and over which scheme.
namespace Targets

open Except (bind_eq_ok_iff)
open Plans (Fields or_empty assign)
open Prog (Dialogue Emits)

-- The header that a credential is declared to go in, and its value there.
def Declared (auth : Fields) (ctx : Context) (header value : String) : Prop :=
  auth.lookup "type" = some (.str "bearer") ∧ header = "Authorization" ∧ value = "Bearer " ++ ctx.secret ∨
  auth.lookup "type" = some (.str "api_key") ∧
    or_else (auth.lookup "header") (.str "X-API-Key") = .str header ∧ value = ctx.secret

section

variable (L : Libraries) (auth : Fields) (ctx : Context)

-- A credential is among the headers. Their names are not told apart by case.
def Carries (headers : List (String × String)) : Prop :=
  ∃ header value, Declared auth ctx header value ∧
    ∃ h ∈ headers, L.lower h.1 = L.lower header ∧ h.2 = value

-- A request goes out with the credential and over https.
def Authenticated (t : PinnedTransport) (r : Request) : Prop :=
  Carries L auth ctx r.headers ∧ t.scheme = "https"

-- What is asked of the requests of a log.
def Sends (F : PinnedTransport → Request → Prop) (e : Event sig) : Prop :=
  ∀ t r, e.call = .send t r → F t r

-- The adapters that are the one of JSON targets, or hand their input on to it.
def AdapterClass.is_json : AdapterClass → Bool
  | .http_stream | .http_job | .http_session => false
  | _                                         => true

-- The headers of the other adapters.
def AdapterClass.headers (bearer : Bool) (secret : String) : AdapterClass → List (String × String)
  | .http_job    => ("Content-Type", "application/json") ::
      if bearer then [("Authorization", "Bearer " ++ secret)] else []
  | .http_stream => HttpStreamAdapter.accept
  | _            => []

-- A request is sent over the scheme of its URL, with the headers given.
def Plainly (headers : List (String × String)) (t : PinnedTransport) (r : Request) : Prop :=
  r.headers = headers ∧ ∃ d, destination L r.url = .ok d ∧ t.scheme = d.scheme

end

section

variable {L : Libraries} {policy : EndpointPolicy} {target auth : Fields} {ctx : Context}
variable {F : PinnedTransport → Request → Prop} {pin : Pin} {url case_input : Json}
variable {headers : List (String × String)} {α β : Type} {Q : α → Prop}

theorem emits_attempt {p : Prog sig α} {handler : Error → Option β} (hp : Emits (Sends F) p Q) :
    Emits (Sends F) (attempt p handler) (fun x => ∀ a, x = .ok a → Q a) := by
  refine .tryCatch (hp.map fun a ha b hb => Except.ok.inj hb ▸ ha) fun e => ?_
  split
  case h_1 => exact .pure nofun
  case h_2 => exact .throw

-- A pin is of the scheme of the URL that it was authorized for.
def PinOf (L : Libraries) (url : Json) (pin : Pin) : Prop :=
  ∃ d, destination L url = .ok d ∧ pin.scheme = d.scheme

theorem emits_authorize : Emits (Sends F) (policy.authorize L url) (PinOf L url) := by
  refine .bind (.ofExcept fun d hd => hd) fun d hd => ?_
  refine .bind (.perform (fun _ => nofun) fun _ => trivial) fun records _ => .ofExcept fun pin hpin => ?_
  obtain ⟨_, _, _, _, _, rfl⟩ := approve_eq_ok_iff.mp hpin
  exact ⟨d, hd, rfl⟩

theorem transport_scheme {t : PinnedTransport} (h : PinnedTransport.new L pin = .ok t) :
    t.scheme = pin.scheme := by
  unfold PinnedTransport.new at h
  split at h
  case h_1 => cases h
  case h_2 =>
    split at h
    case h_1 => cases h
    case h_2 =>
      split at h
      case h_1 => cases h
      case h_2 =>
        cases h
        rfl

theorem plainly_of_pin {t : PinnedTransport} {r : Request} (hpin : PinOf L r.url pin)
    (ht : PinnedTransport.new L pin = .ok t) (hr : r.headers = headers) : Plainly L headers t r := by
  obtain ⟨d, hd, hs⟩ := hpin
  exact ⟨hr, d, hd, (transport_scheme ht).trans hs⟩

theorem mem_set_header {key value : String} : (key, value) ∈ HttpJsonAdapter.set_header key value headers := by
  induction headers with
  | nil          => exact .head _
  | cons h hs ih =>
    unfold HttpJsonAdapter.set_header
    split
    case isTrue  => exact .head _
    case isFalse => exact .tail _ ih

-- The credential of a target is for a bearer or for an API key.
def Typed (auth : Fields) : Prop :=
  auth.lookup "type" = some (.str "bearer") ∨ auth.lookup "type" = some (.str "api_key")

theorem or_empty_auth (htyped : Typed auth) (hauth : target.lookup "auth" = some (.obj auth)) :
    or_empty (target.lookup "auth") = .obj auth := by
  have hne : auth ≠ [] := by
    rintro rfl
    rcases htyped with h | h <;> cases h
  rw [hauth]
  exact if_pos (by simpa [Json.truthy] using hne)

theorem json_headers_ok (htyped : Typed auth) (hauth : target.lookup "auth" = some (.obj auth))
    (h : HttpJsonAdapter.headers L target ctx pin = .ok (.ok headers)) :
    Carries L auth ctx headers ∧ pin.scheme = "https" := by
  unfold HttpJsonAdapter.headers at h
  rw [or_empty_auth htyped hauth] at h
  obtain ⟨_, ⟨⟩, h⟩ := bind_eq_ok_iff.mp h
  dsimp only at h
  split at h
  case isTrue  => cases h
  case isFalse hsecure =>
    have hscheme : pin.scheme = "https" := by
      by_contra hne
      refine hsecure ⟨?_, hne⟩
      rcases htyped with ht | ht
      all_goals
        rw [ht]
        decide
    split at h
    case h_1 header hheader =>
      split at h
      case isTrue  => cases h
      case isFalse =>
        refine ⟨?_, hscheme⟩
        rcases htyped with ht | ht
        case inl =>
          rw [if_pos ht] at h
          cases h
          exact ⟨_, _, .inl ⟨ht, rfl, rfl⟩, _, mem_set_header, rfl, rfl⟩
        case inr =>
          have hne : auth.lookup "type" ≠ some (.str "bearer") := by
            rw [ht]
            decide
          rw [if_neg hne, if_pos ht] at h
          cases h
          refine ⟨header, _, .inr ⟨ht, ?_, rfl⟩, _, mem_set_header, rfl, rfl⟩
          rw [← hheader]
          unfold or_else
          cases auth.lookup "header" with
          | none   => rfl
          | some v => rfl
    case h_2 => cases h

theorem request_ok {r : Request} {limit : Int} (htyped : Typed auth)
    (hauth : target.lookup "auth" = some (.obj auth))
    (h : HttpJsonAdapter.request L target case_input ctx pin = .ok (.ok (r, limit))) :
    Carries L auth ctx r.headers ∧ pin.scheme = "https" := by
  obtain ⟨rebound, -, h⟩ := bind_eq_ok_iff.mp h
  split at h
  case isTrue  => cases h
  case isFalse =>
    obtain ⟨limits, -, h⟩ := bind_eq_ok_iff.mp h
    split at h
    case h_1 => cases h
    case h_2 =>
      obtain ⟨body, -, h⟩ := bind_eq_ok_iff.mp h
      split at h
      case h_1 => cases h
      case h_2 =>
        obtain ⟨headers, hheaders, h⟩ := bind_eq_ok_iff.mp h
        split at h
        case h_1 => cases h
        case h_2 =>
          cases h
          exact json_headers_ok htyped hauth hheaders

-- The adapter of JSON targets authenticates every request.
theorem emits_json (htyped : Typed auth) (hauth : target.lookup "auth" = some (.obj auth))
    {retries : Json} : Emits (Sends (Authenticated L auth ctx))
      (HttpJsonAdapter.invoke L policy target retries case_input ctx) (fun _ => True) := by
  unfold HttpJsonAdapter.invoke
  refine .ite (fun _ => .pure trivial) fun _ => ?_
  split
  case h_1 => exact .throw
  case h_2 url _ =>
    refine .bind (emits_attempt emits_authorize) fun authorized _ => ?_
    split
    case h_1     => exact .pure trivial
    case h_2 pin =>
      refine .bind (.ofExcept fun x hx => hx) fun x hx => ?_
      split
      case h_1                   => exact .pure trivial
      case h_2 request limit =>
        obtain ⟨hcarries, hscheme⟩ := request_ok htyped hauth hx
        refine .bind (Q := fun _ => True) ?_ fun received _ => ?_
        · refine .bind (emits_attempt (Q := fun _ => True) ?_) fun sent _ => ?_
          · refine .bind (.ofExcept fun t ht => ht) fun t ht => ?_
            refine .bind (.perform ?_ fun _ => trivial) fun response _ => ?_
            · rintro r t' r' ⟨⟩
              exact ⟨hcarries, (transport_scheme ht).trans hscheme⟩
            · refine .bind (.ofExcept fun _ _ => trivial) fun received _ => ?_
              split
              all_goals exact .pure trivial
          · split
            all_goals exact .pure trivial
        · split
          case h_1 => exact .pure trivial
          case h_2 => exact .ofExcept fun _ _ => trivial

theorem emits_frame {seen : HttpStreamAdapter.Seen} {frame : Streaming.StreamFrame} :
    Emits (Sends F) (HttpStreamAdapter.frame L ctx seen frame) (fun _ => True) := by
  have htoken : Emits (Sends F) (HttpStreamAdapter.token ctx seen frame) (fun _ => True) := by
    refine .ite (fun _ => ?_) fun _ => .pure trivial
    exact .bind (.query fun _ => trivial) fun _ _ =>
      .bind (.ofExcept fun _ _ => trivial) fun _ _ => .pure trivial
  refine .bind htoken fun seen _ => .ite (fun _ => ?_) fun _ => .pure trivial
  exact .bind (.ofExcept fun _ _ => trivial) fun _ _ =>
    .bind (.ofExcept fun _ _ => trivial) fun _ _ => .pure trivial

-- What is read of a stream sends nothing.
theorem emits_chunks {broken : Option Error} {chunks : List Bytes} {parser : Streaming.SSEParser}
    {seen : HttpStreamAdapter.Seen} :
    Emits (Sends F) (HttpStreamAdapter.chunks L ctx parser seen broken chunks) (fun _ => True) := by
  induction chunks generalizing parser seen with
  | nil               =>
    unfold HttpStreamAdapter.chunks
    split
    case h_1 => exact .throw
    case h_2 => exact .bind (.ofExcept fun _ _ => trivial) fun _ _ => .pure trivial
  | cons bytes rest ih =>
    unfold HttpStreamAdapter.chunks
    refine .bind (.query fun _ => trivial) fun cancelled _ => .ite (fun _ => .pure trivial) fun _ => ?_
    have hchunk : Emits (Sends F) (HttpStreamAdapter.chunk seen) (fun _ => True) :=
      .ite (fun _ => .bind (.query fun _ => trivial) fun _ _ => .pure trivial) fun _ => .pure trivial
    refine .bind hchunk fun seen _ => .bind (.ofExcept fun _ _ => trivial) fun fed _ => ?_
    exact .bind (.foldlM trivial fun _ _ _ => emits_frame) fun seen _ => ih

-- Each request of the adapter of streams is sent with its own headers.
theorem emits_stream : Emits (Sends (Plainly L HttpStreamAdapter.accept))
    (HttpStreamAdapter.invoke L ctx policy target case_input) (fun _ => True) := by
  refine .ite (fun _ => .throw) fun _ => .ite (fun _ => .pure trivial) fun _ => ?_
  refine .bind (.ofExcept fun _ _ => trivial) fun max_frame_bytes _ => ?_
  refine .bind (.ofExcept fun _ _ => trivial) fun max_frames _ => ?_
  refine .bind (.query fun _ => trivial) fun started _ => ?_
  refine .bind (.ofExcept fun _ _ => trivial) fun start _ => ?_
  refine .bind (emits_attempt (Q := fun _ => True) ?_) fun streamed _ => ?_
  · refine .bind (.ofExcept fun _ _ => trivial) fun timeout _ => ?_
    split
    case h_1 url _ =>
      refine .bind emits_authorize fun pin hpin => ?_
      refine .bind (.ofExcept fun _ _ => trivial) fun rebound _ => .ite (fun _ => .pure trivial) fun _ => ?_
      refine .bind (.ofExcept fun t ht => ht) fun t ht => ?_
      refine .bind (.perform ?_ fun _ => trivial) fun response _ =>
        .ite (fun _ => .pure trivial) fun _ => emits_chunks
      rintro r t' r' ⟨⟩
      exact plainly_of_pin hpin ht rfl
    case h_2       => exact .throw
  · split
    case h_1 => exact .pure trivial
    case h_2 => exact .pure trivial
    case h_3 =>
      refine .ite (fun _ => .pure trivial) fun _ => ?_
      exact .bind (.query fun _ => trivial) fun _ _ => .bind (.query fun _ => trivial) fun _ _ =>
        .pure trivial

theorem emits_item {key : String} : Emits (Sends F) (HttpJobAdapter.item target key)
    (fun v => target.lookup key = some v) := by
  unfold HttpJobAdapter.item
  split
  case h_1 v hv => exact .pure hv
  case h_2      => exact .throw

-- Each request of the adapter of jobs is sent with the headers that it built once.
theorem emits_job (h : HttpJobAdapter.headers target ctx = .ok headers) :
    Emits (Sends (Plainly L headers)) (HttpJobAdapter.invoke L policy target ctx case_input)
      (fun _ => True) := by
  have hprepare : Emits (Sends (Plainly L headers)) (HttpJobAdapter.prepare L policy target)
      (fun p => PinOf L ((target.lookup "submit_url").getD .null) p.pin) := by
    refine .bind emits_item fun url hurl => ?_
    refine .bind emits_authorize fun pin hpin => .bind emits_item fun template _ => ?_
    refine .bind (.ofExcept fun _ _ => trivial) fun filled _ => .bind emits_authorize fun _ _ => ?_
    refine .bind (.ofExcept fun _ _ => trivial) fun timeout _ => ?_
    refine .bind (.ofExcept fun _ _ => trivial) fun interval _ => .ite (fun _ => .throw) fun _ => ?_
    refine .pure ?_
    rw [hurl]
    exact hpin
  have hpoll (p : HttpJobAdapter.Polling) (job_id : String) (n : ℕ) :
      Emits (Sends (Plainly L headers)) (HttpJobAdapter.poll L policy p headers job_id n)
        (fun _ => True) := by
    induction n with
    | zero      => exact .pure trivial
    | succ n ih =>
      refine .bind (.query fun _ => trivial) fun cancelled _ =>
        .ite (fun _ => .pure trivial) fun _ => ?_
      refine .bind (Q := fun _ => True) ?_ fun ended _ => ?_
      · refine .bind (.ofExcept fun _ _ => trivial) fun url _ => .bind emits_authorize fun pin hpin => ?_
        refine .bind (.ofExcept fun t ht => ht) fun t ht => ?_
        refine .bind (.perform ?_ fun _ => trivial) fun response _ => ?_
        · rintro r t' r' ⟨⟩
          exact plainly_of_pin hpin ht rfl
        · refine .bind (.ofExcept fun _ _ => trivial) fun content _ =>
            .ite (fun _ => .pure trivial) fun _ => ?_
          exact .bind (.ofExcept fun _ _ => trivial) fun _ _ => .ofExcept fun _ _ => trivial
      · split
        case h_1 => exact .pure trivial
        case h_2 => exact .bind (.ofExcept fun _ _ => trivial) fun _ _ => ih
  unfold HttpJobAdapter.invoke
  refine .bind (emits_attempt hprepare) fun prepared hprepared => ?_
  split
  case h_1   => exact .pure trivial
  case h_2 p =>
    have hpin := hprepared p rfl
    refine .bind (.ofExcept fun hs hhs => hhs) fun hs hhs => ?_
    obtain rfl : headers = hs := Except.ok.inj (h.symm.trans hhs)
    refine .bind (emits_attempt (Q := fun _ => True) ?_) fun job _ => ?_
    · refine .bind (.ofExcept fun t ht => ht) fun t ht => ?_
      split
      case h_1 => exact .pure trivial
      case h_2 =>
        refine .bind (.perform ?_ fun _ => trivial) fun response _ => ?_
        · rintro r t' r' ⟨⟩
          exact plainly_of_pin hpin ht rfl
        · refine .bind (.ofExcept fun _ _ => trivial) fun content _ =>
            .ite (fun _ => .pure trivial) fun _ => ?_
          refine .bind (.ofExcept fun _ _ => trivial) fun payload _ => ?_
          split
          case h_1 => exact .pure trivial
          case h_2 => exact .bind (.query fun _ => trivial) fun _ _ => .pure trivial
    · split
      case h_1 => exact .pure trivial
      case h_2 => exact .pure trivial
      case h_3 =>
        refine .bind (.query fun _ => trivial) fun n _ => ?_
        refine .bind (emits_attempt (hpoll p _ n)) fun polled _ => ?_
        split
        all_goals exact .pure trivial

-- No request of the adapter of sessions has a header of its own.
def Bare (_ : PinnedTransport) (r : Request) : Prop :=
  r.headers = []

section

open HttpSessionAdapter

variable {t : Templates} {session_id payload json template : Json} {p : Progress}

theorem emits_post : Emits (Sends Bare) (post L target pin url json) (fun _ => True) := by
  refine .bind (.ofExcept fun _ _ => trivial) fun transport _ => ?_
  refine .bind (.ofExcept fun _ _ => trivial) fun timeout _ => .perform ?_ fun _ => trivial
  rintro r t' r' ⟨⟩
  rfl

theorem emits_post_to :
    Emits (Sends Bare) (post_to L policy target template session_id json) (fun _ => True) :=
  .bind (.ofExcept fun _ _ => trivial) fun _ _ => .bind emits_authorize fun _ _ => emits_post

theorem emits_close :
    Emits (Sends Bare) (close_session L policy target t session_id) (fun _ => True) := by
  refine .ite (fun _ => .pure trivial) fun _ => ?_
  refine .bind (emits_attempt (Q := fun _ => True) ?_) fun closed _ => ?_
  · exact .bind emits_post_to fun _ _ => .bind (.ofExcept fun _ _ => trivial) fun _ _ => .pure trivial
  · split
    all_goals exact .pure trivial

theorem emits_send_turn {turn : Json} :
    Emits (Sends Bare) (send_turn L policy target t session_id p turn) (fun _ => True) := by
  refine .bind emits_post_to fun response _ => .bind (.ofExcept fun _ _ => trivial) fun content _ => ?_
  refine .ite (fun _ => .pure trivial) fun _ => ?_
  exact .bind (.ofExcept fun _ _ => trivial) fun _ _ => .pure trivial

theorem emits_step {s : Json} :
    Emits (Sends Bare) (step L policy target ctx t session_id p s) (fun _ => True) := by
  unfold step
  split
  case h_1 fields =>
    refine .ite (fun _ => .throw) fun _ => .ite (fun _ => ?_) fun _ => .ite (fun _ => ?_) fun _ => ?_
    · refine .ite (fun _ => .pure trivial) fun _ => ?_
      exact .bind (.ofExcept fun _ _ => trivial) fun _ _ => .pure trivial
    · split
      case h_1 =>
        refine .bind (.ofExcept fun _ _ => trivial) fun event _ => .bind emits_send_turn fun sent _ => ?_
        split
        all_goals exact .pure trivial
      case h_2 => exact .pure trivial
    · exact .pure trivial
  case h_2        => exact .pure trivial

theorem emits_each {turn : Progress → Json → Prog sig (Except InvocationResult Progress)}
    {turns : List Json} (h : ∀ p s, Emits (Sends Bare) (turn p s) (fun _ => True)) :
    Emits (Sends Bare) (each session_id turn p turns) (fun _ => True) := by
  induction turns generalizing p with
  | nil            => exact .pure trivial
  | cons s later ih =>
    refine .bind (.query fun _ => trivial) fun cancelled _ => .ite (fun _ => .pure trivial) fun _ => ?_
    refine .bind (h p s) fun taken _ => ?_
    split
    case h_1 => exact .pure trivial
    case h_2 => exact ih

theorem emits_hold {how : Turns} {status_code : ℕ} :
    Emits (Sends Bare) (hold L policy target ctx t how session_id payload status_code)
      (fun _ => True) := by
  have hconverse : Emits (Sends Bare) (converse L policy target ctx t session_id payload how)
      (fun _ => True) := by
    cases how with
    | plain turns  =>
      refine emits_each fun p s => .bind emits_send_turn fun sent _ => ?_
      split
      all_goals exact .pure trivial
    | script steps =>
      refine .bind (emits_each fun _ _ => emits_step) fun taken _ => ?_
      split
      case h_1 => exact .pure trivial
      case h_2 => exact .ite (fun _ => .pure trivial) fun _ => .pure trivial
  refine .ite (fun _ => .pure trivial) fun _ => ?_
  refine .bind (.query fun _ => trivial) fun cancelled _ => .ite (fun _ => .pure trivial) fun _ => ?_
  refine .bind hconverse fun taken _ => ?_
  split
  case h_1 => exact .pure trivial
  case h_2 =>
    exact .bind emits_close fun _ _ => .ite (fun _ => .pure trivial) fun _ => .pure trivial

theorem emits_session : Emits (Sends Bare) (HttpSessionAdapter.invoke L policy target ctx case_input)
    (fun _ => True) := by
  unfold HttpSessionAdapter.invoke
  split
  case h_1     => exact .pure trivial
  case h_2 how =>
    refine .bind (emits_attempt (Q := fun _ => True) ?_) fun prepared hprepared => ?_
    · refine .bind emits_item fun _ _ => .bind emits_authorize fun _ _ => .bind emits_item fun _ _ => ?_
      refine .bind (.ofExcept fun _ _ => trivial) fun _ _ => .bind emits_authorize fun _ _ => ?_
      refine .ite (fun _ => ?_) fun _ => .pure trivial
      exact .bind (.ofExcept fun _ _ => trivial) fun _ _ => .bind emits_authorize fun _ _ =>
        .pure trivial
    · split
      case h_1   => exact .pure trivial
      case h_2 t =>
        refine .bind (emits_attempt (Q := fun _ => True) ?_) fun opened _ => ?_
        · refine .bind emits_item fun _ _ => .bind emits_post fun _ _ => ?_
          exact .bind (.ofExcept fun _ _ => trivial) fun _ _ =>
            .bind (.ofExcept fun _ _ => trivial) fun _ _ => .pure trivial
        · split
          case h_1 => exact .pure trivial
          case h_2 =>
            have hrelease {sent : Bool} {r : InvocationResult} {session_id : Json} :
                Emits (Sends Bare) (release L policy target t session_id sent r) (fun _ => True) :=
              .ite (fun _ => .pure trivial) fun _ => .bind emits_close fun _ _ => .pure trivial
            refine .bind (Q := fun _ => True) ?_ fun held _ => ?_
            · exact .tryCatch ((emits_attempt emits_hold).map fun _ _ => trivial) fun _ => .pure trivial
            · split
              case h_1 => exact hrelease
              case h_2 => exact hrelease
              case h_3 => exact .bind emits_close fun _ _ => .throw

end

theorem provider_output_auth {pointer : String} :
    (provider_output pointer target).lookup "auth" = target.lookup "auth" := by
  unfold provider_output
  dsimp only
  split
  case isTrue  => rw [lookup_assign, if_neg (by decide)]
  case isFalse => rfl

theorem emits_envelope (htyped : Typed auth) (hauth : target.lookup "auth" = some (.obj auth))
    {pointer : String} {retries body : Json} : Emits (Sends (Authenticated L auth ctx))
      (ProviderEnvelopeAdapter._invoke_envelope L pointer policy target retries body ctx)
      (fun _ => True) := by
  unfold ProviderEnvelopeAdapter._invoke_envelope
  split
  case h_1 =>
    refine .ite (fun _ => .pure trivial) fun _ => ?_
    split
    case h_1 =>
      refine .ite (fun _ => emits_json htyped ?_) fun _ => .pure trivial
      rw [provider_output_auth, lookup_assign, if_neg (by decide)]
      exact hauth
    case h_2 => exact .pure trivial
  case h_2 => exact .pure trivial

theorem emits_of_is_json {a : AdapterClass} (ha : a.is_json) (htyped : Typed auth)
    (hauth : target.lookup "auth" = some (.obj auth)) :
    Emits (Sends (Authenticated L auth ctx)) (a.invoke L policy target case_input ctx)
      (fun _ => True) := by
  cases a with
  | http_json          => exact emits_json htyped hauth
  | openai_compatible  =>
    have hprovider : (provider_output "/choices/0/message/content" target).lookup "auth" =
        some (.obj auth) := provider_output_auth.trans hauth
    have hjson := @emits_json L policy _ auth ctx (OpenAICompatibleAdapter.body L target case_input)
      htyped hprovider (.int 0)
    exact hjson
  | anthropic_messages => exact emits_envelope htyped hauth
  | google_generative  => exact emits_envelope htyped hauth
  | http_stream        => cases ha
  | http_job           => cases ha
  | http_session       => cases ha

theorem job_headers (htyped : Typed auth) (hauth : target.lookup "auth" = some (.obj auth)) :
    HttpJobAdapter.headers target ctx =
      .ok (AdapterClass.headers (auth.lookup "type" = some (.str "bearer")) ctx.secret .http_job) := by
  unfold HttpJobAdapter.headers
  rw [or_empty_auth htyped hauth]
  rcases htyped with ht | ht
  all_goals
    have hget : get (.obj auth) "type" = .ok ((auth.lookup "type").getD .null) := rfl
    rw [hget, ht]
    rfl

end

section

variable (L : Libraries) (auth : Fields) (ctx : Context) (a : AdapterClass)

-- A request that is authenticated: one of the adapter of JSON targets, or one over https of an
-- adapter whose own headers carry the credential.
def Covered (r : Request) : Prop :=
  a.is_json ∨ Carries L auth ctx (a.headers (auth.lookup "type" = some (.str "bearer")) ctx.secret) ∧
    ∃ d, destination L r.url = .ok d ∧ d.scheme = "https"

end

section

variable {L : Libraries} {policy : EndpointPolicy} {target auth : Fields} {ctx : Context}
variable {a : AdapterClass} {case_input : Json} {r : Request} {t : PinnedTransport} {log : Log}

theorem mem_requests : r ∈ requests log ↔ ∃ e ∈ log, ∃ t, e.call = .send t r := by
  unfold requests
  rw [List.mem_filterMap]
  refine exists_congr fun e => and_congr_right fun _ => ?_
  cases hc : e.call with
  | getaddrinfo host port => simp
  | send t r'             => simp

theorem covered_of_plainly (ha : ¬ a.is_json)
    (h : Plainly L (a.headers (auth.lookup "type" = some (.str "bearer")) ctx.secret) t r) :
    Authenticated L auth ctx t r ↔ Covered L auth ctx a r := by
  obtain ⟨hheaders, d, hd, hscheme⟩ := h
  unfold Authenticated Covered
  rw [hheaders, hscheme, or_iff_right ha, hd]
  simp

-- The requests of the other adapters are authenticated where their own headers are.
theorem emits_covered (hauth : target.lookup "auth" = some (.obj auth)) (htyped : Typed auth) :
    Emits (Sends fun t r => Authenticated L auth ctx t r ↔ Covered L auth ctx a r)
      (a.invoke L policy target case_input ctx) (fun _ => True) := by
  intro h o d
  refine ⟨fun e he t r hsend => ?_, fun _ _ => trivial⟩
  by_cases ha : a.is_json
  case pos => exact iff_of_true ((emits_of_is_json ha htyped hauth h o d).left e he t r hsend) (.inl ha)
  case neg =>
    cases a with
    | http_stream  => exact covered_of_plainly ha ((emits_stream h o d).left e he t r hsend)
    | http_job     =>
      exact covered_of_plainly ha ((emits_job (job_headers htyped hauth) h o d).left e he t r hsend)
    | http_session =>
      have hbare := (emits_session h o d).left e he t r hsend
      refine iff_of_false ?_ ?_
      · rintro ⟨⟨_, _, _, _, hmem, -⟩, -⟩
        rw [hbare] at hmem
        cases hmem
      · rintro (h | ⟨⟨_, _, _, _, hmem, -⟩, -⟩)
        · exact ha h
        · cases hmem
    | _            => exact absurd rfl ha

end

namespace Guarded

def auth : Fields :=
  [("type", .str "bearer"), ("secret_ref", .str "vault")]

def body (mode : String) : Fields :=
  [("url", .str "https://t.example/run"), ("mode", .str mode), ("auth", .obj auth)]

def pin : Pin :=
  ⟨"t.example", 443, "https", ["93.184.215.14"]⟩

def target (mode : Mode) (name : String) : Fields :=
  base_content (body name) ⟨mode, .generic_http, .obj [], "https://t.example/run", auth⟩ pin

-- The target with the fields of a stream.
def stream : Fields :=
  target .streaming "streaming" ++ [("max_frame_bytes", .int 65536), ("max_frames", .int 10000)]

def configuration (name : String) : Prog sig Fields :=
  create Answering.libraries ⟨[]⟩ true (body name)

def configured (name : String) : Unit × Prog.Outcome Error Fields :=
  (configuration name).run Answering.endpoint Answering.answers 1 ()

theorem exec (name : String) :
    Prog.Exec Answering.endpoint (fun _ _ => True) (configuration name) () (configured name).1
      (configured name).2 := by
  unfold configured
  exact Prog.run_exec (M := Answering.endpoint) (fun _ => trivial) (configuration name) 1 ()

theorem accepted {name : String} {content : Fields} (h : (configured name).2 = .ok content) :
    Accepted Answering.libraries ⟨[]⟩ true (body name) content :=
  ⟨_, _, _, _, h ▸ exec name⟩

theorem stream_accepted : Accepted Answering.libraries ⟨[]⟩ true (body "streaming") stream :=
  accepted (by decide +kernel)

def context : Context :=
  { Answering.context with secret := "s3cret" }

def invocation (content : Fields) : Prog sig InvocationResult :=
  (measuring_adapter content).invoke Answering.libraries ⟨[]⟩ content (.obj []) context

def run (content : Fields) : (Unit × Log) × Prog.Outcome Error InvocationResult :=
  (invocation content).run Answering.endpoint.logged Answering.answers 2 ((), [])

theorem dialogue {content : Fields} (h : (run content).2.ok?.isSome) :
    ∃ r, Dialogue (invocation content) (run content).1.2 (.ok r) := by
  obtain ⟨r, hr⟩ := Option.isSome_iff_exists.mp h
  have hexec : Prog.Exec Answering.endpoint.logged (fun _ _ => True) (invocation content) ((), [])
      (run content).1 (run content).2 := by
    unfold run
    exact Prog.run_exec (M := Answering.endpoint.logged) (fun _ => trivial) (invocation content) 2 ((), [])
  rw [Prog.Outcome.ok?_eq_some_iff.mp hr] at hexec
  obtain ⟨log, hlog, d⟩ := hexec.dialogue
  rw [hlog, List.nil_append]
  exact ⟨r, d⟩

end Guarded

-- A JSON target.
def Guarded.json : Fields :=
  Guarded.target .stateless_json "stateless_json"

end Targets
