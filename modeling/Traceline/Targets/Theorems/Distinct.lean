import Traceline.Targets.Theorems.Measured

-- Where the adapter of the provider does make a difference.
namespace Targets

open Except (bind_eq_ok_iff)
open Plans (Fields or_empty assign)

variable {L : Libraries} {policy : EndpointPolicy} {d : Destination} {pin : Pin} {tr : PinnedTransport}
variable {content t t' : Fields} {case_input url : Json} {ctx : Context} {r : Request} {limit : Int}

-- A resolver and an endpoint that answer everything the same.
def replying (records : Option (List String)) (response : Response) : Store sig where
  State       := Unit
  perform c s := match c with
    | .getaddrinfo _ _ => (.ok records, s)
    | .send _ _        => (.ok response, s)

-- The run of an invocation against them.
def replied (records : Option (List String)) (response : Response) (p : Prog sig InvocationResult) :
    (Unit × Log) × Prog.Outcome Error InvocationResult :=
  p.play (replying records response).logged (fun _ => Answering.answers) 2 0 ((), [])

theorem SameExchanges.replied {p q : Prog sig InvocationResult} (h : SameExchanges p q)
    (records : Option (List String)) (response : Response) :
    requests (replied records response p).1.2 = requests (replied records response q).1.2 ∧
      output (replied records response p).2 = output (replied records response q).2 :=
  h (replying records response) (fun _ => Answering.answers) 2 ()

-- What an invocation makes of what it received.
def HttpJsonAdapter.conclude (L : Libraries) (target : Fields) (ctx : Context) (status_code : ℕ) :
    Except InvocationResult Bytes → Prog sig InvocationResult
  | .error res => pure res
  | .ok bytes  => Prog.ofExcept (extract L target ctx status_code bytes)

section

variable {records : Option (List String)} {response : Response} {bytes : Bytes}

-- A request that can be sent is sent, and what the response holds is extracted.
theorem HttpJsonAdapter.replied_invoke (hurl : t.lookup "url" = some url)
    (hd : destination L url = .ok d) (ha : approve L policy d records = .ok pin)
    (hr : request L t case_input ctx pin = .ok (.ok (r, limit))) (ht : PinnedTransport.new L pin = .ok tr)
    {received : Except InvocationResult Bytes} (hb : receive L limit response = .ok received) :
    requests (replied records response (invoke L policy t (.int 0) case_input ctx)).1.2 = [r] ∧
      ∀ bytes, received = .ok bytes → output (replied records response (invoke L policy t (.int 0) case_input ctx)).2 =
        extracted (extract L t ctx response.status_code bytes) := by
  let play (n : ℕ) (p : Prog sig InvocationResult) (log : Log) :=
    p.play (replying records response).logged (fun _ => Answering.answers) n 0 ((), log)
  let log : Log := [⟨.getaddrinfo d.host d.port, .ok records⟩, ⟨.send tr r, .ok response⟩]
  have hretries : ¬ (Json.int 0).truthy := by decide
  have hplay : replied records response (invoke L policy t (.int 0) case_input ctx) =
      play 0 (conclude L t ctx response.status_code received) log := by
    unfold replied invoke
    rw [if_neg hretries, hurl]
    dsimp only
    unfold EndpointPolicy.authorize
    rw [hd]
    change play 1 (attempt (Prog.ofExcept (approve L policy d records)) invoke.denied >>= _)
      [⟨.getaddrinfo d.host d.port, .ok records⟩] = _
    rw [ha]
    change play 1 (Prog.ofExcept (request L t case_input ctx pin) >>= _) _ = _
    rw [hr]
    change play 1 (exchange L pin r limit >>= _) _ = _
    unfold exchange
    rw [ht]
    change play 0 ((attempt (Prog.ofExcept (receive L limit response) >>= _) handler >>= _) >>= _) log = _
    rw [hb]
    cases received <;> rfl
  rw [hplay]
  cases received with
  | error _  => exact ⟨rfl, nofun⟩
  | ok bytes =>
    have ⟨hs, ho⟩ := extracted_eq_output (extract L t ctx response.status_code bytes)
      (replying records response).logged (fun _ => Answering.answers) 0 0 ((), log)
    refine ⟨congrArg (fun s => requests s.2) hs, fun bytes' he => ?_⟩
    cases he
    exact ho

end

-- The pin that the target was configured with can be dialed.
theorem PinnedTransport.exists_of_approve {records : Option (List String)} (hL : L.Lawful)
    (ha : approve L policy d records = .ok pin)
    (hh : (L.raw_host (d.scheme ++ "://" ++ _authority d.host)).isSome) :
    ∃ tr, PinnedTransport.new L pin = .ok tr := by
  obtain ⟨rs, addresses, -, hm, hne, rfl⟩ := approve_eq_ok_iff.mp ha
  obtain ⟨host, hhost⟩ := Option.isSome_iff_exists.mp hh
  cases hadd : addresses.eraseDups with
  | nil               =>
    obtain ⟨a, ha⟩ := List.exists_mem_of_ne_nil _ hne
    have hmem := List.mem_eraseDups.mpr ha
    rw [hadd] at hmem
    cases hmem
  | cons address rest =>
    have hmem : address ∈ addresses := List.mem_eraseDups.mp (hadd ▸ List.mem_cons_self)
    obtain ⟨s, -, hs⟩ := Except.exists_of_mapM_eq_ok hm hmem
    obtain ⟨-, ip, hip, rfl, -⟩ := approve_address_eq_ok_iff.mp hs
    unfold PinnedTransport.new
    dsimp only
    rw [hL.ip_address_text s ip hip, hhost]
    exact ⟨_, rfl⟩

-- What is mapped for a target that can be sent to is sent.
theorem CanSend.request (ctx : Context) (hc : CanSend L content d) (hp : content.lookup "pinned" = some pin.json)
    (hscheme : pin.scheme = d.scheme) (h : AgreesUnmapped t content) {timeout : PyFloat} {json : Json}
    (hl : HttpJsonAdapter.limits L content = .ok (some (timeout, limit)))
    (hb : HttpJsonAdapter.body L t case_input = .ok (some json)) :
    ∃ r, HttpJsonAdapter.request L t case_input ctx pin = .ok (.ok (r, limit)) ∧ r.json = json := by
  obtain ⟨hs, hh⟩ : ∃ hs, HttpJsonAdapter.headers L content ctx pin = .ok (.ok hs) :=
    HttpJsonAdapter.headers_ok_iff.mpr (hscheme ▸ hc.auth)
  have hrebound := HttpJsonAdapter.rebound_self (h "pinned" (by decide) |>.trans hp)
  rw [← HttpJsonAdapter.limits_congr (h "timeout_seconds" (by decide))
    (h "max_response_bytes" (by decide))] at hl
  rw [← HttpJsonAdapter.headers_congr (h "auth" (by decide))] at hh
  exact ⟨_, HttpJsonAdapter.request_eq_ok_iff.mpr ⟨hrebound, timeout, json, hs, hl, hb, hh, rfl⟩, rfl⟩

-- A response that is refused as soon as its status is known.
def redirect : Response :=
  ⟨300, none, [], none⟩

-- What an invocation sends is what was mapped for it.
theorem HttpJsonAdapter.requests_eq (hs : Stored L policy content d) (hL : L.Lawful)
    (hc : CanSend L content d) :
    ∃ records, ∀ t case_input ctx json, AgreesUnmapped t content →
      HttpJsonAdapter.body L t case_input = .ok (some json) →
      ∃ r, r.json = json ∧ requests (replied records redirect
        (HttpJsonAdapter.invoke L policy t (.int 0) case_input ctx)).1.2 = [r] := by
  obtain @⟨_, pin, records, _, _, hurl, hd, ha, hp, -⟩ := hs
  refine ⟨records, fun t case_input ctx json h hb => ?_⟩
  have ⟨tr, htr⟩ := PinnedTransport.exists_of_approve hL ha hc.host
  have ⟨timeout, limit, hl⟩ := hc.limits
  have ⟨r, hr, hj⟩ := hc.request ctx hp (approve_pin ha).left h hl hb
  exact ⟨r, hj, replied_invoke (h "url" (by decide) |>.trans hurl) hd ha hr htr rfl |>.left⟩

-- A scalar holds no array.
theorem follow_scalar {x v : Json} {token : String} (hx : x = .null ∨ ∃ b, x = .bool b) :
    follow L x token ≠ .ok v := by
  rcases hx with rfl | ⟨_, rfl⟩ <;> nofun

theorem follow_input {x y : Json} {token : String}
    (h : follow L (.obj [("input", x)]) token = .ok y) : y = x := by
  unfold follow at h
  dsimp only at h
  rw [List.lookup_cons] at h
  split at h
  case h_1 y hy =>
    cases h
    cases htoken : token == "input" <;> rw [htoken] at hy <;> cases hy
    rfl
  case h_2 => cases h

theorem apply_pointer_scalar {x v pointer : Json} (hx : x = .null ∨ ∃ b, x = .bool b)
    (h : apply_pointer L (.obj [("input", x)]) pointer = .ok v) (xs : List Json) : v ≠ .arr xs := by
  have hne : x ≠ .arr xs := by
    rcases hx with rfl | ⟨_, rfl⟩ <;> simp
  unfold apply_pointer at h
  split at h
  case h_2 => cases h
  case h_1 text =>
    split at h
    case isTrue  =>
      cases h
      simp
    case isFalse =>
      split at h
      case isTrue  => cases h
      case isFalse =>
        cases hts : tokens text with
        | nil             =>
          rw [hts] at h
          cases h
          simp
        | cons token rest =>
          rw [hts] at h
          obtain ⟨y, hy, h⟩ := bind_eq_ok_iff.mp h
          cases follow_input hy
          cases rest with
          | nil         =>
            cases h
            exact hne
          | cons token' =>
            obtain ⟨z, hz, -⟩ := bind_eq_ok_iff.mp h
            exact absurd hz <| follow_scalar hx

-- A mapping that puts an array into a field took it from no input that is a scalar.
theorem map_field_scalar {x x' : Json} {b b' c c' : Fields} {kv : String × Json}
    (hx : x = .null ∨ ∃ b, x = .bool b)
    (h : map_field L (.obj [("input", x)]) b kv = .ok c)
    (h' : map_field L (.obj [("input", x')]) b' kv = .ok c')
    (hb : ∀ key xs, b.lookup key = some (.arr xs) → b'.lookup key = some (.arr xs))
    (key : String) (xs : List Json) (hc : c.lookup key = some (.arr xs)) :
    c'.lookup key = some (.arr xs) := by
  obtain ⟨_, -, h⟩ := bind_eq_ok_iff.mp h
  obtain ⟨v, hv, h⟩ := bind_eq_ok_iff.mp h
  obtain ⟨_, -, h⟩ := bind_eq_ok_iff.mp h
  obtain ⟨_, -, h'⟩ := bind_eq_ok_iff.mp h'
  obtain ⟨v', hv', h'⟩ := bind_eq_ok_iff.mp h'
  obtain ⟨_, -, h'⟩ := bind_eq_ok_iff.mp h'
  cases h
  cases h'
  rw [lookup_assign] at hc ⊢
  split at hc
  case isFalse hk =>
    rw [if_neg hk]
    exact hb key xs hc
  case isTrue hk  =>
    rw [if_pos hk]
    cases hc
    unfold source_value at hv hv'
    split at hv
    case h_1 => exact absurd rfl <| apply_pointer_scalar hx hv xs
    case h_2 =>
      rw [Except.ok.inj hv] at hv'
      cases hv'
      rfl

theorem mapped_scalar {x x' : Json} {fields b b' c c' : Fields} (hx : x = .null ∨ ∃ b, x = .bool b)
    (h : fields.foldlM (map_field L (.obj [("input", x)])) b = .ok c)
    (h' : fields.foldlM (map_field L (.obj [("input", x')])) b' = .ok c')
    (hb : ∀ key xs, b.lookup key = some (.arr xs) → b'.lookup key = some (.arr xs)) :
    ∀ key xs, c.lookup key = some (.arr xs) → c'.lookup key = some (.arr xs) := by
  induction fields generalizing b b' with
  | nil             =>
    cases h
    cases h'
    exact hb
  | cons kv fields ih =>
    obtain ⟨b₁, hm, h⟩ := bind_eq_ok_iff.mp h
    obtain ⟨b₁', hm', h'⟩ := bind_eq_ok_iff.mp h'
    exact ih h h' <| map_field_scalar hx hm hm' hb

-- An array that a target maps from two scalars is the same.
theorem HttpJsonAdapter.body_scalar {kvs kvs' : Fields}
    (h : HttpJsonAdapter.body L t .null = .ok (some (.obj kvs)))
    (h' : HttpJsonAdapter.body L t (.bool true) = .ok (some (.obj kvs'))) {key : String} {xs : List Json}
    (hk : kvs.lookup key = some (.arr xs)) : kvs'.lookup key = some (.arr xs) := by
  have happly : ∀ x json, HttpJsonAdapter.body L t x = .ok (some json) →
      apply_request_mapping L x (or_empty (t.lookup "request_mapping")) = .ok json := by
    intro x json h
    unfold HttpJsonAdapter.body at h
    split at h
    case h_1 hm =>
      cases h
      exact hm
    case h_2    => split at h <;> cases h
  have h := happly _ _ h
  have h' := happly _ _ h'
  unfold apply_request_mapping at h h'
  split at h
  case isFalse =>
    cases h
    cases hk
  case isTrue ht =>
    rw [if_pos ht] at h'
    obtain ⟨fields, hf, h⟩ := bind_eq_ok_iff.mp h
    obtain ⟨fields', hf', h'⟩ := bind_eq_ok_iff.mp h'
    cases hf.symm.trans hf'
    obtain ⟨c, hc, h⟩ := bind_eq_ok_iff.mp h
    obtain ⟨c', hc', h'⟩ := bind_eq_ok_iff.mp h'
    cases h
    cases h'
    exact mapped_scalar (.inl rfl) hc hc' (fun _ _ hb => hb) key xs hk

-- The codec writes the two constants as JSON does.
structure Libraries.Encodes (L : Libraries) : Prop where
  null : L.dumps .null = "null"
  true : L.dumps (.bool true) = "true"

-- Without a request mapping, an object is sent as it is.
theorem HttpJsonAdapter.body_of_falsy (case_input : Json) (h : ((t.lookup "request_mapping").getD .null).truthy = false) :
    HttpJsonAdapter.body L t case_input = .ok (some (object case_input)) := by
  have hempty : or_empty (t.lookup "request_mapping") = .obj [] := by
    cases hl : t.lookup "request_mapping" with
    | none   => rfl
    | some v =>
      rw [hl] at h
      simpa [or_empty] using fun ht => absurd ht (by simpa using h)
  unfold HttpJsonAdapter.body apply_request_mapping
  rw [hempty]
  rfl

theorem ProviderEnvelopeAdapter.invoke_eq {pointer : String} {body : Json}
    (hmodel : ∃ model max_tokens, content.lookup "model" = some (.str model) ∧ model ≠ "" ∧
      content.lookup "max_tokens" = some (.int max_tokens) ∧ 1 ≤ max_tokens ∧ max_tokens ≤ 1000000) :
    _invoke_envelope L pointer policy content (.int 0) body ctx =
      HttpJsonAdapter.invoke L policy (provider_output pointer <| assign "request_mapping" (.obj []) content)
        (.int 0) body ctx := by
  obtain ⟨model, max_tokens, hm, hne, hn, hl, hu⟩ := hmodel
  unfold _invoke_envelope
  rw [hm]
  dsimp only
  rw [if_neg hne, hn]
  dsimp only
  rw [if_pos ⟨hl, hu⟩]

-- An invocation sends what the target maps, if what it sends is a mapped body at all.
theorem HttpJsonAdapter.body_of_requests (hs : Stored L policy content d) {records : Option (List String)}
    {r : Request}
    (hrequests : ∀ t case_input ctx json, AgreesUnmapped t content →
      HttpJsonAdapter.body L t case_input = .ok (some json) →
      ∃ r, r.json = json ∧ requests (replied records redirect
        (HttpJsonAdapter.invoke L policy t (.int 0) case_input ctx)).1.2 = [r])
    (h : requests (replied records redirect
      (HttpJsonAdapter.invoke L policy content (.int 0) case_input ctx)).1.2 = [r]) :
    HttpJsonAdapter.body L content case_input = .ok (some r.json) := by
  obtain ⟨hurl, hd, -⟩ := hs
  by_cases hb : ∃ json, HttpJsonAdapter.body L content case_input = .ok (some json)
  case pos =>
    obtain ⟨json, hb⟩ := hb
    obtain ⟨r', rfl, hr⟩ := hrequests content case_input ctx json .refl hb
    cases hr.symm.trans h
    exact hb
  case neg =>
    push Not at hb
    have hsilent : Silent (HttpJsonAdapter.invoke L policy content (.int 0) case_input ctx) :=
      silent_of_unmapped hurl hd hb
    have hnone := hsilent.play (replying records redirect) (fun _ => Answering.answers) 2 () |>.left
    cases hnone.symm.trans h

-- The envelope of a provider is not what a target maps.
theorem ProviderEnvelopeAdapter.distinct (hs : Stored L policy content d) (hL : L.Lawful)
    (hc : CanSend L content d) (he : L.Encodes) {pointer key : String} {body : Json → Json}
    {parts : String → List Json}
    (hmodel : ∃ model max_tokens, content.lookup "model" = some (.str model) ∧ model ≠ "" ∧
      content.lookup "max_tokens" = some (.int max_tokens) ∧ 1 ≤ max_tokens ∧ max_tokens ≤ 1000000)
    (hbody : ∀ x, ∃ kvs, body x = .obj kvs ∧ kvs.lookup key = some (.arr <| parts <| L.dumps x))
    (hparts : parts "null" ≠ parts "true") :
    ¬ ∀ case_input ctx, SameExchanges
      (_invoke_envelope L pointer policy content (.int 0) (body case_input) ctx)
      (HttpJsonAdapter.invoke L policy content (.int 0) case_input ctx) := by
  intro h
  have ⟨records, hrequests⟩ := HttpJsonAdapter.requests_eq hs hL hc
  have hmapped : ∀ x, ∃ kvs, HttpJsonAdapter.body L content x = .ok (some (.obj kvs)) ∧
      kvs.lookup key = some (.arr <| parts <| L.dumps x) := by
    intro x
    obtain ⟨kvs, hkvs, hk⟩ := hbody x
    refine ⟨kvs, ?_, hk⟩
    have hsame := (h x Answering.context).replied records redirect |>.left
    rw [invoke_eq hmodel, hkvs] at hsame
    have hrequest : (provider_output pointer <| assign "request_mapping" (.obj []) content).lookup
        "request_mapping" = some (.obj []) := by
      rw [lookup_provider_output (by decide), lookup_assign, if_pos rfl]
    have hfalsy := HttpJsonAdapter.body_of_falsy (L := L) (.obj kvs) (by rw [hrequest]; rfl)
    obtain ⟨r, hj, hr⟩ := hrequests _ (.obj kvs) Answering.context (.obj kvs)
      (AgreesUnmapped.refl.assign (by decide) |>.provider_output) hfalsy
    rw [hr] at hsame
    rw [← hj]
    exact HttpJsonAdapter.body_of_requests hs hrequests hsame.symm
  obtain ⟨kvs, hb, hk⟩ := hmapped .null
  obtain ⟨kvs', hb', hk'⟩ := hmapped (.bool true)
  have hsame := HttpJsonAdapter.body_scalar hb hb' hk
  rw [hk', he.null, he.true] at hsame
  exact hparts <| Json.arr.inj (Option.some.inj hsame) |>.symm

-- Without a request mapping, only the adapter of the provider makes messages of an input.
theorem OpenAICompatibleAdapter.distinct_of_unmapped (hs : Stored L policy content d) (hL : L.Lawful)
    (hc : CanSend L content d) (ht : ((content.lookup "request_mapping").getD .null).truthy = false) :
    ¬ ∀ case_input ctx, SameExchanges
      (OpenAICompatibleAdapter.invoke L policy content (.int 0) case_input ctx)
      (HttpJsonAdapter.invoke L policy content (.int 0) case_input ctx) := by
  intro h
  have ⟨records, hrequests⟩ := HttpJsonAdapter.requests_eq hs hL hc
  have hbody : OpenAICompatibleAdapter.body L content .null = _messages L .null := by
    unfold OpenAICompatibleAdapter.body
    rw [ht]
    rfl
  have hrequest : (provider_output "/choices/0/message/content" content).lookup "request_mapping" =
      content.lookup "request_mapping" :=
    lookup_provider_output (by decide)
  obtain ⟨r, hj, hr⟩ := hrequests _ (_messages L .null) Answering.context _
    AgreesUnmapped.refl.provider_output (HttpJsonAdapter.body_of_falsy _ (hrequest ▸ ht))
  obtain ⟨r', hj', hr'⟩ := hrequests content .null Answering.context _ .refl
    (HttpJsonAdapter.body_of_falsy _ ht)
  have hsame := (h .null Answering.context).replied records redirect |>.left
  unfold OpenAICompatibleAdapter.invoke at hsame
  rw [hbody, hr, hr'] at hsame
  cases hsame
  cases hj.symm.trans hj'

-- The output of a target that maps the final response alone, in a run that records no event.
theorem HttpJsonAdapter.extracted_final {p : String} {payload : Json} {bytes : Bytes} {status : ℕ}
    {e : Option Json} (hm : t.lookup "output_mapping" = some (.obj [("final_response", .str p)]))
    (hl : L.loads bytes = .ok payload) (hs : status = 200)
    (he : ((payload.get? "error").getD .null).truthy = false) (hv : evidence L t payload = .ok e) :
    extracted (extract L t Answering.context status bytes) =
      ((apply_pointer L payload (.str p)).toOption.map fun v => .obj [("final_response", v)]).getD .null := by
  rw [extracted_payload hl hs he, outputs_final hm, hv]
  have hevent : retrieval_event Answering.context e = .ok none := by
    cases e <;> rfl
  cases apply_pointer L payload (.str p) with
  | error _ => rfl
  | ok v    => simp [Except.toOption, hevent]

theorem OpenAICompatibleAdapter.distinct_of_payload (hs : Stored L policy content d) (hL : L.Lawful)
    (hc : CanSend L content d) (ht : ((content.lookup "request_mapping").getD .null).truthy)
    (hdef : ((content.lookup "output_mapping").getD .null).pyEq default_output_mapping)
    {json payload : Json} (hb : HttpJsonAdapter.body L content case_input = .ok (some json))
    (hy : Yields L content payload)
    (hne : (apply_pointer L payload (.str "/answer")).toOption ≠
      (apply_pointer L payload (.str "/choices/0/message/content")).toOption) :
    ¬ ∀ case_input ctx, SameExchanges
      (OpenAICompatibleAdapter.invoke L policy content (.int 0) case_input ctx)
      (HttpJsonAdapter.invoke L policy content (.int 0) case_input ctx) := by
  intro h
  obtain @⟨timeout, limit, response, bytes, hl, hreceived, hstatus, hloads, he, hevidence⟩ := hy
  obtain @⟨_, pin, records, _, _, hurl, hd, ha, hp, -⟩ := hs
  have ⟨tr, htr⟩ := PinnedTransport.exists_of_approve hL ha hc.host
  have hagrees : AgreesUnmapped (provider_output "/choices/0/message/content" content) content :=
    AgreesUnmapped.refl.provider_output
  have hrequest : (provider_output "/choices/0/message/content" content).lookup "request_mapping" =
      content.lookup "request_mapping" :=
    lookup_provider_output (by decide)
  have ⟨ev, hev⟩ : ∃ ev, HttpJsonAdapter.evidence L content payload = .ok ev := by
    unfold HttpJsonAdapter.evidence
    dsimp only
    split
    case isFalse  => exact ⟨none, rfl⟩
    case isTrue hr =>
      obtain ⟨ev, hev⟩ := hevidence hr
      exact ⟨some ev, by rw [hev]; rfl⟩
  have hev' : HttpJsonAdapter.evidence L (provider_output "/choices/0/message/content" content) payload =
      .ok ev := by
    rwa [HttpJsonAdapter.evidence_congr (lookup_provider_output (by decide))]
  obtain ⟨r, hr, -⟩ := hc.request Answering.context hp (approve_pin ha).left .refl hl hb
  have hr' := HttpJsonAdapter.request_congr hagrees (HttpJsonAdapter.body_congr hrequest) |>.trans hr
  have hsame := (h case_input Answering.context).replied records response |>.right
  unfold OpenAICompatibleAdapter.invoke OpenAICompatibleAdapter.body at hsame
  rw [if_pos ht,
    HttpJsonAdapter.replied_invoke hurl hd ha hr htr hreceived |>.right bytes rfl,
    HttpJsonAdapter.replied_invoke (hagrees "url" (by decide) |>.trans hurl) hd ha hr' htr hreceived
      |>.right bytes rfl,
    HttpJsonAdapter.extracted_final (provider_output_of_default hdef) hloads hstatus he hev',
    HttpJsonAdapter.extracted_final (lookup_default_output_mapping hdef) hloads hstatus he hev] at hsame
  refine hne ?_
  revert hsame
  cases (apply_pointer L payload (.str "/answer")).toOption <;>
    cases (apply_pointer L payload (.str "/choices/0/message/content")).toOption <;> simp [eq_comm]

-- The messages that the envelopes are made of.
def AnthropicMessagesAdapter.messages (text : String) : List Json :=
  [user_message (.str text)]

def GoogleGenerativeAdapter.contents (text : String) : List Json :=
  [.obj [("role", .str "user"), ("parts", .arr [.obj [("text", .str text)]])]]

theorem AnthropicMessagesAdapter.body_lookup (x : Json) :
    ∃ kvs, body L content x = .obj kvs ∧ kvs.lookup "messages" = some (.arr <| messages <| L.dumps x) :=
  ⟨_, rfl, rfl⟩

theorem GoogleGenerativeAdapter.body_lookup (x : Json) :
    ∃ kvs, body L content x = .obj kvs ∧ kvs.lookup "contents" = some (.arr <| contents <| L.dumps x) :=
  ⟨_, rfl, rfl⟩

-- A target whose adapter makes no difference, if what was verified is what is measured.
theorem Stored.alike (hs : Stored L policy content d) (hL : L.Lawful) (he : L.Encodes)
    (h : MeasuredAsVerified L policy content) : Alike L content d := by
  obtain @⟨_, _, _, m, f, -, -, -, -, hk, hf, hp, -⟩ := id hs
  by_cases hm : m = .stateless_json
  case neg =>
    refine .kind fun hk' => hm ?_
    rw [hk] at hk'
    cases m <;> simp_all [Mode.kind]
  case pos =>
    subst hm
    by_cases hc : CanSend L content d
    case neg => exact .unsendable hc
    case pos =>
      obtain ⟨hv, hr⟩ := adapter_of_framework hk hf
      rw [measuredAsVerified_iff, hv, hr] at h
      cases f with
      | generic_http       => exact .framework hf
      | anthropic_messages =>
        exact absurd h <| ProviderEnvelopeAdapter.distinct hs hL hc he (hp (.inl rfl))
          AnthropicMessagesAdapter.body_lookup (by decide)
      | google_generative  =>
        exact absurd h <| ProviderEnvelopeAdapter.distinct hs hL hc he (hp (.inr rfl))
          GoogleGenerativeAdapter.body_lookup (by decide)
      | openai_compatible  =>
        by_cases ht : ((content.lookup "request_mapping").getD .null).truthy
        case neg => exact absurd h <| OpenAICompatibleAdapter.distinct_of_unmapped hs hL hc (by simpa using ht)
        case pos =>
          by_cases hdef : ((content.lookup "output_mapping").getD .null).pyEq default_output_mapping
          case neg => exact .own_mappings hf ht (by simpa using hdef)
          case pos =>
            by_cases hb : ∃ case_input body, HttpJsonAdapter.body L content case_input = .ok (some body)
            case neg =>
              refine .unmapped hf ht fun case_input body hbody => hb ⟨case_input, body, hbody⟩
            case pos =>
              obtain ⟨case_input, body, hb⟩ := hb
              refine .indistinct hf ht fun payload hy => ?_
              by_contra hne
              exact OpenAICompatibleAdapter.distinct_of_payload hs hL hc ht hdef hb hy hne h

-- What was verified is what a run measures exactly where the adapter of the provider makes no
-- difference.
theorem measured_as_verified_iff {body : Fields} {r2_enabled : Bool} (hL : L.Lawful) (he : L.Encodes)
    (ha : Accepted L policy r2_enabled body content)
    (hd : destination L ((content.lookup "url").getD .null) = .ok d) :
    MeasuredAsVerified L policy content ↔ Alike L content d := by
  obtain ⟨d', hs⟩ := ha.stored
  obtain rfl : d' = d := by
    obtain ⟨hurl, hd', -⟩ := hs
    rw [hurl] at hd
    exact Except.ok.inj (hd'.symm.trans hd)
  exact ⟨hs.alike hL he, hs.measuredAsVerified⟩

namespace Configured

def libraries : Libraries :=
  { Answering.libraries with
    dumps := fun j => if j = .null then "null" else if j = .bool true then "true" else "{}" }

theorem lawful : libraries.Lawful where
  ip_address_text := Answering.lawful.ip_address_text

theorem encodes : libraries.Encodes where
  null := rfl
  true := rfl

def body (framework : Framework) : Fields := [
  ("framework", .str framework.toString),
  ("model", .str "m"),
  ("max_tokens", .int 16),
  ("url", .str "https://t.example/run")
]

def approved : Pin :=
  ⟨"t.example", 443, "https", ["93.184.215.14"]⟩

def target (framework : Framework) : Fields :=
  base_content (body framework)
    ⟨.stateless_json, framework, .obj [], "https://t.example/run", [("type", .str "none")]⟩ approved

def configuration (framework : Framework) : Prog sig Fields :=
  create libraries ⟨[]⟩ false (body framework)

def run (framework : Framework) : Unit × Prog.Outcome Error Fields :=
  (configuration framework).run Answering.endpoint Answering.answers 1 ()

theorem created (framework : Framework) : (run framework).2 = .ok (target framework) := by
  cases framework <;> decide

theorem exec (framework : Framework) :
    Prog.Exec Answering.endpoint (fun _ _ => True) (configuration framework) () (run framework).1
      (run framework).2 := by
  unfold run
  exact Prog.run_exec (M := Answering.endpoint) (fun _ => trivial) (configuration framework) 1 ()

theorem accepted (framework : Framework) :
    Accepted libraries ⟨[]⟩ false (body framework) (target framework) :=
  ⟨_, _, _, _, created framework ▸ exec framework⟩

end Configured

theorem measured_as_verified_generic :
    MeasuredAsVerified Configured.libraries ⟨[]⟩ (Configured.target .generic_http) :=
  measured_as_verified_iff Configured.lawful Configured.encodes (Configured.accepted .generic_http)
    (d := ⟨"https", "t.example", 443⟩) rfl |>.mpr (.framework rfl)

-- A run sends the input of the case to an endpoint that was verified with the messages of its provider.
theorem not_measured_as_verified :
    Accepted Configured.libraries ⟨[]⟩ false (Configured.body .anthropic_messages)
        (Configured.target .anthropic_messages) ∧
      ¬ MeasuredAsVerified Configured.libraries ⟨[]⟩ (Configured.target .anthropic_messages) := by
  refine ⟨Configured.accepted _, fun h => ?_⟩
  have hsame := (h .null (.obj [("question", .str "hi")]) Answering.context).replied
    (some ["93.184.215.14"]) redirect |>.left
  revert hsame
  decide +kernel

end Targets
