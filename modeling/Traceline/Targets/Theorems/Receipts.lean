import Traceline.Targets.Connections

-- The receipt of a verification is a field that no adapter reads.
namespace Targets

open Plans (Fields assign)

variable {L : Libraries} {policy : EndpointPolicy} {t t' : Fields} {key k : String} {v : Json}

theorem lookup_assign : (assign key v t).lookup k = if k = key then some v else t.lookup k := by
  induction t with
  | nil         =>
    by_cases hk : k = key
    case pos => simp [assign, hk]
    case neg =>
      have hkk : (k == key) = false := by simpa using hk
      simp [assign, List.lookup_cons, hk, hkk]
  | cons kv t ih =>
    unfold assign
    by_cases he : kv.1 = key
    case pos =>
      rw [if_pos he, List.lookup_cons, List.lookup_cons]
      by_cases hk : k = key
      case pos => simp [hk]
      case neg =>
        have hkv : (k == kv.1) = false := by simpa [he] using hk
        have hkk : (k == key) = false := by simpa using hk
        rw [hkk, hkv, if_neg hk]
    case neg =>
      rw [if_neg he, List.lookup_cons, List.lookup_cons, ih]
      by_cases hk : k = kv.1
      case pos =>
        have hne : k ≠ key := hk ▸ he
        simp [hk, he]
      case neg =>
        have hkv : (k == kv.1) = false := by simpa using hk
        rw [hkv]

-- Two targets with the same fields but for a receipt.
def Agrees (t t' : Fields) : Prop :=
  ∀ key, key ≠ "verification" → t.lookup key = t'.lookup key

theorem agrees_verified {receipt : Json} : Agrees (verified_content receipt t) t := by
  intro key hk
  exact lookup_assign.trans (if_neg hk)

namespace Agrees

variable (h : Agrees t t')

include h

theorem assign : Agrees (Plans.assign key v t) (Plans.assign key v t') := by
  intro k hk
  rw [lookup_assign, lookup_assign, h k hk]

theorem provider_output {pointer : String} :
    Agrees (provider_output pointer t) (provider_output pointer t') := by
  unfold Targets.provider_output
  rw [h "output_mapping" (by decide)]
  dsimp only
  split
  case isTrue  => exact h.assign
  case isFalse => exact h

theorem adapter : _adapter t = _adapter t' ∧ measuring_adapter t = measuring_adapter t' := by
  simp only [_adapter, measuring_adapter, h "kind" (by decide), h "framework" (by decide), and_self]

end Agrees

namespace HttpJsonAdapter

variable {pin : Pin} {retries case_input : Json} {ctx : Context} {payload : Json}

theorem rebound_congr (h : t.lookup "pinned" = t'.lookup "pinned") : rebound t pin = rebound t' pin := by
  simp only [rebound, h]

theorem limits_congr (ht : t.lookup "timeout_seconds" = t'.lookup "timeout_seconds")
    (hm : t.lookup "max_response_bytes" = t'.lookup "max_response_bytes") : limits L t = limits L t' := by
  simp only [limits, ht, hm]

theorem body_congr (h : t.lookup "request_mapping" = t'.lookup "request_mapping") :
    body L t case_input = body L t' case_input := by
  simp only [body, h]

theorem headers_congr (h : t.lookup "auth" = t'.lookup "auth") :
    headers L t ctx pin = headers L t' ctx pin := by
  simp only [headers, h]

-- Two targets that differ in their mappings at most send a body the same way.
theorem request_congr (h : ∀ key, key ∉ ["verification", "request_mapping", "output_mapping"] →
      t.lookup key = t'.lookup key)
    (hb : body L t case_input = body L t' case_input) :
    request L t case_input ctx pin = request L t' case_input ctx pin := by
  simp only [request, rebound_congr (h "pinned" (by decide)), hb, headers_congr (h "auth" (by decide)),
    limits_congr (h "timeout_seconds" (by decide)) (h "max_response_bytes" (by decide)),
    h "method" (by decide), h "url" (by decide)]

theorem outputs_congr (h : Agrees t t') : outputs L t payload = outputs L t' payload := by
  simp only [outputs, h "output_mapping" (by decide), h "retrieval_mapping" (by decide)]

theorem extract_congr (h : Agrees t t') {status_code : ℕ} {content : Bytes} :
    extract L t ctx status_code content = extract L t' ctx status_code content := by
  simp only [extract, outputs_congr h]

theorem invoke_congr (h : Agrees t t') :
    invoke L policy t retries case_input ctx = invoke L policy t' retries case_input ctx := by
  have hr : ∀ pin, request L t case_input ctx pin = request L t' case_input ctx pin :=
    fun pin => request_congr (fun key hk => h key fun he => hk <| by simp [he]) <|
      body_congr (h "request_mapping" (by decide))
  simp only [invoke, hr, extract_congr h, h "url" (by decide)]

end HttpJsonAdapter

theorem HttpStreamAdapter.invoke_congr (h : Agrees t t') {ctx : Context} {case_input : Json} :
    invoke L ctx policy t case_input = invoke L ctx policy t' case_input := by
  simp only [invoke, exchange, HttpJsonAdapter.rebound_congr (h "pinned" (by decide)), h "mode" (by decide), h "url" (by decide),
    h "max_frame_bytes" (by decide), h "max_frames" (by decide), h "timeout_seconds" (by decide)]

namespace HttpJobAdapter

variable {ctx : Context} {case_input : Json}

theorem prepare_congr (h : Agrees t t') : prepare L policy t = prepare L policy t' := by
  simp only [prepare, item, h "submit_url" (by decide), h "status_url_template" (by decide),
    h "poll_timeout_seconds" (by decide), h "poll_interval_seconds" (by decide)]

theorem headers_congr (h : Agrees t t') : headers t ctx = headers t' ctx := by
  simp only [headers, h "auth" (by decide)]

theorem submit_congr (h : Agrees t t') : submit L t = submit L t' := by
  funext case_input p headers transport
  unfold submit
  rw [h "submit_url" (by decide)]

theorem invoke_congr (h : Agrees t t') :
    invoke L policy t ctx case_input = invoke L policy t' ctx case_input := by
  simp only [invoke, prepare_congr h, headers_congr h, submit_congr h]

end HttpJobAdapter

namespace HttpSessionAdapter

variable {ctx : Context} {case_input : Json}

theorem prepare_congr (h : Agrees t t') : prepare L policy t = prepare L policy t' := by
  simp only [prepare, HttpJobAdapter.item, h "init_url" (by decide), h "turn_url_template" (by decide),
    h "close_url_template" (by decide)]

theorem post_congr (h : Agrees t t') : post L t = post L t' := by
  funext pin url json
  simp only [post, h "timeout_seconds" (by decide)]

theorem post_to_congr (h : Agrees t t') : post_to L policy t = post_to L policy t' := by
  funext template session_id json
  simp only [post_to, post_congr h]

theorem close_session_congr (h : Agrees t t') : close_session L policy t = close_session L policy t' := by
  funext ts session_id
  simp only [close_session, post_to_congr h]

theorem send_turn_congr (h : Agrees t t') : send_turn L policy t = send_turn L policy t' := by
  funext ts session_id p turn
  simp only [send_turn, post_to_congr h]

theorem plain_turn_congr (h : Agrees t t') : plain_turn L policy t = plain_turn L policy t' := by
  funext ts session_id p turn
  simp only [plain_turn, send_turn_congr h]

theorem step_congr (h : Agrees t t') : step L policy t ctx = step L policy t' ctx := by
  funext ts session_id p s
  simp only [step, send_turn_congr h]

theorem converse_congr (h : Agrees t t') : converse L policy t ctx = converse L policy t' ctx := by
  funext ts session_id payload how
  cases how <;> simp only [converse, plain_turn_congr h, step_congr h]

theorem hold_congr (h : Agrees t t') : hold L policy t ctx = hold L policy t' ctx := by
  funext ts how session_id payload status_code
  simp only [hold, converse_congr h, close_session_congr h]

theorem session_congr (h : Agrees t t') : session L policy t ctx = session L policy t' ctx := by
  funext ts how session_id payload status_code
  simp only [session, release, hold_congr h, close_session_congr h]

theorem invoke_congr (h : Agrees t t') :
    invoke L policy t ctx case_input = invoke L policy t' ctx case_input := by
  simp only [invoke, open_session, HttpJobAdapter.item, prepare_congr h, post_congr h, session_congr h,
    h "init_url" (by decide)]

end HttpSessionAdapter

-- An adapter does with a target that has a receipt what it does with the target without one.
theorem AdapterClass.invoke_congr (h : Agrees t t') {a : AdapterClass} {case_input : Json} {ctx : Context} :
    a.invoke L policy t case_input ctx = a.invoke L policy t' case_input ctx := by
  cases a with
  | http_json          => exact HttpJsonAdapter.invoke_congr h
  | http_stream        => exact HttpStreamAdapter.invoke_congr h
  | http_job           => exact HttpJobAdapter.invoke_congr h
  | http_session       => exact HttpSessionAdapter.invoke_congr h
  | openai_compatible  =>
    simp only [invoke, OpenAICompatibleAdapter.invoke, OpenAICompatibleAdapter.body,
      h "request_mapping" (by decide), HttpJsonAdapter.invoke_congr h.provider_output]
  | anthropic_messages =>
    simp only [invoke, AnthropicMessagesAdapter.invoke, AnthropicMessagesAdapter.body,
      ProviderEnvelopeAdapter._invoke_envelope, h "model" (by decide), h "max_tokens" (by decide),
      HttpJsonAdapter.invoke_congr h.assign.provider_output]
  | google_generative  =>
    simp only [invoke, GoogleGenerativeAdapter.invoke, GoogleGenerativeAdapter.body,
      ProviderEnvelopeAdapter._invoke_envelope, h "model" (by decide), h "max_tokens" (by decide),
      HttpJsonAdapter.invoke_congr h.assign.provider_output]

end Targets
