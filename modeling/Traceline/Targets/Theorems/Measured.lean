import Traceline.Targets.Theorems.Accepted

-- When a run measures a target as the adapter that verified it does.
namespace Targets

open Except (bind_eq_ok_iff)
open Plans (Fields or_empty assign)
open Prog (Keeps Exec)

variable {L : Libraries} {policy : EndpointPolicy} {d : Destination} {pin : Pin}
variable {content t t' : Fields} {case_input url : Json} {ctx : Context} {m : Mode} {f : Framework}

-- The receipt of the verification plays no part.
theorem measuredAsVerified_iff :
    MeasuredAsVerified L policy content ↔ ∀ case_input ctx, SameExchanges
      ((_adapter content).invoke L policy content case_input ctx)
      ((measuring_adapter content).invoke L policy content case_input ctx) := by
  have hm : ∀ receipt case_input ctx,
      (measuring_adapter (verified_content receipt content)).invoke L policy
          (verified_content receipt content) case_input ctx =
        (measuring_adapter content).invoke L policy content case_input ctx := by
    intro receipt case_input ctx
    rw [agrees_verified.adapter.right, AdapterClass.invoke_congr agrees_verified]
  constructor
  · intro h case_input ctx
    rw [← hm .null]
    exact h .null case_input ctx
  · intro h receipt case_input ctx
    rw [hm]
    exact h case_input ctx

def Framework.adapter : Framework → AdapterClass
  | .generic_http       => .http_json
  | .openai_compatible  => .openai_compatible
  | .anthropic_messages => .anthropic_messages
  | .google_generative  => .google_generative

theorem adapter_of_kind (hk : content.lookup "kind" = some (.str m.kind)) (hm : m ≠ .stateless_json) :
    _adapter content = measuring_adapter content := by
  unfold _adapter measuring_adapter
  rw [hk]
  cases m with
  | stateless_json => cases hm rfl
  | streaming      => rfl
  | async          => rfl
  | session        => rfl

theorem adapter_of_framework (hk : content.lookup "kind" = some (.str "http_json"))
    (hf : content.lookup "framework" = some (.str f.toString)) :
    _adapter content = f.adapter ∧ measuring_adapter content = .http_json := by
  unfold _adapter measuring_adapter
  rw [hk, hf]
  cases f <;> exact ⟨rfl, rfl⟩

-- Two targets with the same fields but for their mappings.
def AgreesUnmapped (t t' : Fields) : Prop :=
  ∀ key, key ∉ ["verification", "request_mapping", "output_mapping"] → t.lookup key = t'.lookup key

namespace AgreesUnmapped

theorem refl : AgreesUnmapped t t :=
  fun _ _ => rfl

theorem assign {key : String} {v : Json} (h : AgreesUnmapped t t')
    (hk : key ∈ ["verification", "request_mapping", "output_mapping"]) :
    AgreesUnmapped (assign key v t) t' := by
  intro k hk'
  have hne : k ≠ key := fun he => hk' (he ▸ hk)
  rw [lookup_assign, if_neg hne, h k hk']

theorem provider_output {pointer : String} (h : AgreesUnmapped t t') :
    AgreesUnmapped (provider_output pointer t) t' := by
  unfold Targets.provider_output
  dsimp only
  split
  case isTrue  => exact h.assign (by decide)
  case isFalse => exact h

theorem canSend (h : AgreesUnmapped t t') (hs : CanSend L t d) : CanSend L t' d := by
  obtain ⟨hl, ⟨ha, hsecure, hnamed, hallow⟩, hh⟩ := hs
  refine ⟨?_, ⟨?_, hsecure, hnamed, hallow⟩, hh⟩
  · rwa [HttpJsonAdapter.limits_congr (h "timeout_seconds" (by decide))
      (h "max_response_bytes" (by decide))] at hl
  · rwa [h "auth" (by decide)] at ha

end AgreesUnmapped

theorem HttpJsonAdapter.silent_of_unsendable {retries : Json} (hurl : t.lookup "url" = some url)
    (hd : destination L url = .ok d) (hno : ¬ CanSend L t d) :
    Silent (HttpJsonAdapter.invoke L policy t retries case_input ctx) := by
  refine silent_invoke hurl hd fun pin r limit hs hh hr tr htr => hno ?_
  obtain ⟨-, timeout, _, headers, hl, -, ha, -⟩ := request_eq_ok_iff.mp hr
  obtain ⟨_, _, _, -, -, -, -, -, hraw⟩ := PinnedTransport.new_eq_ok htr
  refine ⟨⟨timeout, limit, hl⟩, hs ▸ headers_ok_iff.mp ⟨headers, ha⟩, ?_⟩
  rw [← hs, ← hh, hraw]
  rfl

theorem HttpJsonAdapter.silent_of_unmapped {retries : Json} (hurl : t.lookup "url" = some url)
    (hd : destination L url = .ok d) (hno : ∀ body, HttpJsonAdapter.body L t case_input ≠ .ok (some body)) :
    Silent (HttpJsonAdapter.invoke L policy t retries case_input ctx) := by
  refine silent_invoke hurl hd fun pin r limit _ _ hr => ?_
  obtain ⟨-, _, json, _, -, hb, -⟩ := request_eq_ok_iff.mp hr
  exact absurd hb (hno json)

-- No provider's adapter makes a request possible.
theorem AdapterClass.silent_of_unsendable (hurl : content.lookup "url" = some url)
    (hd : destination L url = .ok d) (hno : ¬ CanSend L content d) :
    Silent (f.adapter.invoke L policy content case_input ctx) := by
  have hsilent : ∀ t body, AgreesUnmapped t content →
      Silent (HttpJsonAdapter.invoke L policy t (.int 0) body ctx) := fun t body h =>
    HttpJsonAdapter.silent_of_unsendable (h "url" (by decide) |>.trans hurl) hd (hno ∘ h.canSend)
  have hpure : ∀ outcome, Silent (Pure.pure (HttpJsonAdapter.result outcome)) :=
    fun _ _ _ hi => .pure hi rfl
  have henvelope : ∀ pointer body,
      Silent (ProviderEnvelopeAdapter._invoke_envelope L pointer policy content (.int 0) body ctx) := by
    intro pointer body
    unfold ProviderEnvelopeAdapter._invoke_envelope
    split
    case h_2 => exact hpure _
    case h_1 =>
      split
      case isTrue  => exact hpure _
      case isFalse =>
        split
        case h_2 => exact hpure _
        case h_1 =>
          split
          case isFalse => exact hpure _
          case isTrue  =>
            exact hsilent _ _ <| AgreesUnmapped.refl.assign (by decide) |>.provider_output
  cases f with
  | generic_http       => exact hsilent _ _ .refl
  | openai_compatible  => exact hsilent _ _ AgreesUnmapped.refl.provider_output
  | anthropic_messages => exact henvelope _ _
  | google_generative  => exact henvelope _ _

-- The output of an extraction that may raise.
def extracted : Except Error InvocationResult → Json
  | .ok r    => r.output
  | .error _ => .null

theorem extracted_eq_output (x : Except Error InvocationResult) (M : Store sig)
    (env : ℕ → ∀ q : Query, q.Answer) (n asked : ℕ) (s : M.State) :
    ((Prog.ofExcept x).play M env n asked s).1 = s ∧
      output ((Prog.ofExcept x).play M env n asked s).2 = extracted x := by
  cases x <;> exact ⟨by simp [Prog.ofExcept, Prog.play], by simp [Prog.ofExcept, Prog.play, output, extracted]⟩

-- The bytes that an exchange comes to are those of a response that was received.
theorem HttpJsonAdapter.keeps_received {M : Store sig} (log : Log) {r : Request} {limit : Int} :
    Keeps M (fun _ _ => True) (fun _ => True) (exchange L pin r limit) log fun sent _ =>
      ∀ status bytes, sent = .ok (status, bytes) →
        ∃ response, receive L limit response = .ok (.ok bytes) ∧ response.status_code = status := by
  let Q (sent : Except InvocationResult (ℕ × Bytes)) (_ : Log) : Prop :=
    ∀ status bytes, sent = .ok (status, bytes) →
      ∃ response, receive L limit response = .ok (.ok bytes) ∧ response.status_code = status
  refine Keeps.bind (Q := fun sent log' => ∀ a, sent = .ok a → Q a log') (keeps_attempt ?_) fun sent _ _ _ hq => ?_
  · refine Keeps.ofExcept_bind trivial fun tr _ => ?_
    refine Keeps.bind (Q := fun _ _ => True) (.perform (fun _ => trivial) fun _ => trivial)
      fun response _ _ _ _ => ?_
    refine Keeps.ofExcept_bind trivial fun received hreceived => ?_
    cases received with
    | error _   => exact .pure trivial nofun
    | ok bytes  =>
      refine .pure trivial fun status bytes' he => ?_
      cases he
      exact ⟨response, hreceived, rfl⟩
  · cases sent with
    | error _ => exact .pure trivial nofun
    | ok sent => exact .pure trivial <| hq sent rfl

-- Two targets whose requests and whose outputs agree.
theorem HttpJsonAdapter.same_invoke {retries : Json} (hurl : t.lookup "url" = t'.lookup "url")
    (hr : ∀ pin, request L t case_input ctx pin = request L t' case_input ctx pin)
    (hx : ∀ pin r limit response bytes, request L t case_input ctx pin = .ok (.ok (r, limit)) →
      receive L limit response = .ok (.ok bytes) →
      extracted (extract L t ctx response.status_code bytes) =
        extracted (extract L t' ctx response.status_code bytes)) :
    SameExchanges (HttpJsonAdapter.invoke L policy t retries case_input ctx)
      (HttpJsonAdapter.invoke L policy t' retries case_input ctx) := by
  intro M env n s
  let R (x y : M.logged.State × Prog.Outcome Error InvocationResult) : Prop :=
    requests x.1.2 = requests y.1.2 ∧ output x.2 = output y.2
  have hrefl : ∀ x, R x x := fun _ => ⟨rfl, rfl⟩
  show R _ _
  unfold invoke
  split
  case isTrue  => exact hrefl _
  case isFalse =>
    rw [← hurl]
    split
    case h_1     => exact hrefl _
    case h_2 url _ =>
      refine Prog.play_bind_rel hrefl fun pin u n asked e => ?_
      cases pin with
      | error _ => exact hrefl _
      | ok pin  =>
        dsimp only
        rw [hr]
        refine Prog.play_bind_rel hrefl fun req u n asked e => ?_
        have hreq := exec_ofExcept_inv e
        match req with
        | .error _      => exact hrefl _
        | .ok (r, limit) =>
          refine Prog.play_bind_rel hrefl fun sent v n asked e => ?_
          match sent with
          | .error _            => exact hrefl _
          | .ok (status, bytes) =>
            obtain ⟨response, hreceived, rfl⟩ :=
              keeps_received u.2 |>.exec_ok trivial e status bytes rfl
            have ⟨hs, ho⟩   := extracted_eq_output (extract L t ctx response.status_code bytes)
              M.logged env n asked v
            have ⟨hs', ho'⟩ := extracted_eq_output (extract L t' ctx response.status_code bytes)
              M.logged env n asked v
            exact ⟨by rw [hs, hs'], by rw [ho, ho', hx pin r limit response bytes (hr pin ▸ hreq) hreceived]⟩

namespace HttpJsonAdapter

variable {p p' : String} {payload : Json} {bytes : Bytes} {status : ℕ}

-- The evidence that a target asks for, if any.
def evidence (L : Libraries) (target : Fields) (payload : Json) : Except Error (Option Json) :=
  let mapping := (target.lookup "retrieval_mapping").getD .null
  if mapping.truthy then some <$> apply_retrieval_mapping L payload mapping else .ok none

theorem evidence_congr (h : t.lookup "retrieval_mapping" = t'.lookup "retrieval_mapping") :
    evidence L t payload = evidence L t' payload := by
  simp only [evidence, h]

-- The outputs of a target that maps the final response alone.
theorem outputs_final (h : t.lookup "output_mapping" = some (.obj [("final_response", .str p)])) :
    (outputs L t payload).toOption.join =
      (apply_pointer L payload (.str p)).toOption.bind fun v =>
        (evidence L t payload).toOption.map fun e => ([("final_response", v)], e) := by
  have hproject : project L payload [("final_response", .str p)] =
      (do return [("final_response", ← apply_pointer L payload (.str p))]) := by
    unfold project
    simp only [List.mapM_cons, List.mapM_nil]
    cases apply_pointer L payload (.str p) <;> rfl
  have hitems : items (if (or_empty (t.lookup "output_mapping")).truthy then
      or_empty (t.lookup "output_mapping") else .obj [("final_response", .str "")]) =
        .ok [("final_response", .str p)] := by
    rw [h]
    rfl
  unfold outputs evidence
  dsimp only
  rw [hitems]
  simp only [bind, Except.bind]
  rw [hproject]
  cases apply_pointer L payload (.str p) with
  | error e =>
    simp only [bind, Except.bind]
    split <;> rfl
  | ok v    =>
    simp only [bind, Except.bind, pure, Except.pure]
    by_cases hg : ((t.lookup "retrieval_mapping").getD .null).truthy
    case neg => simp [hg, Except.toOption]
    case pos =>
      rw [if_pos hg, if_pos hg]
      cases apply_retrieval_mapping L payload ((t.lookup "retrieval_mapping").getD .null) with
      | ok e    => rfl
      | error e =>
        dsimp only
        split <;> rfl

-- The output of an extraction from a payload that is no error.
theorem extracted_payload (hl : L.loads bytes = .ok payload) (hs : status = 200)
    (he : ((payload.get? "error").getD .null).truthy = false) :
    extracted (extract L t ctx status bytes) = ((outputs L t payload).toOption.join.bind fun o =>
      (retrieval_event ctx o.2).toOption.map fun _ => Json.obj o.1).getD .null := by
  have herr : ¬ (status = 200 ∧ ((payload.get? "error").getD .null).truthy) := by simp [he]
  unfold extract
  rw [hl]
  dsimp only
  rw [if_neg herr, if_neg (not_not.mpr hs)]
  match outputs L t payload with
  | .error _          => rfl
  | .ok none          => rfl
  | .ok (some (o, e)) =>
    simp only [bind, Except.bind]
    cases he : retrieval_event ctx e with
    | error _ => simp [Except.toOption, extracted, he]
    | ok _    => simp [Except.toOption, extracted, he, pure, Except.pure]

theorem extracted_congr
    (h : ∀ payload, L.loads bytes = .ok payload → status = 200 →
      ((payload.get? "error").getD .null).truthy = false →
      (outputs L t payload).toOption.join = (outputs L t' payload).toOption.join) :
    extracted (extract L t ctx status bytes) = extracted (extract L t' ctx status bytes) := by
  by_cases hp : ∃ payload, L.loads bytes = .ok payload ∧ status = 200 ∧
      ((payload.get? "error").getD .null).truthy = false
  case pos =>
    obtain ⟨payload, hl, hs, he⟩ := hp
    rw [extracted_payload hl hs he, extracted_payload hl hs he, h payload hl hs he]
  case neg =>
    unfold extract
    cases hl : L.loads bytes with
    | error _    => rfl
    | ok payload =>
      dsimp only
      split
      case isTrue       => rfl
      case isFalse herr =>
        split
        case isTrue     => rfl
        case isFalse hs =>
          have hs := not_not.mp hs
          exact absurd ⟨payload, hl, hs, by simpa [hs] using herr⟩ hp

end HttpJsonAdapter

theorem eq_str_of_pyEq {j : Json} {s : String} (h : j.pyEq (.str s)) : j = .str s := by
  cases j with
  | str x =>
    rw [Json.pyEq] at h
    rw [of_decide_eq_true h]
  | _     => simp [Json.pyEq] at h

theorem eq_default_output_mapping {j : Json} (h : j.pyEq default_output_mapping) :
    j = .obj [("final_response", .str "/answer")] := by
  cases j with
  | obj kvs =>
    rw [default_output_mapping, Json.pyEq, Bool.and_eq_true] at h
    obtain ⟨hlen, h⟩ := h
    match kvs, of_decide_eq_true hlen with
    | [(k, v)], _ =>
      rw [Json.pyEqFields, Bool.and_eq_true] at h
      replace h := h.left
      by_cases hk : k = "final_response"
      case pos =>
        subst hk
        rw [eq_str_of_pyEq h]
      case neg =>
        have hkk : (k == "final_response") = false := by simpa using hk
        rw [List.lookup_cons, hkk] at h
        cases h
  | _       => simp [default_output_mapping, Json.pyEq] at h

theorem lookup_default_output_mapping
    (h : ((content.lookup "output_mapping").getD .null).pyEq default_output_mapping) :
    content.lookup "output_mapping" = some (.obj [("final_response", .str "/answer")]) := by
  have he := eq_default_output_mapping h
  cases hl : content.lookup "output_mapping" with
  | none   =>
    rw [hl] at he
    cases he
  | some v =>
    rw [hl] at he
    exact congrArg some he

theorem lookup_provider_output {pointer key : String} (hk : key ≠ "output_mapping") :
    (provider_output pointer content).lookup key = content.lookup key := by
  unfold provider_output
  dsimp only
  split
  case isTrue  => rw [lookup_assign, if_neg hk]
  case isFalse => rfl

-- The pointer of the provider stands in for the default mapping alone.
theorem provider_output_of_own {pointer : String}
    (ht : ((content.lookup "output_mapping").getD .null).truthy)
    (hne : ((content.lookup "output_mapping").getD .null).pyEq default_output_mapping = false) :
    provider_output pointer content = content := by
  unfold provider_output
  dsimp only
  rw [ht, hne]
  rfl

theorem provider_output_of_default {pointer : String}
    (h : ((content.lookup "output_mapping").getD .null).pyEq default_output_mapping) :
    (provider_output pointer content).lookup "output_mapping" =
      some (.obj [("final_response", .str pointer)]) := by
  unfold provider_output
  dsimp only
  rw [h, Bool.or_true, if_pos rfl, lookup_assign, if_pos rfl]

theorem OpenAICompatibleAdapter.same_of_own
    (hmapped : ((content.lookup "output_mapping").getD .null).truthy)
    (ht : ((content.lookup "request_mapping").getD .null).truthy)
    (hne : ((content.lookup "output_mapping").getD .null).pyEq default_output_mapping = false) :
    SameExchanges (OpenAICompatibleAdapter.invoke L policy content (.int 0) case_input ctx)
      (HttpJsonAdapter.invoke L policy content (.int 0) case_input ctx) := by
  refine .of_eq ?_
  unfold OpenAICompatibleAdapter.invoke OpenAICompatibleAdapter.body
  rw [provider_output_of_own hmapped hne, if_pos ht]

theorem OpenAICompatibleAdapter.same_of_unmapped (hurl : content.lookup "url" = some url)
    (hd : destination L url = .ok d)
    (ht : ((content.lookup "request_mapping").getD .null).truthy)
    (hno : ∀ body, HttpJsonAdapter.body L content case_input ≠ .ok (some body)) :
    SameExchanges (OpenAICompatibleAdapter.invoke L policy content (.int 0) case_input ctx)
      (HttpJsonAdapter.invoke L policy content (.int 0) case_input ctx) := by
  have hrequest : (provider_output "/choices/0/message/content" content).lookup "request_mapping" =
      content.lookup "request_mapping" :=
    lookup_provider_output (by decide)
  have hprovider : (provider_output "/choices/0/message/content" content).lookup "url" = some url :=
    lookup_provider_output (by decide) |>.trans hurl
  unfold OpenAICompatibleAdapter.invoke OpenAICompatibleAdapter.body
  rw [if_pos ht]
  refine Silent.same (HttpJsonAdapter.silent_of_unmapped hprovider hd ?_)
    (HttpJsonAdapter.silent_of_unmapped hurl hd hno)
  rwa [HttpJsonAdapter.body_congr hrequest]

-- An endpoint whose answers the two pointers read alike.
theorem OpenAICompatibleAdapter.same_of_indistinct
    (ht : ((content.lookup "request_mapping").getD .null).truthy)
    (hdef : ((content.lookup "output_mapping").getD .null).pyEq default_output_mapping)
    (h : ∀ payload, Yields L content payload →
      (apply_pointer L payload (.str "/answer")).toOption =
        (apply_pointer L payload (.str "/choices/0/message/content")).toOption) :
    SameExchanges (OpenAICompatibleAdapter.invoke L policy content (.int 0) case_input ctx)
      (HttpJsonAdapter.invoke L policy content (.int 0) case_input ctx) := by
  let pointer := "/choices/0/message/content"
  have hagrees : AgreesUnmapped (provider_output pointer content) content :=
    AgreesUnmapped.refl.provider_output
  have hlookup : ∀ key, key ≠ "output_mapping" →
      (provider_output pointer content).lookup key = content.lookup key :=
    fun _ => lookup_provider_output
  have hmap := lookup_default_output_mapping hdef
  unfold OpenAICompatibleAdapter.invoke OpenAICompatibleAdapter.body
  rw [if_pos ht]
  refine HttpJsonAdapter.same_invoke (hagrees "url" (by decide))
    (fun pin => HttpJsonAdapter.request_congr hagrees <|
      HttpJsonAdapter.body_congr <| hlookup "request_mapping" (by decide)) ?_
  intro pin r limit response bytes hr hreceived
  rw [HttpJsonAdapter.request_congr hagrees (HttpJsonAdapter.body_congr <| hlookup "request_mapping" (by decide)),
    HttpJsonAdapter.request_eq_ok_iff] at hr
  obtain ⟨-, timeout, _, _, hl, -⟩ := hr
  refine HttpJsonAdapter.extracted_congr fun payload hloads hs he => ?_
  rw [HttpJsonAdapter.outputs_final (provider_output_of_default hdef), HttpJsonAdapter.outputs_final hmap]
  rw [HttpJsonAdapter.evidence_congr (hlookup "retrieval_mapping" (by decide))]
  cases hv : HttpJsonAdapter.evidence L content payload with
  | error _ => simp [Except.toOption]
  | ok e    =>
    rw [h payload ⟨hl, hreceived, hs, hloads, he, fun hr => ?_⟩]
    unfold HttpJsonAdapter.evidence at hv
    dsimp only at hv
    rw [if_pos hr] at hv
    obtain ⟨e, hv, -⟩ := Except.map_eq_ok_iff.mp hv
    exact ⟨e, hv⟩

theorem Stored.of_adapter (h : _adapter content = measuring_adapter content) :
    MeasuredAsVerified L policy content :=
  measuredAsVerified_iff.mpr fun _ _ => .of_eq <| h ▸ rfl

-- Where the adapter of the provider makes no difference, what was verified is what is measured.
theorem Stored.measuredAsVerified (hs : Stored L policy content d) (h : Alike L content d) :
    MeasuredAsVerified L policy content := by
  obtain @⟨_, _, _, m, f, hurl, hd, -, -, hk, hf, -, hmapped⟩ := hs
  by_cases hm : m = .stateless_json
  case neg => exact Stored.of_adapter <| adapter_of_kind hk hm
  case pos =>
    subst hm
    obtain ⟨hv, hr⟩ := adapter_of_framework hk hf
    have hopen : content.lookup "framework" = some (.str "openai_compatible") → f = .openai_compatible := by
      intro he
      rw [hf] at he
      cases f <;> simp_all [Framework.toString]
    rw [measuredAsVerified_iff, hv, hr]
    intro case_input ctx
    cases h with
    | kind hne                  => exact absurd hk hne
    | framework he              =>
      rw [hf] at he
      cases f <;> first | exact .of_eq rfl | simp_all [Framework.toString]
    | unsendable hno            =>
      exact (AdapterClass.silent_of_unsendable hurl hd hno).same
        (HttpJsonAdapter.silent_of_unsendable hurl hd hno)
    | own_mappings he ht hne    =>
      cases hopen he
      exact OpenAICompatibleAdapter.same_of_own hmapped ht hne
    | unmapped he ht hno        =>
      cases hopen he
      exact OpenAICompatibleAdapter.same_of_unmapped hurl hd ht (hno case_input)
    | indistinct he ht hsame    =>
      cases hopen he
      by_cases hdef : ((content.lookup "output_mapping").getD .null).pyEq default_output_mapping
      case pos => exact OpenAICompatibleAdapter.same_of_indistinct ht hdef hsame
      case neg => exact OpenAICompatibleAdapter.same_of_own hmapped ht (by simpa using hdef)

end Targets
