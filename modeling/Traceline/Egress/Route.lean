import Mathlib.Data.List.Infix
import Traceline.Egress.Budget

namespace Egress

abbrev Fields := List (String × Json)

-- `json.dumps(body, allow_nan=False, ensure_ascii=True)`, which is none where it raises.
structure Codec where
  dumps : Json → Option String

-- One provider endpoint. The constructor refuses what the last five fields exclude.
structure ProviderRoute where
  host                    : String
  path                    : String
  model                   : String
  secret_ref              : String
  dummy_key               : String
  max_input_tokens        : Int
  max_output_tokens       : Int
  input_micros_per_token  : Int
  output_micros_per_token : Int
  price_version           : String
  origin                  : Option String
  provider                : String
  usage_decoder           : Option (Fields → Except Error Json)
  max_request_bytes       : Int
  input_token_bound       : Option (Fields → Except Error Json)
  allow_streaming         : Bool
  host_ne_empty           : host ≠ ""
  path_absolute           : path.toList.head? = some '/'
  limits_pos              : 0 < max_input_tokens ∧ 0 < max_output_tokens ∧ 0 < max_request_bytes
  input_price_nonneg      : 0 ≤ input_micros_per_token
  output_price_nonneg     : 0 ≤ output_micros_per_token

-- What `authorize` bounds a request by.
structure Limits where
  input_tokens  : Int
  output_tokens : Int
  input_nonneg  : 0 ≤ input_tokens
  output_pos    : 0 < output_tokens

structure Usage where
  prompt_tokens     : Int
  completion_tokens : Int
  deriving DecidableEq, Repr

-- The usage a stream has reported so far, as the dict of the keys it has seen.
structure PartialUsage where
  prompt_tokens     : Option Int := none
  completion_tokens : Option Int := none
  deriving DecidableEq, Repr

def PartialUsage.toFields (p : PartialUsage) : Fields :=
  (p.prompt_tokens.map fun n => ("prompt_tokens", Json.int n)).toList ++
  (p.completion_tokens.map fun n => ("completion_tokens", Json.int n)).toList

def PartialUsage.merge (p q : PartialUsage) : PartialUsage where
  prompt_tokens     := pick p.prompt_tokens q.prompt_tokens
  completion_tokens := pick p.completion_tokens q.completion_tokens
where
  -- `observed[key] = max(observed.get(key, 0), value)` for the keys of the new block.
  pick (old new : Option Int) : Option Int :=
    match new with
    | none       => old
    | some value => some <| max (old.getD 0) value

def normalize_usage (provider : String) (payload : Fields) : Except Error Json := do
  let usage := payload.lookup <|
    if provider = "openai" ∨ provider = "anthropic" then "usage" else "usageMetadata"
  let some usage := usage.bind Json.fields? | throw <| .valueError "usage_unavailable"
  let (prompt, completion) ←
    if provider = "openai" then pure ("prompt_tokens", "completion_tokens")
    else if provider = "anthropic" then pure ("input_tokens", "output_tokens")
    else if provider = "google" then pure ("promptTokenCount", "candidatesTokenCount")
    else throw <| Error.valueError "provider_decoder_unsupported"
  match usage.lookup prompt, usage.lookup completion with
  | some (.int p), some (.int c) =>
    if p < 0 ∨ c < 0 then throw <| .valueError "usage_unavailable"
    else return .obj [("prompt_tokens", .int p), ("completion_tokens", .int c)]
  | _, _ => throw <| .valueError "usage_unavailable"

namespace ProviderRoute

-- The output bound a request declares, under the field names of the route's provider.
def declared (r : ProviderRoute) (path : String) (body : Fields) : Except Error (Option Json) := do
  if r.provider = "google" then
    let some generation := (body.lookup "generationConfig").bind Json.fields?
      | throw <| .denied "generation_config_not_allowed"
    if ¬r.model.toList <:+: path.toList then throw <| .denied "model_not_allowed"
    return generation.lookup "maxOutputTokens"
  else
    if body.lookup "model" ≠ some (.str r.model) then throw <| .denied "model_not_allowed"
    match body.lookup "max_tokens", body.lookup "max_completion_tokens" with
    | some _, some _ => throw <| .denied "conflicting_max_tokens"
    | some v, none   => return some v
    | none,   v      => return v

def authorize (c : Codec) (r : ProviderRoute) (path : String) (body : Fields) :
    Except Error Limits := do
  if path ≠ r.path then throw <| .denied "path_not_allowed"
  let declared ← r.declared path body
  if body.lookup "stream" = some (.bool true) ∧ ¬r.allow_streaming then
    throw <| .denied "streaming_not_supported"
  let some (.int declared) := declared | throw <| .denied "unbounded_max_tokens"
  if ho : 0 < declared then
    if declared > r.max_output_tokens then throw <| .denied "max_tokens_exceeds_route_limit"
    let some encoded := c.dumps (.obj body) | throw <| .denied "invalid_request"
    if encoded.utf8ByteSize > r.max_request_bytes then throw <| .denied "request_too_large"
    let some bound := r.input_token_bound | throw <| .denied "input_token_bound_unavailable"
    let .ok (.int input_tokens) := bound body | throw <| .denied "input_token_bound_unavailable"
    if hi : 0 ≤ input_tokens then
      if input_tokens > r.max_input_tokens then
        throw <| .denied "input_tokens_exceeds_route_limit"
      return ⟨input_tokens, declared, hi, ho⟩
    else throw <| .denied "input_token_bound_unavailable"
  else throw <| .denied "unbounded_max_tokens"

def worst_case (r : ProviderRoute) (input_tokens : Int) : Int :=
  input_tokens * r.input_micros_per_token + r.max_output_tokens * r.output_micros_per_token

def observed (r : ProviderRoute) (usage : Option Json) : Except Error (Int × Usage) :=
  match usage.bind Json.fields? with
  | none       => .error <| .denied "usage_unavailable"
  | some usage =>
    match usage.lookup "prompt_tokens", usage.lookup "completion_tokens" with
    | some (.int input_tokens), some (.int output_tokens) =>
      if input_tokens < 0 ∨ output_tokens < 0 then .error <| .denied "usage_unavailable"
      else .ok (
        input_tokens * r.input_micros_per_token + output_tokens * r.output_micros_per_token,
        { prompt_tokens := input_tokens, completion_tokens := output_tokens })
    | _, _ => .error <| .denied "usage_unavailable"

def decode_usage (r : ProviderRoute) (payload : Fields) : Except Error Json :=
  match r.usage_decoder with
  | some decode => decode payload
  | none =>
    if r.provider = "openai" ∨ r.provider = "anthropic" ∨ r.provider = "google" then
      normalize_usage r.provider payload
    else
      match payload.lookup "usage" with
      | some (.obj usage) => .ok (.obj usage)
      | _                 => .error <| .denied "usage_unavailable"

def decode_stream_usage (r : ProviderRoute) (payload : Fields) :
    Except Error (Option PartialUsage) := do
  let usage :=
    if r.usage_decoder.isSome then payload.lookup "usage"
    else if r.provider = "google" then payload.lookup "usageMetadata"
    else if r.provider = "anthropic" then
      match payload.lookup "usage" with
      | some .null | none =>
        match payload.lookup "message" with
        | some (.obj message) => message.lookup "usage"
        | _                   => none
      | usage => usage
    else payload.lookup "usage"
  match usage with
  | none | some .null => return none
  | some (.obj usage) =>
    let (prompt, completion) :=
      if r.provider = "anthropic" then ("input_tokens", "output_tokens")
      else if r.provider = "google" then ("promptTokenCount", "candidatesTokenCount")
      else ("prompt_tokens", "completion_tokens")
    let p ← field (usage.lookup prompt)
    let c ← field (usage.lookup completion)
    return some { prompt_tokens := p, completion_tokens := c }
  | some _ => throw <| .denied "usage_unavailable"
where
  field : Option Json → Except Error (Option Int)
    | none | some .null => .ok none
    | some (.int n)     => if n < 0 then .error <| .denied "usage_unavailable" else .ok (some n)
    | some _            => .error <| .denied "usage_unavailable"

variable {r : ProviderRoute}

theorem worst_case_nonneg (l : Limits) : 0 ≤ r.worst_case l.input_tokens :=
  Int.add_nonneg
    (Int.mul_nonneg l.input_nonneg r.input_price_nonneg)
    (Int.mul_nonneg (Int.le_of_lt r.limits_pos.right.left) r.output_price_nonneg)

theorem observed_nonneg {usage : Option Json} {n : Int} {u : Usage}
    (h : r.observed usage = .ok (n, u)) : 0 ≤ n := by
  simp only [observed] at h
  split at h
  case h_1 => cases h
  case h_2 =>
    split at h
    case h_2 => cases h
    case h_1 =>
      split at h
      case isTrue => cases h
      case isFalse hn =>
        obtain ⟨rfl, -⟩ := Prod.mk.inj <| Except.ok.inj h
        rw [not_or, Int.not_lt, Int.not_lt] at hn
        exact Int.add_nonneg
          (Int.mul_nonneg hn.left r.input_price_nonneg)
          (Int.mul_nonneg hn.right r.output_price_nonneg)

end ProviderRoute

end Egress
