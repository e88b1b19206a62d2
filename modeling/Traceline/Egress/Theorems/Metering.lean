import Traceline.Egress.Theorems.Settlement

namespace Egress

open Prog (Move Trace)

-- The value of a usage field, if it can be metered.
def count : Option Json → Option Int
  | some (.int n) => if n < 0 then none else some n
  | _             => none

def counts (names : String × String) (usage : Fields) : Option Usage := do
  let prompt_tokens ← count (usage.lookup names.1)
  let completion_tokens ← count (usage.lookup names.2)
  return { prompt_tokens, completion_tokens }

-- A usage field delivered over the frames of a stream: some frame holds its value, and any other
-- value a frame holds is a count on the way there.
def Spread (v : Option Json) (ws : List Json) : Prop :=
  match v with
  | none | some .null => ∀ w ∈ ws, w = .null
  | some v            => v ∈ ws ∧
    ∀ w ∈ ws, w = .null ∨ w = v ∨ ∃ a b : ℤ, w = .int a ∧ v = .int b ∧ 0 ≤ a ∧ a ≤ b

theorem count_eq_some_iff : count j = some n ↔ j = some (.int n) ∧ 0 ≤ n := by
  unfold count
  split
  case h_1 m =>
    split
    case isTrue h  => simp; rintro rfl; omega
    case isFalse h => simp; rintro rfl; omega
  case h_2 h =>
    simp only [reduceCtorEq, false_iff, not_and]
    rintro rfl
    exact absurd rfl <| h n

theorem count_map_of_count {n : Option ℤ} (h : count j = n) : count (n.map Json.int) = n := by
  cases n with
  | none   => rfl
  | some n => exact count_eq_some_iff.mpr ⟨rfl, (count_eq_some_iff.mp h).right⟩

theorem counts_eq_match (names : String × String) (usage : Fields) :
    counts names usage =
      match usage.lookup names.1, usage.lookup names.2 with
      | some (.int p), some (.int c) => if p < 0 ∨ c < 0 then none else some ⟨p, c⟩
      | _, _                         => none := by
  unfold counts
  split
  case h_1 p c hp hc =>
    rw [hp, hc]
    by_cases h₁ : p < 0 <;> by_cases h₂ : c < 0 <;> simp [count, h₁, h₂]
  case h_2 h =>
    cases hp : count (usage.lookup names.1) with
    | none   => rfl
    | some p =>
      cases hc : count (usage.lookup names.2) with
      | none   => rfl
      | some c => exact absurd (count_eq_some_iff.mp hc).left <| h _ _ (count_eq_some_iff.mp hp).left

namespace ProviderRoute

variable {r : ProviderRoute}

-- Under which key a plain body holds its usage.
def usage_key (r : ProviderRoute) : String :=
  if r.provider = "google" then "usageMetadata" else "usage"

-- What a provider calls the two counts.
def names (r : ProviderRoute) : String × String :=
  if r.provider = "anthropic" then ("input_tokens", "output_tokens")
  else if r.provider = "google" then ("promptTokenCount", "candidatesTokenCount")
  else ("prompt_tokens", "completion_tokens")

-- The usage block of a stream's event, where the route looks for it.
def block (r : ProviderRoute) (event : Fields) : Option Json :=
  if r.usage_decoder.isSome then event.lookup "usage"
  else if r.provider = "google" then event.lookup "usageMetadata"
  else if r.provider = "anthropic" then
    match event.lookup "usage" with
    | some .null | none =>
      match event.lookup "message" with
      | some (.obj message) => message.lookup "usage"
      | _                   => none
    | usage => usage
  else event.lookup "usage"

-- What is recorded for a usage, with what it costs.
def metered (r : ProviderRoute) (usage : Usage) : Int × Usage :=
  (usage.prompt_tokens * r.input_micros_per_token +
    usage.completion_tokens * r.output_micros_per_token, usage)

def metered_plain (r : ProviderRoute) (payload : Fields) : Option (Int × Usage) :=
  (r.decode_usage payload >>= fun usage => r.observed (some usage)).toOption

theorem observed_toOption (usage : Json) :
    (r.observed (some usage)).toOption =
      (usage.fields?.bind <| counts ("prompt_tokens", "completion_tokens")).map r.metered := by
  unfold observed
  cases usage
  case obj usage =>
    simp only [Option.bind_some, Json.fields?]
    rw [counts_eq_match]
    dsimp only
    generalize usage.lookup "prompt_tokens" = p
    generalize usage.lookup "completion_tokens" = c
    cases p with
    | none   => rfl
    | some p =>
      cases c with
      | none   => cases p <;> rfl
      | some c =>
        cases p
        case int p =>
          cases c
          case int c =>
            dsimp only
            split <;> rfl
          all_goals rfl
        all_goals rfl
  all_goals rfl

theorem metered_plain_custom {decode : Fields → Except Error Json} (h : r.usage_decoder = some decode)
    (payload : Fields) :
    r.metered_plain payload = (((decode payload).toOption.bind Json.fields?).bind
      <| counts ("prompt_tokens", "completion_tokens")).map r.metered := by
  rw [metered_plain, decode_usage, h]
  dsimp only
  cases decode payload with
  | error e  => rfl
  | ok usage => exact observed_toOption usage

-- The two counts as `normalize_usage` hands them on.
def normalized (usage : Usage) : Json :=
  .obj [("prompt_tokens", .int usage.prompt_tokens), ("completion_tokens", .int usage.completion_tokens)]

theorem counts_normalized {names : String × String} {fields : Fields} {usage : Usage}
    (h : counts names fields = some usage) :
    (normalized usage).fields?.bind (counts ("prompt_tokens", "completion_tokens")) = some usage := by
  obtain ⟨p, hp, h⟩ := Option.bind_eq_some_iff.mp h
  obtain ⟨c, hc, h⟩ := Option.bind_eq_some_iff.mp h
  cases h
  have hcount {n : Int} (hn : 0 ≤ n) : count (some (.int n)) = some n :=
    count_eq_some_iff.mpr ⟨rfl, hn⟩
  simp [normalized, Json.fields?, counts, List.lookup_cons, hcount (count_eq_some_iff.mp hp).right,
    hcount (count_eq_some_iff.mp hc).right]

theorem normalize_usage_eq (h : r.provider = "openai" ∨ r.provider = "anthropic" ∨ r.provider = "google")
    (payload : Fields) :
    (normalize_usage r.provider payload).toOption =
      (((payload.lookup r.usage_key).bind Json.fields?).bind <| counts r.names).map normalized := by
  have hread (prompt completion : String) (usage : Fields) :
      (match usage.lookup prompt, usage.lookup completion with
      | some (.int p), some (.int c) =>
        if p < 0 ∨ c < 0 then throw <| .valueError "usage_unavailable"
        else return .obj [("prompt_tokens", .int p), ("completion_tokens", .int c)]
      | _, _ => throw <| .valueError "usage_unavailable" : Except Error Json).toOption =
      (counts (prompt, completion) usage).map normalized := by
    rw [counts_eq_match]
    dsimp only
    split
    case h_1 => split <;> rfl
    case h_2 => rfl
  obtain h | h | h := h
  all_goals
    simp only [normalize_usage, usage_key, names, h]
    simp only [String.reduceEq, if_true, if_false, or_true, or_false]
    cases (List.lookup _ payload).bind Json.fields? with
    | none       => rfl
    | some usage => exact hread _ _ usage

-- The provider's own names, and those of a plain body no decoder of the library reads.
theorem metered_plain_provider (h : r.usage_decoder = none) (payload : Fields) :
    r.metered_plain payload =
      (((payload.lookup r.usage_key).bind Json.fields?).bind <| counts r.names).map r.metered := by
  rw [metered_plain, decode_usage, h]
  dsimp only
  split
  case isTrue hp =>
    have hn := normalize_usage_eq hp payload
    cases hu : ((payload.lookup r.usage_key).bind Json.fields?).bind <| counts r.names with
    | none =>
      rw [hu] at hn
      cases he : normalize_usage r.provider payload with
      | error e  => rfl
      | ok usage => simp [he, Except.toOption] at hn
    | some usage =>
      rw [hu] at hn
      have he : normalize_usage r.provider payload = .ok (normalized usage) := by
        cases he : normalize_usage r.provider payload <;> simp_all [Except.toOption]
      obtain ⟨fields, -, hf⟩ := Option.bind_eq_some_iff.mp hu
      rw [he]
      exact (observed_toOption _).trans <| congrArg _ <| counts_normalized hf
  case isFalse hp =>
    have hkey : r.usage_key = "usage" := if_neg fun h => hp <| .inr <| .inr h
    have hnames : r.names = ("prompt_tokens", "completion_tokens") := by simp_all [names]
    rw [hkey, hnames]
    split
    case h_1 usage hu => rw [hu]; exact observed_toOption (.obj usage)
    case h_2 hu       =>
      cases hl : payload.lookup "usage" with
      | none   => rfl
      | some j =>
        cases j
        case obj usage => exact absurd hl <| hu usage
        all_goals rfl

-- The value an event reports under a name.
def reading (r : ProviderRoute) (name : String) (event : Json) : Option Json := do
  let event ← event.fields?
  let block ← r.block event
  let usage ← block.fields?
  usage.lookup name

-- The values a stream reports under a name, in order.
def values (r : ProviderRoute) (name : String) (events : List Json) : List Json :=
  events.filterMap <| r.reading name

-- What a stream that reports these values keeps of them, unless one of them is refused.
def peak (old : Option Int) : List Json → Option (Option Int)
  | []      => some old
  | v :: vs => do
    let new ← (decode_stream_usage.field (some v)).toOption
    peak (PartialUsage.merge.pick old new) vs

theorem decode_stream_usage_eq (event : Fields) :
    r.decode_stream_usage event =
      match r.block event with
      | none | some .null => .ok none
      | some (.obj usage) => do
        let p ← decode_stream_usage.field (usage.lookup r.names.1)
        let c ← decode_stream_usage.field (usage.lookup r.names.2)
        return some { prompt_tokens := p, completion_tokens := c }
      | some _ => .error <| .denied "usage_unavailable" := by
  unfold decode_stream_usage block names
  rfl

theorem peak_null {vs : List Json} (h : ∀ v ∈ vs, v = .null) (old : Option Int) :
    peak old vs = some old := by
  induction vs with
  | nil => rfl
  | cons v vs ih =>
    obtain rfl := h v <| .head _
    exact ih fun w hw => h w <| .tail _ hw

theorem peak_refused {vs : List Json} {v : Json} (hv : v ∈ vs)
    (h : decode_stream_usage.field (some v) = .error e) (old : Option Int) : peak old vs = none := by
  induction vs generalizing old with
  | nil => cases hv
  | cons w vs ih =>
    obtain rfl | hv := List.mem_cons.mp hv
    · rw [peak, h]
      rfl
    · rw [peak]
      cases decode_stream_usage.field (some w) with
      | error _ => rfl
      | ok new  => exact ih hv _

-- What is kept never exceeds the last count, and reaches it where it is reported.
theorem peak_cumulative {vs : List Json} {b : ℤ}
    (h : ∀ v ∈ vs, v = .null ∨ ∃ a : ℤ, v = .int a ∧ 0 ≤ a ∧ a ≤ b) {old : Option Int}
    (hold : ∀ a ∈ old, a ≤ b) (hb : old = some b ∨ .int b ∈ vs) : peak old vs = some (some b) := by
  induction vs generalizing old with
  | nil =>
    obtain rfl := hb.resolve_right (List.not_mem_nil)
    rfl
  | cons v vs ih =>
    replace ih := @ih fun w hw => h w <| .tail _ hw
    obtain rfl | ⟨a, rfl, ha, hab⟩ := h v <| .head _
    · refine ih hold <| hb.imp_right fun hb => ?_
      obtain hb | hb := List.mem_cons.mp hb
      · cases hb
      · exact hb
    · have hf : decode_stream_usage.field (some (.int a)) = .ok (some a) := if_neg (by omega)
      rw [peak, hf]
      have hle : old.getD 0 ≤ b := by
        cases old with
        | none   => simp; omega
        | some n => exact hold n rfl
      refine @ih (some (max (old.getD 0) a)) ?_ ?_
      · rintro n ⟨⟩
        omega
      · obtain rfl | hb := hb
        · exact .inl <| congrArg some <| by rw [Option.getD_some]; omega
        · obtain hb | hb := List.mem_cons.mp hb
          · cases hb
            exact .inl <| congrArg some <| by omega
          · exact .inr hb

theorem peak_spread {v : Option Json} {ws : List Json} (h : Spread v ws) :
    (peak none ws).join = count v := by
  unfold Spread at h
  split at h
  case h_1 | h_2 =>
    rw [peak_null h]
    rfl
  case h_3 v hne =>
    obtain ⟨hv, hws⟩ := h
    have hcases : (∃ b : ℤ, v = .int b ∧ 0 ≤ b) ∨
        (∃ e, decode_stream_usage.field (some v) = .error e) ∧ count (some v) = none := by
      cases v
      case null  => exact absurd rfl hne
      case int b =>
        by_cases hb : b < 0
        · exact .inr ⟨⟨_, if_pos hb⟩, if_pos hb⟩
        · exact .inl ⟨b, rfl, by omega⟩
      all_goals exact .inr ⟨⟨_, rfl⟩, rfl⟩
    obtain ⟨b, rfl, hb⟩ | ⟨⟨e, he⟩, hc⟩ := hcases
    · have hle : ∀ w ∈ ws, w = .null ∨ ∃ a : ℤ, w = .int a ∧ 0 ≤ a ∧ a ≤ b := by
        intro w hw
        obtain rfl | rfl | ⟨a, b', rfl, hb', ha, hab⟩ := hws w hw
        · exact .inl rfl
        · exact .inr ⟨b, rfl, hb, Int.le_refl b⟩
        · cases hb'
          exact .inr ⟨a, rfl, ha, hab⟩
      rw [peak_cumulative hle (by simp) (.inr hv)]
      exact (if_neg (by omega)).symm
    · rw [peak_refused hv he, hc]
      rfl

-- One value more is one more to keep.
theorem peak_lookup (old : Option Int) (v : Option Json) (vs : List Json) :
    peak old (v.toList ++ vs) =
      (decode_stream_usage.field v).toOption.bind fun new =>
        peak (PartialUsage.merge.pick old new) vs := by
  cases v with
  | none   => rfl
  | some v => rfl

theorem values_cons (name : String) (event : Json) (events : List Json) :
    r.values name (event :: events) = (r.reading name event).toList ++ r.values name events := by
  cases h : r.reading name event <;> simp [values, h]

theorem reading_obj {event usage : Fields} (h : r.block event = some (.obj usage)) (name : String) :
    r.reading name (.obj event) = usage.lookup name := by
  simp [reading, Json.fields?, h]

theorem reading_skip {event : Fields} (h : r.block event = none ∨ r.block event = some .null)
    (name : String) : r.reading name (.obj event) = none := by
  obtain h | h := h <;> simp [reading, Json.fields?, h]

end ProviderRoute

namespace RecordingEgress

open ProviderRoute (values peak)

variable {self : RecordingEgress}

-- An event that is an object, and whose usage block, if any, is one.
def Shaped (r : ProviderRoute) (event : Json) : Prop :=
  ∃ fields, event = .obj fields ∧
    (r.block fields = none ∨ r.block fields = some .null ∨ ∃ usage, r.block fields = some (.obj usage))

theorem accumulate_toOption (observed : PartialUsage) (events : List Json)
    (h : ∀ event ∈ events, Shaped self.route event) :
    (self.accumulate observed events).toOption = do
      let prompt_tokens ← peak observed.prompt_tokens (self.route.values self.route.names.1 events)
      let completion_tokens ← peak observed.completion_tokens (self.route.values self.route.names.2 events)
      return { prompt_tokens, completion_tokens } := by
  induction events generalizing observed with
  | nil => rfl
  | cons event events ih =>
    replace ih (observed : PartialUsage) := ih observed fun e he => h e <| .tail _ he
    obtain ⟨fields, rfl, hb⟩ := h event <| .head _
    have hd := self.route.decode_stream_usage_eq fields
    rw [ProviderRoute.values_cons, ProviderRoute.values_cons, accumulate, hd]
    obtain hb | hb | ⟨usage, hb⟩ := hb
    case inr.inr =>
      rw [ProviderRoute.reading_obj hb, ProviderRoute.reading_obj hb, ProviderRoute.peak_lookup,
        ProviderRoute.peak_lookup, hb]
      dsimp only
      cases hp : ProviderRoute.decode_stream_usage.field (usage.lookup self.route.names.1) with
      | error e => rfl
      | ok p    =>
        cases hc : ProviderRoute.decode_stream_usage.field (usage.lookup self.route.names.2) with
        | error e => simp [Except.toOption, Except.bind, bind]
        | ok c    => exact ih _
    case inl =>
      rw [ProviderRoute.reading_skip (.inl hb), ProviderRoute.reading_skip (.inl hb), hb]
      exact ih _
    case inr.inl =>
      rw [ProviderRoute.reading_skip (.inr hb), ProviderRoute.reading_skip (.inr hb), hb]
      exact ih _

-- Frames that hold no object leave what the stream has reported as it was, if they are not refused.
theorem accumulate_silent {observed observed' : PartialUsage} {events : List Json}
    (h : ∀ event ∈ events, ∃ fields, event = .obj fields ∧
      ∀ usage, self.route.block fields ≠ some (.obj usage))
    (ho : self.accumulate observed events = .ok observed') : observed' = observed := by
  induction events with
  | nil => exact (Except.ok.inj ho).symm
  | cons event events ih =>
    obtain ⟨fields, rfl, hb⟩ := h event <| .head _
    obtain ⟨new, hd, ho⟩ := Except.bind_eq_ok_iff.mp ho
    rw [self.route.decode_stream_usage_eq] at hd
    split at hd
    case h_1 | h_2    =>
      cases hd
      exact ih (fun e he => h e <| .tail _ he) ho
    case h_3 usage hu => exact absurd hu <| hb usage
    case h_4          => cases hd

def metered_stream (self : RecordingEgress) (events : List Json) : Option (Int × Usage) :=
  (self.accumulate {} events >>= fun observed =>
    self.route.observed (some (.obj observed.toFields))).toOption

theorem counts_toFields (observed : PartialUsage) :
    counts ("prompt_tokens", "completion_tokens") observed.toFields = do
      let prompt_tokens ← count (observed.prompt_tokens.map Json.int)
      let completion_tokens ← count (observed.completion_tokens.map Json.int)
      return { prompt_tokens, completion_tokens } := by
  cases observed with
  | mk p c => cases p <;> cases c <;> rfl

end RecordingEgress

-- A stream delivers a usage: no frame holds another thing than a part of it, and the parts add up to
-- both of its counts.
structure Delivers (r : ProviderRoute) (usage : Option Json) (events : List Json) : Prop where
  parts : ∀ event ∈ events, ∃ fields, event = .obj fields ∧
    (r.block fields = none ∨ r.block fields = some .null ∨
      (∃ part whole, r.block fields = some (.obj part) ∧ usage = some (.obj whole)) ∨
      r.block fields = usage)
  spread : ∀ whole, usage = some (.obj whole) →
    Spread (whole.lookup r.names.1) (r.values r.names.1 events) ∧
    Spread (whole.lookup r.names.2) (r.values r.names.2 events)

namespace RecordingEgress

variable {self : RecordingEgress}

theorem metered_stream_eq {usage : Option Json} {events : List Json}
    (h : Delivers self.route usage events) :
    self.metered_stream events =
      ((usage.bind Json.fields?).bind <| counts self.route.names).map self.route.metered := by
  have hobs (o : PartialUsage) := self.route.observed_toOption (.obj o.toFields)
  simp only [Json.fields?, Option.bind_some, counts_toFields] at hobs
  have hm : self.metered_stream events = (self.accumulate {} events).toOption.bind fun o =>
      (self.route.observed (some (.obj o.toFields))).toOption := by
    unfold metered_stream
    cases self.accumulate {} events <;> rfl
  by_cases hu : ∃ whole, usage = some (.obj whole)
  case pos =>
    obtain ⟨whole, rfl⟩ := hu
    obtain ⟨hp, hc⟩ := h.spread whole rfl
    have hshaped : ∀ event ∈ events, Shaped self.route event := by
      intro event he
      obtain ⟨fields, rfl, hb⟩ := h.parts event he
      refine ⟨fields, rfl, ?_⟩
      obtain hb | hb | ⟨part, _, hb, -⟩ | hb := hb
      · exact .inl hb
      · exact .inr <| .inl hb
      · exact .inr <| .inr ⟨part, hb⟩
      · exact .inr <| .inr ⟨whole, hb⟩
    rw [hm, self.accumulate_toOption {} events hshaped]
    simp only [hobs, Option.bind_some, Json.fields?, counts]
    rw [← ProviderRoute.peak_spread hp, ← ProviderRoute.peak_spread hc]
    replace hp := ProviderRoute.peak_spread hp
    replace hc := ProviderRoute.peak_spread hc
    cases hP : ProviderRoute.peak none (self.route.values self.route.names.1 events) with
    | none   => rfl
    | some p =>
      cases hC : ProviderRoute.peak none (self.route.values self.route.names.2 events) with
      | none   => cases p <;> rfl
      | some c =>
        rw [hP] at hp
        rw [hC] at hc
        have hp' : count (p.map Json.int) = p := count_map_of_count hp.symm
        have hc' : count (c.map Json.int) = c := count_map_of_count hc.symm
        simp [hp', hc']
  case neg =>
    rw [hm]
    have hnone : (usage.bind Json.fields?) = none := by
      cases usage with
      | none   => rfl
      | some j =>
        cases j
        case obj whole => exact absurd ⟨whole, rfl⟩ hu
        all_goals rfl
    rw [hnone]
    have hsilent : ∀ event ∈ events, ∃ fields, event = .obj fields ∧
        ∀ part, self.route.block fields ≠ some (.obj part) := by
      intro event he
      obtain ⟨fields, rfl, hb⟩ := h.parts event he
      refine ⟨fields, rfl, fun part hpart => ?_⟩
      obtain hb | hb | ⟨_, whole, -, hw⟩ | hb := hb
      · simp [hb] at hpart
      · simp [hb] at hpart
      · exact hu ⟨whole, hw⟩
      · exact hu ⟨part, hb.symm.trans hpart⟩
    cases ho : self.accumulate {} events with
    | error e     => rfl
    | ok observed =>
      obtain rfl := accumulate_silent hsilent ho
      exact hobs {}

end RecordingEgress

-- The costs a request commits, and the usages it records.
def costs (ms : List (Move sig)) : List Int :=
  ms.filterMap Move.event? |>.filterMap fun e =>
    match e.call with
    | .commit _ observed => some observed
    | _                  => none

def usages (ms : List (Move sig)) : List Usage :=
  ms.filterMap Move.event? |>.filterMap fun e =>
    match e.call with
    | .record rec => rec.usage
    | _           => none

-- A request handed over commits and records what was metered, or nothing.
def Meters (m : Option (Int × Usage)) (ms : List (Move sig)) : Prop :=
  costs ms = (m.map Prod.fst).toList ∧ usages ms = (m.map Prod.snd).toList

section Path

variable {env : ∀ q : sig.Query, sig.Answer q} {r : Request} {l : Limits} {w status micros : Int}
variable {usage : Usage} {ms : List (Move sig)} {m : Option (Int × Usage)}

theorem unmeterable_meters {α : Type} {status : Option Int} {e : Error} {o : Except Error α}
    {self : RecordingEgress}
    (t : Trace session env (self.unmeterable w status e) ms (Prog.ofExcept o)) : Meters none ms :=
  RecordingEgress.unmeterable_trace t ▸ ⟨rfl, rfl⟩

theorem settle_meters {o : Except Error Unit} {self : RecordingEgress}
    (t : Trace session env (self.settle l w status micros usage) ms (Prog.ofExcept o)) :
    Meters (some (micros, usage)) ms := by
  obtain ⟨rec, hrec, rfl⟩ := RecordingEgress.settle_trace t
  unfold Meters costs usages
  split <;> simp [Move.event?, hrec]

theorem forward_meters {payload : Fields} {o : Except Error (Int × Payload)} (hsent : HandedOver ms)
    (henv : ∀ body headers, env (.send body headers) = some (status, .json (.obj payload)))
    (t : Trace session env (r.egress.forward r.path r.headers r.body) ms (Prog.ofExcept o)) :
    Meters (r.egress.route.metered_plain payload) ms := by
  unfold RecordingEgress.forward at t
  obtain ⟨-, hn⟩ | ⟨l, w, real, ms', -, -, -, -, rfl, t'⟩ := Request.passed_inv t
  · exact absurd hsent hn
  suffices h : Meters (r.egress.route.metered_plain payload) ms' from h
  rw [henv] at t'
  unfold ProviderRoute.metered_plain
  cases hd : r.egress.route.decode_usage payload with
  | error e =>
    simp only [hd] at t'
    cases e with
    | raised =>
      obtain ⟨rfl, -⟩ := t'.throw_inv
      exact ⟨rfl, rfl⟩
    | _ => exact unmeterable_meters t'
  | ok reported =>
    simp only [hd] at t'
    change Meters (r.egress.route.observed (some reported)).toOption ms'
    cases ho : r.egress.route.observed (some reported) with
    | error e =>
      simp only [Except.map, Except.bind, bind, ho] at t'
      cases e with
      | raised =>
        obtain ⟨rfl, -⟩ := t'.throw_inv
        exact ⟨rfl, rfl⟩
      | _ => exact unmeterable_meters t'
    | ok m =>
      simp only [Except.map, Except.bind, bind, ho] at t'
      obtain ⟨e, -, t₁⟩ | ⟨_, ms₁, ms₂, rfl, t₁, t₂⟩ := Trace.bind_inv t'
      · exact settle_meters t₁
      · obtain ⟨rfl, -⟩ := t₂.pure_inv
        exact List.append_nil _ ▸ settle_meters t₁

theorem stream_meters {self : RecordingEgress} {events : List Json} {o : Except Error Unit}
    (t : Trace session env (self.stream l w status events .finished) ms (Prog.ofExcept o)) :
    Meters (self.metered_stream events) ms := by
  unfold RecordingEgress.stream at t
  unfold RecordingEgress.metered_stream
  cases ha : self.accumulate {} events with
  | error e =>
    simp only [ha] at t
    cases e with
    | raised => exact absurd ha <| RecordingEgress.accumulate_ne_raised _ _
    | _      => exact unmeterable_meters t
  | ok observed =>
    simp only [ha] at t
    change Meters (self.route.observed (some (.obj observed.toFields))).toOption ms
    cases ho : self.route.observed (some (.obj observed.toFields)) with
    | error e =>
      simp only [ho] at t
      exact unmeterable_meters t
    | ok m    =>
      simp only [ho] at t
      exact settle_meters t

theorem forward_stream_meters {events : List Json} {o : Except Error Int} (hsent : HandedOver ms)
    (henv : ∀ body headers, env (.send body headers) = some (status, .stream events .finished))
    (t : Trace session env (r.egress.forward_stream r.path r.headers r.body) ms (Prog.ofExcept o)) :
    Meters (r.egress.metered_stream events) ms := by
  unfold RecordingEgress.forward_stream at t
  obtain ⟨-, hn⟩ | ⟨l, w, real, ms', -, -, -, -, rfl, t'⟩ := Request.passed_inv t
  · exact absurd hsent hn
  suffices h : Meters (r.egress.metered_stream events) ms' from h
  rw [henv] at t'
  obtain ⟨e, -, t₁⟩ | ⟨_, ms₁, ms₂, rfl, t₁, t₂⟩ := Trace.bind_inv t'
  · exact stream_meters t₁
  · obtain ⟨rfl, -⟩ := t₂.pure_inv
    exact List.append_nil _ ▸ stream_meters t₁

end Path

-- A decoder of the route's own finds the very counts the usage has under its provider's names.
def Concurs (r : ProviderRoute) (payload : Fields) (usage : Option Json) : Prop :=
  ∀ decode, r.usage_decoder = some decode →
    ((decode payload).toOption.bind Json.fields?).bind (counts ("prompt_tokens", "completion_tokens")) =
      (usage.bind Json.fields?).bind (counts r.names)

theorem metered_eq_iff {self : RecordingEgress} {payload : Fields} {usage : Option Json}
    {events : List Json}
    (hplain : self.route.usage_decoder = none → payload.lookup self.route.usage_key = usage)
    (hstream : Delivers self.route usage events) :
    self.route.metered_plain payload = self.metered_stream events ↔
      Concurs self.route payload usage := by
  have hinj : Function.Injective self.route.metered := fun u u' h => congrArg Prod.snd h
  rw [RecordingEgress.metered_stream_eq hstream]
  cases hd : self.route.usage_decoder with
  | none        =>
    rw [ProviderRoute.metered_plain_provider hd, hplain hd]
    exact iff_of_true rfl fun decode h => by cases hd.symm.trans h
  | some decode =>
    rw [ProviderRoute.metered_plain_custom hd]
    refine (Option.map_injective hinj).eq_iff.trans ⟨fun h decode' hd' => ?_, fun h => h decode hd⟩
    cases hd.symm.trans hd'
    exact h

-- A usage costs the same whether it comes in a plain body or in the frames of a stream, exactly if
-- no decoder of the route's own reads the plain body otherwise.
theorem costs_same_iff (r : Request) (payload : Fields) (usage : Option Json) (events : List Json)
    (status status' : Int) (env env' : ∀ q : sig.Query, sig.Answer q) (ms ms' : List (Move sig))
    (o : Except Error (Int × Payload)) (o' : Except Error Int)
    (hplain : r.egress.route.usage_decoder = none →
      payload.lookup r.egress.route.usage_key = usage)
    (hstream : Delivers r.egress.route usage events)
    (henv : ∀ body headers, env (.send body headers) = some (status, .json (.obj payload)))
    (henv' : ∀ body headers, env' (.send body headers) = some (status', .stream events .finished))
    (t : Trace session env (r.egress.forward r.path r.headers r.body) ms (Prog.ofExcept o))
    (t' : Trace session env' (r.egress.forward_stream r.path r.headers r.body) ms' (Prog.ofExcept o'))
    (hsent : HandedOver ms) (hsent' : HandedOver ms') :
    (costs ms = costs ms' ∧ usages ms = usages ms') ↔
      Concurs r.egress.route payload usage := by
  obtain ⟨hc, hr⟩ := forward_meters hsent henv t
  obtain ⟨hc', hr'⟩ := forward_stream_meters hsent' henv' t'
  rw [hc, hr, hc', hr', ← metered_eq_iff hplain hstream]
  refine ⟨fun ⟨h₁, h₂⟩ => ?_, fun h => by rw [h]; exact ⟨rfl, rfl⟩⟩
  cases hm : r.egress.route.metered_plain payload <;>
    cases hm' : r.egress.metered_stream events <;> simp_all [Prod.ext_iff]

def isSend : Move sig → Bool
  | .ask (.send _ _) => true
  | _                => false

theorem handedOver_of_any {ms : List (Move sig)} (h : ms.any isSend) : HandedOver ms := by
  obtain ⟨m, hm, hs⟩ := List.any_eq_true.mp h
  cases m with
  | call e => cases hs
  | ask q  =>
    cases q with
    | resolve secret_ref => cases hs
    | send body headers  => exact ⟨body, headers, hm⟩

namespace Renamed

-- A provider that calls its counts otherwise, and the decoder an administrator has for it.
def decode (payload : Fields) : Except Error Json :=
  match (payload.lookup "usage").bind Json.fields? with
  | some usage => .ok <| .obj [
      ("prompt_tokens", (usage.lookup "in").getD .null),
      ("completion_tokens", (usage.lookup "out").getD .null)]
  | none       => .error <| .valueError "usage_unavailable"

def request : Request :=
  { Closing.request with
    egress := { Closing.request.egress with route := { Closing.route with usage_decoder := some decode } } }

def start : Session :=
  (Session.start 100 fun _ : Unit => request).store

def plain (payload : Fields) : ∀ q : sig.Query, sig.Answer q
  | .resolve _ => some (.str "real")
  | .send _ _  => some (200, .json (.obj payload))

def streamed (events : List Json) : ∀ q : sig.Query, sig.Answer q
  | .resolve _ => some (.str "real")
  | .send _ _  => some (200, .stream events .finished)

def forwarded (r : Request) (payload : Fields) : List (Move sig) :=
  (r.egress.forward r.path r.headers r.body).alone session (plain payload) start |>.1

def forwarded_stream (r : Request) (events : List Json) : List (Move sig) :=
  (r.egress.forward_stream r.path r.headers r.body).alone session (streamed events) start |>.1

theorem forwarded_trace (r : Request) (payload : Fields) :
    ∃ o, Trace session (plain payload) (r.egress.forward r.path r.headers r.body)
      (forwarded r payload) (Prog.ofExcept o) :=
  ⟨_, .of_alone _ _⟩

theorem forwarded_stream_trace (r : Request) (events : List Json) :
    ∃ o, Trace session (streamed events) (r.egress.forward_stream r.path r.headers r.body)
      (forwarded_stream r events) (Prog.ofExcept o) :=
  ⟨_, .of_alone _ _⟩

def usage : Json :=
  .obj [("in", .int 2), ("out", .int 1)]

theorem delivers : Delivers request.egress.route (some usage) [.obj [("usage", usage)]] where
  parts := by
    intro event he
    cases List.mem_singleton.mp he
    exact ⟨_, rfl, .inr <| .inr <| .inr rfl⟩
  spread := by
    rintro whole ⟨⟩
    exact ⟨List.forall_mem_nil _, List.forall_mem_nil _⟩

-- The plain body costs three micros, and the stream is not metered.
theorem costs_differ :
    ¬∀ (r : Request) payload usage events status status' env env' ms ms'
      (o : Except Error (Int × Payload)) (o' : Except Error Int),
      payload.lookup r.egress.route.usage_key = usage → Delivers r.egress.route usage events →
      (∀ body headers, env (.send body headers) = some (status, .json (.obj payload))) →
      (∀ body headers, env' (.send body headers) = some (status', .stream events .finished)) →
      Trace session env (r.egress.forward r.path r.headers r.body) ms (Prog.ofExcept o) →
      Trace session env' (r.egress.forward_stream r.path r.headers r.body) ms' (Prog.ofExcept o') →
      HandedOver ms → HandedOver ms' →
      costs ms = costs ms' ∧ usages ms = usages ms' := by
  intro hall
  obtain ⟨o, t⟩ := forwarded_trace request [("usage", usage)]
  obtain ⟨o', t'⟩ := forwarded_stream_trace request [.obj [("usage", usage)]]
  have h := hall request [("usage", usage)] (some usage) [.obj [("usage", usage)]] 200 200
    _ _ _ _ o o' rfl delivers (fun _ _ => rfl) (fun _ _ => rfl) t t'
    (handedOver_of_any <| by decide +kernel) (handedOver_of_any <| by decide +kernel)
  exact absurd h.left <| by decide +kernel

-- The same usage under the names the route knows, counted up over two frames.
def known : Json :=
  .obj [("prompt_tokens", .int 2), ("completion_tokens", .int 1)]

def frames : List Json := [
  .obj [("usage", .obj [("prompt_tokens", .int 2), ("completion_tokens", .int 0)])],
  .obj [("usage", .obj [("completion_tokens", .int 1)])]]

theorem frames_deliver : Delivers Closing.route (some known) frames where
  parts := by
    intro event he
    obtain rfl | he := List.mem_cons.mp he
    · exact ⟨_, rfl, .inr <| .inr <| .inl ⟨_, _, rfl, rfl⟩⟩
    · cases List.mem_singleton.mp he
      exact ⟨_, rfl, .inr <| .inr <| .inl ⟨_, _, rfl, rfl⟩⟩
  spread := by
    rintro whole ⟨⟩
    refine ⟨⟨.head _, fun w hw => ?_⟩, ⟨.tail _ <| .head _, fun w hw => ?_⟩⟩
    · exact .inr <| .inl <| List.mem_singleton.mp hw
    · obtain rfl | hw := List.mem_cons.mp hw
      · exact .inr <| .inr ⟨0, 1, rfl, rfl, by decide, by decide⟩
      · exact .inr <| .inl <| List.mem_singleton.mp hw

theorem known_costs_same :
    (costs (forwarded Closing.request [("usage", known)]) =
        costs (forwarded_stream Closing.request frames) ∧
      usages (forwarded Closing.request [("usage", known)]) =
        usages (forwarded_stream Closing.request frames)) ↔
    Concurs Closing.route [("usage", known)] (some known) := by
  obtain ⟨o, t⟩ := forwarded_trace Closing.request [("usage", known)]
  obtain ⟨o', t'⟩ := forwarded_stream_trace Closing.request frames
  exact costs_same_iff Closing.request [("usage", known)] (some known) frames 200 200
    _ _ _ _ o o' (fun _ => rfl) frames_deliver (fun _ _ => rfl) (fun _ _ => rfl) t t'
    (handedOver_of_any <| by decide +kernel) (handedOver_of_any <| by decide +kernel)

end Renamed

end Egress
