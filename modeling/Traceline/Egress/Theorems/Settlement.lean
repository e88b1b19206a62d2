import Traceline.Egress.Theorems.Closure
import Traceline.Library.Trace

namespace Egress

open Prog (Move Trace)

variable {env : ∀ q : sig.Query, sig.Answer q}

namespace Request

def limits? (r : Request) : Except Error Limits :=
  r.egress.limits? r.path r.headers r.body

-- The usage a provider's answer reports for a request, and what it costs.
def Reports (r : Request) (payload : Payload) (micros : Int) (usage : Usage) : Prop :=
  if r.streaming then
    ∃ events observed, payload = .stream events .finished ∧
      r.egress.accumulate {} events = .ok observed ∧
      r.egress.route.observed (some (.obj observed.toFields)) = .ok (micros, usage)
  else
    ∃ fields reported, payload = .json (.obj fields) ∧
      r.egress.route.decode_usage fields = .ok reported ∧
      r.egress.route.observed (some reported) = .ok (micros, usage)

-- An answer for which no handler of the recorder runs: a stream that its consumer closes or that
-- fails with an exception it does not catch, before its usage is found malformed; or a custom
-- decoder that raises another exception than those it may.
def Unsettled (r : Request) (payload : Payload) : Prop :=
  if r.streaming then
    ∃ events ending observed, payload = .stream events ending ∧
      (ending = .closed ∨ ending = .raised) ∧ r.egress.accumulate {} events = .ok observed
  else
    ∃ fields decode, payload = .json (.obj fields) ∧
      r.egress.route.usage_decoder = some decode ∧ decode fields = .error .raised

end Request

-- The calls that give a reservation back, each with the amount it carries.
def Call.settles : Call → Option Int
  | .commit reservation _    => some reservation
  | .uncertain reservation   => reservation
  | .reserve _ | .record _   => none

def Call.isRecord : Call → Bool
  | .record _ => true
  | _         => false

-- The move of a call the store went along with.
abbrev did (c : Call) (reply : sig.Reply c) : Move sig :=
  .call ⟨c, .ok reply⟩

-- The request was handed to the outbound transport.
def HandedOver (ms : List (Move sig)) : Prop :=
  ∃ body headers, .ask (.send body headers) ∈ ms

-- What a request does once it has the provider's answer.
inductive Settling (r : Request) (l : Limits) (w : Int) :
    Option (Int × Payload) → List (Move sig) → Prop
  | unreachable (rec : Record) :
    Settling r l w none [did (.uncertain (some w)) (), did (.record rec) ()]
  | unmeterable (rec : Record) :
    ¬r.Unsettled payload →
    Settling r l w (some (status, payload)) [did (.uncertain (some w)) (), did (.record rec) ()]
  | within (rec : Record) :
    r.Reports payload cost usage →
    usage.prompt_tokens ≤ l.input_tokens → usage.completion_tokens ≤ l.output_tokens →
    Settling r l w (some (status, payload)) [did (.commit w cost) (), did (.record rec) ()]
  | exceeded (rec : Record) :
    r.Reports payload cost usage →
    ¬(usage.prompt_tokens ≤ l.input_tokens ∧ usage.completion_tokens ≤ l.output_tokens) →
    Settling r l w (some (status, payload))
      [did (.commit w cost) (), did (.uncertain none) (), did (.record rec) ()]
  | unsettled : r.Unsettled payload → Settling r l w (some (status, payload)) []

-- What a request does from its check to its end.
inductive Course (r : Request) (env : ∀ q : sig.Query, sig.Answer q) : List (Move sig) → Prop
  | denied : r.limits? = .error e → Course r env []
  | refused :
    r.limits? = .ok l → w = r.egress.route.worst_case l.input_tokens →
    Course r env [.call ⟨.reserve w, .error e⟩]
  | unresolved :
    r.limits? = .ok l → w = r.egress.route.worst_case l.input_tokens →
    (∀ real, env (.resolve r.egress.route.secret_ref) = some (.str real) → real = "") →
    Course r env [did (.reserve w) w, .ask (.resolve r.egress.route.secret_ref),
      did (.uncertain (some w)) ()]
  | sent :
    r.limits? = .ok l → w = r.egress.route.worst_case l.input_tokens →
    env (.resolve r.egress.route.secret_ref) = some (.str real) → real ≠ "" →
    Settling r l w (env (.send r.body (r.egress.outbound_headers r.headers real))) ms →
    Course r env (did (.reserve w) w :: .ask (.resolve r.egress.route.secret_ref) ::
      .ask (.send r.body (r.egress.outbound_headers r.headers real)) :: ms)

namespace RecordingEgress

variable {self : RecordingEgress} {l : Limits} {w : Int} {ms : List (Move sig)}

theorem unmeterable_trace {α : Type} {status : Option Int} {e : Error} {o : Except Error α}
    (t : Trace session env (self.unmeterable w status e) ms (Prog.ofExcept o)) :
    ms = [did (.uncertain (some w)) (), did (.record (self.metadata status none)) ()] := by
  obtain ⟨s, ⟨e, he, -⟩ | ⟨_, ms₁, -, rfl, t₁⟩⟩ := t.perform_bind_inv
  · cases he
  · obtain ⟨s, ⟨e, he, -⟩ | ⟨_, ms₂, -, rfl, t₂⟩⟩ := t₁.perform_bind_inv
    · cases he
    · obtain ⟨rfl, -⟩ := t₂.throw_inv
      rfl

theorem settle_trace {status micros : Int} {usage : Usage} {o : Except Error Unit}
    (t : Trace session env (self.settle l w status micros usage) ms (Prog.ofExcept o)) :
    ∃ rec : Record, rec.usage = some usage ∧ ms =
      if usage.prompt_tokens ≤ l.input_tokens ∧ usage.completion_tokens ≤ l.output_tokens then
        [did (.commit w micros) (), did (.record rec) ()]
      else
        [did (.commit w micros) (), did (.uncertain none) (), did (.record rec) ()] := by
  refine ⟨{ self.metadata (some status) (some usage) with cost_usd_micros := some micros }, rfl, ?_⟩
  obtain ⟨s, ⟨e, he, -⟩ | ⟨_, ms₁, -, rfl, t₁⟩⟩ := t.perform_bind_inv
  · cases he
  dsimp only at t₁
  split at t₁
  case isTrue hv =>
    rw [if_neg (by omega)]
    obtain ⟨s, ⟨e, he, -⟩ | ⟨_, ms₂, -, rfl, t₂⟩⟩ := t₁.perform_bind_inv
    · cases he
    obtain ⟨s, ⟨e, he, -⟩ | ⟨_, ms₃, -, rfl, t₃⟩⟩ := t₂.perform_bind_inv
    · cases he
    obtain ⟨rfl, -⟩ := t₃.throw_inv
    rfl
  case isFalse hv =>
    rw [if_pos (by omega)]
    obtain ⟨s, ⟨e, he, -⟩ | ⟨_, ms₂, -, rfl, t₂⟩⟩ := t₁.perform_bind_inv
    · cases he
    obtain ⟨rfl, -⟩ := t₂.pure_inv
    rfl

theorem secret_trace {o : Except Error String}
    (t : Trace session env (self.secret w) ms (Prog.ofExcept o)) :
    (∃ e, o = .error e ∧
      ms = [.ask (.resolve self.route.secret_ref), did (.uncertain (some w)) ()] ∧
      ∀ real, env (.resolve self.route.secret_ref) = some (.str real) → real = "") ∨
    ∃ real, o = .ok real ∧ ms = [.ask (.resolve self.route.secret_ref)] ∧
      env (.resolve self.route.secret_ref) = some (.str real) ∧ real ≠ "" := by
  obtain ⟨ms₁, rfl, t₁⟩ := t.query_bind_inv
  have hrefuse {e : Error} (t : Trace session env
      (do uncertain (some w); throw e : Prog sig String) ms₁ (Prog.ofExcept o)) :
      ∃ e, o = .error e ∧ ms₁ = [did (.uncertain (some w)) ()] := by
    obtain ⟨s, ⟨e, he, -⟩ | ⟨_, ms₂, -, rfl, t₂⟩⟩ := t.perform_bind_inv
    · cases he
    · obtain ⟨rfl, rfl⟩ := t₂.throw_inv
      exact ⟨_, rfl, rfl⟩
  split at t₁
  case h_1 real hr =>
    split at t₁
    case isTrue he =>
      obtain ⟨e, rfl, rfl⟩ := hrefuse t₁
      refine .inl ⟨e, rfl, rfl, fun real' hr' => ?_⟩
      obtain rfl := Json.str.inj <| Option.some.inj <| hr.symm.trans hr'
      exact he
    case isFalse hne =>
      obtain ⟨rfl, rfl⟩ := t₁.pure_inv
      exact .inr ⟨real, rfl, rfl, hr, hne⟩
  case h_2 hn =>
    obtain ⟨e, rfl, rfl⟩ := hrefuse t₁
    exact .inl ⟨e, rfl, rfl, fun real hr => absurd hr <| hn real⟩

theorem field_ne_raised (j : Option Json) : ProviderRoute.decode_stream_usage.field j ≠ .error .raised := by
  unfold ProviderRoute.decode_stream_usage.field
  split
  case h_1 | h_2 | h_4 => simp
  case h_3 => split <;> simp

theorem decode_stream_usage_ne_raised (r : ProviderRoute) (payload : Fields) :
    r.decode_stream_usage payload ≠ .error .raised := by
  intro h
  simp only [ProviderRoute.decode_stream_usage] at h
  split at h
  case h_1 | h_2 => cases h
  case h_4 => cases h
  case h_3 =>
    obtain hp | ⟨p, -, h⟩ := Except.bind_eq_error_iff.mp h
    · exact field_ne_raised _ hp
    obtain hc | ⟨c, -, h⟩ := Except.bind_eq_error_iff.mp h
    · exact field_ne_raised _ hc
    cases h

theorem accumulate_ne_raised (observed : PartialUsage) (events : List Json) :
    self.accumulate observed events ≠ .error .raised := by
  induction events generalizing observed with
  | nil => simp [accumulate]
  | cons event events ih =>
    cases event
    case obj event =>
      intro h
      obtain hd | ⟨usage, -, h⟩ := Except.bind_eq_error_iff.mp h
      · exact decode_stream_usage_ne_raised _ _ hd
      · cases usage with
        | none       => exact ih _ h
        | some usage => exact ih _ h
    all_goals simp [accumulate]

theorem normalize_usage_ne_raised (provider : String) (payload : Fields) :
    normalize_usage provider payload ≠ .error .raised := by
  intro h
  simp only [normalize_usage] at h
  split at h
  case h_2 => cases h
  case h_1 =>
    -- Whatever names the provider uses, the two counts are read alike.
    split at h
    case' isFalse => split at h
    case' isFalse.isFalse => split at h
    case isFalse.isFalse.isFalse => cases h
    all_goals
      obtain hn | ⟨_, -, h⟩ := Except.bind_eq_error_iff.mp h
      · cases hn
      · split at h
        · split at h <;> cases h
        · cases h

theorem observed_ne_raised (r : ProviderRoute) (usage : Option Json) :
    r.observed usage ≠ .error .raised := by
  intro h
  simp only [ProviderRoute.observed] at h
  split at h
  case h_1 => cases h
  case h_2 =>
    split at h
    · split at h <;> cases h
    · cases h

-- Only a custom decoder raises what the recorder does not catch.
theorem decode_usage_raised {r : ProviderRoute} {payload : Fields}
    (h : r.decode_usage payload = .error .raised) :
    ∃ decode, r.usage_decoder = some decode ∧ decode payload = .error .raised := by
  simp only [ProviderRoute.decode_usage] at h
  split at h
  case h_1 decode hd => exact ⟨decode, hd, h⟩
  case h_2 =>
    split at h
    · exact absurd h <| normalize_usage_ne_raised _ _
    · split at h <;> cases h

end RecordingEgress

namespace Request

variable {r : Request} {l : Limits} {w status : Int} {ms : List (Move sig)} {o : Except Error Unit}

theorem Reports.not_unsettled {payload : Payload} (h : r.Reports payload cost usage) :
    ¬r.Unsettled payload := by
  unfold Reports at h
  unfold Unsettled
  split at h
  case isTrue hs =>
    rw [if_pos hs]
    obtain ⟨events, observed, rfl, -⟩ := h
    rintro ⟨_, _, _, he, hc | hc, -⟩ <;> simp_all
  case isFalse hs =>
    rw [if_neg hs]
    obtain ⟨fields, reported, rfl, hd, -⟩ := h
    rintro ⟨_, decode, he, hdec, hr⟩
    obtain rfl := Json.obj.inj <| Payload.json.inj he
    simp [ProviderRoute.decode_usage, hdec, hr] at hd

theorem settle_settling {payload : Payload} (hr : r.Reports payload cost usage)
    (t : Trace session env (r.egress.settle l w status cost usage) ms (Prog.ofExcept o)) :
    Settling r l w (some (status, payload)) ms := by
  obtain ⟨rec, -, rfl⟩ := RecordingEgress.settle_trace t
  split
  case isTrue h  => exact .within rec hr h.left h.right
  case isFalse h => exact .exceeded rec hr h

theorem unmeterable_settling {payload : Payload} {α : Type} {e : Error} {o : Except Error α}
    (hu : ¬r.Unsettled payload)
    (t : Trace session env (r.egress.unmeterable w (some status) e) ms (Prog.ofExcept o)) :
    Settling r l w (some (status, payload)) ms :=
  RecordingEgress.unmeterable_trace t ▸ .unmeterable _ hu

theorem stream_settling {events : List Json} {ending : StreamEnd} (hs : r.streaming)
    (t : Trace session env (r.egress.stream l w status events ending) ms (Prog.ofExcept o)) :
    Settling r l w (some (status, .stream events ending)) ms := by
  have hu (h : ∀ observed, r.egress.accumulate {} events = .ok observed →
      ending ≠ .closed ∧ ending ≠ .raised) : ¬r.Unsettled (.stream events ending) := by
    unfold Unsettled
    rw [if_pos hs]
    rintro ⟨_, _, observed, ⟨rfl, rfl⟩, hc, ho⟩
    exact hc.elim (h _ ho).left (h _ ho).right
  unfold RecordingEgress.stream at t
  split at t
  case h_1 he => exact unmeterable_settling (hu <| by simp [he]) t
  case h_2 he => exact absurd he <| RecordingEgress.accumulate_ne_raised _ _
  case h_3 he => exact unmeterable_settling (hu <| by simp [he]) t
  case h_4 observed ho =>
    have hun (hc : ending = .closed ∨ ending = .raised) : r.Unsettled (.stream events ending) := by
      unfold Unsettled
      rw [if_pos hs]
      exact ⟨events, ending, observed, rfl, hc, ho⟩
    split at t
    case h_1 =>
      obtain ⟨rfl, -⟩ := t.pure_inv
      exact .unsettled <| hun <| .inl rfl
    case h_2 =>
      obtain ⟨rfl, -⟩ := t.throw_inv
      exact .unsettled <| hun <| .inr rfl
    case h_3 => exact unmeterable_settling (hu <| by simp) t
    case h_4 => exact unmeterable_settling (hu <| by simp) t
    case h_5 =>
      split at t
      case h_1 => exact unmeterable_settling (hu <| by simp) t
      case h_2 cost usage hobs =>
        have hr : r.Reports (.stream events .finished) cost usage := by
          unfold Reports
          rw [if_pos hs]
          exact ⟨events, observed, rfl, ho, hobs⟩
        exact settle_settling hr t

-- What the two paths do alike: they check, reserve, resolve the secret and hand the request over.
-- A request that gets there ends as its path does, and any other one in a course of its own.
theorem passed_inv {α : Type} {p : Limits → Int → Option (Int × Payload) → Prog sig α}
    {o : Except Error α}
    (t : Trace session env (do
      let l ← @Prog.ofExcept sig _ r.limits?
      let w ← reserve (r.egress.route.worst_case l.input_tokens)
      let real ← r.egress.secret w
      let answer ← send r.body (r.egress.outbound_headers r.headers real)
      p l w answer : Prog sig α) ms (Prog.ofExcept o)) :
    (Course r env ms ∧ ¬HandedOver ms) ∨
    ∃ l w real ms', r.limits? = .ok l ∧ w = r.egress.route.worst_case l.input_tokens ∧
      env (.resolve r.egress.route.secret_ref) = some (.str real) ∧ real ≠ "" ∧
      ms = did (.reserve w) w :: .ask (.resolve r.egress.route.secret_ref) ::
        .ask (.send r.body (r.egress.outbound_headers r.headers real)) :: ms' ∧
      Trace session env (p l w (env (.send r.body (r.egress.outbound_headers r.headers real)))) ms'
        (Prog.ofExcept o) := by
  obtain ⟨e, -, t⟩ | ⟨l, ms₁, ms₂, rfl, t₁, t₂⟩ := t.bind_inv
  · obtain ⟨rfl, he⟩ := t.ofExcept_inv
    exact .inl ⟨.denied he.symm, by simp [HandedOver]⟩
  obtain ⟨rfl, hl⟩ := t₁.ofExcept_inv
  replace hl : r.limits? = .ok l := hl.symm
  obtain ⟨s, ⟨e, -, rfl, -⟩ | ⟨w, ms₃, hw, rfl, t₃⟩⟩ := t₂.perform_bind_inv
  · exact .inl ⟨.refused hl rfl, by simp [HandedOver]⟩
  obtain rfl : w = r.egress.route.worst_case l.input_tokens := by
    simp only at hw
    split at hw
    case h_1 h => exact Except.ok.inj hw ▸ (Budget.reserve_ok_iff.mp h).right.right.left
    case h_2   => cases hw
  obtain ⟨e, -, t₄⟩ | ⟨real, ms₄, ms₅, rfl, t₄, t₅⟩ := t₃.bind_inv
  · obtain ⟨e, -, rfl, hn⟩ | ⟨real, hreal, -⟩ := RecordingEgress.secret_trace t₄
    · exact .inl ⟨.unresolved hl rfl hn, by simp [HandedOver]⟩
    · cases hreal
  obtain ⟨e, he, -⟩ | ⟨real, hreal, rfl, hs, hne⟩ := RecordingEgress.secret_trace t₄
  · cases he
  obtain rfl := Except.ok.inj hreal
  obtain ⟨ms₆, rfl, t₆⟩ := t₅.query_bind_inv
  exact .inr ⟨l, _, real, ms₆, hl, rfl, hs, hne, rfl, t₆⟩

theorem course_of {α : Type} {p : Limits → Int → Option (Int × Payload) → Prog sig α}
    {o : Except Error α}
    (t : Trace session env (do
      let l ← @Prog.ofExcept sig _ r.limits?
      let w ← reserve (r.egress.route.worst_case l.input_tokens)
      let real ← r.egress.secret w
      let answer ← send r.body (r.egress.outbound_headers r.headers real)
      p l w answer : Prog sig α) ms (Prog.ofExcept o))
    (hp : ∀ l w answer ms, Trace session env (p l w answer) ms (Prog.ofExcept o) →
      Settling r l w answer ms) :
    Course r env ms := by
  obtain ⟨h, -⟩ | ⟨l, w, real, ms', hl, hw, hs, hne, rfl, t'⟩ := passed_inv t
  · exact h
  · exact .sent hl hw hs hne <| hp _ _ _ _ t'

theorem forward_course {o : Except Error (Int × Payload)} (hs : ¬r.streaming)
    (t : Trace session env (r.egress.forward r.path r.headers r.body) ms (Prog.ofExcept o)) :
    Course r env ms := by
  unfold RecordingEgress.forward at t
  refine course_of t fun l w answer ms t => ?_
  split at t
  case h_1 => exact RecordingEgress.unmeterable_trace t ▸ .unreachable _
  case h_2 status payload =>
    dsimp only at t
    split at t
    case h_1 cost usage hm =>
      have hr : r.Reports payload cost usage := by
        unfold Reports
        rw [if_neg hs]
        obtain ⟨reported, hd, ho⟩ := Except.bind_eq_ok_iff.mp hm
        split at hd
        case h_1 fields =>
          obtain ⟨found, hf, rfl⟩ := Except.map_eq_ok_iff.mp hd
          exact ⟨fields, found, rfl, hf, ho⟩
        case h_2 =>
          obtain rfl := Except.ok.inj hd
          cases ho
      obtain ⟨e, -, t⟩ | ⟨_, ms₁, ms₂, rfl, t₁, t₂⟩ := t.bind_inv
      · exact settle_settling hr t
      · obtain ⟨rfl, -⟩ := t₂.pure_inv
        exact List.append_nil _ ▸ settle_settling hr t₁
    case h_2 hm =>
      obtain ⟨rfl, -⟩ := t.throw_inv
      refine .unsettled ?_
      unfold Unsettled
      rw [if_neg hs]
      obtain hd | ⟨reported, -, ho⟩ := Except.bind_eq_error_iff.mp hm
      · split at hd
        case h_1 fields =>
          obtain ⟨decode, hdec, hr⟩ :=
            RecordingEgress.decode_usage_raised <| Except.map_eq_error_iff.mp hd
          exact ⟨fields, decode, rfl, hdec, hr⟩
        case h_2 => cases hd
      · exact absurd ho <| RecordingEgress.observed_ne_raised _ _
    case h_3 e hne hm =>
      refine unmeterable_settling ?_ t
      unfold Unsettled
      rw [if_neg hs]
      rintro ⟨fields, decode, rfl, hdec, hr⟩
      simp [ProviderRoute.decode_usage, hdec, hr, Except.map] at hm
      exact hne (Except.error.inj hm).symm

theorem forward_stream_course {o : Except Error Int} (hs : r.streaming)
    (t : Trace session env (r.egress.forward_stream r.path r.headers r.body) ms (Prog.ofExcept o)) :
    Course r env ms := by
  have hstream {l : Limits} {w status : Int} {events : List Json} {ending : StreamEnd}
      {ms : List (Move sig)} (t : Trace session env (do
        r.egress.stream l w status events ending
        return status : Prog sig Int) ms (Prog.ofExcept o)) :
      Settling r l w (some (status, .stream events ending)) ms := by
    obtain ⟨e, -, t⟩ | ⟨_, ms₁, ms₂, rfl, t₁, t₂⟩ := t.bind_inv
    · exact stream_settling hs t
    · obtain ⟨rfl, -⟩ := t₂.pure_inv
      exact List.append_nil _ ▸ stream_settling hs t₁
  have hlist (value : Json) : ¬r.Unsettled (.json value) := by
    unfold Unsettled
    rw [if_pos hs]
    rintro ⟨_, _, _, he, -⟩
    cases he
  unfold RecordingEgress.forward_stream at t
  refine course_of t fun l w answer ms t => ?_
  split at t
  case h_1 => exact RecordingEgress.unmeterable_trace t ▸ .unreachable _
  case h_2 status payload =>
    split at t
    case h_1 => exact hstream t
    -- A list is no stream of bytes: it reports no usage.
    case h_2 | h_3 =>
      obtain ⟨e, -, t⟩ | ⟨_, ms₁, ms₂, rfl, t₁, t₂⟩ := t.bind_inv
      · exact unmeterable_settling (hlist _) t
      · obtain ⟨rfl, -⟩ := t₂.pure_inv
        exact List.append_nil _ ▸ unmeterable_settling (hlist _) t₁
    case h_4 =>
      refine unmeterable_settling ?_ t
      unfold Unsettled
      rw [if_pos hs]
      rintro ⟨events, ending, _, rfl, -⟩
      simp_all

theorem course {o : Except Error Unit} (t : Trace session env r.prog ms (Prog.ofExcept o)) :
    Course r env ms := by
  unfold prog at t
  split at t
  case isTrue hs =>
    obtain ⟨e, -, t⟩ | ⟨_, ms₁, ms₂, rfl, t₁, t₂⟩ := t.bind_inv
    · exact forward_stream_course hs t
    · obtain ⟨rfl, -⟩ := t₂.pure_inv
      exact List.append_nil _ ▸ forward_stream_course hs t₁
  case isFalse hs =>
    obtain ⟨e, -, t⟩ | ⟨_, ms₁, ms₂, rfl, t₁, t₂⟩ := t.bind_inv
    · exact forward_course hs t
    · obtain ⟨rfl, -⟩ := t₂.pure_inv
      exact List.append_nil _ ▸ forward_course hs t₁

end Request

-- The reservation a call obtained.
def granted : Event sig → Option Int
  | ⟨.reserve _, .ok w⟩ => some w
  | _                   => none

def reservations (ms : List (Move sig)) : List Int :=
  ms.filterMap Move.event? |>.filterMap granted

-- The reservations a request gives back, in order.
def settlements (ms : List (Move sig)) : List Int :=
  ms.filterMap Move.event? |>.filterMap (·.call.settles)

def recordings (ms : List (Move sig)) : ℕ :=
  ms.filterMap Move.event? |>.countP (·.call.isRecord)

-- The answer to an admitted request, once its secret is known.
def Request.Abandoned (r : Request) (env : ∀ q : sig.Query, sig.Answer q) : Prop :=
  ∃ real status payload, env (.resolve r.egress.route.secret_ref) = some (.str real) ∧ real ≠ "" ∧
    env (.send r.body (r.egress.outbound_headers r.headers real)) = some (status, payload) ∧
    r.Unsettled payload

theorem Settling.reservations_eq_nil {r : Request} {l : Limits} {w : Int} {ms : List (Move sig)}
    {answer : Option (Int × Payload)} (h : Settling r l w answer ms) : reservations ms = [] := by
  cases h <;> rfl

-- The answer decides whether the reservation is given back, and recorded.
theorem Settling.settles_iff {r : Request} {l : Limits} {w : Int} {ms : List (Move sig)}
    {answer : Option (Int × Payload)} (h : Settling r l w answer ms) :
    (settlements ms = [w] ∧ recordings ms = 1) ↔
      ∀ status payload, answer = some (status, payload) → ¬r.Unsettled payload := by
  cases h with
  | unreachable rec    => simp [settlements, recordings, Move.event?, Call.settles, Call.isRecord]
  | unmeterable rec hu =>
    simpa [settlements, recordings, Move.event?, Call.settles, Call.isRecord] using hu
  | within rec hr =>
    simpa [settlements, recordings, Move.event?, Call.settles, Call.isRecord]
      using hr.not_unsettled
  | exceeded rec hr =>
    simpa [settlements, recordings, Move.event?, Call.settles, Call.isRecord]
      using hr.not_unsettled
  | unsettled hu => simp [settlements, hu]

-- An admitted request gives its reservation back exactly once, and is recorded exactly once if it
-- was handed over, exactly if the provider's answer is one the recorder has a handler for.
theorem settles_once_iff (r : Request) (env : ∀ q : sig.Query, sig.Answer q) (ms : List (Move sig))
    (o : Except Error Unit) (w : Int) (t : Trace session env r.prog ms (Prog.ofExcept o))
    (hw : w ∈ reservations ms) :
    (settlements ms = [w] ∧ (HandedOver ms → recordings ms = 1)) ↔ ¬r.Abandoned env := by
  cases r.course t with
  | denied h          => simp [reservations] at hw
  | refused h hw'     => simp [reservations, Move.event?, granted] at hw
  | unresolved h _ hn =>
    have hna : ¬r.Abandoned env := fun ⟨real, _, _, hr, hne, _⟩ => hne <| hn real hr
    obtain rfl : w = _ := by simpa [reservations, Move.event?, granted] using hw
    refine iff_of_true ⟨rfl, fun ⟨body, headers, hsend⟩ => ?_⟩ hna
    simp at hsend
  | @sent l _ real ms h _ hr hne hset =>
    obtain rfl : w = _ := by
      have hnil := hset.reservations_eq_nil
      simp only [reservations, Move.event?, granted, List.filterMap_cons] at hw hnil
      simpa [hnil] using hw
    have hsent : HandedOver (did (.reserve w) w :: .ask (.resolve r.egress.route.secret_ref) ::
        .ask (.send r.body (r.egress.outbound_headers r.headers real)) :: ms) :=
      ⟨_, _, .tail _ <| .tail _ <| .head _⟩
    rw [forall_prop_of_true hsent]
    refine hset.settles_iff.trans ⟨?_, ?_⟩
    · rintro hu ⟨real', status, payload, hr', -, ha, hp⟩
      obtain rfl := Json.str.inj <| Option.some.inj <| hr'.symm.trans hr
      exact hu status payload ha hp
    · exact fun hu status payload ha hp => hu ⟨real, status, payload, hr, hne, ha, hp⟩

namespace Closing

def route : ProviderRoute :=
  { Reopening.route with allow_streaming := true }

def request : Request where
  egress    := { Reopening.request.egress with route }
  path      := "/v1/chat/completions"
  headers   := [("Authorization", "Bearer dummy")]
  body      := [("model", .str "m"), ("max_tokens", .int 4), ("stream", .bool true)]
  streaming := true

-- The provider streams its answer, which ends as given.
def upstream (ending : StreamEnd) : ∀ q : sig.Query, sig.Answer q
  | .resolve _ => some (.str "real")
  | .send _ _  => some (200, .stream [.obj [
      ("usage", .obj [("prompt_tokens", .int 2), ("completion_tokens", .int 1)])]] ending)

def moves (ending : StreamEnd) : List (Move sig) :=
  (request.prog.alone session (upstream ending) (Session.start 100 fun _ : Unit => request).store).1

theorem moves_trace (ending : StreamEnd) :
    ∃ o, Trace session (upstream ending) request.prog (moves ending) (Prog.ofExcept o) :=
  ⟨_, .of_alone _ _⟩

theorem mem_reservations (ending : StreamEnd) : 15 ∈ reservations (moves ending) := by
  cases ending <;> decide +kernel

-- The consumer closes the stream: nothing gives the reservation back.
theorem closed_unsettled :
    ¬∀ (r : Request) env ms o w, Trace session env r.prog ms (Prog.ofExcept o) → w ∈ reservations ms →
      settlements ms = [w] ∧ (HandedOver ms → recordings ms = 1) := by
  intro hall
  obtain ⟨o, t⟩ := moves_trace .closed
  have hs := hall _ _ _ o 15 t (mem_reservations _) |>.left
  exact absurd hs <| by decide +kernel

theorem settles_once_iff_finished :
    (settlements (moves .finished) = [15] ∧
      (HandedOver (moves .finished) → recordings (moves .finished) = 1)) ↔
    ¬request.Abandoned (upstream .finished) :=
  settles_once_iff request _ _ _ 15 (.of_alone _ _) (mem_reservations _)

end Closing

end Egress
