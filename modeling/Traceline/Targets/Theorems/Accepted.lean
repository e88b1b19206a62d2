import Traceline.Targets.Theorems.Verified

-- What the service has stored of a target that it accepted.
namespace Targets

open Except (bind_eq_ok_iff)
open Plans (Fields or_empty assign)
open Prog (Exec)

variable {L : Libraries} {policy : EndpointPolicy} {d : Destination} {pin : Pin}
variable {body content : Fields} {r2_enabled : Bool} {c : Checked} {α β : Type}
variable {M : Store sig} {allow : ∀ q : Query, q.Answer → Prop} {s t : M.State}

theorem exec_ofExcept_inv {x : Except Error α} {a : α}
    (e : Exec M allow (Prog.ofExcept x) s t (.ok a)) : x = .ok a := by
  cases x with
  | ok b    =>
    cases e
    rfl
  | error b => cases e

theorem exec_bind_ok_inv {p : Prog sig α} {g : α → Prog sig β} {b : β}
    (e : Exec M allow (p >>= g) s t (.ok b)) :
    ∃ a u, Exec M allow p s u (.ok a) ∧ Exec M allow (g a) u t (.ok b) := by
  rcases e.bind_inv with ⟨ho, -⟩ | ⟨_, ho, -⟩ | h
  · cases ho
  · cases ho
  · exact h

theorem exec_authorize_inv {url : Json} (e : Exec M allow (policy.authorize L url) s t (.ok pin)) :
    ∃ d records, destination L url = .ok d ∧ approve L policy d records = .ok pin := by
  obtain ⟨d, u, ed, e⟩ := exec_bind_ok_inv e
  obtain ⟨records, u, -, e⟩ := exec_bind_ok_inv e
  exact ⟨d, records, exec_ofExcept_inv ed, exec_ofExcept_inv e⟩

-- What was checked, and the pin of the endpoint at that time.
theorem Accepted.inv (h : Accepted L policy r2_enabled body content) :
    ∃ c pin d records, check_body L r2_enabled body = .ok c ∧ destination L (.str c.url) = .ok d ∧
      approve L policy d records = .ok pin ∧ Targets.content body c pin = .ok content := by
  obtain ⟨M, allow, s, t, e⟩ := h
  obtain ⟨c, _, ec, e⟩ := exec_bind_ok_inv e
  obtain ⟨pin, _, ep, e⟩ := exec_bind_ok_inv e
  obtain ⟨d, records, hd, ha⟩ := exec_authorize_inv ep
  exact ⟨c, pin, d, records, exec_ofExcept_inv ec, hd, ha, exec_ofExcept_inv e⟩

theorem content_lookup (h : Targets.content body c pin = .ok content) {k : String} {v : Json}
    (hb : (base_content body c pin).lookup k = some v) : content.lookup k = some v := by
  obtain ⟨more, -, h⟩ := bind_eq_ok_iff.mp h
  obtain ⟨_, -, h⟩ := bind_eq_ok_iff.mp h
  cases h
  rw [List.lookup_append, hb]
  rfl

theorem approve_pin {records : Option (List String)} (h : approve L policy d records = .ok pin) :
    pin.scheme = d.scheme ∧ pin.pinned_host = d.host := by
  obtain ⟨_, _, _, _, _, rfl⟩ := approve_eq_ok_iff.mp h
  exact ⟨rfl, rfl⟩

-- What the fields of an accepted target are.
inductive Stored (L : Libraries) (policy : EndpointPolicy) (content : Fields) (d : Destination) : Prop
  | intro {text : String} {pin : Pin} {records : Option (List String)} {m : Mode} {f : Framework}
    (url       : content.lookup "url" = some (.str text))
    (parsed    : destination L (.str text) = .ok d)
    (approved  : approve L policy d records = .ok pin)
    (pinned    : content.lookup "pinned" = some pin.json)
    (kind      : content.lookup "kind" = some (.str m.kind))
    (framework : content.lookup "framework" = some (.str f.toString))
    (provider  : f = .anthropic_messages ∨ f = .google_generative →
      ∃ model max_tokens, content.lookup "model" = some (.str model) ∧ model ≠ "" ∧
        content.lookup "max_tokens" = some (.int max_tokens) ∧ 1 ≤ max_tokens ∧ max_tokens ≤ 1000000)
    (mapped    : ((content.lookup "output_mapping").getD .null).truthy)

theorem check_provider_eq_ok {framework : Framework} {model max_tokens : Json} {u : Unit}
    (h : check_provider framework model max_tokens = .ok u)
    (hf : framework = .anthropic_messages ∨ framework = .google_generative) :
    ∃ m n, model = .str m ∧ m ≠ "" ∧ max_tokens = .int n ∧ 1 ≤ n ∧ n ≤ 1000000 := by
  unfold check_provider at h
  rw [if_pos hf] at h
  obtain ⟨_, hm, hn⟩ := bind_eq_ok_iff.mp h
  rw [check_eq_ok_iff] at hm
  cases max_tokens with
  | int n =>
    have hn := check_eq_ok_iff.mp hn
    cases model with
    | str m => exact ⟨m, n, rfl, by simpa [Json.string?] using hm, rfl, hn.left, hn.right⟩
    | _     => simp [Json.string?] at hm
  | _     => cases hn

-- The last of the checks of `check_body`.
theorem check_endpoint_framework {mode : Mode} {framework : Framework} {mapping : Json}
    (h : (match body.lookup "url" with
      | some (.str url) => do
        check (url ≠ "") <| workflow_error "url is required"
        let auth ← dict_of <| or_else (body.lookup "auth") (.obj [("type", .str "none")])
        check_auth L auth
        return { mode, framework, mapping, url, auth }
      | _               => .error <| workflow_error "url is required" : Except Error Checked) = .ok c) :
    c.framework = framework := by
  split at h
  case h_1 =>
    obtain ⟨_, -, h⟩ := bind_eq_ok_iff.mp h
    obtain ⟨_, -, h⟩ := bind_eq_ok_iff.mp h
    obtain ⟨_, -, h⟩ := bind_eq_ok_iff.mp h
    cases h
    rfl
  case h_2 => cases h

theorem check_body_provider (h : check_body L r2_enabled body = .ok c) :
    ∃ u, check_provider c.framework ((body.lookup "model").getD .null)
      ((body.lookup "max_tokens").getD .null) = .ok u := by
  obtain ⟨mode, -, h⟩ := bind_eq_ok_iff.mp h
  dsimp only at h
  split at h
  case h_1             => cases h
  case h_2 framework _ =>
    obtain ⟨u, hp, h⟩ := bind_eq_ok_iff.mp h
    obtain ⟨_, -, h⟩ := bind_eq_ok_iff.mp h
    obtain ⟨_, -, h⟩ := bind_eq_ok_iff.mp h
    suffices hc : c.framework = framework from ⟨u, hc ▸ hp⟩
    split at h
    case isTrue  =>
      obtain ⟨_, -, h⟩ := bind_eq_ok_iff.mp h
      split at h
      case h_1 => exact check_endpoint_framework h
      case h_2 => exact check_endpoint_framework h
      case h_3 =>
        obtain ⟨_, -, h⟩ := bind_eq_ok_iff.mp h
        exact check_endpoint_framework h
    case isFalse =>
      obtain ⟨_, -, h⟩ := bind_eq_ok_iff.mp h
      split at h
      case h_1 => exact check_endpoint_framework h
      case h_2 => exact check_endpoint_framework h
      case h_3 =>
        obtain ⟨_, -, h⟩ := bind_eq_ok_iff.mp h
        exact check_endpoint_framework h

-- The addresses that a target was pinned to are not another pin.
theorem HttpJsonAdapter.rebound_self {target : Fields} (h : target.lookup "pinned" = some pin.json) :
    HttpJsonAdapter.rebound target pin = .ok false := by
  have hset : set_of (.arr <| pin.addresses.map .str) = .ok (pin.addresses.map .str) := by
    have hc : ∀ x ∈ pin.addresses.map Json.str, (Plans.hash x).isOk := by
      intro x hx
      obtain ⟨a, -, rfl⟩ := List.mem_map.mp hx
      rfl
    simp only [set_of, check, if_pos hc]
    rfl
  have hall : (pin.addresses.map Json.str).all (fun a => a.string?.any (· ∈ pin.addresses)) := by
    simp [Json.string?]
  have hmem : pin.addresses.all fun a => .str a ∈ pin.addresses.map Json.str := by
    simp
  have hget : get (or_empty (some pin.json)) "addresses" = .ok (.arr <| pin.addresses.map .str) := rfl
  unfold rebound
  rw [h, hget]
  simp only [bind, Except.bind, hset]
  split
  case isTrue  => simp only [hall, hmem, Bool.and_self, Bool.not_true, pure, Except.pure]
  case isFalse => rfl

theorem Accepted.stored (h : Accepted L policy r2_enabled body content) :
    ∃ d, Stored L policy content d := by
  obtain ⟨c, pin, d, records, hc, hd, ha, h⟩ := h.inv
  refine ⟨d, .intro (content_lookup h rfl) hd ha (content_lookup h rfl) (content_lookup h rfl)
    (content_lookup h rfl) (fun hf => ?_) ?_⟩
  · obtain ⟨u, hp⟩ := check_body_provider hc
    obtain ⟨model, max_tokens, hm, hne, hn, hl, hu⟩ := check_provider_eq_ok hp hf
    refine ⟨model, max_tokens, ?_, hne, ?_, hl, hu⟩
    · exact content_lookup h <| congrArg some hm
    · exact content_lookup h <| congrArg some hn
  · have hm := content_lookup (k := "output_mapping") h rfl
    rw [hm]
    dsimp only [Option.getD]
    split
    case isTrue ht => exact ht
    case isFalse   => rfl

end Targets
