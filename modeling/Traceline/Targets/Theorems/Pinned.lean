import Traceline.Library.Except
import Traceline.Library.Logged
import Traceline.Targets.Connections

namespace Targets

open Except (bind_eq_ok_iff)
open Plans (Fields)
open Prog (Keeps)
open Streaming (SSEParser StreamFrame)

abbrev Log := List (Event sig)

section

variable (L : Libraries) (policy : EndpointPolicy) (log : Log)

-- A call of `authorize` has approved the pin, by the records of a lookup in the log.
inductive Authorized (pin : Pin) : Prop
  | intro {url : Json} {d : Destination} {records : Option (List String)}
    (parsed   : destination L url = .ok d)
    (looked   : ⟨Call.getaddrinfo d.host d.port, .ok records⟩ ∈ log)
    (approved : approve L policy d records = .ok pin)

-- The connection goes to an address that was approved for its scheme, host and port. The allow list
-- lifts nothing but that the address is globally routable.
inductive Approval (c : Connection) : Prop
  | intro {pin : Pin} {ip : Address}
    (authorized : Authorized L policy log pin)
    (scheme     : c.scheme = pin.scheme)
    (host       : L.raw_host (pin.scheme ++ "://" ++ _authority pin.pinned_host) = some c.sni_hostname)
    (port       : c.port = pin.pinned_port)
    (address    : c.address ∈ pin.addresses)
    (parsed     : L.ip_address c.address = some ip)
    (unicast    : ip.is_multicast = false)
    (unmapped   : ip.ipv4_mapped = false)
    (routable   : ip.is_global ∨ s!"{pin.pinned_host}:{pin.pinned_port}" ∈ policy.allow_exact)

-- Every connection of the log was approved before it was opened.
def Approved : Prop :=
  ∀ before e after, log = before ++ e :: after → ∀ t r c, e.call = .send t r →
    t.connection L r = .ok c → Approval L policy before c

end

-- An address prints as a text that denotes it.
structure Libraries.Lawful (L : Libraries) : Prop where
  ip_address_text : ∀ s ip, L.ip_address s = some ip → L.ip_address ip.text = some ip

variable {L : Libraries} {policy : EndpointPolicy} {log log' : Log} {pin : Pin} {d : Destination}
variable {t : PinnedTransport} {r : Request} {c : Connection} {e : Event sig} {α β : Type}

theorem check_eq_ok_iff {p : Prop} [Decidable p] {e : Error} {u : Unit} : check p e = .ok u ↔ p := by
  unfold check
  split <;> simp_all

theorem Authorized.mono (h : Authorized L policy log pin) (hp : log <+: log') :
    Authorized L policy log' pin := by
  obtain ⟨hd, hl, ha⟩ := h
  exact ⟨hd, hp.subset hl, ha⟩

namespace Approved

theorem nil : Approved L policy [] := by
  intro before e after he
  simp at he

theorem snoc (h : Approved L policy log)
    (he : ∀ t r c, e.call = .send t r → t.connection L r = .ok c → Approval L policy log c) :
    Approved L policy (log ++ [e]) := by
  intro before e' after heq
  rcases List.append_eq_append_iff.mp heq with ⟨rest, rfl, hr⟩ | ⟨rest, rfl, hr⟩
  case inl =>
    cases rest with
    | nil      =>
      cases hr
      simpa using he
    | cons _ _ => simp at hr
  case inr =>
    cases rest with
    | nil      =>
      cases hr
      simpa using he
    | cons _ _ =>
      cases hr
      exact h _ _ _ rfl

theorem snoc_lookup {host : String} {port : ℕ} {reply : Except Error (Option (List String))}
    (h : Approved L policy log) :
    Approved L policy (log ++ [⟨Call.getaddrinfo host port, reply⟩]) :=
  h.snoc nofun

end Approved

-- An address that a policy lets through.
theorem approve_address_eq_ok_iff {s text : String} :
    approve_address L policy d s = .ok text ↔
      '%' ∉ s.toList ∧ ∃ ip, L.ip_address s = some ip ∧ ip.text = text ∧
        ip.is_multicast = false ∧ ip.ipv4_mapped = false ∧ (ip.is_global ∨ policy.allowed d) := by
  unfold approve_address
  by_cases hs : '%' ∈ s.toList
  case pos => simp [hs]
  case neg =>
    cases hip : L.ip_address s with
    | none    => simp [hs]
    | some ip =>
      simp only [hs, if_false, not_false_eq_true, true_and, Option.some.injEq, exists_eq_left']
      split
      case isTrue h  =>
        simp_all [Address.protected_]
        grind
      case isFalse h =>
        simp_all [Address.protected_]
        grind

theorem approve_eq_ok_iff {records : Option (List String)} :
    approve L policy d records = .ok pin ↔ ∃ rs addresses, records = some rs ∧
      rs.mapM (approve_address L policy d) = .ok addresses ∧ addresses ≠ [] ∧
        pin = ⟨d.host, d.port, d.scheme, addresses.eraseDups⟩ := by
  cases records with
  | none    => simp [approve]
  | some rs =>
    simp only [approve, bind_eq_ok_iff, check_eq_ok_iff, exists_const, Option.some.injEq]
    constructor
    · rintro ⟨addresses, hm, hne, hp⟩
      exact ⟨rs, addresses, rfl, hm, hne, (Except.ok.inj hp).symm⟩
    · rintro ⟨_, addresses, rfl, hm, hne, rfl⟩
      exact ⟨addresses, hm, hne, rfl⟩

-- A transport dials an address of its pin.
theorem PinnedTransport.new_eq_ok (h : PinnedTransport.new L pin = .ok t) :
    ∃ address rest ip, pin.addresses = address :: rest ∧ L.ip_address address = some ip ∧
      t.address = ip.text ∧ t.port = pin.pinned_port ∧ t.scheme = pin.scheme ∧
        L.raw_host (pin.scheme ++ "://" ++ _authority pin.pinned_host) = some t.host := by
  unfold PinnedTransport.new at h
  split at h
  case h_1 => cases h
  case h_2 address rest ha =>
    split at h
    case h_1 => cases h
    case h_2 ip hip =>
      split at h
      case h_1 => cases h
      case h_2 host hh =>
        cases h
        exact ⟨address, rest, ip, ha, hip, rfl, rfl, rfl, hh⟩

-- A request goes out where it has the origin of its transport.
theorem PinnedTransport.connection_eq_ok (h : t.connection L r = .ok c) :
    c.scheme = t.scheme ∧ c.sni_hostname = t.host ∧ c.port = t.port ∧ c.address = t.address := by
  obtain ⟨u, -, h⟩ := bind_eq_ok_iff.mp h
  unfold PinnedTransport.handle_request at h
  split at h
  case isTrue => cases h
  case isFalse hne =>
    cases h
    push Not at hne
    exact ⟨hne.right.right, hne.left, hne.right.left, rfl⟩

theorem Authorized.approval (hL : L.Lawful) (ha : Authorized L policy log pin)
    (ht : PinnedTransport.new L pin = .ok t) (hc : t.connection L r = .ok c) :
    Approval L policy log c := by
  obtain ⟨address, rest, ip, haddr, hip, hta, htp, hts, hth⟩ := PinnedTransport.new_eq_ok ht
  obtain ⟨hs, hh, hp, hadd⟩ := PinnedTransport.connection_eq_ok hc
  have ⟨_, _, happ⟩ := ha
  obtain ⟨rs, addresses, -, hm, -, rfl⟩ := approve_eq_ok_iff.mp happ
  have hmem : address ∈ addresses.eraseDups := by
    rw [show addresses.eraseDups = address :: rest from haddr]
    exact .head _
  obtain ⟨s, -, hs'⟩ := Except.exists_of_mapM_eq_ok hm (List.mem_eraseDups.mp hmem)
  obtain ⟨-, ip', hip', rfl, hu, hm, hg⟩ := approve_address_eq_ok_iff.mp hs'
  cases hip.symm.trans (hL.ip_address_text _ _ hip')
  have hca : c.address = ip.text := hadd.trans hta
  exact .intro ha (hs.trans hts) (hth.trans (congrArg some hh.symm)) (hp.trans htp) (hca ▸ hmem)
    (hca ▸ hip) hu hm (hg.imp id of_decide_eq_true)

section Adapters

variable {allow : ∀ q : Query, q.Answer → Prop} {M : Store sig} {Q : α → Log → Prop}

-- A block that was handled yields what it came to or what a handler returns.
theorem keeps_attempt_cases {I : Log → Prop} {p : Prog sig α} {handler : Error → Option β}
    (hp : Keeps M allow I p log Q) :
    Keeps M allow I (attempt p handler) log fun r log' =>
      (∀ a, r = .ok a → Q a log') ∧ ∀ b, r = .error b → ∃ e, handler e = some b := by
  refine Keeps.tryCatch (hp.map fun a log' ha => ⟨fun b hb => Except.ok.inj hb ▸ ha, nofun⟩)
    fun e log' _ hi => ?_
  cases hh : handler e with
  | none   => exact .throw hi
  | some b => exact .pure hi ⟨nofun, fun b' hb => ⟨e, Except.error.inj hb ▸ hh⟩⟩

theorem keeps_attempt {I : Log → Prop} {p : Prog sig α} {handler : Error → Option β}
    (hp : Keeps M allow I p log Q) :
    Keeps M allow I (attempt p handler) log fun r log' => ∀ a, r = .ok a → Q a log' :=
  (keeps_attempt_cases hp).mono fun _ _ _ _ h => h.left

theorem keeps_authorize {url : Json} (hi : Approved L policy log) :
    Keeps M allow (Approved L policy) (policy.authorize L url) log
      fun pin log' => Authorized L policy log' pin := by
  refine Keeps.ofExcept_bind hi fun d hd => ?_
  refine Keeps.bind (Q := fun records log₂ => ⟨Call.getaddrinfo d.host d.port, .ok records⟩ ∈ log₂)
    (.perform (fun _ => hi.snoc_lookup) fun records => by simp) fun records log₂ _ hi hr => ?_
  exact .ofExcept hi fun pin hp => ⟨hd, hr, hp⟩

theorem keeps_send (hL : L.Lawful) (hi : Approved L policy log) (ha : Authorized L policy log pin)
    (ht : PinnedTransport.new L pin = .ok t) :
    Keeps M allow (Approved L policy) (Prog.perform (S := sig) (Call.send t r)) log fun _ _ => True := by
  refine .perform (fun reply => hi.snoc fun t' r' c hc hconn => ?_) fun _ => trivial
  cases hc
  exact ha.approval hL ht hconn

namespace HttpJsonAdapter

theorem keeps_exchange (hL : L.Lawful) (hi : Approved L policy log) (ha : Authorized L policy log pin)
    {limit : Int} :
    Keeps M allow (Approved L policy) (exchange L pin r limit) log fun _ _ => True := by
  refine (keeps_attempt (Q := fun _ _ => True) ?_).bind fun sent _ _ hi _ => ?_
  · refine Keeps.ofExcept_bind hi fun t ht => ?_
    refine (keeps_send hL hi ha ht).bind fun response _ _ hi _ => ?_
    refine Keeps.ofExcept_bind hi fun received _ => ?_
    cases received <;> exact .pure hi trivial
  · cases sent <;> exact .pure hi trivial

theorem keeps_invoke (hL : L.Lawful) (hi : Approved L policy log) {target : Fields}
    {retries case_input : Json} {ctx : Context} :
    Keeps M allow (Approved L policy) (invoke L policy target retries case_input ctx) log
      fun _ _ => True := by
  unfold invoke
  refine .ite (fun _ => .pure hi trivial) fun _ => ?_
  cases target.lookup "url" with
  | none     => exact .throw hi
  | some url =>
    refine (keeps_attempt (keeps_authorize hi)).bind fun pin _ _ hi ha => ?_
    cases pin with
    | error _ => exact .pure hi trivial
    | ok pin  =>
      refine Keeps.ofExcept_bind hi fun req _ => ?_
      cases req with
      | error _ => exact .pure hi trivial
      | ok req  =>
        refine (keeps_exchange hL hi (ha pin rfl)).bind fun received _ _ hi _ => ?_
        cases received with
        | error _ => exact .pure hi trivial
        | ok _    => exact .ofExcept hi fun _ _ => trivial

end HttpJsonAdapter

section Providers

variable {target : Fields} {retries case_input : Json} {ctx : Context}

theorem OpenAICompatibleAdapter.keeps_invoke (hL : L.Lawful) (hi : Approved L policy log) :
    Keeps M allow (Approved L policy) (invoke L policy target retries case_input ctx) log
      fun _ _ => True :=
  HttpJsonAdapter.keeps_invoke hL hi

theorem ProviderEnvelopeAdapter.keeps_invoke (hL : L.Lawful) (hi : Approved L policy log)
    {pointer : String} {body : Json} :
    Keeps M allow (Approved L policy) (_invoke_envelope L pointer policy target retries body ctx) log
      fun _ _ => True := by
  unfold _invoke_envelope
  split
  case h_1 =>
    refine .ite (fun _ => .pure hi trivial) fun _ => ?_
    split
    case h_1 =>
      exact .ite (fun _ => HttpJsonAdapter.keeps_invoke hL hi) fun _ => .pure hi trivial
    case h_2 => exact .pure hi trivial
  case h_2 => exact .pure hi trivial

end Providers

namespace HttpStreamAdapter

variable {ctx : Context}

theorem keeps_token {seen : Seen} {f : StreamFrame} (hi : Approved L policy log) :
    Keeps M allow (Approved L policy) (token ctx seen f) log fun _ _ => True := by
  refine .ite (fun _ => ?_) fun _ => .pure hi trivial
  exact Keeps.query_bind fun _ => Keeps.ofExcept_bind hi fun _ _ => .pure hi trivial

theorem keeps_frame {seen : Seen} {f : StreamFrame} (hi : Approved L policy log) :
    Keeps M allow (Approved L policy) (frame L ctx seen f) log fun _ _ => True := by
  refine (keeps_token hi).bind fun seen _ _ hi _ => ?_
  refine .ite (fun _ => ?_) fun _ => .pure hi trivial
  exact Keeps.ofExcept_bind hi fun _ _ => Keeps.ofExcept_bind hi fun _ _ => .pure hi trivial

theorem keeps_chunk {seen : Seen} (hi : Approved L policy log) :
    Keeps M allow (Approved L policy) (chunk seen) log fun _ _ => True :=
  .ite (fun _ => Keeps.query_bind fun _ => .pure hi trivial) fun _ => .pure hi trivial

theorem keeps_chunks {body : List Bytes} {parser : SSEParser} {seen : Seen} {broken : Option Error}
    (hi : Approved L policy log) :
    Keeps M allow (Approved L policy) (chunks L ctx parser seen broken body) log fun _ _ => True := by
  induction body generalizing parser seen log with
  | nil             =>
    cases broken with
    | some e => exact .throw hi
    | none   => exact Keeps.ofExcept_bind hi fun _ _ => .pure hi trivial
  | cons bytes body ih =>
    refine Keeps.query_bind fun _ => .ite (fun _ => .pure hi trivial) fun _ => ?_
    refine (keeps_chunk hi).bind fun _ _ _ hi _ => Keeps.ofExcept_bind hi fun fed _ => ?_
    refine Keeps.bind (Q := fun _ _ => True) ?_ fun _ _ _ hi _ => ih hi
    exact .foldlM hi trivial fun _ _ _ _ hi _ => keeps_frame hi

theorem keeps_exchange (hL : L.Lawful) (hi : Approved L policy log) {target : Fields} {case_input : Json}
    {parser : SSEParser} {seen : Seen} :
    Keeps M allow (Approved L policy) (exchange L ctx policy target case_input parser seen) log
      fun _ _ => True := by
  refine Keeps.ofExcept_bind hi fun timeout _ => ?_
  cases target.lookup "url" with
  | none     => exact .throw hi
  | some url =>
    refine (keeps_authorize hi).bind fun pin _ _ hi ha => ?_
    refine Keeps.ofExcept_bind hi fun _ _ => .ite (fun _ => .pure hi trivial) fun _ => ?_
    refine Keeps.ofExcept_bind hi fun t ht => (keeps_send hL hi ha ht).bind fun _ _ _ hi _ => ?_
    exact .ite (fun _ => .pure hi trivial) fun _ => keeps_chunks hi

theorem keeps_invoke (hL : L.Lawful) (hi : Approved L policy log) {target : Fields} {case_input : Json} :
    Keeps M allow (Approved L policy) (invoke L ctx policy target case_input) log fun _ _ => True := by
  refine .ite (fun _ => .throw hi) fun _ => .ite (fun _ => .pure hi trivial) fun _ => ?_
  refine Keeps.ofExcept_bind hi fun _ _ => Keeps.ofExcept_bind hi fun _ _ => ?_
  refine Keeps.query_bind fun _ => Keeps.ofExcept_bind hi fun _ _ => ?_
  refine (keeps_attempt (keeps_exchange hL hi)).bind fun streamed _ _ hi _ => ?_
  match streamed with
  | .error _       => exact .pure hi trivial
  | .ok (.error _) => exact .pure hi trivial
  | .ok (.ok _)    =>
    refine .ite (fun _ => .pure hi trivial) fun _ => ?_
    exact Keeps.query_bind fun _ => Keeps.query_bind fun _ => .pure hi trivial

end HttpStreamAdapter

namespace HttpJobAdapter

variable {target : Fields} {ctx : Context} {p : Polling} {headers : List (String × String)}
variable {job_id : String}

theorem keeps_item {key : String} (hi : Approved L policy log) {Q : Json → Log → Prop}
    (hq : ∀ value, Q value log) :
    Keeps M allow (Approved L policy) (item target key) log Q := by
  unfold item
  split
  case h_1 => exact .pure hi <| hq _
  case h_2 => exact .throw hi

theorem keeps_prepare (hi : Approved L policy log) :
    Keeps M allow (Approved L policy) (prepare L policy target) log
      fun p log' => Authorized L policy log' p.pin := by
  refine (keeps_item (Q := fun _ _ => True) hi fun _ => trivial).bind fun url _ _ hi _ => ?_
  refine (keeps_authorize hi).bind fun pin log₁ _ hi ha => ?_
  refine (keeps_item (Q := fun _ _ => Authorized L policy log₁ pin) hi fun _ => ha).bind
    fun template log₂ hp hi _ => ?_
  refine Keeps.ofExcept_bind hi fun _ _ => ?_
  refine (keeps_authorize hi).bind fun _ log₃ hp' hi _ => ?_
  refine Keeps.ofExcept_bind hi fun _ _ => Keeps.ofExcept_bind hi fun _ _ => ?_
  exact .ite (fun _ => .throw hi) fun _ => .pure hi <| ha.mono <| hp.trans hp'

theorem keeps_submit (hL : L.Lawful) (hi : Approved L policy log) {case_input : Json}
    (ha : Authorized L policy log p.pin) (ht : PinnedTransport.new L p.pin = .ok t) :
    Keeps M allow (Approved L policy) (submit L target case_input p headers t) log fun _ _ => True := by
  refine (keeps_send hL hi ha ht).bind fun response _ _ hi _ => ?_
  refine Keeps.ofExcept_bind hi fun _ _ => .ite (fun _ => .pure hi trivial) fun _ => ?_
  refine Keeps.ofExcept_bind hi fun payload _ => ?_
  split
  case h_1 => exact .pure hi trivial
  case h_2 => exact Keeps.query_bind fun _ => .pure hi trivial

theorem keeps_status (hL : L.Lawful) (hi : Approved L policy log) :
    Keeps M allow (Approved L policy) (status L policy p headers job_id) log fun _ _ => True := by
  refine Keeps.ofExcept_bind hi fun url _ => (keeps_authorize hi).bind fun pin _ _ hi ha => ?_
  refine Keeps.ofExcept_bind hi fun t ht => (keeps_send hL hi ha ht).bind fun _ _ _ hi _ => ?_
  refine Keeps.ofExcept_bind hi fun _ _ => .ite (fun _ => .pure hi trivial) fun _ => ?_
  exact Keeps.ofExcept_bind hi fun _ _ => .ofExcept hi fun _ _ => trivial

theorem keeps_poll (hL : L.Lawful) (hi : Approved L policy log) {n : ℕ} :
    Keeps M allow (Approved L policy) (poll L policy p headers job_id n) log fun _ _ => True := by
  induction n generalizing log with
  | zero      => exact .pure hi trivial
  | succ n ih =>
    refine Keeps.query_bind fun _ => .ite (fun _ => .pure hi trivial) fun _ => ?_
    refine (keeps_status hL hi).bind fun r _ _ hi _ => ?_
    cases r with
    | some _ => exact .pure hi trivial
    | none   => exact Keeps.ofExcept_bind hi fun _ _ => ih hi

theorem keeps_invoke (hL : L.Lawful) (hi : Approved L policy log) {case_input : Json} :
    Keeps M allow (Approved L policy) (invoke L policy target ctx case_input) log fun _ _ => True := by
  refine (keeps_attempt (keeps_prepare hi)).bind fun prepared _ _ hi ha => ?_
  cases prepared with
  | error _ => exact .pure hi trivial
  | ok p    =>
    refine Keeps.ofExcept_bind hi fun headers _ => ?_
    refine (keeps_attempt (Q := fun _ _ => True) ?_).bind fun job _ _ hi _ => ?_
    · refine Keeps.ofExcept_bind hi fun t ht => ?_
      split
      case h_1 => exact .pure hi trivial
      case h_2 => exact keeps_submit hL hi (ha p rfl) ht
    · match job with
      | .error _       => exact .pure hi trivial
      | .ok (.error _) => exact .pure hi trivial
      | .ok (.ok _)    =>
        refine Keeps.query_bind fun n => ?_
        refine (keeps_attempt (keeps_poll hL hi)).bind fun polled _ _ hi _ => ?_
        cases polled <;> exact .pure hi trivial

end HttpJobAdapter

namespace HttpSessionAdapter

variable {target : Fields} {ctx : Context} {ts : Templates} {session_id payload : Json}

theorem keeps_prepare (hi : Approved L policy log) :
    Keeps M allow (Approved L policy) (prepare L policy target) log
      fun ts log' => Authorized L policy log' ts.pin := by
  refine (HttpJobAdapter.keeps_item (Q := fun _ _ => True) hi fun _ => trivial).bind fun _ _ _ hi _ => ?_
  refine (keeps_authorize hi).bind fun pin log₁ _ hi ha => ?_
  refine (HttpJobAdapter.keeps_item (Q := fun _ _ => True) hi fun _ => trivial).bind
    fun _ log₂ hp hi _ => ?_
  refine Keeps.ofExcept_bind hi fun _ _ => (keeps_authorize hi).bind fun _ log₃ hp' hi _ => ?_
  have ha₃ := ha.mono <| hp.trans hp'
  refine .ite (fun _ => ?_) fun _ => .pure hi ha₃
  refine Keeps.ofExcept_bind hi fun _ _ => (keeps_authorize hi).bind fun _ _ hp'' hi _ => ?_
  exact .pure hi <| ha₃.mono hp''

theorem keeps_post (hL : L.Lawful) (hi : Approved L policy log) (ha : Authorized L policy log pin)
    {url json : Json} :
    Keeps M allow (Approved L policy) (post L target pin url json) log fun _ _ => True :=
  Keeps.ofExcept_bind hi fun _ ht => Keeps.ofExcept_bind hi fun _ _ => keeps_send hL hi ha ht

theorem keeps_post_to (hL : L.Lawful) (hi : Approved L policy log) {template json : Json} :
    Keeps M allow (Approved L policy) (post_to L policy target template session_id json) log
      fun _ _ => True :=
  Keeps.ofExcept_bind hi fun _ _ => (keeps_authorize hi).bind fun _ _ _ hi ha => keeps_post hL hi ha

theorem keeps_close_session (hL : L.Lawful) (hi : Approved L policy log) :
    Keeps M allow (Approved L policy) (close_session L policy target ts session_id) log
      fun _ _ => True := by
  refine .ite (fun _ => .pure hi trivial) fun _ => ?_
  refine (keeps_attempt (Q := fun _ _ => True) ?_).bind fun closed _ _ hi _ => ?_
  · refine (keeps_post_to hL hi).bind fun _ _ _ hi _ => ?_
    exact Keeps.ofExcept_bind hi fun _ _ => .pure hi trivial
  · cases closed <;> exact .pure hi trivial

theorem keeps_send_turn (hL : L.Lawful) (hi : Approved L policy log) {p : Progress} {turn : Json} :
    Keeps M allow (Approved L policy) (send_turn L policy target ts session_id p turn) log
      fun _ _ => True := by
  refine (keeps_post_to hL hi).bind fun _ _ _ hi _ => Keeps.ofExcept_bind hi fun _ _ => ?_
  exact .ite (fun _ => .pure hi trivial) fun _ => Keeps.ofExcept_bind hi fun _ _ => .pure hi trivial

theorem keeps_plain_turn (hL : L.Lawful) (hi : Approved L policy log) {p : Progress} {turn : Json} :
    Keeps M allow (Approved L policy) (plain_turn L policy target ts session_id p turn) log
      fun _ _ => True := by
  refine (keeps_send_turn hL hi).bind fun r _ _ hi _ => ?_
  cases r <;> exact .pure hi trivial

theorem keeps_step (hL : L.Lawful) (hi : Approved L policy log) {p : Progress} {s : Json} :
    Keeps M allow (Approved L policy) (step L policy target ctx ts session_id p s) log
      fun _ _ => True := by
  unfold step
  split
  case h_1 fields =>
    refine .ite (fun _ => .throw hi) fun _ => .ite (fun _ => ?_) fun _ => .ite (fun _ => ?_) fun _ =>
      .pure hi trivial
    · refine .ite (fun _ => .pure hi trivial) fun _ => ?_
      exact Keeps.ofExcept_bind hi fun _ _ => .pure hi trivial
    · split
      case h_1 =>
        refine Keeps.ofExcept_bind hi fun _ _ => (keeps_send_turn hL hi).bind fun r _ _ hi _ => ?_
        cases r <;> exact .pure hi trivial
      case h_2 => exact .pure hi trivial
  case h_2 => exact .pure hi trivial

theorem keeps_each {turn : Progress → Json → Prog sig (Except InvocationResult Progress)} {p : Progress}
    {turns : List Json} (hi : Approved L policy log)
    (ht : ∀ p t log, Approved L policy log →
      Keeps M allow (Approved L policy) (turn p t) log fun _ _ => True) :
    Keeps M allow (Approved L policy) (each session_id turn p turns) log fun _ _ => True := by
  induction turns generalizing p log with
  | nil              => exact .pure hi trivial
  | cons t turns ih =>
    refine Keeps.query_bind fun _ => .ite (fun _ => .pure hi trivial) fun _ => ?_
    refine (ht p t log hi).bind fun r _ _ hi _ => ?_
    cases r with
    | error _ => exact .pure hi trivial
    | ok p    => exact ih hi

theorem keeps_converse (hL : L.Lawful) (hi : Approved L policy log) {how : Turns} :
    Keeps M allow (Approved L policy) (converse L policy target ctx ts session_id payload how) log
      fun _ _ => True := by
  cases how with
  | plain turns  => exact keeps_each hi fun _ _ _ hi => keeps_plain_turn hL hi
  | script steps =>
    refine (keeps_each hi fun _ _ _ hi => keeps_step hL hi).bind fun r _ _ hi _ => ?_
    cases r with
    | error _ => exact .pure hi trivial
    | ok p    => exact .ite (fun _ => .pure hi trivial) fun _ => .pure hi trivial

theorem keeps_open_session (hL : L.Lawful) (hi : Approved L policy log) {case_input : Json}
    (ha : Authorized L policy log ts.pin) :
    Keeps M allow (Approved L policy) (open_session L target case_input ts) log fun _ _ => True := by
  refine (HttpJobAdapter.keeps_item (Q := fun _ _ => True) hi fun _ => trivial).bind
    fun _ _ hp hi _ => ?_
  refine (keeps_post hL hi (ha.mono hp)).bind fun _ _ _ hi _ => ?_
  exact Keeps.ofExcept_bind hi fun _ _ => Keeps.ofExcept_bind hi fun _ _ => .pure hi trivial

theorem keeps_hold (hL : L.Lawful) (hi : Approved L policy log) {how : Turns} {status_code : ℕ} :
    Keeps M allow (Approved L policy)
      (hold L policy target ctx ts how session_id payload status_code) log fun _ _ => True := by
  refine .ite (fun _ => .pure hi trivial) fun _ => ?_
  refine Keeps.query_bind fun _ => .ite (fun _ => .pure hi trivial) fun _ => ?_
  refine (keeps_converse hL hi).bind fun r _ _ hi _ => ?_
  cases r with
  | error _ => exact .pure hi trivial
  | ok p    =>
    refine (keeps_close_session hL hi).bind fun _ _ _ hi _ => ?_
    exact .ite (fun _ => .pure hi trivial) fun _ => .pure hi trivial

theorem keeps_release (hL : L.Lawful) (hi : Approved L policy log) {sent : Bool} {r : InvocationResult} :
    Keeps M allow (Approved L policy) (release L policy target ts session_id sent r) log
      fun _ _ => True :=
  .ite (fun _ => .pure hi trivial) fun _ => (keeps_close_session hL hi).bind fun _ _ _ hi _ =>
    .pure hi trivial

theorem keeps_session (hL : L.Lawful) (hi : Approved L policy log) {how : Turns} {status_code : ℕ} :
    Keeps M allow (Approved L policy)
      (session L policy target ctx ts how session_id payload status_code) log fun _ _ => True := by
  refine Keeps.bind (Q := fun _ _ => True) (Keeps.tryCatch ?_ fun _ _ _ hi => .pure hi trivial)
    fun held _ _ hi _ => ?_
  · exact (keeps_attempt (keeps_hold hL hi)).map fun _ _ _ => trivial
  · match held with
    | .ok (.ok _)    => exact keeps_release hL hi
    | .ok (.error _) => exact keeps_release hL hi
    | .error _       => exact (keeps_close_session hL hi).bind fun _ _ _ hi _ => .throw hi

theorem keeps_invoke (hL : L.Lawful) (hi : Approved L policy log) {case_input : Json} :
    Keeps M allow (Approved L policy) (invoke L policy target ctx case_input) log fun _ _ => True := by
  unfold invoke
  split
  case h_1     => exact .pure hi trivial
  case h_2 how =>
    refine (keeps_attempt (keeps_prepare hi)).bind fun prepared _ _ hi ha => ?_
    cases prepared with
    | error _ => exact .pure hi trivial
    | ok ts   =>
      refine (keeps_attempt (keeps_open_session hL hi (ha ts rfl))).bind fun opened _ _ hi _ => ?_
      cases opened with
      | error _ => exact .pure hi trivial
      | ok _    => exact keeps_session hL hi

end HttpSessionAdapter

theorem AdapterClass.keeps_invoke (hL : L.Lawful) (hi : Approved L policy log) {a : AdapterClass}
    {target : Fields} {case_input : Json} {ctx : Context} :
    Keeps M allow (Approved L policy) (a.invoke L policy target case_input ctx) log
      fun _ _ => True := by
  cases a with
  | http_json          => exact HttpJsonAdapter.keeps_invoke hL hi
  | http_stream        => exact HttpStreamAdapter.keeps_invoke hL hi
  | http_job           => exact HttpJobAdapter.keeps_invoke hL hi
  | http_session       => exact HttpSessionAdapter.keeps_invoke hL hi
  | openai_compatible  => exact OpenAICompatibleAdapter.keeps_invoke hL hi
  | anthropic_messages => exact ProviderEnvelopeAdapter.keeps_invoke hL hi
  | google_generative  => exact ProviderEnvelopeAdapter.keeps_invoke hL hi

end Adapters

-- Every connection that an adapter opens while it invokes a target was approved for its scheme, host
-- and port, however the resolver and the endpoint answer.
theorem connections_approved (hL : L.Lawful) {M : Store sig} {allow : ∀ q : Query, q.Answer → Prop}
    {a : AdapterClass} {target : Fields} {case_input : Json} {ctx : Context} {s : M.State}
    {x : M.logged.State} {o : Prog.Outcome Error InvocationResult}
    (e : Prog.Exec M.logged allow (a.invoke L policy target case_input ctx) (s, []) x o) :
    Approved L policy x.2 :=
  AdapterClass.keeps_invoke hL .nil |>.exec .nil e

namespace Answering

def libraries : Libraries where
  urlparse text   :=
    if text = "https://t.example/run" then some ⟨"https", none, none, some "t.example", none⟩ else none
  idna            := some
  lower           := id
  strip           := id
  str _           := ""
  ip_address text := if text = "93.184.215.14" then some ⟨text, false, false, true⟩ else none
  raw_host text   := if text = "https://t.example" then some "t.example" else none
  prepare r       :=
    if r.url = .str "https://t.example/run" then .ok ⟨"https", "t.example", none⟩
    else .error <| .raised "InvalidURL"
  quote           := id
  float _         := none
  int _           := none
  sleep _         := .ok ()
  decode _        := none
  loads body      :=
    if body = "7".toUTF8.toList then .ok (.int 7) else .error .value_error
  loads_text _    := .error .value_error
  dumps _         := "{}"

theorem lawful : libraries.Lawful where
  ip_address_text s ip h := by
    simp only [libraries] at h ⊢
    split at h
    case isTrue hs =>
      cases h
      simp [hs]
    case isFalse   => cases h

-- An endpoint that answers every request with a number.
def endpoint : Store sig where
  State       := Unit
  perform c s := match c with
    | .getaddrinfo _ _ => (.ok (some ["93.184.215.14"]), s)
    | .send _ _        => (.ok ⟨200, none, ["7".toUTF8.toList], none⟩, s)

def answers : ∀ q : Query, q.Answer
  | .should_cancel        => false
  | .time                 => .finite 0
  | .rounds               => 1
  | .persist_remote_job _ => ()

def context : Context where
  secret               := ""
  remote_job_id        := .null
  interaction_script   := .null
  adapter_event _ _ _  := .ok none

def target : Fields :=
  [("kind", .str "http_json"), ("url", .str "https://t.example/run")]

def invocation : Prog sig InvocationResult :=
  (measuring_adapter target).invoke libraries ⟨[]⟩ target (.obj []) context

def run : (Unit × Log) × Prog.Outcome Error InvocationResult :=
  invocation.run endpoint.logged answers 2 ((), [])

theorem exec : Prog.Exec endpoint.logged (fun _ _ => True) invocation ((), []) run.1 run.2 := by
  unfold run
  exact Prog.run_exec (M := endpoint.logged) (fun _ => trivial) invocation 2 ((), [])

theorem connected : run.1.2.length = 2 := by
  decide +kernel

end Answering

theorem connections_approved_answering :
    Approved Answering.libraries ⟨[]⟩ Answering.run.1.2 ∧ Answering.run.1.2.length = 2 :=
  have h := connections_approved Answering.lawful Answering.exec
  ⟨h, Answering.connected⟩

end Targets
