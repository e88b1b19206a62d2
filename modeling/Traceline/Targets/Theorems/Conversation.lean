import Traceline.Library.Dialogue
import Traceline.Targets.HttpSession
import Traceline.Targets.Theorems.Verified

-- The protocol of a session: what its log is, whatever the endpoint and the resolver answer.
namespace Targets

open Except (bind_eq_ok_iff)
open Plans (Fields or_empty)
open Prog (Dialogue)

-- How a handler leaves what a block came to.
def caught {α β : Type} (handler : Error → Option β) : Except Error α → Except Error (Except β α)
  | .ok a    => .ok (.ok a)
  | .error e =>
    match handler e with
    | some b => .ok (.error b)
    | none   => .error e

theorem caught_eq_ok {α β : Type} {handler : Error → Option β} {x : Except Error α} {a : α}
    (h : .ok (.ok a) = caught handler x) : x = .ok a := by
  unfold caught at h
  split at h
  case h_1 => exact congrArg _ (Except.ok.inj (Except.ok.inj h)).symm
  case h_2 =>
    split at h
    all_goals cases h

theorem caught_eq_error {α β : Type} {handler : Error → Option β} {x : Except Error α} {b : β}
    (h : .ok (.error b) = caught handler x) : ∃ e, x = .error e ∧ handler e = some b := by
  unfold caught at h
  split at h
  case h_1   => cases h
  case h_2 e =>
    split at h
    case h_1 b' hb =>
      cases h
      exact ⟨e, rfl, hb⟩
    case h_2       => cases h

theorem attempt_inv {α β : Type} {p : Prog sig α} {handler : Error → Option β} {log : Log}
    {o : Except Error (Except β α)} (d : Dialogue (attempt p handler) log o) :
    ∃ x, Dialogue p log x ∧ o = caught handler x := by
  rcases Dialogue.tryCatch_inv d with ⟨a, rfl, d₁⟩ | ⟨e, log₁, log₂, rfl, d₁, d₂⟩
  · rcases Dialogue.map_inv d₁ with ⟨e, ⟨⟩, -⟩ | ⟨b, ⟨⟩, db⟩
    exact ⟨.ok b, db, rfl⟩
  · rcases Dialogue.map_inv d₁ with ⟨e', he, de⟩ | ⟨b, ⟨⟩, -⟩
    cases he
    refine ⟨.error e, ?_⟩
    unfold caught
    dsimp only
    generalize handler e = b at d₂ ⊢
    cases b with
    | some b =>
      obtain ⟨rfl, rfl⟩ := Dialogue.pure_inv d₂
      rw [List.append_nil]
      exact ⟨de, rfl⟩
    | none   =>
      obtain ⟨rfl, rfl⟩ := Dialogue.throw_inv d₂
      rw [List.append_nil]
      exact ⟨de, rfl⟩

namespace HttpSessionAdapter

section

variable (L : Libraries) (policy : EndpointPolicy) (target : Fields)

-- What a client needs to send to a pin.
def client (pin : Pin) : Except Error (PinnedTransport × PyFloat) := do
  let transport ← PinnedTransport.new L pin
  let timeout   ← float L <| (target.lookup "timeout_seconds").getD (.int 30)
  return (transport, timeout)

def message (url json : Json) (timeout : PyFloat) : Request :=
  { method := .str "POST", url, headers := [], json, timeout }

-- An attempt to post to a URL: its calls, and what it came to.
inductive Attempt (url json : Json) : Log → Except Error Response → Prop
  | denied {e : Error} :
    destination L url = .error e → Attempt url json [] (.error e)
  | unresolved {d : Destination} {e : Error} :
    destination L url = .ok d → Attempt url json [⟨.getaddrinfo d.host d.port, .error e⟩] (.error e)
  | unapproved {d : Destination} {records : Option (List String)} {e : Error} :
    destination L url = .ok d → approve L policy d records = .error e →
    Attempt url json [⟨.getaddrinfo d.host d.port, .ok records⟩] (.error e)
  | unbuilt {d : Destination} {records : Option (List String)} {pin : Pin} {e : Error} :
    destination L url = .ok d → approve L policy d records = .ok pin →
    client L target pin = .error e →
    Attempt url json [⟨.getaddrinfo d.host d.port, .ok records⟩] (.error e)
  | sent {d : Destination} {records : Option (List String)} {pin : Pin} {transport : PinnedTransport}
      {timeout : PyFloat} {r : Except Error Response} :
    destination L url = .ok d → approve L policy d records = .ok pin →
    client L target pin = .ok (transport, timeout) →
    Attempt url json [⟨.getaddrinfo d.host d.port, .ok records⟩,
      ⟨.send transport (message url json timeout), r⟩] r

-- The endpoint took a turn and answered it with a document.
def Replied (r : Except Error Response) (body : Json) : Prop :=
  ∃ response content, r = .ok response ∧ response.content = .ok content ∧
    response.status_code = 200 ∧ L.loads content = .ok body

def Waits (step requested : Json) : Prop :=
  ∃ fields, step = .obj fields ∧ (fields.lookup "kind").getD .null = .str "wait_for_input" ∧
    requested = (fields.lookup "requested_input").getD .null

def Responds (step : Json) (provided : String) : Prop :=
  ∃ fields, step = .obj fields ∧ (fields.lookup "kind").getD .null = .str "user_response" ∧
    (fields.lookup "provided_input").getD .null = .str provided

-- What a script is played up to. A response is sent right after the endpoint was seen to wait for
-- what the script asks for, and the next one only when this one was answered.
inductive Played (url : Json) : Json → List Json → Log → Prop
  | idle : Played url observed steps []
  | last {r : Except Error Response} : Waits wait requested → awaits observed requested →
    Responds respond provided → Attempt L policy target url (.obj [("input", .str provided)]) log r →
    Played url observed (wait :: respond :: steps) log
  | turn {r : Except Error Response} : Waits wait requested → awaits observed requested →
    Responds respond provided → Attempt L policy target url (.obj [("input", .str provided)]) log r →
    Replied L r body → Played url body steps rest →
    Played url observed (wait :: respond :: steps) (log ++ rest)

-- A script that was played to its end.
inductive Finished (url : Json) : Json → List Json → Log → Prop
  | nil : Finished url observed [] []
  | turn {r : Except Error Response} : Waits wait requested → awaits observed requested →
    Responds respond provided → Attempt L policy target url (.obj [("input", .str provided)]) log r →
    Replied L r body → Finished url body steps rest →
    Finished url observed (wait :: respond :: steps) (log ++ rest)

-- What a list of turns is held up to.
inductive Held (url : Json) : List Json → Log → Prop
  | idle : Held url later []
  | last {r : Except Error Response} : Attempt L policy target url turn log r →
    Held url (turn :: later) log
  | turn {r : Except Error Response} : Attempt L policy target url turn log r → Replied L r body →
    Held url later rest → Held url (turn :: later) (log ++ rest)

inductive Exhausted (url : Json) : List Json → Log → Prop
  | nil : Exhausted url [] []
  | turn {r : Except Error Response} : Attempt L policy target url turn log r → Replied L r body →
    Exhausted url later rest → Exhausted url (turn :: later) (log ++ rest)

def Talked (url payload : Json) (log : Log) : Turns → Prop
  | .script steps => Played L policy target url payload steps log
  | .plain turns  => Held L policy target url turns log

def Completed (url payload : Json) (log : Log) : Turns → Prop
  | .script steps => Finished L policy target url payload steps log
  | .plain turns  => Exhausted L policy target url turns log

-- A POST that was answered to the end with success.
def Successful (r : Except Error Response) : Prop :=
  ∃ response content, r = .ok response ∧ response.content = .ok content ∧ response.status_code < 300

-- A session is tried to be closed, and not again once it is.
def Released (url : Json) (log : Log) (closed : Prop) : Prop :=
  ∃ attempts : List (Log × Except Error Response), attempts ≠ [] ∧ log = attempts.flatMap (·.1) ∧
    (∀ a ∈ attempts, Attempt L policy target url (.obj []) a.1 a.2) ∧
    attempts.Pairwise (fun a _ => ¬ Successful a.2) ∧
    (closed → ∃ a ∈ attempts, Successful a.2)

-- What comes of a call that ends the conversation.
def Refuses {α : Type} (o : Except Error (Except InvocationResult α)) : Prop :=
  ∀ x, o = .ok x → ∃ r, x = .error r ∧ r.outcome ≠ "ok"

end

section

variable {L : Libraries} {policy : EndpointPolicy} {target : Fields} {ctx : Context} {log : Log}
variable {t : Templates} {session_id payload turn json template url requested : Json}
variable {p : Progress} {provided : String}

-- What `authorize` looks up, and what it comes to.
theorem authorize_inv {o : Except Error Pin} (d : Dialogue (policy.authorize L url) log o) :
    (∃ e, destination L url = .error e ∧ log = [] ∧ o = .error e) ∨
    ∃ dest r, destination L url = .ok dest ∧ log = [⟨.getaddrinfo dest.host dest.port, r⟩] ∧
      o = r.bind (approve L policy dest) := by
  rcases Dialogue.ofExcept_bind_inv d with ⟨e, hd, rfl, rfl⟩ | ⟨dest, hd, d₁⟩
  · exact .inl ⟨e, hd, rfl, rfl⟩
  · rcases Dialogue.perform_bind_inv d₁ with ⟨e, rfl, rfl⟩ | ⟨records, log', rfl, d₂⟩
    · exact .inr ⟨dest, .error e, hd, rfl, rfl⟩
    · obtain ⟨rfl, rfl⟩ := Dialogue.ofExcept_inv d₂
      exact .inr ⟨dest, .ok records, hd, rfl, rfl⟩

-- A POST without a client is none.
theorem post_inv {pin : Pin} {o : Except Error Response}
    (d : Dialogue (post L target pin url json) log o) :
    (∃ e, client L target pin = .error e ∧ log = [] ∧ o = .error e) ∨
    ∃ transport timeout, client L target pin = .ok (transport, timeout) ∧
      log = [⟨.send transport (message url json timeout), o⟩] := by
  unfold client
  rcases Dialogue.ofExcept_bind_inv d with ⟨e, ht, rfl, rfl⟩ | ⟨transport, ht, d₁⟩
  · rw [ht]
    exact .inl ⟨e, rfl, rfl, rfl⟩
  · rcases Dialogue.ofExcept_bind_inv d₁ with ⟨e, hf, rfl, rfl⟩ | ⟨timeout, hf, d₂⟩
    · rw [ht, hf]
      exact .inl ⟨e, rfl, rfl, rfl⟩
    · obtain rfl := Dialogue.perform_inv d₂
      rw [ht, hf]
      exact .inr ⟨transport, timeout, rfl, rfl⟩

theorem post_to_inv {o : Except Error Response} (hurl : session_url L template session_id = .ok url)
    (d : Dialogue (post_to L policy target template session_id json) log o) :
    Attempt L policy target url json log o := by
  rcases Dialogue.ofExcept_bind_inv d with ⟨e, he, -, -⟩ | ⟨url', hurl', d₁⟩
  · rw [hurl] at he
    cases he
  obtain rfl : url = url' := Except.ok.inj (hurl.symm.trans hurl')
  rcases Dialogue.bind_inv d₁ with ⟨e, rfl, da⟩ | ⟨pin, log₁, log₂, rfl, da, dp⟩
  · rcases authorize_inv da with ⟨e', hd, rfl, ⟨⟩⟩ | ⟨dest, r, hd, rfl, he⟩
    · exact .denied hd
    · cases r with
      | error e'   =>
        cases he
        exact .unresolved hd
      | ok records => exact .unapproved hd he.symm
  · rcases authorize_inv da with ⟨e', hd, rfl, ⟨⟩⟩ | ⟨dest, r, hd, rfl, he⟩
    cases r with
    | error e'   => cases he
    | ok records =>
      rcases post_inv dp with ⟨e, hc, rfl, rfl⟩ | ⟨transport, timeout, hc, rfl⟩
      · exact .unbuilt hd he.symm hc
      · exact .sent hd he.symm hc

theorem send_turn_inv {o : Except Error (Except InvocationResult (Json × Progress))}
    (hurl : session_url L t.turn session_id = .ok url)
    (d : Dialogue (send_turn L policy target t session_id p turn) log o) :
    ∃ r, Attempt L policy target url turn log r ∧
      ((∃ body n, Replied L r body ∧ o = .ok (.ok (body, { p with turns_completed := n }))) ∨
        Refuses o) := by
  rcases Dialogue.bind_inv d with ⟨e, rfl, d₁⟩ | ⟨response, log₁, log₂, rfl, d₁, d₂⟩
  · exact ⟨_, post_to_inv hurl d₁, .inr nofun⟩
  · have hpost := post_to_inv hurl d₁
    rcases Dialogue.ofExcept_bind_inv d₂ with ⟨e, hc, rfl, rfl⟩ | ⟨content, hc, d₂⟩
    · rw [List.append_nil]
      exact ⟨_, hpost, .inr nofun⟩
    · split at d₂
      case isTrue  =>
        obtain ⟨rfl, rfl⟩ := Dialogue.pure_inv d₂
        rw [List.append_nil]
        refine ⟨_, hpost, .inr ?_⟩
        rintro x ⟨⟩
        exact ⟨_, rfl, by simp [result]⟩
      case isFalse hstatus =>
        rcases Dialogue.ofExcept_bind_inv d₂ with ⟨e, hl, rfl, rfl⟩ | ⟨body, hl, d₂⟩
        · rw [List.append_nil]
          exact ⟨_, hpost, .inr nofun⟩
        · obtain ⟨rfl, rfl⟩ := Dialogue.pure_inv d₂
          rw [List.append_nil]
          exact ⟨_, hpost, .inl ⟨body, _, ⟨response, content, rfl, hc, Classical.not_not.mp hstatus, hl⟩, rfl⟩⟩

theorem refuses_error {α : Type} {r : InvocationResult} (h : r.outcome ≠ "ok") :
    @Refuses α (.ok (.error r)) := by
  rintro x ⟨⟩
  exact ⟨r, rfl, h⟩

-- A step of a script ends the conversation, or waits, or sends a response.
inductive Took (L : Libraries) (policy : EndpointPolicy) (target : Fields) (url : Json) (p : Progress)
    (s : Json) : Log → Except Error (Except InvocationResult Progress) → Prop
  | stopped {o : Except Error (Except InvocationResult Progress)} :
    Refuses o → Took L policy target url p s [] o
  | waited {requested : Json} {p' : Progress} : p.pending_input = false → Waits s requested →
    awaits p.observed requested → p'.pending_input = true → p'.observed = p.observed →
    Took L policy target url p s [] (.ok (.ok p'))
  | failed {provided : String} {log : Log} {r : Except Error Response}
      {o : Except Error (Except InvocationResult Progress)} :
    p.pending_input = true → Responds s provided →
    Attempt L policy target url (.obj [("input", .str provided)]) log r → Refuses o →
    Took L policy target url p s log o
  | answered {provided : String} {log : Log} {r : Except Error Response} {p' : Progress} :
    p.pending_input = true → Responds s provided →
    Attempt L policy target url (.obj [("input", .str provided)]) log r → Replied L r p'.observed →
    p'.pending_input = false → Took L policy target url p s log (.ok (.ok p'))

theorem step_inv {s : Json} {o : Except Error (Except InvocationResult Progress)}
    (hurl : session_url L t.turn session_id = .ok url)
    (d : Dialogue (step L policy target ctx t session_id p s) log o) :
    Took L policy target url p s log o := by
  have hblocked (outcome : String) (hne : outcome ≠ "ok") {log : Log}
      {o : Except Error (Except InvocationResult Progress)}
      (d : Dialogue (Pure.pure (.error (result outcome "blocked"))) log o) :
      Took L policy target url p s log o := by
    obtain ⟨rfl, rfl⟩ := Dialogue.pure_inv d
    exact .stopped (refuses_error hne)
  unfold step at d
  cases s with
  | obj fields =>
    dsimp only at d
    split at d
    case isTrue  =>
      obtain ⟨rfl, rfl⟩ := Dialogue.throw_inv d
      exact .stopped nofun
    case isFalse =>
      split at d
      case isTrue hkind  =>
        split at d
        case isTrue        => exact hblocked _ (by decide) d
        case isFalse hwait =>
          rw [Bool.or_eq_true, not_or, Bool.not_eq_true, Bool.not_eq_true', Bool.not_eq_false] at hwait
          rcases Dialogue.ofExcept_bind_inv d with ⟨e, -, rfl, rfl⟩ | ⟨event, -, d₁⟩
          · exact .stopped nofun
          · obtain ⟨rfl, rfl⟩ := Dialogue.pure_inv d₁
            exact .waited hwait.left ⟨fields, rfl, hkind, rfl⟩ hwait.right rfl rfl
      case isFalse       =>
        split at d
        case isTrue hkind =>
          split at d
          case h_1 provided hpending hprovided =>
            rcases Dialogue.ofExcept_bind_inv d with ⟨e, -, rfl, rfl⟩ | ⟨event, -, d₁⟩
            · exact .stopped nofun
            · have hresponds : Responds (.obj fields) provided := ⟨fields, rfl, hkind, hprovided⟩
              rcases Dialogue.bind_inv d₁ with ⟨e, rfl, d₂⟩ | ⟨x, log₁, log₂, rfl, d₂, d₃⟩
              · obtain ⟨r, hattempt, -⟩ := send_turn_inv hurl d₂
                exact .failed hpending hresponds hattempt nofun
              · obtain ⟨r, hattempt, hr⟩ := send_turn_inv hurl d₂
                rcases hr with ⟨body, n, hbody, hx⟩ | hrefuses
                · cases hx
                  obtain ⟨rfl, rfl⟩ := Dialogue.pure_inv d₃
                  rw [List.append_nil]
                  exact .answered hpending hresponds hattempt hbody rfl
                · obtain ⟨r', rfl, hne⟩ := hrefuses x rfl
                  obtain ⟨rfl, rfl⟩ := Dialogue.pure_inv d₃
                  rw [List.append_nil]
                  exact .failed hpending hresponds hattempt (refuses_error hne)
          case h_2                             => exact hblocked _ (by decide) d
        case isFalse      => exact hblocked _ (by decide) d
  | _          => exact hblocked _ (by decide) d

theorem each_cons_inv {turn : Progress → Json → Prog sig (Except InvocationResult Progress)} {s : Json}
    {later : List Json} {o : Except Error (Except InvocationResult Progress)}
    (d : Dialogue (each session_id turn p (s :: later)) log o) :
    (log = [] ∧ Refuses o) ∨ ∃ x log₁ log₂, log = log₁ ++ log₂ ∧ Dialogue (turn p s) log₁ x ∧
      ((o = x ∧ log₂ = [] ∧ ∀ p', x ≠ .ok (.ok p')) ∨
        ∃ p', x = .ok (.ok p') ∧ Dialogue (each session_id turn p' later) log₂ o) := by
  obtain ⟨cancelled, d₁⟩ := Dialogue.query_bind_inv d
  split at d₁
  case isTrue  =>
    obtain ⟨rfl, rfl⟩ := Dialogue.pure_inv d₁
    exact .inl ⟨rfl, refuses_error (by simp [result])⟩
  case isFalse =>
    rcases Dialogue.bind_inv d₁ with ⟨e, rfl, d₂⟩ | ⟨x, log₁, log₂, rfl, d₂, d₃⟩
    · exact .inr ⟨_, log, [], (List.append_nil _).symm, d₂, .inl ⟨rfl, rfl, nofun⟩⟩
    · cases x with
      | error r =>
        obtain ⟨rfl, rfl⟩ := Dialogue.pure_inv d₃
        exact .inr ⟨_, log₁, [], rfl, d₂, .inl ⟨rfl, rfl, nofun⟩⟩
      | ok p'   => exact .inr ⟨_, log₁, log₂, rfl, d₂, .inr ⟨p', rfl, d₃⟩⟩

-- What the turns of a session come to: what was sent, no success where they broke off, and all of
-- it where they did not.
structure Ended (talked : Prop) (completed : Progress → Prop)
    (o : Except Error (Except InvocationResult Progress)) : Prop where
  talked    : talked
  refused   : ∀ r, o = .ok (.error r) → r.outcome ≠ "ok"
  completed : ∀ p, o = .ok (.ok p) → completed p

theorem Refuses.ended {talked : Prop} {completed : Progress → Prop} {o : Except Error (Except InvocationResult Progress)}
    (h : Refuses o) (ht : talked) : Ended talked completed o where
  talked       := ht
  refused r hr := by
    obtain ⟨r', hr', hne⟩ := h _ hr
    cases hr'
    exact hne
  completed p hp := by
    obtain ⟨r', hr', -⟩ := h _ hp
    cases hr'

-- The steps are taken in order. Where a step waits, the next one is what the script responds.
theorem script_inv (hurl : session_url L t.turn session_id = .ok url) (steps : List Json) :
    ∀ {p log o}, Dialogue (each session_id (step L policy target ctx t session_id) p steps) log o →
      (p.pending_input = false → Ended (Played L policy target url p.observed steps log)
        (fun p' => p'.pending_input = false → Finished L policy target url p.observed steps log) o) ∧
      ∀ wait requested, p.pending_input = true → Waits wait requested →
        awaits p.observed requested →
        Ended (Played L policy target url p.observed (wait :: steps) log)
          (fun p' => p'.pending_input = false →
            Finished L policy target url p.observed (wait :: steps) log) o := by
  induction steps with
  | nil              =>
    intro p log o d
    obtain ⟨rfl, rfl⟩ := Dialogue.pure_inv d
    refine ⟨fun _ => ⟨.idle, nofun, fun _ _ _ => .nil⟩, fun _ _ hp _ _ => ⟨.idle, nofun, ?_⟩⟩
    rintro _ ⟨⟩ hnot
    rw [hp] at hnot
    cases hnot
  | cons s later ih =>
    intro p log o d
    rcases each_cons_inv d with ⟨rfl, hrefuses⟩ | ⟨x, log₁, log₂, rfl, d₁, hx⟩
    · exact ⟨fun _ => hrefuses.ended .idle, fun _ _ _ _ _ => hrefuses.ended .idle⟩
    · constructor
      · intro hp
        cases step_inv hurl d₁ with
        | stopped hrefuses =>
          rcases hx with ⟨rfl, rfl, -⟩ | ⟨p', rfl, -⟩
          · exact hrefuses.ended .idle
          · obtain ⟨r, hr, -⟩ := hrefuses _ rfl
            cases hr
        | waited _ hwaits hawaits hp' hobserved =>
          rcases hx with ⟨-, -, hno⟩ | ⟨p', hp'', d₂⟩
          · exact absurd rfl (hno _)
          · cases hp''
            have hended := (ih d₂).right s _ hp' hwaits (hobserved ▸ hawaits)
            rw [hobserved] at hended
            exact hended
        | failed hp' => rw [hp] at hp'; cases hp'
        | answered hp' => rw [hp] at hp'; cases hp'
      · intro wait requested hp hwaits hawaits
        cases step_inv hurl d₁ with
        | stopped hrefuses =>
          rcases hx with ⟨rfl, rfl, -⟩ | ⟨p', rfl, -⟩
          · exact hrefuses.ended .idle
          · obtain ⟨r, hr, -⟩ := hrefuses _ rfl
            cases hr
        | waited hp' => rw [hp] at hp'; cases hp'
        | failed _ hresponds hattempt hrefuses =>
          rcases hx with ⟨rfl, rfl, -⟩ | ⟨p', rfl, -⟩
          · rw [List.append_nil]
            exact hrefuses.ended (.last hwaits hawaits hresponds hattempt)
          · obtain ⟨r, hr, -⟩ := hrefuses _ rfl
            cases hr
        | answered _ hresponds hattempt hbody hp' =>
          rcases hx with ⟨-, -, hno⟩ | ⟨p', hp'', d₂⟩
          · exact absurd rfl (hno _)
          · cases hp''
            obtain ⟨htalked, hrefused, hcompleted⟩ := (ih d₂).left hp'
            exact ⟨.turn hwaits hawaits hresponds hattempt hbody htalked, hrefused,
              fun p hp hnot => .turn hwaits hawaits hresponds hattempt hbody (hcompleted p hp hnot)⟩

theorem plain_turn_inv {o : Except Error (Except InvocationResult Progress)}
    (hurl : session_url L t.turn session_id = .ok url)
    (d : Dialogue (plain_turn L policy target t session_id p turn) log o) :
    ∃ r, Attempt L policy target url turn log r ∧
      ((∃ body p', Replied L r body ∧ o = .ok (.ok p')) ∨ Refuses o) := by
  rcases Dialogue.bind_inv d with ⟨e, rfl, d₁⟩ | ⟨x, log₁, log₂, rfl, d₁, d₂⟩
  · obtain ⟨r, hattempt, -⟩ := send_turn_inv hurl d₁
    exact ⟨r, hattempt, .inr nofun⟩
  · obtain ⟨r, hattempt, hr⟩ := send_turn_inv hurl d₁
    rcases hr with ⟨body, n, hbody, hx⟩ | hrefuses
    · cases hx
      obtain ⟨rfl, rfl⟩ := Dialogue.pure_inv d₂
      rw [List.append_nil]
      exact ⟨r, hattempt, .inl ⟨body, _, hbody, rfl⟩⟩
    · obtain ⟨r', rfl, hne⟩ := hrefuses x rfl
      obtain ⟨rfl, rfl⟩ := Dialogue.pure_inv d₂
      rw [List.append_nil]
      exact ⟨r, hattempt, .inr (refuses_error hne)⟩

theorem plain_inv (hurl : session_url L t.turn session_id = .ok url) (turns : List Json) :
    ∀ {p log o}, Dialogue (each session_id (plain_turn L policy target t session_id) p turns) log o →
      Ended (Held L policy target url turns log) (fun _ => Exhausted L policy target url turns log) o := by
  induction turns with
  | nil                =>
    intro p log o d
    obtain ⟨rfl, rfl⟩ := Dialogue.pure_inv d
    exact ⟨.idle, nofun, fun _ _ => .nil⟩
  | cons turn later ih =>
    intro p log o d
    rcases each_cons_inv d with ⟨rfl, hrefuses⟩ | ⟨x, log₁, log₂, rfl, d₁, hx⟩
    · exact hrefuses.ended .idle
    · obtain ⟨r, hattempt, hr⟩ := plain_turn_inv hurl d₁
      rcases hr with ⟨body, p', hbody, rfl⟩ | hrefuses
      · rcases hx with ⟨-, -, hno⟩ | ⟨p'', -, d₂⟩
        · exact absurd rfl (hno _)
        · obtain ⟨htalked, hrefused, hcompleted⟩ := ih d₂
          exact ⟨.turn hattempt hbody htalked, hrefused,
            fun p hp => .turn hattempt hbody (hcompleted p hp)⟩
      · rcases hx with ⟨rfl, rfl, -⟩ | ⟨p'', rfl, -⟩
        · rw [List.append_nil]
          exact hrefuses.ended (.last hattempt)
        · obtain ⟨r', hr', -⟩ := hrefuses _ rfl
          cases hr'

theorem converse_inv {how : Turns} {o : Except Error (Except InvocationResult Progress)}
    (hurl : session_url L t.turn session_id = .ok url)
    (d : Dialogue (converse L policy target ctx t session_id payload how) log o) :
    Ended (Talked L policy target url payload log how)
      (fun _ => Completed L policy target url payload log how) o := by
  cases how with
  | plain turns  => exact plain_inv hurl turns d
  | script steps =>
    rcases Dialogue.bind_inv d with ⟨e, rfl, d₁⟩ | ⟨x, log₁, log₂, rfl, d₁, d₂⟩
    · exact ⟨((script_inv hurl steps d₁).left rfl).talked, nofun, nofun⟩
    · obtain ⟨htalked, hrefused, hcompleted⟩ := (script_inv hurl steps d₁).left rfl
      cases x with
      | error r =>
        obtain ⟨rfl, rfl⟩ := Dialogue.pure_inv d₂
        rw [List.append_nil]
        exact ⟨htalked, fun r' hr' => hrefused r' (by cases hr'; rfl), nofun⟩
      | ok p    =>
        dsimp only at d₂
        split at d₂
        case isTrue           =>
          obtain ⟨rfl, rfl⟩ := Dialogue.pure_inv d₂
          rw [List.append_nil]
          exact (refuses_error (by simp [result])).ended htalked
        case isFalse hpending =>
          obtain ⟨rfl, rfl⟩ := Dialogue.pure_inv d₂
          rw [List.append_nil]
          exact ⟨htalked, nofun, fun _ _ => hcompleted p rfl (by simpa using hpending)⟩

-- A closing is an attempt to close, which counts as one only where the endpoint said so.
theorem close_session_inv {o : Except Error Closing}
    (hurl : session_url L t.close session_id = .ok url)
    (hclose : t.close.truthy) (hid : session_id.truthy)
    (d : Dialogue (close_session L policy target t session_id) log o) :
    ∃ r, Attempt L policy target url (.obj []) log r ∧
      ((∃ e, o = .error e ∧ ¬ Successful r) ∨
        ∃ c, o = .ok c ∧ (c.closed ↔ Successful r) ∧ (c.closed → c.sent)) := by
  unfold close_session at d
  rw [if_neg (by simp [hclose, hid])] at d
  -- The status of the answer is read after its body.
  have hinner {log x} (d : Dialogue (do
      let response ← post_to L policy target t.close session_id (.obj [])
      let _ ← Prog.ofExcept response.content
      return response.status_code) log x) :
      ∃ r, Attempt L policy target url (.obj []) log r ∧
        ((∃ e, x = .error e ∧ ¬ Successful r) ∨
          ∃ status : ℕ, x = .ok status ∧ (status < 300 ↔ Successful r)) := by
    rcases Dialogue.bind_inv d with ⟨e, rfl, d₁⟩ | ⟨response, log₁, log₂, rfl, d₁, d₂⟩
    · refine ⟨_, post_to_inv hurl d₁, .inl ⟨e, rfl, ?_⟩⟩
      rintro ⟨response, content, ⟨⟩, -⟩
    · rcases Dialogue.ofExcept_bind_inv d₂ with ⟨e, hc, rfl, rfl⟩ | ⟨content, hc, d₃⟩
      · rw [List.append_nil]
        refine ⟨_, post_to_inv hurl d₁, .inl ⟨e, rfl, ?_⟩⟩
        rintro ⟨response', content, ⟨⟩, hc', -⟩
        rw [hc] at hc'
        cases hc'
      · obtain ⟨rfl, rfl⟩ := Dialogue.pure_inv d₃
        rw [List.append_nil]
        refine ⟨_, post_to_inv hurl d₁, .inr ⟨_, rfl, ?_⟩⟩
        constructor
        · exact fun hlt => ⟨response, content, rfl, hc, hlt⟩
        · rintro ⟨response', content', ⟨⟩, -, hlt⟩
          exact hlt
  rcases Dialogue.bind_inv d with ⟨e, rfl, d₁⟩ | ⟨x, log₁, log₂, rfl, d₁, d₂⟩
  · obtain ⟨x, d₂, hx⟩ := attempt_inv d₁
    obtain ⟨r, hattempt, hr⟩ := hinner d₂
    refine ⟨r, hattempt, .inl ⟨e, rfl, ?_⟩⟩
    rcases hr with ⟨e', -, hnot⟩ | ⟨status, rfl, -⟩
    · exact hnot
    · cases hx
  · obtain ⟨x', d₃, hx⟩ := attempt_inv d₁
    obtain ⟨r, hattempt, hr⟩ := hinner d₃
    cases x with
    | error _     =>
      obtain ⟨rfl, rfl⟩ := Dialogue.pure_inv d₂
      rw [List.append_nil]
      refine ⟨r, hattempt, .inr ⟨_, rfl, iff_of_false (by simp) ?_, nofun⟩⟩
      rcases hr with ⟨e', -, hnot⟩ | ⟨status, rfl, -⟩
      · exact hnot
      · cases hx
    | ok status   =>
      obtain ⟨rfl, rfl⟩ := Dialogue.pure_inv d₂
      rw [List.append_nil]
      refine ⟨r, hattempt, .inr ⟨_, rfl, ?_, fun _ => rfl⟩⟩
      rcases hr with ⟨e', rfl, -⟩ | ⟨status', rfl, hiff⟩
      · unfold caught at hx
        dsimp only at hx
        split at hx
        all_goals cases hx
      · cases hx
        simpa using hiff

theorem close_session_none {o : Except Error Closing} (h : ¬ (t.close.truthy ∧ session_id.truthy))
    (d : Dialogue (close_session L policy target t session_id) log o) :
    log = [] ∧ o = .ok ⟨false, true⟩ := by
  unfold close_session at d
  have hnot : !session_id.truthy || !t.close.truthy := by
    cases hs : session_id.truthy <;> cases hc : t.close.truthy <;> simp_all
  rw [if_pos hnot] at d
  exact Dialogue.pure_inv d

theorem talked_nil {how : Turns} : Talked L policy target url payload [] how := by
  cases how with
  | script steps => exact .idle
  | plain turns  => exact .idle

theorem Completed.talked {how : Turns} (h : Completed L policy target url payload log how) :
    Talked L policy target url payload log how := by
  cases how with
  | script steps =>
    induction h with
    | nil                                      => exact .idle
    | turn hw ha hr hattempt hbody _ ih        => exact .turn hw ha hr hattempt hbody ih
  | plain turns  =>
    induction h with
    | nil                     => exact .idle
    | turn hattempt hbody _ ih => exact .turn hattempt hbody ih

-- A session is held until its turns break off, or to their end and its closing.
theorem hold_inv {how : Turns} {status_code : ℕ} {o : Except Error (InvocationResult × Bool)}
    (hid : session_id.string? = none ∨ session_url L t.turn session_id = .ok url)
    (d : Dialogue (hold L policy target ctx t how session_id payload status_code) log o) :
    (Talked L policy target url payload log how ∧ (session_id.string? = none → log = []) ∧
      ∀ x, o = .ok x → x.1.outcome ≠ "ok" ∧ x.2 = false) ∨
    ∃ log₁ log₂ oc, log = log₁ ++ log₂ ∧ session_id.string? ≠ none ∧
      Completed L policy target url payload log₁ how ∧
      Dialogue (close_session L policy target t session_id) log₂ oc ∧
      ((∃ e, oc = .error e ∧ o = .error e) ∨
        ∃ c r, oc = .ok c ∧ o = .ok (r, c.sent) ∧ (r.outcome = "ok" ↔ c.closed)) := by
  unfold hold at d
  split at d
  case isTrue  =>
    obtain ⟨rfl, rfl⟩ := Dialogue.pure_inv d
    refine .inl ⟨talked_nil, fun _ => rfl, ?_⟩
    rintro x ⟨⟩
    exact ⟨by simp [result], rfl⟩
  case isFalse hopen =>
    have hstring : session_id.string? ≠ none := fun hnone => hopen (.inr (.inr hnone))
    have hurl := hid.resolve_left hstring
    obtain ⟨cancelled, d₁⟩ := Dialogue.query_bind_inv d
    split at d₁
    case isTrue  =>
      obtain ⟨rfl, rfl⟩ := Dialogue.pure_inv d₁
      refine .inl ⟨talked_nil, fun _ => rfl, ?_⟩
      rintro x ⟨⟩
      exact ⟨by simp [result], rfl⟩
    case isFalse =>
      rcases Dialogue.bind_inv d₁ with ⟨e, rfl, d₂⟩ | ⟨x, log₁, log₂, rfl, d₂, d₃⟩
      · exact .inl ⟨(converse_inv hurl d₂).talked, fun hnone => absurd hnone hstring, nofun⟩
      · have hended := converse_inv hurl d₂
        cases x with
        | error r =>
          obtain ⟨rfl, rfl⟩ := Dialogue.pure_inv d₃
          rw [List.append_nil]
          refine .inl ⟨hended.talked, fun hnone => absurd hnone hstring, ?_⟩
          rintro x ⟨⟩
          exact ⟨hended.refused r rfl, rfl⟩
        | ok p    =>
          right
          rcases Dialogue.bind_inv d₃ with ⟨e, rfl, d₄⟩ | ⟨c, log₃, log₄, rfl, d₄, d₅⟩
          · exact ⟨log₁, log₂, _, rfl, hstring, hended.completed p rfl, d₄, .inl ⟨e, rfl, rfl⟩⟩
          · split at d₅
            case isTrue hc  =>
              obtain ⟨rfl, rfl⟩ := Dialogue.pure_inv d₅
              rw [List.append_nil]
              exact ⟨log₁, log₃, _, rfl, hstring, hended.completed p rfl, d₄,
                .inr ⟨c, _, rfl, rfl, iff_of_true rfl hc⟩⟩
            case isFalse hc =>
              obtain ⟨rfl, rfl⟩ := Dialogue.pure_inv d₅
              rw [List.append_nil]
              exact ⟨log₁, log₃, _, rfl, hstring, hended.completed p rfl, d₄,
                .inr ⟨c, _, rfl, rfl, iff_of_false (by simp [result]) hc⟩⟩

-- However its turns end, a session is released, unless its closing was sent.
theorem session_inv {how : Turns} {status_code : ℕ} {o : Except Error InvocationResult}
    (d : Dialogue (session L policy target ctx t how session_id payload status_code) log o) :
    ∃ log₁ log₂ x, log = log₁ ++ log₂ ∧
      Dialogue (hold L policy target ctx t how session_id payload status_code) log₁ x ∧
      ((∃ r, x = .ok (r, true) ∧ log₂ = [] ∧ o = .ok r) ∨
        ∃ oc, Dialogue (close_session L policy target t session_id) log₂ oc ∧
          (∀ r, x ≠ .ok (r, true)) ∧ ∀ r, o = .ok r → r.outcome = "ok" → x = .ok (r, false)) := by
  rcases Dialogue.bind_inv d with ⟨e, rfl, d₁⟩ | ⟨held, log₁, log₂, rfl, d₁, d₂⟩
  · rcases Dialogue.tryCatch_inv d₁ with ⟨a, ⟨⟩, -⟩ | ⟨e', log₁, log₂, rfl, -, d₂⟩
    obtain ⟨-, ⟨⟩⟩ := Dialogue.pure_inv d₂
  · obtain ⟨x, dx, hheld⟩ : ∃ x,
        Dialogue (hold L policy target ctx t how session_id payload status_code) log₁ x ∧
          held = caught (handler session_id) x := by
      rcases Dialogue.tryCatch_inv d₁ with ⟨a, ha, d₃⟩ | ⟨e, log₃, log₄, rfl, d₃, d₄⟩
      · cases ha
        rcases Dialogue.map_inv d₃ with ⟨e, ⟨⟩, -⟩ | ⟨b, hb, d₄⟩
        cases hb
        obtain ⟨x, dx, hx⟩ := attempt_inv d₄
        exact ⟨x, dx, hx⟩
      · obtain ⟨rfl, he⟩ := Dialogue.pure_inv d₄
        cases he
        rw [List.append_nil]
        rcases Dialogue.map_inv d₃ with ⟨e', he, d₅⟩ | ⟨b, ⟨⟩, -⟩
        cases he
        obtain ⟨x, dx, hx⟩ := attempt_inv d₅
        exact ⟨x, dx, hx⟩
    refine ⟨log₁, log₂, x, rfl, dx, ?_⟩
    subst hheld
    -- What is released after the turns have broken off was not a success.
    have hrelease {r : InvocationResult} {o : Except Error InvocationResult}
        (d : Dialogue (release L policy target t session_id false r) log₂ o) :
        ∃ oc, Dialogue (close_session L policy target t session_id) log₂ oc ∧
          ∀ r', o = .ok r' → r' = r := by
      rcases Dialogue.bind_inv d with ⟨e, rfl, dc⟩ | ⟨c, log₃, log₄, rfl, dc, d'⟩
      · exact ⟨_, dc, nofun⟩
      · obtain ⟨rfl, rfl⟩ := Dialogue.pure_inv d'
        rw [List.append_nil]
        exact ⟨_, dc, fun r' hr' => by cases hr'; rfl⟩
    cases x with
    | ok rs   =>
      obtain ⟨r, sent⟩ := rs
      cases sent with
      | true  =>
        obtain ⟨rfl, rfl⟩ := Dialogue.pure_inv d₂
        exact .inl ⟨r, rfl, rfl, rfl⟩
      | false =>
        obtain ⟨oc, dc, hr⟩ := hrelease d₂
        exact .inr ⟨oc, dc, nofun, fun r' ho _ => by rw [hr r' ho]⟩
    | error e =>
      unfold caught at d₂
      dsimp only at d₂
      cases hh : handler session_id e with
      | some r =>
        rw [hh] at d₂
        obtain ⟨oc, dc, hr⟩ := hrelease d₂
        refine .inr ⟨oc, dc, nofun, fun r' ho hok => ?_⟩
        obtain rfl := hr r' ho
        unfold handler at hh
        split at hh
        case isTrue  =>
          cases hh
          exact absurd hok (by simp [result])
        case isFalse => cases hh
      | none   =>
        rw [hh] at d₂
        rcases Dialogue.bind_inv d₂ with ⟨e', rfl, dc⟩ | ⟨c, log₃, log₄, rfl, dc, d'⟩
        · exact .inr ⟨_, dc, nofun, nofun⟩
        · obtain ⟨rfl, rfl⟩ := Dialogue.throw_inv d'
          rw [List.append_nil]
          exact .inr ⟨_, dc, nofun, nofun⟩

end

section

variable (L : Libraries) (policy : EndpointPolicy) (target : Fields) (ctx : Context)
variable (case_input : Json)

-- The id that an endpoint gives a session.
def session_id (payload : Json) : Json :=
  let session_id := (payload.get? "session_id").getD .null
  if session_id.truthy then session_id else (payload.get? "id").getD .null

-- The document that an answer to the opening of a session holds.
def Opened (response : Response) (payload : Json) : Prop :=
  ∃ content, response.content = .ok content ∧
    (if content = [] then .ok (.obj []) else L.loads content) = .ok payload

-- The request that opens a session.
def Opens (r : Request) : Prop :=
  ∃ url timeout, target.lookup "init_url" = some url ∧
    r = message url (.obj [("case", case_input)]) timeout

def close_template : Json :=
  (target.lookup "close_url_template").getD .null

-- The log of an invocation and what it came to, by the protocol: nothing but lookups, or the opening
-- of a session too that got no id; or an opening, the turns, and the closing of the session.
inductive Follows : Log → Except Error InvocationResult → Prop
  | unopened {lookups opening : Log} {o : Except Error InvocationResult} :
    requests lookups = [] →
    (opening = [] ∨ ∃ transport r reply, opening = [⟨.send transport r, reply⟩] ∧
      Opens target case_input r) →
    (∀ r, o = .ok r → r.outcome ≠ "ok") → Follows (lookups ++ opening) o
  | opened {lookups talk closing : Log} {o : Except Error InvocationResult}
      {transport : PinnedTransport} {r : Request} {response : Response} {payload : Json} {id : String}
      {how : Turns} {template url close_url : Json} :
    requests lookups = [] → turns ctx case_input = some how → Opens target case_input r →
    Opened L response payload → session_id payload = .str id →
    target.lookup "turn_url_template" = some template →
    session_url L template (.str id) = .ok url → Talked L policy target url payload talk how →
    ((close_template target).truthy →
      session_url L (close_template target) (.str id) = .ok close_url ∧
        Released L policy target close_url closing (∃ r, o = .ok r ∧ r.outcome = "ok")) →
    (¬ (close_template target).truthy → closing = []) →
    (∀ r, o = .ok r → r.outcome = "ok" → Completed L policy target url payload talk how) →
    Follows (lookups ++ ⟨.send transport r, .ok response⟩ :: (talk ++ closing)) o

-- What the endpoint answers the opening with gives the session a name, or none at all.
def Named (log : Log) : Prop :=
  ∀ transport r response payload, log.find? (fun e => e.call matches .send _ _) =
    some ⟨.send transport r, .ok response⟩ → Opened L response payload →
    session_id payload ≠ .str ""

end

section

variable {L : Libraries} {policy : EndpointPolicy} {target : Fields} {ctx : Context} {log : Log}
variable {case_input : Json} {t : Templates}

theorem item_inv {key : String} {o : Except Error Json}
    (d : Dialogue (HttpJobAdapter.item target key) log o) :
    log = [] ∧ ∀ v, o = .ok v → target.lookup key = some v := by
  unfold HttpJobAdapter.item at d
  split at d
  case h_1 value h =>
    obtain ⟨rfl, rfl⟩ := Dialogue.pure_inv d
    exact ⟨rfl, fun v hv => by rw [h, ← Except.ok.inj hv]⟩
  case h_2         =>
    obtain ⟨rfl, rfl⟩ := Dialogue.throw_inv d
    exact ⟨rfl, nofun⟩

theorem requests_append {log log' : Log} : requests (log ++ log') = requests log ++ requests log' :=
  List.filterMap_append

theorem requests_authorize {url : Json} {o : Except Error Pin}
    (d : Dialogue (policy.authorize L url) log o) : requests log = [] := by
  rcases authorize_inv d with ⟨e, -, rfl, -⟩ | ⟨dest, r, -, rfl, -⟩
  · rfl
  · rfl

theorem fill_eq_ok {template v : Json} {key value : String} (h : fill template key value = .ok v) :
    ∃ text, template = .str text := by
  cases template with
  | str text => exact ⟨text, rfl⟩
  | _        => cases h

-- What is looked up before a session is opened.
theorem prepare_inv {o : Except Error Templates} (d : Dialogue (prepare L policy target) log o) :
    requests log = [] ∧ ∀ t, o = .ok t → target.lookup "turn_url_template" = some t.turn ∧
      t.close = close_template target ∧ (∃ text, t.turn = .str text) ∧
      (t.close.truthy → ∃ text, t.close = .str text) := by
  rcases Dialogue.bind_inv d with ⟨e, rfl, d₁⟩ | ⟨init, log₁, rest, rfl, d₁, d₂⟩
  · exact ⟨(item_inv d₁).left ▸ rfl, nofun⟩
  obtain ⟨rfl, -⟩ := item_inv d₁
  rw [List.nil_append]
  rcases Dialogue.bind_inv d₂ with ⟨e, rfl, d₃⟩ | ⟨pin, log₂, rest, rfl, d₃, d₄⟩
  · exact ⟨requests_authorize d₃, nofun⟩
  rw [requests_append, requests_authorize d₃, List.nil_append]
  rcases Dialogue.bind_inv d₄ with ⟨e, rfl, d₅⟩ | ⟨turn, log₃, rest, rfl, d₅, d₆⟩
  · exact ⟨(item_inv d₅).left ▸ rfl, nofun⟩
  obtain ⟨rfl, hturn⟩ := item_inv d₅
  rw [List.nil_append]
  rcases Dialogue.ofExcept_bind_inv d₆ with ⟨e, -, rfl, rfl⟩ | ⟨url, hfill, d₇⟩
  · exact ⟨rfl, nofun⟩
  rcases Dialogue.bind_inv d₇ with ⟨e, rfl, d₈⟩ | ⟨_, log₄, rest, rfl, d₈, d₉⟩
  · exact ⟨requests_authorize d₈, nofun⟩
  rw [requests_append, requests_authorize d₈, List.nil_append]
  dsimp only at d₉
  split at d₉
  case isTrue hclose  =>
    rcases Dialogue.ofExcept_bind_inv d₉ with ⟨e, -, rfl, rfl⟩ | ⟨close_url, hfill', d₁₀⟩
    · exact ⟨rfl, nofun⟩
    rcases Dialogue.bind_inv d₁₀ with ⟨e, rfl, d₁₁⟩ | ⟨_, log₅, rest, rfl, d₁₁, d₁₂⟩
    · exact ⟨requests_authorize d₁₁, nofun⟩
    obtain ⟨rfl, rfl⟩ := Dialogue.pure_inv d₁₂
    rw [requests_append, requests_authorize d₁₁]
    refine ⟨rfl, ?_⟩
    rintro t ⟨⟩
    exact ⟨hturn turn rfl, rfl, fill_eq_ok hfill, fun _ => fill_eq_ok hfill'⟩
  case isFalse hclose =>
    obtain ⟨rfl, rfl⟩ := Dialogue.pure_inv d₉
    refine ⟨rfl, ?_⟩
    rintro t ⟨⟩
    exact ⟨hturn turn rfl, rfl, fill_eq_ok hfill, fun h => absurd h hclose⟩

-- The opening of a session is one request at most.
theorem open_session_inv {o : Except Error (Json × Json × ℕ)}
    (d : Dialogue (open_session L target case_input t) log o) :
    (log = [] ∧ ∀ x, o ≠ .ok x) ∨ ∃ transport r reply, log = [⟨.send transport r, reply⟩] ∧
      Opens target case_input r ∧ ∀ x, o = .ok x → ∃ response payload, reply = .ok response ∧
        Opened L response payload ∧ x = (session_id payload, payload, response.status_code) := by
  rcases Dialogue.bind_inv d with ⟨e, rfl, d₁⟩ | ⟨url, log₁, rest, rfl, d₁, d₂⟩
  · exact .inl ⟨(item_inv d₁).left, nofun⟩
  obtain ⟨rfl, hurl⟩ := item_inv d₁
  rw [List.nil_append]
  have hopens (timeout) : Opens target case_input (message url (.obj [("case", case_input)]) timeout) :=
    ⟨url, timeout, hurl url rfl, rfl⟩
  rcases Dialogue.bind_inv d₂ with ⟨e, rfl, d₃⟩ | ⟨response, log₂, rest, rfl, d₃, d₄⟩
  · rcases post_inv d₃ with ⟨e', -, rfl, -⟩ | ⟨transport, timeout, -, rfl⟩
    · exact .inl ⟨rfl, nofun⟩
    · exact .inr ⟨_, _, _, rfl, hopens timeout, nofun⟩
  rcases post_inv d₃ with ⟨e', -, -, ⟨⟩⟩ | ⟨transport, timeout, -, rfl⟩
  rcases Dialogue.ofExcept_bind_inv d₄ with ⟨e, -, rfl, rfl⟩ | ⟨content, hcontent, d₅⟩
  · exact .inr ⟨_, _, _, rfl, hopens timeout, nofun⟩
  rcases Dialogue.ofExcept_bind_inv d₅ with ⟨e, -, rfl, rfl⟩ | ⟨payload, hpayload, d₆⟩
  · exact .inr ⟨_, _, _, rfl, hopens timeout, nofun⟩
  obtain ⟨rfl, rfl⟩ := Dialogue.pure_inv d₆
  refine .inr ⟨_, _, _, rfl, hopens timeout, ?_⟩
  rintro x ⟨⟩
  exact ⟨response, payload, rfl, ⟨content, hcontent, hpayload⟩, rfl⟩

-- A session that has an id follows the protocol.
theorem session_of_string {how : Turns} {payload url : Json} {id text : String} {status_code : ℕ}
    {o : Except Error InvocationResult} (hurl : session_url L t.turn (.str id) = .ok url)
    (hclose : t.close.truthy → t.close = .str text) (hid : t.close.truthy → id ≠ "")
    (d : Dialogue (session L policy target ctx t how (.str id) payload status_code) log o) :
    ∃ talk closing, log = talk ++ closing ∧ Talked L policy target url payload talk how ∧
      (t.close.truthy → Released L policy target (.str (text.replace "{session_id}" (L.quote id)))
        closing (∃ r, o = .ok r ∧ r.outcome = "ok")) ∧
      (¬ t.close.truthy → closing = []) ∧
      ∀ r, o = .ok r → r.outcome = "ok" → Completed L policy target url payload talk how := by
  obtain ⟨log₁, log₂, x, rfl, dh, hx⟩ := session_inv d
  have hclosing (ht : t.close.truthy) {log : Log} {oc : Except Error Closing}
      (dc : Dialogue (close_session L policy target t (.str id)) log oc) :=
    have hurl : session_url L t.close (.str id) =
        .ok (.str (text.replace "{session_id}" (L.quote id))) := by
      rw [hclose ht]
      rfl
    close_session_inv hurl ht (by simpa [Json.truthy] using hid ht) dc
  have hnone (ht : ¬ t.close.truthy) {log : Log} {oc : Except Error Closing}
      (dc : Dialogue (close_session L policy target t (.str id)) log oc) :=
    close_session_none (fun h => ht h.left) dc
  rcases hold_inv (.inr hurl) dh with ⟨htalked, -, hrefused⟩ |
    ⟨talk, closing, oc, rfl, -, hcompleted, dc, hoc⟩
  case inl =>
    -- The turns broke off, and the session is released once.
    have hnot (r) (ho : o = .ok r) (hok : r.outcome = "ok") : False := by
      rcases hx with ⟨r', rfl, -, ho'⟩ | ⟨oc, -, -, hr⟩
      · exact absurd (hrefused _ rfl).right (by simp)
      · exact (hrefused _ (hr r ho hok)).left hok
    rcases hx with ⟨r', rfl, -, -⟩ | ⟨oc, dc, -, -⟩
    · exact absurd (hrefused _ rfl).right (by simp)
    refine ⟨log₁, log₂, rfl, htalked, fun ht => ?_, fun ht => (hnone ht dc).left,
      fun r ho hok => (hnot r ho hok).elim⟩
    obtain ⟨r, hattempt, -⟩ := hclosing ht dc
    refine ⟨[(log₂, r)], by simp, by simp, by simpa using hattempt, by simp, ?_⟩
    rintro ⟨r', ho, hok⟩
    exact (hnot r' ho hok).elim
  case inr =>
    refine ⟨talk, closing ++ log₂, by rw [List.append_assoc], hcompleted.talked, fun ht => ?_,
      fun ht => ?_, fun _ _ _ => hcompleted⟩
    · obtain ⟨r, hattempt, hr⟩ := hclosing ht dc
      rcases hx with ⟨r', rfl, rfl, rfl⟩ | ⟨oc', dc', hsent, hlast⟩
      · -- Its closing was sent.
        rw [List.append_nil]
        refine ⟨[(closing, r)], by simp, by simp, by simpa using hattempt, by simp, ?_⟩
        rintro ⟨r'', ho, hok⟩
        cases ho
        rcases hoc with ⟨e, -, ⟨⟩⟩ | ⟨c, r'', rfl, hcr, hiff⟩
        obtain rfl := (Prod.mk.inj (Except.ok.inj hcr)).left
        rcases hr with ⟨e, ⟨⟩, -⟩ | ⟨c', hc', hclosed, -⟩
        cases hc'
        exact ⟨(closing, r), .head _, hclosed.mp (hiff.mp hok)⟩
      · -- Its closing failed, and is tried again.
        have hfailed : ¬ Successful r := by
          rcases hr with ⟨e, -, hnot⟩ | ⟨c', rfl, hclosed, hcs⟩
          · exact hnot
          · rcases hoc with ⟨e, ⟨⟩, -⟩ | ⟨c, r'', hc, rfl, -⟩
            cases hc
            exact fun hs => hsent r'' (by rw [hcs (hclosed.mpr hs)])
        obtain ⟨r₂, hattempt₂, -⟩ := hclosing ht dc'
        refine ⟨[(closing, r), (log₂, r₂)], by simp, by simp, ?_, by simpa using hfailed, ?_⟩
        · intro a ha
          rcases List.mem_cons.mp ha with rfl | ha
          · exact hattempt
          · rw [List.mem_singleton.mp ha]
            exact hattempt₂
        · rintro ⟨r', ho, hok⟩
          have hxr := hlast r' ho hok
          rcases hoc with ⟨e, -, rfl⟩ | ⟨c, r'', rfl, rfl, hiff⟩
          · cases hxr
          · obtain rfl := (Prod.mk.inj (Except.ok.inj hxr)).left
            rcases hr with ⟨e, ⟨⟩, -⟩ | ⟨c', hc', hclosed, -⟩
            cases hc'
            exact absurd (hclosed.mp (hiff.mp hok)) hfailed
    · obtain ⟨rfl, hc⟩ := hnone ht dc
      rcases hx with ⟨r', -, rfl, -⟩ | ⟨oc', dc', -, -⟩
      · rfl
      · exact (hnone ht dc').left

-- A session without an id that is a string sends no turn.
theorem session_of_no_string {how : Turns} {payload id : Json} {status_code : ℕ}
    {o : Except Error InvocationResult} (hid : id.string? = none)
    (d : Dialogue (session L policy target ctx t how id payload status_code) log o) :
    log = [] ∧ ∀ r, o = .ok r → r.outcome ≠ "ok" := by
  obtain ⟨log₁, log₂, x, rfl, dh, hx⟩ := session_inv d
  have hnone : id.string? = none ∨ session_url L t.turn id = .ok .null := .inl hid
  rcases hold_inv hnone dh with ⟨-, hnil, hrefused⟩ | ⟨_, _, _, -, hstring, -⟩
  case inr => exact absurd hid hstring
  obtain rfl := hnil hid
  rcases hx with ⟨r, rfl, rfl, rfl⟩ | ⟨oc, dc, -, hlast⟩
  · exact absurd (hrefused _ rfl).right (by simp)
  refine ⟨?_, fun r ho hok => (hrefused _ (hlast r ho hok)).left hok⟩
  unfold close_session at dc
  split at dc
  case isTrue  =>
    obtain ⟨rfl, -⟩ := Dialogue.pure_inv dc
    rfl
  case isFalse =>
    have hpost {log : Log} {o : Except Error Response}
        (d : Dialogue (post_to L policy target t.close id (.obj [])) log o) :
        log = [] ∧ ∃ e, o = .error e := by
      rcases Dialogue.ofExcept_bind_inv d with ⟨e, -, rfl, rfl⟩ | ⟨url, hurl, -⟩
      · exact ⟨rfl, e, rfl⟩
      · unfold session_url at hurl
        split at hurl
        case h_1 =>
          obtain ⟨text, hquote, -⟩ := bind_eq_ok_iff.mp hurl
          unfold quote at hquote
          split at hquote
          case h_1 => cases hid
          case h_2 => cases hquote
        case h_2 => cases hurl
    have hinner {log : Log} {o : Except Error ℕ} (d : Dialogue (do
        let response ← post_to L policy target t.close id (.obj [])
        let _ ← Prog.ofExcept response.content
        return response.status_code) log o) : log = [] ∧ ∃ e, o = .error e := by
      rcases Dialogue.bind_inv d with ⟨e, rfl, d₁⟩ | ⟨response, log₁, rest, rfl, d₁, -⟩
      · exact ⟨(hpost d₁).left, e, rfl⟩
      · obtain ⟨-, e, ⟨⟩⟩ := hpost d₁
    rcases Dialogue.bind_inv dc with ⟨e, rfl, d₁⟩ | ⟨x, log₁, rest, rfl, d₁, d₂⟩
    · obtain ⟨x, d₂, -⟩ := attempt_inv d₁
      rw [(hinner d₂).left]
      rfl
    · obtain ⟨x', d₃, -⟩ := attempt_inv d₁
      rw [(hinner d₃).left]
      cases x with
      | error _ =>
        obtain ⟨rfl, -⟩ := Dialogue.pure_inv d₂
        rfl
      | ok _    =>
        obtain ⟨rfl, -⟩ := Dialogue.pure_inv d₂
        rfl

theorem find_send_append {lookups rest : Log} {transport : PinnedTransport} {r : Request}
    {reply : Except Error Response} (h : requests lookups = []) :
    (lookups ++ ⟨.send transport r, reply⟩ :: rest).find? (fun e => e.call matches .send _ _) =
      some ⟨.send transport r, reply⟩ := by
  have hnone : ∀ e ∈ lookups, ¬ (e.call matches .send _ _) := by
    intro e he hsend
    obtain ⟨call, reply⟩ := e
    cases call with
    | getaddrinfo host port => cases hsend
    | send transport r      => simpa using List.filterMap_eq_nil_iff.mp h _ he
  rw [List.find?_append, List.find?_eq_none.mpr hnone]
  rfl

theorem follows_of_lookups {o : Except Error InvocationResult} (h : requests log = [])
    (ho : ∀ r, o = .ok r → r.outcome ≠ "ok") : Follows L policy target ctx case_input log o := by
  have hfollows := @Follows.unopened L policy target ctx case_input log [] o h (.inl rfl) ho
  rwa [List.append_nil] at hfollows

-- What a session comes to that an endpoint opened.
theorem opened_follows {how : Turns} {lookups rest : Log} {transport : PinnedTransport} {r : Request}
    {response : Response} {payload : Json} {o : Except Error InvocationResult}
    (hlookups : requests lookups = []) (hturns : turns ctx case_input = some how)
    (hopens : Opens target case_input r) (hopened : Opened L response payload)
    (hturn : target.lookup "turn_url_template" = some t.turn)
    (hclose : t.close = close_template target) (htext : ∃ text, t.turn = .str text)
    (hclosetext : t.close.truthy → ∃ text, t.close = .str text)
    (hnamed : (close_template target).truthy → session_id payload ≠ .str "")
    (d : Dialogue (session L policy target ctx t how (session_id payload) payload
      response.status_code) rest o) :
    Follows L policy target ctx case_input (lookups ++ ⟨.send transport r, .ok response⟩ :: rest) o := by
  cases hid : (session_id payload).string? with
  | none    =>
    obtain ⟨rfl, ho⟩ := session_of_no_string hid d
    exact .unopened hlookups (.inr ⟨transport, r, .ok response, rfl, hopens⟩) ho
  | some id =>
    have hstring : session_id payload = .str id := by
      cases hs : session_id payload with
      | str s => rw [hs] at hid; exact congrArg _ (Option.some.inj hid)
      | _     => rw [hs] at hid; cases hid
    rw [hstring] at d
    obtain ⟨text, htext⟩ := htext
    obtain ⟨close_text, hclose_text⟩ : ∃ text, t.close.truthy → t.close = .str text := by
      by_cases ht : t.close.truthy
      case pos =>
        obtain ⟨text, h⟩ := hclosetext ht
        exact ⟨text, fun _ => h⟩
      case neg => exact ⟨"", fun h => absurd h ht⟩
    have hurl : session_url L t.turn (.str id) =
        .ok (.str (text.replace "{session_id}" (L.quote id))) := by
      rw [htext]
      rfl
    have hne : t.close.truthy → id ≠ "" := by
      rintro ht rfl
      exact hnamed (hclose ▸ ht) hstring
    obtain ⟨talk, closing, rfl, htalked, hreleased, hunclosed, hcompleted⟩ :=
      session_of_string hurl hclose_text hne d
    rw [hclose] at hclose_text hreleased hunclosed
    exact .opened hlookups hturns hopens hopened hstring hturn hurl htalked
      (fun ht => ⟨by rw [hclose_text ht]; rfl, hreleased ht⟩) hunclosed hcompleted

end

namespace Scripted

-- The texts that URLs may consist of.
def Plain (text : String) : Prop :=
  ∀ c ∈ text.toList, c ∉ ['\\', '\r', '\n', '\t']

instance {text : String} : Decidable (Plain text) :=
  List.decidableBAll _ text.toList

theorem mem_slice {s : String.Slice} {a b : s.Pos} {c : Char}
    (h : c ∈ (s.slice! a b).copy.toList) : c ∈ s.copy.toList := by
  unfold String.Slice.slice! at h
  split at h
  case isTrue hle =>
    rw [@String.Slice.copy_eq_copy_slice s a b hle]
    simp [h]
  case isFalse    =>
    change c ∈ (default : String.Slice).copy.toList at h
    have hempty : (default : String.Slice).copy = "" := rfl
    simp [hempty] at h

theorem foldl_preserves {α β : Type} {I : β → Prop} {f : β → α → β}
    (hf : ∀ b a, I b → I (f b a)) (l : List α) {b : β} (hb : I b) : I (l.foldl f b) := by
  induction l generalizing b with
  | nil         => exact hb
  | cons a l ih => exact ih (hf b a hb)

-- What is filled in a template leaves a text that a URL may be.
theorem Plain.replace {s p r : String} (hs : Plain s) (hr : Plain r) : Plain (s.replace p r) := by
  unfold String.replace String.Slice.replace
  rw [← @Std.Iter.foldl_toList (String.Slice.Pattern.ForwardSliceSearcher s.toSlice)
    (String.Slice.Pattern.SearchStep s.toSlice)]
  refine foldl_preserves (I := Plain) (fun text step htext c hc => ?_) _ (by simp [Plain])
  cases step with
  | matched a b  =>
    change c ∈ (text ++ r.toSlice).toList at hc
    simp only [String.appendSlice_eq, String.copy_toSlice, String.toList_append,
      List.mem_append] at hc
    exact hc.elim (htext c) (hr c)
  | rejected a b =>
    change c ∈ (text ++ s.toSlice.slice! a b).toList at hc
    simp only [String.appendSlice_eq, String.toList_append, List.mem_append] at hc
    exact hc.elim (htext c) fun hc => hs c (by simpa using mem_slice hc)

-- An endpoint whose sessions have the id that is given, and wait for input at once.
def opening (id : String) : Json :=
  .obj [("id", .str id), ("state", .str "awaiting_input")]

def libraries (id : String) : Libraries :=
  { Answering.libraries with
    urlparse := fun _ => some ⟨"https", none, none, some "t.example", none⟩
    loads    := fun body =>
      if body = [0] then .ok (opening id)
      else if body = [1] then .ok (.obj [("output", .str "done")])
      else .error .value_error }

def target : Fields := [
  ("init_url", .str "https://t.example/sessions"),
  ("turn_url_template", .str "https://t.example/sessions/{session_id}/turns"),
  ("close_url_template", .str "https://t.example/sessions/{session_id}/close")
]

def script : List Json := [
  .obj [("kind", .str "wait_for_input")],
  .obj [("kind", .str "user_response"), ("provided_input", .str "yes")]
]

def context : Context where
  secret               := ""
  remote_job_id        := .null
  interaction_script   := .arr script
  adapter_event _ _ _  := .ok none

def pin : Pin :=
  ⟨"t.example", 443, "https", ["93.184.215.14"]⟩

def found : Event sig :=
  ⟨.getaddrinfo "t.example" 443, .ok (some ["93.184.215.14"])⟩

theorem authorized {id text : String} (h : Plain text) :
    Dialogue (EndpointPolicy.authorize (libraries id) ⟨[]⟩ (.str text)) [found] (.ok pin) := by
  have hall : text.toList.all (fun c => c ∉ ['\\', '\r', '\n', '\t']) := by
    simpa [Plain] using h
  have hdest : destination (libraries id) (.str text) = .ok ⟨"https", "t.example", 443⟩ := by
    unfold destination check
    simp only [libraries, hall]
    rfl
  have happrove : approve (libraries id) ⟨[]⟩ ⟨"https", "t.example", 443⟩ (some ["93.184.215.14"]) =
      .ok pin := by
    rfl
  unfold EndpointPolicy.authorize
  rw [hdest]
  exact .bind (.ofExcept (.ok _)) <| .bind (.perform (.ok _)) <| happrove ▸ .ofExcept _

-- A client that posts to the endpoint.
def transport : PinnedTransport :=
  ⟨"93.184.215.14", "t.example", 443, "https"⟩

def sent (url json : Json) (response : Response) : Event sig :=
  ⟨.send transport (message url json (.finite (30 : ℤ))), .ok response⟩

theorem posted {id : String} {url json : Json} (response : Response) :
    Dialogue (post (libraries id) target pin url json) [sent url json response] (.ok response) := by
  have htransport : PinnedTransport.new (libraries id) pin = .ok transport := rfl
  have hlimit : (30 : ℤ).natAbs < Json.floatLimit := by decide +kernel
  have hdefault : (target.lookup "timeout_seconds").getD (.int 30) = .int 30 := rfl
  unfold post
  rw [htransport, hdefault, float, if_pos hlimit]
  exact .bind (.ofExcept (.ok _)) <| .bind (.ofExcept (.ok _)) <| .perform (.ok _)

theorem posted_to {id template : String} {json : Json} (response : Response)
    (h : Plain (template.replace "{session_id}" id)) :
    Dialogue (post_to (libraries id) ⟨[]⟩ target (.str template) (.str id) json)
      [found, sent (.str (template.replace "{session_id}" id)) json response] (.ok response) :=
  .bind (.ofExcept (.ok _)) <| .bind (authorized h) (posted response)

def turn_url : String :=
  "https://t.example/sessions/{session_id}/turns"

def close_url : String :=
  "https://t.example/sessions/{session_id}/close"

def templates : Templates :=
  ⟨pin, .str turn_url, .str close_url⟩

theorem urls_plain : ∀ text ∈ ["https://t.example/sessions", turn_url, close_url, "__session_id__",
    "", "s1"], Plain text := by
  decide +kernel

theorem prepared {id : String} :
    Dialogue (prepare (libraries id) ⟨[]⟩ target) [found, found, found] (.ok templates) := by
  have hfill {text : String} (h : Plain text) :
      Plain (text.replace "{session_id}" "__session_id__") :=
    h.replace (urls_plain _ (by simp))
  refine .bind (.ofExcept (.ok _)) <| .bind (authorized (urls_plain _ (by simp))) ?_
  refine .bind (.ofExcept (.ok _)) <| .bind (.ofExcept (.ok _)) ?_
  refine .bind (authorized (hfill (urls_plain turn_url (by simp)))) ?_
  exact .bind (.ofExcept (.ok _)) <|
    .bind (authorized (hfill (urls_plain close_url (by simp)))) .pure

def greeting : Json :=
  .obj [("question", .str "hi")]

def opened : Event sig :=
  sent (.str "https://t.example/sessions") (.obj [("case", greeting)]) ⟨200, none, [[0]], none⟩

theorem open_session_said {id : String} :
    Dialogue (open_session (libraries id) target greeting templates) [opened]
      (.ok (.str id, opening id, 200)) :=
  .bind (.ofExcept (.ok _)) <| .bind (posted _) <| .bind (.ofExcept (.ok _)) <|
    .bind (.ofExcept (.ok (opening id))) .pure

theorem attempted {α β : Type} {p : Prog sig α} {handler : Error → Option β} {log : Log} {a : α}
    (d : Dialogue p log (.ok a)) : Dialogue (attempt p handler) log (.ok (.ok a)) :=
  .tryCatch d.map

def closed (id : String) : Event sig :=
  sent (.str (close_url.replace "{session_id}" id)) (.obj []) ⟨200, none, [], none⟩

theorem closing_said {id : String} (hid : Json.truthy (.str id)) (hplain : Plain id) :
    Dialogue (close_session (libraries id) ⟨[]⟩ target templates (.str id)) [found, closed id]
      (.ok ⟨true, true⟩) := by
  have hurl : Plain (close_url.replace "{session_id}" id) :=
    Plain.replace (urls_plain _ (by simp)) hplain
  have hpost : Dialogue (post_to (libraries id) ⟨[]⟩ target (.str close_url) (.str id) (.obj []))
      [found, closed id] (.ok ⟨200, none, [], none⟩) :=
    posted_to _ hurl
  have hnot : (!Json.truthy (.str id) || !templates.close.truthy) = false := by
    rw [hid]
    rfl
  unfold close_session
  rw [hnot, if_neg Bool.false_ne_true]
  have hstatus : Dialogue (do
      let response ← post_to (libraries id) ⟨[]⟩ target templates.close (.str id) (.obj [])
      let _ ← Prog.ofExcept response.content
      return response.status_code) [found, closed id] (.ok 200) :=
    .bind hpost <| .bind (.ofExcept (.ok [])) .pure
  exact .bind (attempted hstatus) .pure

theorem invoked {id : String} {log : Log} {o : Except Error InvocationResult}
    (d : Dialogue (session (libraries id) ⟨[]⟩ target context templates (.script script) (.str id)
      (opening id) 200) log o) :
    Dialogue (invoke (libraries id) ⟨[]⟩ target context greeting)
      (found :: found :: found :: opened :: log) o :=
  .bind (attempted prepared) <| .bind (attempted open_session_said) d

-- A session that is cancelled before its first turn is closed.
theorem cancelled_said {id : String} (hid : Json.truthy (.str id)) (hplain : Plain id) :
    Dialogue (invoke (libraries id) ⟨[]⟩ target context greeting)
      [found, found, found, opened, found, closed id]
      (.ok (result "cancelled" "cancelled" .null (session_observations (.str id) 0))) := by
  have hhold : Dialogue (hold (libraries id) ⟨[]⟩ target context templates (.script script) (.str id)
      (opening id) 200) [] (.ok (result "cancelled" "cancelled" .null
        (session_observations (.str id) 0), false)) :=
    .ask true .pure
  exact invoked <| .bind (.tryCatch (attempted hhold).map) <|
    .bind (closing_said hid hplain) .pure

def replied (id : String) : Event sig :=
  sent (.str (turn_url.replace "{session_id}" id)) (.obj [("input", .str "yes")])
    ⟨200, none, [[1]], none⟩

def done : Json :=
  .obj [("output", .str "done")]

-- A turn that is not cancelled is followed by the rest.
theorem continued {session_id : Json}
    {turn : Progress → Json → Prog sig (Except InvocationResult Progress)} {p p' : Progress} {s : Json}
    {later : List Json} {log rest : Log} {o : Except Error (Except InvocationResult Progress)}
    (d : Dialogue (turn p s) log (.ok (.ok p'))) (d' : Dialogue (each session_id turn p' later) rest o) :
    Dialogue (each session_id turn p (s :: later)) (log ++ rest) o := by
  refine .ask false ?_
  change Dialogue (turn p s >>= _) _ _
  exact .bind d d'

def finished : InvocationResult where
  outcome                := "ok"
  output                 := .str "done"
  capabilities           := [("final_output", "observed")]
  connector_observations := session_observations (.str "") 1

-- A session without a name is a success that is not closed.
theorem unnamed_said : ∃ r, r.outcome = "ok" ∧
    Dialogue (invoke (libraries "") ⟨[]⟩ target context greeting)
      [found, found, found, opened, found, replied ""] (.ok r) := by
  have hturn : Dialogue (send_turn (libraries "") ⟨[]⟩ target templates (.str "")
      { observed := opening "", pending_input := true } (.obj [("input", .str "yes")]))
      [found, replied ""] (.ok (.ok (done,
        { observed := opening "", pending_input := true, turns_completed := 1 }))) := by
    have hurl : Plain (turn_url.replace "{session_id}" "") :=
      Plain.replace (urls_plain _ (by simp)) (urls_plain _ (by simp))
    exact .bind (posted_to ⟨200, none, [[1]], none⟩ hurl) <|
      .bind (.ofExcept (.ok [1])) <| .bind (.ofExcept (.ok done)) .pure
  have hwait : Dialogue (step (libraries "") ⟨[]⟩ target context templates (.str "")
      { observed := opening "" } (.obj [("kind", .str "wait_for_input")])) []
      (.ok (.ok { observed := opening "", pending_input := true })) :=
    .bind (.ofExcept (.ok none)) .pure
  have hrespond : Dialogue (step (libraries "") ⟨[]⟩ target context templates (.str "")
      { observed := opening "", pending_input := true }
      (.obj [("kind", .str "user_response"), ("provided_input", .str "yes")]))
      [found, replied ""] (.ok (.ok { output := .str "done", turns_completed := 1, observed := done })) :=
    .bind (.ofExcept (.ok none)) <| .bind hturn .pure
  have heach : Dialogue (each (.str "") (step (libraries "") ⟨[]⟩ target context templates (.str ""))
      { observed := opening "" } script) [found, replied ""]
      (.ok (.ok { output := .str "done", turns_completed := 1, observed := done })) :=
    continued hwait <| continued hrespond .pure
  have hhold : Dialogue (hold (libraries "") ⟨[]⟩ target context templates (.script script) (.str "")
      (opening "") 200) [found, replied ""] (.ok (finished, false)) := by
    have hconverse : Dialogue (converse (libraries "") ⟨[]⟩ target context templates (.str "")
        (opening "") (.script script)) [found, replied ""]
        (.ok (.ok { output := .str "done", turns_completed := 1, observed := done })) :=
      .bind heach .pure
    refine .ask false ?_
    change Dialogue (converse _ _ _ _ _ _ _ _ >>= _) _ _
    exact .bind hconverse <| .bind .pure .pure
  exact ⟨finished, rfl, invoked <| .bind (.tryCatch (attempted hhold).map) .pure⟩

end Scripted

end HttpSessionAdapter

end Targets
