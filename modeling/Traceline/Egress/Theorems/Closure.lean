import Mathlib.Algebra.Ring.Int.Defs
import Traceline.Egress.Recording
import Traceline.Library.Except
import Traceline.Library.Machine

namespace Egress

open Prog (Pool)
open Prog.Pool (events)

-- A request in flight, on the plain or on the streaming path.
structure Request where
  egress    : RecordingEgress
  path      : String
  headers   : List (String × String)
  body      : Fields
  streaming : Bool

def Request.prog (r : Request) : Prog sig Unit :=
  if r.streaming then
    (fun _ => ()) <$> r.egress.forward_stream r.path r.headers r.body
  else
    (fun _ => ()) <$> r.egress.forward r.path r.headers r.body

-- Any number of requests on one budget, none of them begun.
def Session.start (total : Int) (requests : ι → Request) : Pool ι session Unit where
  threads i := (requests i).prog
  store := { budget := { total := total, spent := 0, reserved := 0 }, records := [] }

-- The environment may answer anything.
def anyAnswer (q : sig.Query) (_ : sig.Answer q) : Prop :=
  True

abbrev proxy [DecidableEq ι] (total : Int) (requests : ι → Request) :
    Machine (Pool ι session Unit) (ι × Option (Event sig)) :=
  Pool.machine anyAnswer (· = Session.start total requests)

def Call.isUncertain : Call → Bool
  | .uncertain _ => true
  | _            => false

-- The event is no reservation, or one refused with `BudgetExceeded`.
def Refused : Event sig → Prop
  | ⟨.reserve _, r⟩ => ∃ m, r = .error (.budgetExceeded m)
  | _               => True

-- Once a request has called `uncertain`, every later `reserve` raises `BudgetExceeded`.
def ClosedForGood (es : List (Event sig)) : Prop :=
  es.AtEach fun past e => (∃ c ∈ past, c.call.isUncertain) → Refused e

-- How the calls on a budget left it: whether a commit came in after the last `uncertain`.
inductive Closure
  | unclosed
  | closed
  | reopened
  deriving DecidableEq, Repr

def Closure.next (c : Closure) : Call → Closure
  | .uncertain _ => .closed
  | .commit _ _  => if c = .unclosed then .unclosed else .reopened
  | _            => c

def closure (calls : List Call) : Closure :=
  calls.foldl Closure.next .unclosed

-- What a call adds to the recorded spend.
def Call.charge : Call → Int
  | .commit _ observed => observed
  | .uncertain r       => r.getD 0
  | _                  => 0

def charged (calls : List Call) : Int :=
  (calls.map Call.charge).sum

-- Every reservation that follows a commit on a closed budget asks for more than is unspent.
def NoneReopened (total : Int) (calls : List Call) : Prop :=
  calls.AtEach fun past c => ∀ w, c = .reserve w → closure past = .reopened →
    total - charged past < w

@[simp]
theorem closure_snoc (cs : List Call) (c : Call) :
    closure (cs ++ [c]) = (closure cs).next c := by
  simp [closure]

@[simp]
theorem charged_snoc (cs : List Call) (c : Call) : charged (cs ++ [c]) = charged cs + c.charge := by
  simp [charged]

theorem closure_eq_unclosed_iff {cs : List Call} :
    closure cs = .unclosed ↔ ∀ c ∈ cs, ¬c.isUncertain := by
  induction cs using List.reverseRecOn with
  | nil => simp [closure]
  | append_singleton cs c ih =>
    rw [closure_snoc, List.forall_mem_append, ← ih]
    cases c <;> cases closure cs <;> simp [Closure.next, Call.isUncertain]

-- What a request gives back is what it reserved, which is no negative amount.
def Call.Sound : Call → Prop
  | .reserve w                  => 0 ≤ w
  | .commit r o                 => 0 ≤ r ∧ 0 ≤ o
  | .uncertain (some r)         => 0 ≤ r
  | .uncertain none | .record _ => True

namespace RecordingEgress

open Prog (Calls)

variable {self : RecordingEgress} {l : Limits} {w : Int}

theorem unmeterable_sound {α : Type} {status : Option Int} {e : Error} (hw : 0 ≤ w) :
    (self.unmeterable w status e : Prog sig α).Calls session anyAnswer Call.Sound :=
  .bind (Calls.of_perform.mpr hw) fun _ => .bind (Calls.of_perform.mpr trivial) fun _ => .of_throw _

theorem secret_sound (hw : 0 ≤ w) : (self.secret w).Calls session anyAnswer Call.Sound := by
  refine .bind (.of_query _) fun a => ?_
  split
  case h_1 =>
    split
    case isTrue  => exact .bind (Calls.of_perform.mpr hw) fun _ => .of_throw _
    case isFalse => exact .of_pure _
  case h_2 => exact .bind (Calls.of_perform.mpr hw) fun _ => .of_throw _

theorem settle_sound {status micros : Int} {usage : Usage} (hw : 0 ≤ w) (hm : 0 ≤ micros) :
    (self.settle l w status micros usage).Calls session anyAnswer Call.Sound := by
  refine .bind (Calls.of_perform.mpr ⟨hw, hm⟩) fun _ => ?_
  have hr (r : Record) : (record r).Calls session anyAnswer Call.Sound := Calls.of_perform.mpr trivial
  dsimp only
  split
  case isTrue =>
    exact .bind (Calls.of_perform.mpr trivial) fun _ => .bind (hr _) fun _ => .of_throw _
  case isFalse => exact .bind (hr _) fun _ => .of_pure _

theorem stream_sound {status : Int} {events : List Json} {ending : StreamEnd} (hw : 0 ≤ w) :
    (self.stream l w status events ending).Calls session anyAnswer Call.Sound := by
  unfold stream
  split
  case h_1 | h_3 => exact unmeterable_sound hw
  case h_2 => exact .of_throw _
  case h_4 =>
    split
    case h_1       => exact .of_pure _
    case h_2       => exact .of_throw _
    case h_3 | h_4 => exact unmeterable_sound hw
    case h_5 =>
      split
      case h_1    => exact unmeterable_sound hw
      case h_2 ho => exact settle_sound hw <| ProviderRoute.observed_nonneg ho

-- The store replies to a reservation with the amount that was asked for.
theorem reserve_bind_sound {α : Type} {g : Int → Prog sig α} (hw : 0 ≤ w)
    (hg : (g w).Calls session anyAnswer Call.Sound) :
    (reserve w >>= g).Calls session anyAnswer Call.Sound := by
  refine .perform_bind hw fun s r hr => ?_
  simp only at hr
  split at hr
  case h_1 r' b h =>
    obtain rfl := Except.ok.inj hr
    exact (Budget.reserve_ok_iff.mp h).right.right.left ▸ hg
  case h_2 => cases hr

theorem forward_sound {path : String} {headers : List (String × String)} {body : Fields} :
    (self.forward path headers body).Calls session anyAnswer Call.Sound := by
  refine .bind (.of_ofExcept _) fun l => ?_
  have hw := self.route.worst_case_nonneg l
  refine reserve_bind_sound hw <| .bind (secret_sound hw) fun real => ?_
  refine .bind (.of_query _) fun a => ?_
  split
  case h_1 => exact unmeterable_sound hw
  case h_2 =>
    dsimp only
    split
    case h_1 h =>
      have ⟨_, _, ho⟩ := Except.bind_eq_ok_iff.mp h
      exact .bind (settle_sound hw <| ProviderRoute.observed_nonneg ho) fun _ => .of_pure _
    case h_2 => exact .of_throw _
    case h_3 => exact unmeterable_sound hw

theorem forward_stream_sound {path : String} {headers : List (String × String)} {body : Fields} :
    (self.forward_stream path headers body).Calls session anyAnswer Call.Sound := by
  refine .bind (.of_ofExcept _) fun l => ?_
  have hw := self.route.worst_case_nonneg l
  refine reserve_bind_sound hw <| .bind (secret_sound hw) fun real => ?_
  refine .bind (.of_query _) fun a => ?_
  split
  case h_1 => exact unmeterable_sound hw
  case h_2 =>
    split
    case h_1 | h_2 | h_3 => exact .bind (stream_sound hw) fun _ => .of_pure _
    case h_4 => exact unmeterable_sound hw

end RecordingEgress

theorem Request.prog_sound (r : Request) : r.prog.Calls session anyAnswer Call.Sound := by
  unfold prog
  split
  case isTrue  => exact .bind RecordingEgress.forward_stream_sound fun _ => .of_pure _
  case isFalse => exact .bind RecordingEgress.forward_sound fun _ => .of_pure _

-- What the calls on a budget say about it, as long as no reservation went through on a closed one.
structure Tracks (total : Int) (calls : List Call) (b : Budget) : Prop where
  total    : b.total = total
  spent    : b.spent = charged calls
  unclosed : closure calls = .unclosed → 0 ≤ b.reserved
  closed   : closure calls = .closed → b.reserved = -1
  reopened : closure calls = .reopened → b.reserved = 0

namespace Tracks

variable {total : Int} {calls : List Call} {b b' : Budget} {w o : Int}

theorem start : Tracks total [] { total, spent := 0, reserved := 0 } where
  total    := rfl
  spent    := rfl
  unclosed := by simp
  closed   := nofun
  reopened := nofun

-- A closed budget refuses; a reopened one refuses what exceeds the unspent total.
theorem refuses_iff (h : Tracks total calls b) (hu : closure calls ≠ .unclosed) :
    (∃ e, b.reserve w = .error e) ↔ (closure calls = .reopened → total - charged calls < w) := by
  rw [Budget.reserve_error_iff, h.total, h.spent]
  cases hc : closure calls with
  | unclosed => exact absurd hc hu
  | closed   => simp [h.closed hc]
  | reopened => simp [h.reopened hc]

theorem commit (h : Tracks total calls b) (hw : 0 ≤ w) :
    Tracks total (calls ++ [.commit w o]) (b.commit w o) where
  total    := h.total
  spent    := by simp [h.spent, Call.charge]
  unclosed := fun _ => Budget.commit_reserved_nonneg
  closed   := by cases hc : closure calls <;> simp [Closure.next, hc]
  reopened := fun hr => Budget.commit_reserved_eq_zero <| by
    cases hc : closure calls with
    | unclosed => simp [Closure.next, hc] at hr
    | closed   => simp [h.closed hc]; omega
    | reopened => simp [h.reopened hc, hw]

theorem uncertain (h : Tracks total calls b) (r : Option Int) :
    Tracks total (calls ++ [.uncertain r]) (b.uncertain r) where
  total    := by simp [h.total]
  spent    := by simp [h.spent, Call.charge]
  unclosed := by simp [Closure.next]
  closed   := by simp
  reopened := by simp [Closure.next]

theorem record (h : Tracks total calls b) (r : Record) : Tracks total (calls ++ [.record r]) b where
  total    := h.total
  spent    := by simp [h.spent, Call.charge]
  unclosed := by simpa [Closure.next] using h.unclosed
  closed   := by simpa [Closure.next] using h.closed
  reopened := by simpa [Closure.next] using h.reopened

theorem refused (h : Tracks total calls b) : Tracks total (calls ++ [.reserve w]) b where
  total    := h.total
  spent    := by simp [h.spent, Call.charge]
  unclosed := by simpa [Closure.next] using h.unclosed
  closed   := by simpa [Closure.next] using h.closed
  reopened := by simpa [Closure.next] using h.reopened

theorem granted (h : Tracks total calls b) (hu : closure calls = .unclosed) (hw : 0 ≤ w)
    (hr : b.reserve w = .ok (r, b')) : Tracks total (calls ++ [.reserve w]) b' := by
  obtain ⟨hn, -, -, rfl⟩ := Budget.reserve_ok_iff.mp hr
  exact {
    total    := h.total
    spent    := by simp [h.spent, Call.charge]
    unclosed := fun _ => Int.add_nonneg hn hw
    closed   := by simp [Closure.next, hu]
    reopened := by simp [Closure.next, hu]
  }

end Tracks

-- One call the store serves: it breaks the closure exactly if it is a reservation the reopened
-- budget has room for, and otherwise it is tracked.
theorem Tracks.event {total : Int} {calls : List Call} {y y' : session.State} {e : Event sig}
    (h : Tracks total calls y.budget) (hs : e.call.Sound)
    (hr : session.perform e.call y = (e.reply, y')) :
    ((closure calls ≠ .unclosed → Refused e) ↔
      ∀ w, e.call = .reserve w → closure calls = .reopened → total - charged calls < w) ∧
    ((closure calls ≠ .unclosed → Refused e) →
      Tracks total (calls ++ [e.call]) y'.budget) := by
  obtain ⟨c, r⟩ := e
  cases c with
  | commit w o =>
    obtain ⟨-, rfl⟩ := Prod.mk.inj hr
    exact ⟨by simp [Refused], fun _ => h.commit hs.left⟩
  | uncertain w =>
    obtain ⟨-, rfl⟩ := Prod.mk.inj hr
    exact ⟨by simp [Refused], fun _ => h.uncertain w⟩
  | record w =>
    obtain ⟨-, rfl⟩ := Prod.mk.inj hr
    exact ⟨by simp [Refused], fun _ => h.record w⟩
  | reserve w =>
    simp only [Call.reserve.injEq, forall_eq'] at hr ⊢
    cases hw : y.budget.reserve w with
    | error e =>
      obtain ⟨m, rfl⟩ := Budget.reserve_error hw
      rw [hw] at hr
      obtain ⟨rfl, rfl⟩ := Prod.mk.inj hr
      refine ⟨iff_of_true (fun _ => ⟨m, rfl⟩) fun ho => ?_, fun _ => h.refused⟩
      exact (h.refuses_iff <| by simp [ho]).mp ⟨_, hw⟩ ho
    | ok b =>
      rw [hw] at hr
      obtain ⟨rfl, rfl⟩ := Prod.mk.inj hr
      have hf : ¬Refused ⟨.reserve w, .ok b.1⟩ := fun ⟨_, hm⟩ => nomatch hm
      have hu (hc : closure calls ≠ .unclosed) :
          ¬(closure calls = .reopened → total - charged calls < w) := by
        rw [← h.refuses_iff hc, hw]
        exact fun ⟨_, he⟩ => nomatch he
      refine ⟨⟨fun hc ho => absurd (hc <| by simp [ho]) hf, fun hc hn => absurd hc <| hu hn⟩, ?_⟩
      exact fun hc => h.granted (by_contra fun hn => hf <| hc hn) hs hw

theorem exists_isUncertain_iff {es : List (Event sig)} :
    (∃ c ∈ es, c.call.isUncertain) ↔ closure (es.map Event.call) ≠ .unclosed := by
  rw [Ne, closure_eq_unclosed_iff]
  simp

-- After any calls the store served, the budget is closed for good exactly if none of them found it
-- reopened; and then the calls say what is in it.
theorem served_closedForGood {total : Int} {x y : session.State}
    (hx : x.budget = { total, spent := 0, reserved := 0 }) {es : List (Event sig)}
    (h : session.Served x es y) (hs : ∀ e ∈ es, e.call.Sound) :
    (ClosedForGood es ↔ NoneReopened total (es.map Event.call)) ∧
    (ClosedForGood es → Tracks total (es.map Event.call) y.budget) := by
  induction h with
  | nil => exact ⟨by simp [ClosedForGood, NoneReopened], fun _ => hx ▸ Tracks.start⟩
  | @snoc es y _ e h hr ih =>
    obtain ⟨ihc, iht⟩ := ih fun c hc => hs c <| List.mem_append_left _ hc
    have he := hs e <| List.mem_append_right _ <| List.mem_singleton_self _
    simp only [ClosedForGood, NoneReopened, List.map_append, List.map_cons, List.map_nil,
      List.AtEach.snoc_iff, exists_isUncertain_iff] at ihc iht ⊢
    constructor
    · rw [← ihc]
      exact and_congr_right fun hc => (iht hc).event he hr |>.left
    · rintro ⟨hc, hn⟩
      exact (iht hc).event he hr |>.right hn

-- Once a request has called `uncertain` every later reservation is refused, on any interleaving of
-- any requests, exactly if no reservation of the history finds the budget reopened by the commit of
-- another request with room for it.
theorem closed_for_good_iff [DecidableEq ι] (total : Int) (requests : ι → Request)
    (h : List (ι × Option (Event sig))) (y : Pool ι session Unit)
    (r : (proxy total requests).Run (Session.start total requests) h y) :
    ClosedForGood (events h) ↔ NoneReopened total ((events h).map Event.call) :=
  served_closedForGood rfl (Pool.run_served r)
    (Pool.run_calls (fun i => (requests i).prog_sound) r |>.right) |>.left

namespace Reopening

def route : ProviderRoute where
  host                    := "api.provider.test"
  path                    := "/v1/chat/completions"
  model                   := "m"
  secret_ref              := "key"
  dummy_key               := "dummy"
  max_input_tokens        := 10
  max_output_tokens       := 10
  input_micros_per_token  := 1
  output_micros_per_token := 1
  price_version           := "v1"
  origin                  := none
  provider                := "openai"
  usage_decoder           := none
  max_request_bytes       := 1024
  input_token_bound       := some fun _ => .ok (.int 5)
  allow_streaming         := false
  host_ne_empty           := by decide
  path_absolute           := by decide
  limits_pos              := by decide
  input_price_nonneg      := by decide
  output_price_nonneg     := by decide

def request : Request where
  egress    := { codec := { dumps := fun _ => some "\x7b\"model\": \"m\", \"max_tokens\": 4\x7d" }, route }
  path      := "/v1/chat/completions"
  headers   := [("Authorization", "Bearer dummy")]
  body      := [("model", .str "m"), ("max_tokens", .int 4)]
  streaming := false

-- The transport fails for the first request; every other one is billed three micros.
def env (i : ℕ) : ∀ q : sig.Query, sig.Answer q
  | .resolve _ => some (.str "real")
  | .send _ _  =>
    if i = 0 then none
    else some (200, .json <| .obj [
      ("usage", .obj [("prompt_tokens", .int 2), ("completion_tokens", .int 1)])])

def start : Pool ℕ session Unit :=
  Session.start 100 fun _ => request

-- Two requests are out when the first one closes the budget; the second one settles, and a third
-- one is let through.
def schedule : List ℕ :=
  [0, 1, 0, 0, 0, 0, 1, 1, 1, 1, 2]

-- The calls the store has served when the third request comes in.
def calls : List Call :=
  [.reserve 15, .reserve 15, .uncertain (some 15), .record (request.egress.metadata none none),
    .commit 15 3, .record { request.egress.metadata (some 200) (some ⟨2, 1⟩) with
      cost_usd_micros := some 3 }]

theorem calls_eq :
    (events (Pool.exec env schedule start).1).map Event.call = calls ++ [.reserve 15] := by
  decide +kernel

theorem run : (proxy 100 fun _ => request).Run start (Pool.exec env schedule start).1
    (Pool.exec env schedule start).2 :=
  Pool.exec_run (fun _ _ => trivial) schedule start

theorem budget_reopens :
    ¬∀ h y, (proxy 100 fun _ => request).Run start h y → ClosedForGood (events h) := by
  intro hall
  have hs := Pool.run_calls (fun _ => request.prog_sound) run |>.right
  have hn := served_closedForGood rfl (Pool.run_served run) hs |>.left.mp <| hall _ _ run
  rw [calls_eq] at hn
  exact absurd (hn calls _ [] rfl 15 rfl <| by decide) <| by decide

theorem closed_for_good_iff_reopening :
    ClosedForGood (events (Pool.exec env schedule start).1) ↔
      NoneReopened 100 ((events (Pool.exec env schedule start).1).map Event.call) :=
  closed_for_good_iff 100 _ _ _ run

end Reopening

end Egress
