import Traceline.Egress.Theorems.Conservation

namespace Egress

open Prog (Pool)
open Prog.Pool (events)

variable {ι : Type}

-- One execution of a plan's run, as far as it got: the session its factory made, the requests it
-- served with what their providers answer, and the calls they made, none of them `uncertain`.
structure Execution (ι : Type) [DecidableEq ι] (limits : Fields) where
  session   : Session
  made      : default_proxy_session_factory limits = .ok session
  requests  : ι → Request
  upstreams : ι → ∀ q : sig.Query, sig.Answer q
  within    : ∀ i, (requests i).Within (upstreams i)
  history   : List (ι × Option (Event sig))
  reached   : Pool ι Egress.session Unit
  run       : serving.Run (Session.serving session.budget requests upstreams) history reached
  certain   : ∀ e ∈ events history, ¬e.call.isUncertain

variable [DecidableEq ι] {limits : Fields}

theorem default_proxy_session_factory_eq {total : Int} {s : Session}
    (h : (limits.lookup "budget_usd_micros").getD (.int 0) = .int total)
    (hs : default_proxy_session_factory limits = .ok s) :
    0 ≤ total ∧ s = { budget := ⟨total, 0, 0⟩, records := [] } := by
  simp only [default_proxy_session_factory, h] at hs
  split at hs
  case h_1 b hb =>
    obtain ⟨h0, rfl⟩ := Budget.new_eq_ok_iff.mp hb
    exact ⟨h0, (Except.ok.inj hs).symm⟩
  case h_2 => cases hs

namespace Execution

def cost (e : Execution ι limits) : Int :=
  committed (events e.history)

theorem balanced {total : Int} (e : Execution ι limits)
    (h : (limits.lookup "budget_usd_micros").getD (.int 0) = .int total) :
    Balanced total e.history e.reached.store.budget ∧ Fits total e.history ∧
    ∀ cap, 0 ≤ cap → Fits cap e.history →
      committed (events e.history) + outstanding e.history ≤ cap := by
  have hb : e.session.budget = ⟨total, 0, 0⟩ :=
    default_proxy_session_factory_eq h e.made |>.right ▸ rfl
  exact run_balanced e.within (hb ▸ e.run) e.certain

-- An execution by itself grants only what fits in the budget.
theorem fits {total : Int} (e : Execution ι limits)
    (h : (limits.lookup "budget_usd_micros").getD (.int 0) = .int total) : Fits total e.history :=
  e.balanced h |>.right.left

-- What an execution commits stays under any cap its reservations fit under, and under the total.
theorem cost_le {total : Int} (e : Execution ι limits)
    (h : (limits.lookup "budget_usd_micros").getD (.int 0) = .int total) {cap : Int} (h0 : 0 ≤ cap)
    (hf : Fits cap e.history) : e.cost ≤ cap := by
  obtain ⟨hbal, -, hc⟩ := e.balanced h
  have hle := hc cap h0 hf
  have hnn := hbal.outstanding_nonneg
  rw [cost]
  omega

end Execution

-- What the executions of a run committed together.
def spent (es : List (Execution ι limits)) : Int :=
  es.map (·.cost) |>.sum

-- Every reservation that went through in an execution leaves the run within its budget, counting
-- what the executions before it committed.
def FitsRun (total : Int) (es : List (Execution ι limits)) : Prop :=
  es.AtEach fun past e => Fits (total - spent past) e.history

namespace Restarting

def plan_limits : Fields :=
  [("budget_usd_micros", .int 15)]

-- The execution settles one request and dies.
def execution : Execution ℕ plan_limits where
  session   := { budget := ⟨15, 0, 0⟩, records := [] }
  made      := rfl
  requests  := fun _ => Reopening.request
  upstreams := fun _ => Sharing.upstream
  within    := fun _ => Sharing.within
  history   := (Pool.exec (fun _ => Sharing.upstream) [0, 0, 0] (Sharing.start 15)).1
  reached   := (Pool.exec (fun _ => Sharing.upstream) [0, 0, 0] (Sharing.start 15)).2
  run       := Pool.exec_run (fun _ _ => trivial) _ _
  certain   := by decide +kernel

end Restarting

end Egress
