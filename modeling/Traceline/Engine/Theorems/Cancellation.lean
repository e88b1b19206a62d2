import Traceline.Engine.Theorems.Completion

open Lifecycle Spec Events Evaluators Storage

namespace Engine

variable {E : Engine} {run : Run} {p : Redaction.Patterns} {s t u v : Storage.State}
variable {allow : ∀ q : Query, q.Answer → Prop} {o : Prog.Outcome Storage.Error RunResult}

-- A case that a session takes up again, or for the first time.
def taken_up (s : Storage.State) (case_id : String) : Bool :=
  (s.case_status case_id).any fun st => !settled (prepared_status s.status st)

-- The process died, or the code around the engine raised.
def Interrupted : Prog.Outcome Storage.Error RunResult → Prop
  | .crash   => True
  | .error e => External e
  | .ok _    => False

def illegal_transition : Prog.Outcome Storage.Error RunResult → Bool
  | .error (.illegal_transition _) => true
  | _                              => false

theorem not_interrupted (h : illegal_transition o) : ¬Interrupted o := by
  rcases o with _ | (_ | _ | _ | _ | _ | _ | _ | _ | _) | _ <;>
    simp [illegal_transition, Interrupted, External] at h ⊢

variable (E run p) in
-- A cancellation that landed: the run is cancelled, and with it every case that had not finished.
structure Landed (s : Storage.State) (r : RunResult) (t : Storage.State) : Prop where
  status     : t.status = .cancelled
  finished   : ∀ id, taken_up s id = false → t.case_status id = s.case_status id ∧
    ∀ metric_id revision,
      t.case_results.find (id, metric_id, revision) = s.case_results.find (id, metric_id, revision)
  unfinished : ∀ case ∈ run.spec.cases, taken_up s case.case_id →
    t.case_status case.case_id = some .cancelled ∨
    ∃ result ∈ r.case_results, ∃ u v new, Executed E run p case new u result v ∧
      Untouched case.case_id v t

theorem Prepared.unsettled (h : Prepared s u) {id : String} : unsettled u id = taken_up s id := by
  simp [Engine.unsettled, taken_up, h.cases, Option.any_map]

theorem Cancelled.landed (hp : Prepared s u) {r : RunResult} (h : Cancelled E run p u r t) :
    Landed E run p s r t where
  status     := by
    obtain ⟨v, _, rfl⟩ := h.looping
    rfl
  finished   := by
    intro id hid
    have hu := h.left id <| hp.unsettled.trans hid
    refine ⟨?_, fun m rev => (hu.scores m rev).trans ?_⟩
    · rw [hu.case_status, hp.cases]
      cases hst : s.case_status id with
      | none    => rfl
      | some st =>
        simp only [taken_up, hst, Option.any_some, Bool.not_eq_false'] at hid
        simp [prepared_status_eq hid]
    · rw [hp.case_results]
  unfinished := by
    intro case hcase hs
    refine h.ended case hcase (hp.unsettled.trans hs) |>.imp_right ?_
    intro ⟨result, hr, new, hf⟩
    have ⟨v, w, _, he, _, hw⟩ := hf.executed
    exact ⟨result, hr, v, w, new, he, hw⟩

-- A session that is cancelled before its last case lands exactly where it did not find the run
-- aggregating, unless something else ends it first.
theorem cancellation_lands_iff (hr : (sessions E run p).Reachable s)
    (hs : s.status ≠ .complete ∧ s.status ≠ .failed)
    (hcancel : ∃ case ∈ run.spec.cases, ¬allow (.should_cancel case.case_id) false)
    (e : Prog.Exec (store run p) allow E.run s t o) (ho : ¬Interrupted o) :
    (∃ r, o = .ok r ∧ r.status = .cancelled ∧ Landed E run p s r t) ↔ s.status ≠ .aggregating := by
  have hst := run_inv (reachable_covers hr) e
  have hnever : ∀ {u σ v samples t}, ¬Completes E run p allow s u σ v samples t := by
    intro u σ v samples t h
    have ⟨case, hcase, hn⟩ := hcancel
    exact hn <| h.answers case hcase
  cases hst with
  | refused _ h                 => exact absurd h <| not_or.mpr hs
  | preparing _ _ _             => exact absurd trivial ho
  | executing _ _ _ _ _ _       => exact absurd trivial ho
  | cancelling _ _ _ _ _        => exact absurd trivial ho
  | cancelled u _ r hu hrun hw  =>
    refine iff_of_true ⟨r, rfl, hw.result_status, hw.landed hu⟩ ?_
    intro hagg
    simp [hu.status, hagg] at hrun
  | raised u _ _ e _ hu _ _ he hoe =>
    rcases hoe with rfl | rfl
    · exact absurd trivial ho
    · have hagg : u.status = .aggregating := he.resolve_left ho
      refine iff_of_false (by rintro ⟨_, ⟨⟩, _⟩) (not_not.mpr ?_)
      by_contra hna
      simp [hu.status, hna] at hagg
  | completed u v _ σ samples _ hu hv hend ha hsam hf _ =>
    exact absurd ⟨hu, hv, hend, ha, hsam, hf⟩ hnever

namespace Aggregating

open OneCase

-- A session dies while it aggregates, and the next one is cancelled before its only case.
def died : Storage.State :=
  session 22 (answers false ⟨.completed, some 0, [], .null, .null⟩) (created frozen)

def cancelled : ∀ q : Query, q.Answer :=
  answers true ⟨.completed, some 0, [], .null, .null⟩

def next : Storage.State × Prog.Outcome Storage.Error RunResult :=
  engine.run.run (store frozen redactors) cancelled 40 died

theorem died_reachable : (sessions engine frozen redactors).Reachable died :=
  .step (.init rfl) <| session_step 22 _ _

theorem died_status : died.status = .aggregating := by
  decide +kernel

theorem next_exec : Prog.Exec (store frozen redactors) (fun q r => r = cancelled q) engine.run died
    next.1 next.2 := by
  have hc : ∀ q, (fun q (r : Query.Answer q) => r = cancelled q) q (cancelled q) := fun _ => rfl
  exact Prog.run_exec hc _ _ _

theorem next_raises : illegal_transition next.2 ∧ next.1.status = .incomplete := by
  decide +kernel

theorem cancellation_raises :
    ∃ s t o, (sessions engine frozen redactors).Reachable s ∧ s.status = .aggregating ∧
      Prog.Exec (store frozen redactors) (fun q r => r = cancelled q) engine.run s t o ∧
      illegal_transition o ∧ t.status = .incomplete :=
  ⟨died, next.1, next.2, died_reachable, died_status, next_exec, next_raises⟩

theorem cancellation_lands_iff_died :
    (∃ r, next.2 = .ok r ∧ r.status = .cancelled ∧ Landed engine frozen redactors died r next.1) ↔
      died.status ≠ .aggregating :=
  cancellation_lands_iff died_reachable (by simp [died_status])
    ⟨_, .head _, by simp [cancelled, answers]⟩ next_exec (not_interrupted next_raises.left)

end Aggregating

end Engine
