import Traceline.Engine.Theorems.Session

open Lifecycle Spec Events Evaluators Storage

namespace Engine

variable {E : Engine} {run : Run} {p : Redaction.Patterns} {s t : Storage.State}
variable {x : Invocation} {case : TestCase} {σ : Session} {r k n : ℕ}

-- Nobody cancels the run: neither does anyone ask for it, nor does an agent report it.
def uncancelled : ∀ q : Query, q.Answer → Prop
  | .should_cancel _,   b => b = false
  | .invoke_agent _,    r => ∀ result, r = .ok result → result.status ≠ .cancelled
  | .invoke_target _ _, a => ∀ result, a.result = .ok result → result.outcome ≠ "cancelled"
  | .uuid4,             _ => True
  | .set_order _,       _ => True

def Alive (s : Storage.State) : Prop :=
  s.status ≠ .cancelled ∧ s.status ≠ .failed

-- The calls that end a run other than by completing it.
def kills : Storage.Call → Bool
  | .set_run_status target => target = .cancelled || target = .failed
  | _                      => false

theorem Alive.perform {d : Storage.Call} (h : Alive s) (hd : kills d = false) :
    Alive (Storage.perform run p d s).2 := by
  cases d with
  | set_run_status target =>
    change Alive (s.set_run_status target).2
    unfold State.set_run_status
    split
    case h_1 ht =>
      obtain ⟨rfl, -⟩ := transition_eq_ok_iff.mp ht
      simpa [kills, Alive, State.write_run_status] using hd
    case h_2 => exact h
  | set_case_status id target =>
    change Alive (s.set_case_status id target).2
    unfold State.set_case_status
    split
    · exact h
    · split <;> exact h
  | create_attempt id case_id r k =>
    change Alive (s.create_attempt id case_id r k).2
    unfold State.create_attempt
    dsimp only
    split
    · exact h
    · split <;> exact h
  | set_attempt_status id target up =>
    change Alive (s.set_attempt_status id target up).2
    unfold State.set_attempt_status
    split
    · exact h
    · split
      · exact h
      · split <;> exact h
  | insert_trace_events events =>
    change Alive (s.insert_trace_events p events).2
    unfold State.insert_trace_events
    split
    · exact h
    · split
      · exact h
      · split <;> exact h
  | upsert_case_metric_results id scores revision =>
    change Alive (s.upsert_case_metric_results run.spec.metrics id scores revision).2
    unfold State.upsert_case_metric_results
    split <;> exact h
  | save_attempt_output id case_id payload =>
    change Alive (s.save_attempt_output id case_id payload).2
    unfold State.save_attempt_output
    split <;> exact h
  | set_remote_job_state id state =>
    change Alive (s.set_remote_job_state id state)
    unfold State.set_remote_job_state
    split <;> exact h
  | _ => exact h

-- All that is asked is that the run stays alive.
def calm (run : Run) (p : Redaction.Patterns) : Prog.Spec (store run p) where
  allow := uncancelled
  inv   := Alive
  error := fun _ => Alive

theorem wp_call_calm {d : Storage.Call} {Q : d.Reply → Storage.State → Prop}
    (hd : kills d = false) (h : Alive s) (hq : ∀ r t, Alive t → Q r t) :
    (call d).wp (calm run p) Q s := by
  have hp : Alive (Storage.perform run p d s).2 := h.perform hd
  refine wp_call_of ?_ ?_
  · intro r t ht
    rw [ht] at hp
    exact ⟨hp, hq r t hp⟩
  · intro e t ht
    rw [ht] at hp
    exact ⟨hp, hp⟩

section Attempt

theorem wp_target_result_calm {answer : TargetAnswer}
    (ha : ∀ result, answer.result = .ok result → result.outcome ≠ "cancelled") (h : Alive s) :
    (E.target_result x answer).wp (calm run p)
      (fun result t => Alive t ∧ result.status ≠ .cancelled) s := by
  rw [target_result, Prog.wp_bind]
  refine wp_persist_remote_jobs (R := Alive) (fun _ _ hu => hu) h (fun _ hu => hu) fun u hu => ?_
  split
  case h_1 => exact hu
  case h_2 result hr =>
    have hne : outcome_status result.outcome ≠ .cancelled := by
      have := ha result hr
      unfold outcome_status
      split <;> simp_all
    split
    case h_1 => exact hu
    case h_2 =>
      split
      case h_1 =>
        rw [Prog.wp_bind]
        exact wp_call_calm rfl hu fun _ v hv => ⟨hv, hne⟩
      case h_2 => exact ⟨hu, hne⟩

theorem wp_invoke_calm (h : Alive s) :
    (E.invoke run x).wp (calm run p) (fun result t => Alive t ∧ result.status ≠ .cancelled) s := by
  unfold invoke
  split
  case isFalse =>
    rw [Prog.wp_bind]
    intro answer ha
    cases answer with
    | ok result => exact ⟨h, ha result rfl⟩
    | error m   => exact h
  case isTrue =>
    unfold invoke_target
    split
    case h_1 => exact ⟨h, by simp⟩
    case h_2 =>
      rw [Prog.wp_bind]
      refine wp_remote_job h fun job => ?_
      rw [Prog.wp_bind]
      exact fun answer ha => wp_target_result_calm ha h

theorem wp_guarded_invoke_calm (h : Alive s) :
    (E.guarded_invoke run x).wp (calm run p)
      (fun result t => Alive t ∧ result.status ≠ .cancelled) s := by
  rw [guarded_invoke, Prog.wp_tryCatch]
  refine Prog.wp_weaken (c := calm run p) (fun _ _ ha => ha) (fun _ ht => ht) ?_ (wp_invoke_calm h)
  intro e t ht
  dsimp only
  rw [Prog.wp_bind]
  exact wp_call_calm rfl ht fun _ _ hu => hu

theorem wp_try_ingest_calm {events : List TraceEvent}
    {Q : Except String (List TraceEvent × Bool) → Storage.State → Prop} (h : Alive s)
    (hq : ∀ r t, Alive t → Q r t) :
    (catch_engine_error (E.ingest_events run x events)).wp (calm run p) Q s := by
  rw [wp_catch_engine_error]
  have hcaught : ∀ e t, Alive t → caught (calm run p) Q e t := by
    intro e t ht
    cases e with
    | engine_error m => exact hq _ t ht
    | _              => exact ht
  unfold ingest_events
  split
  case h_1 => exact hq _ s h
  case h_2 =>
    rw [Prog.wp_bind]
    have hp : Alive (Storage.perform run p (.insert_trace_events (E.kept_events events)) s).2 :=
      h.perform rfl
    refine wp_call_of ?_ ?_
    · intro r t ht
      rw [ht] at hp
      exact ⟨hp, hq _ t hp⟩
    · intro e t ht
      rw [ht] at hp
      exact ⟨hp, hcaught e t hp⟩

theorem wp_refused_attempt_calm {result : InvocationResult} {m : String} (h : Alive s) :
    (refused_attempt x result m).wp (calm run p)
      (fun o t => Alive t ∧ o.status ≠ .cancelled) s := by
  rw [refused_attempt, Prog.wp_bind]
  exact wp_call_calm rfl h fun _ t ht => ⟨ht, by simp [attempt_result]⟩

theorem wp_failed_attempt_calm {result : InvocationResult} {st : AttemptStatus}
    (hst : st ≠ .cancelled) (h : Alive s) :
    (E.failed_attempt run x result st).wp (calm run p)
      (fun o t => Alive t ∧ o.status ≠ .cancelled) s := by
  have hkept : ∀ kept truncated t, Alive t → Prog.wp (calm run p) (do
      call (.set_attempt_status x.attempt_id st {
        exit_code       := result.exit_code
        error           := result.error
        event_count     := some kept
        trace_truncated := some truncated
      })
      return attempt_result x st result kept truncated result.error)
      (fun o t => Alive t ∧ o.status ≠ .cancelled) t := by
    intro kept truncated t ht
    rw [Prog.wp_bind]
    exact wp_call_calm rfl ht fun _ u hu => ⟨hu, hst⟩
  unfold failed_attempt
  dsimp only
  split
  case isTrue =>
    rw [Prog.wp_bind]
    exact hkept 0 false s h
  case isFalse =>
    rw [Prog.wp_bind]
    refine wp_try_ingest_calm h fun ingested t ht => ?_
    split
    case h_1 => exact wp_refused_attempt_calm ht
    case h_2 => exact hkept _ _ t ht

theorem wp_completed_attempt_calm {result : InvocationResult} (h : Alive s) :
    (E.completed_attempt run x result).wp (calm run p)
      (fun o t => Alive t ∧ o.status ≠ .cancelled) s := by
  rw [completed_attempt, Prog.wp_bind]
  refine wp_try_ingest_calm h fun ingested t ht => ?_
  split
  case h_1 => exact wp_refused_attempt_calm ht
  case h_2 =>
    simp only [Prog.wp_bind]
    refine wp_call_calm rfl ht fun _ u hu => wp_call_calm rfl hu fun _ v hv => ?_
    rw [wp_lift]
    split
    case h_2 => exact hv
    case h_1 => exact wp_call_calm rfl hv fun _ w hw => ⟨hw, by simp [attempt_result]⟩

theorem wp_run_attempt_calm (h : Alive s) :
    (E.run_attempt run case r k).wp (calm run p)
      (fun made t => Alive t ∧ made.1.status ≠ .cancelled) s := by
  rw [run_attempt, Prog.wp_bind, wp_ask]
  intro id _
  simp only [Prog.wp_bind]
  refine wp_call_calm rfl h fun a t ht => wp_call_calm rfl ht fun _ u hu => ?_
  refine Prog.wp_mono ?_ (wp_guarded_invoke_calm hu)
  rintro result v ⟨hv, hne⟩
  split
  case h_1 | h_3 | h_4 =>
    rw [Prog.wp_bind]
    exact wp_failed_attempt_calm (by simp) hv
  case h_2 hc => exact absurd hc hne
  case h_5 | h_6 =>
    rw [Prog.wp_bind]
    exact wp_completed_attempt_calm hv

end Attempt

section Run

theorem wp_run_retries_calm (h : Alive s) :
    (E.run_retries run case r n k).wp (calm run p) (fun _ t => Alive t) s := by
  induction n generalizing k s with
  | zero      => exact h
  | succ n ih =>
    rw [run_retries, Prog.wp_bind]
    refine Prog.wp_mono ?_ (wp_run_attempt_calm h)
    rintro made t ⟨ht, -⟩
    dsimp only
    split
    · exact ht
    · rw [Prog.wp_bind]
      exact Prog.wp_mono (fun _ _ hu => hu) (ih ht)

theorem wp_run_repeats_calm (h : Alive s) :
    (E.run_repeats run case n r).wp (calm run p)
      (fun made t => Alive t ∧ any_cancelled made.1 = false) s := by
  induction n generalizing r s with
  | zero      => exact ⟨h, rfl⟩
  | succ n ih =>
    rw [run_repeats, Prog.wp_bind]
    refine Prog.wp_mono ?_ (wp_run_attempt_calm h)
    rintro made t ⟨ht, hne⟩
    have hrest : ∀ os w u, Alive u → Prog.wp (calm run p) (do
        let rest ← E.run_repeats run case n (r + 1)
        return (made.1 :: rest.1, os ++ rest.2.1, made.2 ++ w ++ rest.2.2))
        (fun made t => Alive t ∧ any_cancelled made.1 = false) u := by
      intro os w u hu
      rw [Prog.wp_bind]
      refine Prog.wp_mono ?_ (ih hu)
      rintro rest v ⟨hv, hn⟩
      exact ⟨hv, by simpa [any_cancelled, hne] using hn⟩
    dsimp only
    split
    case isTrue =>
      rw [Prog.wp_bind]
      exact Prog.wp_mono (fun retries u hu => hrest retries.1 retries.2 u hu)
        (wp_run_retries_calm ht)
    case isFalse =>
      rw [Prog.wp_bind]
      exact hrest [] [] t ht

theorem wp_run_case_inner_calm {id : String} (h : Alive s) :
    (E.run_case_inner run id).wp (calm run p)
      (fun result t => Alive t ∧ any_cancelled result.repeat_outcomes = false) s := by
  unfold run_case_inner
  split
  case h_1 => exact h
  case h_2 =>
    simp only [Prog.wp_bind]
    refine wp_call_calm rfl h fun _ t ht => wp_call_calm rfl ht fun prior u hu => ?_
    refine Prog.wp_mono ?_ (wp_run_repeats_calm hu)
    rintro made v ⟨hv, hn⟩
    simp only [hn, Bool.false_eq_true, if_false]
    unfold close_case
    simp only [Prog.wp_bind]
    refine wp_call_calm rfl hv fun _ w hw => wp_call_calm rfl hw fun _ y hy => ?_
    refine wp_call_calm rfl hy fun record z hz => ?_
    split
    · exact hz
    · exact ⟨hz, hn⟩

theorem wp_upsert_aggregates_calm {b : Bool} {metrics : List Metric} (h : Alive s) :
    (E.upsert_aggregates run σ b metrics).wp (calm run p) (fun _ => Alive) s :=
  wp_upsert_aggregates (fun _ => h) (fun _ _ _ => h) fun _ => h

-- The run loop goes on to the last case.
theorem wp_run_cases_calm {cases : List TestCase} (h : Alive s) :
    (E.run_cases run cases σ).wp (calm run p) (fun r t => Alive t ∧ r.isLeft) s := by
  induction cases generalizing σ s with
  | nil             => exact ⟨h, rfl⟩
  | cons case cases ih =>
    rw [run_cases, Prog.wp_bind, wp_ask]
    intro b hb
    obtain rfl : b = false := hb
    simp only [Bool.false_eq_true, if_false, Prog.wp_bind]
    refine wp_call_calm rfl h fun record t ht => ?_
    split
    case h_1 => exact ht
    case h_2 =>
      split
      case isTrue => exact ih ht
      case isFalse =>
        rw [Prog.wp_bind]
        refine Prog.wp_mono ?_ (wp_run_case_inner_calm ht)
        rintro result u ⟨hu, hn⟩
        rw [Prog.wp_bind]
        refine Prog.wp_mono ?_ (wp_upsert_aggregates_calm hu)
        intro _ v hv
        simp only [hn, Bool.false_eq_true, if_false]
        exact ih hv

theorem wp_first_attempt_scores_calm {id : String} {attempts : List AttemptRecord} (h : Alive s) :
    (E.first_attempt_scores run id attempts).wp (calm run p) (fun _ => Alive) s := by
  induction attempts generalizing s with
  | nil               => exact h
  | cons a attempts ih =>
    unfold first_attempt_scores
    split
    case isFalse => exact ih h
    case isTrue =>
      simp only [Prog.wp_bind]
      refine wp_call_calm rfl h fun _ t ht => wp_call_calm rfl ht fun _ u hu => ?_
      rw [wp_lift]
      split
      case h_2 => exact hu
      case h_1 => exact Prog.wp_mono (fun _ _ hv => hv) (ih hu)

theorem wp_resume_scores_calm {executed : List String} {cases : List TestCase} (h : Alive s) :
    (E.resume_scores run executed cases).wp (calm run p) (fun _ => Alive) s := by
  induction cases generalizing s with
  | nil             => exact h
  | cons case cases ih =>
    unfold resume_scores
    split
    case isTrue => exact ih h
    case isFalse =>
      simp only [case_first_attempt_scores_from_trace, Prog.wp_bind]
      refine wp_call_calm rfl h fun _ t ht => ?_
      refine Prog.wp_mono (fun _ u hu => ?_) (wp_first_attempt_scores_calm ht)
      exact Prog.wp_mono (fun _ _ hv => hv) (ih hu)

theorem wp_upsert_gated_calm {metrics : List Metric} (h : Alive s) :
    (E.upsert_gated run σ metrics).wp (calm run p) (fun _ => Alive) s := by
  induction metrics generalizing s with
  | nil                  => exact h
  | cons metric metrics ih =>
    rw [upsert_gated, Prog.wp_bind, wp_lift]
    split
    case h_2 => exact h
    case h_1 =>
      rw [Prog.wp_bind]
      refine wp_call_calm rfl h fun _ t ht => ?_
      rw [Prog.wp_bind]
      exact Prog.wp_mono (fun _ _ hu => hu) (ih ht)

theorem wp_finalize_calm (h : Alive s) :
    (E.finalize run σ).wp (calm run p) (fun r t => Alive t ∧ r.status = .complete) s := by
  have hcomplete : ∀ σ t, Alive t → (E.complete_run run σ).wp (calm run p)
      (fun r t => Alive t ∧ r.status = .complete) t := by
    intro σ t ht
    rw [complete_run, Prog.wp_bind]
    refine Prog.wp_mono (fun _ u hu => ?_) (wp_upsert_gated_calm ht)
    rw [Prog.wp_bind]
    refine wp_write_cost_summaries (fun _ => hu) fun _ => ?_
    simp only [Prog.wp_bind]
    exact wp_call_calm rfl hu fun _ v hv => wp_call_calm rfl hv fun _ w hw => ⟨hw, rfl⟩
  rw [finalize, Prog.wp_bind]
  refine Prog.wp_mono (fun resumed t ht => ?_) (wp_resume_scores_calm h)
  rw [Prog.wp_bind]
  refine wp_call_calm rfl ht fun record u hu => ?_
  split
  case h_1 => exact hu
  case h_2 =>
    split
    case isTrue =>
      rw [Prog.wp_bind]
      exact wp_call_calm rfl hu fun _ v hv => hcomplete _ v hv
    case isFalse => exact hcomplete _ u hu

theorem wp_mark_incomplete_calm {α : Type} {q : M α} {Q : α → Storage.State → Prop}
    (h : q.wp (calm run p) Q s) : (mark_incomplete q).wp (calm run p) Q s := by
  rw [mark_incomplete, Prog.wp_tryCatch]
  refine Prog.wp_weaken (c := calm run p) (fun _ _ ha => ha) (fun _ ht => ht) ?_ h
  intro e t ht
  dsimp only
  rw [Prog.wp_bind]
  exact wp_call_calm rfl ht fun _ _ hu => hu

theorem wp_execute_calm (h : Alive s) :
    (E.execute run).wp (calm run p) (fun r t => Alive t ∧ r.status = .complete) s := by
  rw [execute, Prog.wp_bind]
  refine wp_mark_incomplete_calm <| Prog.wp_mono ?_ (wp_run_cases_calm h)
  rintro r t ⟨ht, hr⟩
  cases r with
  | inl σ => exact wp_mark_incomplete_calm <| wp_finalize_calm ht
  | inr _ => cases hr

theorem wp_run_calm (h : Alive s) :
    E.run.wp (calm run p) (fun r t => Alive t ∧ r.status = .complete) s := by
  rw [Engine.run, Prog.wp_bind, wp_get_run]
  refine ⟨h, ?_⟩
  dsimp only
  split
  case isTrue => exact h
  case isFalse hs =>
    rw [Prog.wp_bind]
    have hstart : ∀ u, Starting s u → Alive u := by
      intro u hu
      obtain hu | hu | hu | hu := hu
      · simpa [Alive, hu] using h
      · simp [Alive, hu]
      · simp [Alive, hu]
      · simp [Alive, hu]
    refine wp_prepare (not_or.mp hs) hstart fun u hu => wp_execute_calm ?_
    rcases hu.active with hu | hu <;> simp [Alive, hu]

end Run

-- A session that nobody cancels completes the run where it returns.
theorem run_uncancelled {o : Prog.Outcome Storage.Error RunResult} (h : Alive s)
    (e : Prog.Exec (store run p) uncancelled E.run s t o) :
    Alive t ∧ ∀ r, o = .ok r → r.status = .complete := by
  obtain ⟨ht, hm⟩ := Prog.wp_sound (c := calm run p) e h (wp_run_calm h)
  refine ⟨ht, ?_⟩
  rintro r rfl
  exact hm.right

end Engine
