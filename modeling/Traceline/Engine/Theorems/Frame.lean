import Traceline.Engine.Theorems.Session

open Lifecycle Spec Events Evaluators Storage

namespace Engine

variable {E : Engine} {run : Run} {p : Redaction.Patterns} {s t u : Storage.State}
variable {allow : ∀ q : Query, q.Answer → Prop} {I P : Storage.State → Prop}
variable {case : TestCase} {σ : Session} {r k n : ℕ} {α : Type}

-- The calls of a session that neither make an attempt, nor add evidence or costs, nor complete
-- the run.
def outer : Storage.Call → Prop
  | .create_attempt _ _ _ _ | .insert_trace_events _ | .add_cost_summaries _ => False
  | .set_run_status target => target ≠ .complete
  | _                      => True

-- What such a call leaves alone.
structure Outer (s t : Storage.State) : Prop where
  attempts       : t.attempts.rows.map AttemptRecord.core = s.attempts.rows.map AttemptRecord.core
  events         : t.events = s.events
  cost_summaries : t.cost_summaries = s.cost_summaries
  status         : t.status = .complete → s.status = .complete

theorem Outer.refl : Outer s s :=
  ⟨rfl, rfl, rfl, id⟩

theorem core_write_attempt {id : String} {st : AttemptStatus} {up : State.AttemptUpdate} :
    (s.write_attempt id st up).attempts.rows.map AttemptRecord.core =
      s.attempts.rows.map AttemptRecord.core := by
  simp only [State.write_attempt, Table.update, List.map_map, List.map_inj_left]
  intro a _
  simp only [Function.comp]
  split <;> rfl

theorem Outer.of_call {d : Storage.Call} (hd : outer d) : Outer s (Storage.perform run p d s).2 := by
  cases d with
  | create_attempt _ _ _ _ | insert_trace_events _ | add_cost_summaries _ => exact hd.elim
  | set_run_status target =>
    change Outer s (s.set_run_status target).2
    unfold State.set_run_status
    split
    case h_1 ht =>
      obtain ⟨rfl, -⟩ := transition_eq_ok_iff.mp ht
      exact ⟨rfl, rfl, rfl, fun hc => absurd hc hd⟩
    case h_2 => exact .refl
  | set_case_status id target =>
    change Outer s (s.set_case_status id target).2
    unfold State.set_case_status
    split
    · exact .refl
    · split <;> exact ⟨rfl, rfl, rfl, fun h => h⟩
  | set_attempt_status id target up =>
    change Outer s (s.set_attempt_status id target up).2
    unfold State.set_attempt_status
    split
    · exact .refl
    · split
      · exact .refl
      · split
        · exact .refl
        · exact ⟨core_write_attempt, rfl, rfl, fun h => h⟩
  | upsert_case_metric_results id scores revision =>
    change Outer s (s.upsert_case_metric_results run.spec.metrics id scores revision).2
    unfold State.upsert_case_metric_results
    split <;> exact ⟨rfl, rfl, rfl, fun h => h⟩
  | save_attempt_output id case_id payload =>
    change Outer s (s.save_attempt_output id case_id payload).2
    unfold State.save_attempt_output
    split <;> exact ⟨rfl, rfl, rfl, fun h => h⟩
  | set_remote_job_state id state =>
    change Outer s (s.set_remote_job_state id state)
    unfold State.set_remote_job_state
    split <;> exact ⟨rfl, rfl, rfl, fun h => h⟩
  | _ => exact ⟨rfl, rfl, rfl, fun h => h⟩

theorem outer_call {d : Storage.Call} (hd : outer d) : (call d).Calls (store run p) allow outer :=
  Prog.Calls.of_perform.mpr hd

theorem outer_lift {value : Except Exc α} : (lift value).Calls (store run p) allow outer := by
  cases value with
  | ok a    => exact .of_pure a
  | error e => exact .of_throw _

section Calls

-- The parts of a session whose calls are all of that kind.
theorem upsert_aggregates_outer {b : Bool} {metrics : List Metric} :
    (E.upsert_aggregates run σ b metrics).Calls (store run p) allow outer := by
  induction metrics with
  | nil                  => exact .of_pure ()
  | cons metric metrics ih =>
    exact .bind outer_lift fun _ => .bind (outer_call trivial) fun _ => ih

theorem cancel_cases_outer {cases : List TestCase} :
    (cancel_cases cases).Calls (store run p) allow outer := by
  induction cases with
  | nil             => exact .of_pure ()
  | cons case cases ih =>
    refine .bind (outer_call trivial) fun record => ?_
    split
    · exact .of_throw _
    · split
      · exact ih
      · exact .bind (outer_call trivial) fun _ => ih

theorem cancel_run_outer : (E.cancel_run run σ).Calls (store run p) allow outer :=
  .bind cancel_cases_outer fun _ => .bind upsert_aggregates_outer fun _ =>
    .bind (outer_call nofun) fun _ => .bind (outer_call trivial) fun _ => .of_pure _

theorem close_case_outer {id : String} {firsts others : List AttemptResult} {w : List String} :
    (close_case id firsts others w).Calls (store run p) allow outer := by
  refine .bind (outer_call trivial) fun _ => .bind (outer_call trivial) fun _ =>
    .bind (outer_call trivial) fun record => ?_
  split
  · exact .of_throw _
  · exact .of_pure _

theorem first_attempt_scores_outer {id : String} {attempts : List AttemptRecord} :
    (E.first_attempt_scores run id attempts).Calls (store run p) allow outer := by
  induction attempts with
  | nil               => exact .of_pure []
  | cons a attempts ih =>
    unfold first_attempt_scores
    split
    · exact .bind (outer_call trivial) fun _ => .bind (outer_call trivial) fun _ =>
        .bind outer_lift fun _ => .bind ih fun _ => .of_pure _
    · exact ih

theorem resume_scores_outer {executed : List String} {cases : List TestCase} :
    (E.resume_scores run executed cases).Calls (store run p) allow outer := by
  induction cases with
  | nil             => exact .of_pure []
  | cons case cases ih =>
    unfold resume_scores
    split
    · exact ih
    · exact .bind (.bind (outer_call trivial) fun _ => first_attempt_scores_outer) fun _ =>
        .bind ih fun _ => .of_pure _

theorem upsert_gated_outer {metrics : List Metric} :
    (E.upsert_gated run σ metrics).Calls (store run p) allow outer := by
  induction metrics with
  | nil                  => exact .of_pure []
  | cons metric metrics ih =>
    exact .bind outer_lift fun _ => .bind (outer_call trivial) fun _ => .bind ih fun _ => .of_pure _

theorem prepare_outer {status : RunStatus} : (prepare status).Calls (store run p) allow outer := by
  refine prepare_calls fun d hd hc => ?_
  cases d with
  | set_run_status target => exact fun ht => hc (ht ▸ rfl)
  | _                     => trivial

end Calls

-- All that is asked is that `I` holds wherever the session may end.
abbrev within (run : Run) (p : Redaction.Patterns) (allow : ∀ q : Query, q.Answer → Prop)
    (I : Storage.State → Prop) : Prog.Spec (store run p) where
  allow := allow
  inv   := I
  error := fun _ => I

-- A part without attempts keeps what such calls keep.
theorem wp_of_outer {q : M α} (hweak : ∀ s, P s → I s) (hcall : ∀ s t, Outer s t → P s → P t)
    (hq : q.Calls (store run p) allow outer) (h : P s) :
    q.wp (within run p allow I) (fun _ => P) s := by
  refine Prog.wp_of_exec (M := store run p) fun t o e => ?_
  have ht : P t :=
    Prog.Calls.exec (I := P) (fun _ u hd hu => hcall u _ (.of_call hd) hu) e hq h
  refine ⟨hweak t ht, ?_⟩
  cases o with
  | ok _    => exact ht
  | error _ => exact hweak t ht
  | crash   => trivial

variable (E run p allow I P) in
-- `P` holds whenever no attempt is being made, and `I` wherever a session may end.
structure Frame : Prop where
  weaken  : ∀ s, P s → I s
  call    : ∀ s t, Outer s t → P s → P t
  marked  : ∀ s, I s → (s.status = .incomplete ∨ RunStatus.incomplete ∈ s.status.next) →
    I (s.write_run_status .incomplete)
  attempt : ∀ case r k s, P s → (E.run_attempt run case r k).wp (within run p allow I) (fun _ => P) s

namespace Frame

variable (F : Frame E run p allow I P)
include F

theorem wp_of_outer {q : M α} (hq : q.Calls (store run p) allow outer) (h : P s) :
    q.wp (within run p allow I) (fun _ => P) s :=
  Engine.wp_of_outer F.weaken F.call hq h

theorem wp_run_retries (h : P s) :
    (E.run_retries run case r n k).wp (within run p allow I) (fun _ => P) s := by
  induction n generalizing k s with
  | zero      => exact h
  | succ n ih =>
    rw [run_retries, Prog.wp_bind]
    refine Prog.wp_mono (fun made t ht => ?_) (F.attempt case r k s h)
    dsimp only
    split
    · exact ht
    · rw [Prog.wp_bind]
      exact Prog.wp_mono (fun _ _ hu => hu) (ih ht)

theorem wp_run_repeats (h : P s) :
    (E.run_repeats run case n r).wp (within run p allow I) (fun _ => P) s := by
  induction n generalizing r s with
  | zero      => exact h
  | succ n ih =>
    rw [run_repeats, Prog.wp_bind]
    refine Prog.wp_mono (fun made t ht => ?_) (F.attempt case r 0 s h)
    have hrest : ∀ os w u, P u → Prog.wp (within run p allow I) (do
        let rest ← E.run_repeats run case n (r + 1)
        return (made.1 :: rest.1, os ++ rest.2.1, made.2 ++ w ++ rest.2.2)) (fun _ => P) u := by
      intro os w u hu
      rw [Prog.wp_bind]
      exact Prog.wp_mono (fun _ _ hv => hv) (ih hu)
    dsimp only
    split
    case isTrue =>
      rw [Prog.wp_bind]
      exact Prog.wp_mono (fun retries u hu => hrest retries.1 retries.2 u hu) (F.wp_run_retries ht)
    case isFalse =>
      rw [Prog.wp_bind]
      exact hrest [] [] t ht

theorem wp_run_case_inner {id : String} (h : P s) :
    (E.run_case_inner run id).wp (within run p allow I) (fun _ => P) s := by
  unfold run_case_inner
  split
  case h_1 => exact F.weaken s h
  case h_2 =>
    rw [Prog.wp_bind]
    refine Prog.wp_mono (fun _ t ht => ?_) (F.wp_of_outer (outer_call trivial) h)
    rw [Prog.wp_bind]
    refine Prog.wp_mono (fun prior u hu => ?_) (F.wp_of_outer (outer_call trivial) ht)
    rw [Prog.wp_bind]
    refine Prog.wp_mono (fun made v hv => ?_) (F.wp_run_repeats hu)
    dsimp only
    split
    · exact F.wp_of_outer (.bind (outer_call trivial) fun _ => .of_pure _) hv
    · exact F.wp_of_outer close_case_outer hv

theorem wp_run_cases {cases : List TestCase} (h : P s) :
    (E.run_cases run cases σ).wp (within run p allow I) (fun _ => P) s := by
  have hcancel : ∀ σ t, P t → Prog.wp (within run p allow I) (do
      let result ← E.cancel_run run σ
      return Sum.inr (α := Session) result) (fun _ => P) t :=
    fun _ t ht => F.wp_of_outer (.bind cancel_run_outer fun _ => .of_pure _) ht
  induction cases generalizing σ s with
  | nil             => exact h
  | cons case cases ih =>
    rw [run_cases, Prog.wp_bind, wp_ask]
    intro b _
    dsimp only
    split
    case isTrue => exact hcancel σ s h
    case isFalse =>
      rw [Prog.wp_bind]
      refine Prog.wp_mono (fun record t ht => ?_) (F.wp_of_outer (outer_call trivial) h)
      split
      case h_1 => exact F.weaken t ht
      case h_2 =>
        split
        case isTrue => exact ih ht
        case isFalse =>
          rw [Prog.wp_bind]
          refine Prog.wp_mono (fun result u hu => ?_) (F.wp_run_case_inner ht)
          rw [Prog.wp_bind]
          refine Prog.wp_mono (fun _ v hv => ?_) (F.wp_of_outer upsert_aggregates_outer hu)
          split
          · exact hcancel _ v hv
          · exact ih hv

theorem wp_marked {q : M α} {Q : α → Storage.State → Prop}
    (h : q.wp (within run p allow I) Q s) :
    (mark_incomplete q).wp (within run p allow I) Q s := by
  rw [mark_incomplete, Prog.wp_tryCatch]
  refine Prog.wp_weaken (c := within run p allow I) (fun _ _ ha => ha) (fun _ ht => ht) ?_ h
  intro e t ht
  dsimp only
  rw [Prog.wp_bind]
  by_cases hl : t.status = .incomplete ∨ RunStatus.incomplete ∈ t.status.next
  · exact wp_set_run_status hl |>.mpr ⟨F.marked t ht hl, F.marked t ht hl⟩
  · exact wp_set_run_status_illegal hl ht fun _ => ht

-- A session keeps the frame up to the costs, which end it.
theorem wp_session {R : Storage.State → Prop} (hi : I s) (hp : s.status ≠ .complete → P s)
    (hR : ∀ s, R s → I s)
    (hcosts : ∀ s, P s → write_cost_summaries.wp (within run p allow I)
      (fun _ t => I t ∧ R (t.write_run_status .complete)) s) :
    E.run.wp (within run p allow I) (fun _ => I) s := by
  have hcomplete : ∀ σ t, P t → (E.complete_run run σ).wp (within run p allow I) (fun _ => I) t := by
    intro σ t ht
    rw [complete_run, Prog.wp_bind]
    refine Prog.wp_mono (fun gates u hu => ?_) (F.wp_of_outer upsert_gated_outer ht)
    rw [Prog.wp_bind]
    refine Prog.wp_mono (fun _ v hv => ?_) (hcosts u hu)
    rw [Prog.wp_bind]
    by_cases hl : v.status = .complete ∨ RunStatus.complete ∈ v.status.next
    · rw [wp_set_run_status hl]
      simp only [Prog.wp_bind, wp_get_run_metric_results, Prog.wp_pure]
      exact ⟨hR _ hv.right, hR _ hv.right, hR _ hv.right⟩
    · exact wp_set_run_status_illegal hl hv.left fun _ => hv.left
  have hfinalize : ∀ σ t, P t → (E.finalize run σ).wp (within run p allow I) (fun _ => I) t := by
    intro σ t ht
    rw [finalize, Prog.wp_bind]
    refine Prog.wp_mono (fun resumed u hu => ?_) (F.wp_of_outer resume_scores_outer ht)
    rw [Prog.wp_bind]
    refine Prog.wp_mono (fun record v hv => ?_) (F.wp_of_outer (outer_call trivial) hu)
    split
    case h_1 => exact F.weaken v hv
    case h_2 =>
      split
      case isTrue =>
        rw [Prog.wp_bind]
        exact Prog.wp_mono (fun _ w hw => hcomplete _ w hw) (F.wp_of_outer (outer_call (by simp [outer])) hv)
      case isFalse => exact hcomplete _ v hv
  rw [Engine.run, Prog.wp_bind, wp_get_run]
  refine ⟨hi, ?_⟩
  dsimp only
  split
  case isTrue => exact hi
  case isFalse hs =>
    rw [Prog.wp_bind]
    refine Prog.wp_mono (fun _ t ht => ?_)
      (F.wp_of_outer prepare_outer <| hp fun hc => hs <| .inl hc)
    rw [execute, Prog.wp_bind]
    refine F.wp_marked <| Prog.wp_mono (fun looped u hu => ?_) (F.wp_run_cases ht)
    split
    · exact F.weaken u hu
    · exact F.wp_marked <| hfinalize _ u hu

end Frame

end Engine
