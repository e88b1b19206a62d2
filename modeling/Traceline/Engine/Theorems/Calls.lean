import Traceline.Engine.Session
import Traceline.Library.Wp

open Lifecycle Events Evaluators Storage

namespace Engine

variable {run : Run} {p : Redaction.Patterns} {c : Prog.Spec (store run p)} {s t : Storage.State}
variable {α : Type}

-- A call that is known to go through.
theorem wp_call_ok {d : Storage.Call} {r : d.Reply} {Q : d.Reply → Storage.State → Prop}
    (h : Storage.perform run p d s = (.ok r, t)) :
    (call d).wp c Q s ↔ c.inv t ∧ Q r t := by
  rw [call, Prog.wp_perform]
  simp [h]

-- A call that may also raise.
theorem wp_call_of {d : Storage.Call} {Q : d.Reply → Storage.State → Prop}
    (hok : ∀ r t, Storage.perform run p d s = (.ok r, t) → c.inv t ∧ Q r t)
    (herr : ∀ e t, Storage.perform run p d s = (.error e, t) → c.inv t ∧ c.error e t) :
    (call d).wp c Q s := by
  rw [call, Prog.wp_perform]
  rcases h : Storage.perform run p d s with ⟨e | r, t⟩
  · simpa [h] using herr e t h
  · simpa [h] using hok r t h

section Calls

-- The calls that always reply.
@[simp]
theorem wp_get_run {Q : Option RunRecord → Storage.State → Prop} :
    Prog.wp (α := Option RunRecord) c (call .get_run) Q s ↔ c.inv s ∧ Q (some ⟨run, s.status⟩) s :=
  wp_call_ok rfl

@[simp]
theorem wp_list_cases {Q : List CaseRecord → Storage.State → Prop} :
    Prog.wp (α := List CaseRecord) c (call .list_cases) Q s ↔ c.inv s ∧ Q s.list_cases s :=
  wp_call_ok rfl

@[simp]
theorem wp_get_case {id : String} {Q : Option CaseRecord → Storage.State → Prop} :
    Prog.wp (α := Option CaseRecord) c (call (.get_case id)) Q s ↔
      c.inv s ∧ Q (s.get_case id) s :=
  wp_call_ok rfl

@[simp]
theorem wp_set_case_classification {id : String} {classification category : Option String}
    {Q : Unit → Storage.State → Prop} :
    Prog.wp (α := Unit) c (call (.set_case_classification id classification category)) Q s ↔
      c.inv (s.set_case_classification id classification category) ∧
      Q () (s.set_case_classification id classification category) :=
  wp_call_ok rfl

@[simp]
theorem wp_list_attempts {id : Option String} {Q : List AttemptRecord → Storage.State → Prop} :
    Prog.wp (α := List AttemptRecord) c (call (.list_attempts id)) Q s ↔
      c.inv s ∧ Q (s.list_attempts id) s :=
  wp_call_ok rfl

@[simp]
theorem wp_get_trace_events {case_id id : String}
    {Q : List TraceEvent → Storage.State → Prop} :
    Prog.wp (α := List TraceEvent) c (call (.get_trace_events case_id id)) Q s ↔
      c.inv s ∧ Q (s.get_trace_events run.workspace_id case_id id) s :=
  wp_call_ok rfl

@[simp]
theorem wp_get_attempt_output {id : String}
    {Q : Option (List (String × Json)) → Storage.State → Prop} :
    Prog.wp (α := Option (List (String × Json))) c (call (.get_attempt_output id)) Q s ↔
      c.inv s ∧ Q (s.get_attempt_output id) s :=
  wp_call_ok rfl

@[simp]
theorem wp_save_remote_job {job : RemoteJob} {Q : Unit → Storage.State → Prop} :
    Prog.wp (α := Unit) c (call (.save_remote_job job)) Q s ↔
      c.inv (s.save_remote_job job) ∧ Q () (s.save_remote_job job) :=
  wp_call_ok rfl

@[simp]
theorem wp_get_remote_job {id : String}
    {Q : Option RemoteJob → Storage.State → Prop} :
    Prog.wp (α := Option RemoteJob) c (call (.get_remote_job id)) Q s ↔
      c.inv s ∧ Q (s.get_remote_job id) s :=
  wp_call_ok rfl

@[simp]
theorem wp_get_resumable_remote_job {id : String}
    {Q : Option RemoteJob → Storage.State → Prop} :
    Prog.wp (α := Option RemoteJob) c (call (.get_resumable_remote_job id)) Q s ↔
      c.inv s ∧ Q (s.get_resumable_remote_job id) s :=
  wp_call_ok rfl

@[simp]
theorem wp_set_remote_job_state {id state : String} {Q : Unit → Storage.State → Prop} :
    Prog.wp (α := Unit) c (call (.set_remote_job_state id state)) Q s ↔
      c.inv (s.set_remote_job_state id state) ∧ Q () (s.set_remote_job_state id state) :=
  wp_call_ok rfl

@[simp]
theorem wp_cost_blocks {Q : List CostBlock → Storage.State → Prop} :
    Prog.wp (α := List CostBlock) c (call .cost_blocks) Q s ↔
      c.inv s ∧ Q (s.cost_blocks run.workspace_id) s :=
  wp_call_ok rfl

@[simp]
theorem wp_add_cost_summaries {rows : List CostSummary} {Q : Unit → Storage.State → Prop} :
    Prog.wp (α := Unit) c (call (.add_cost_summaries rows)) Q s ↔
      c.inv (s.add_cost_summaries rows) ∧ Q () (s.add_cost_summaries rows) :=
  wp_call_ok rfl

@[simp]
theorem wp_upsert_run_metric_result {row : RunMetricResult} {Q : Unit → Storage.State → Prop} :
    Prog.wp (α := Unit) c (call (.upsert_run_metric_result row)) Q s ↔
      c.inv (s.upsert_run_metric_result row) ∧ Q () (s.upsert_run_metric_result row) :=
  wp_call_ok rfl

@[simp]
theorem wp_get_run_metric_results {Q : List RunMetricResult → Storage.State → Prop} :
    Prog.wp (α := List RunMetricResult) c (call .get_run_metric_results) Q s ↔
      c.inv s ∧ Q s.get_run_metric_results s :=
  wp_call_ok rfl

-- The status updates, where they are legal.
theorem wp_set_run_status {target : RunStatus} {Q : Unit → Storage.State → Prop}
    (h : s.status = target ∨ target ∈ s.status.next) :
    Prog.wp (α := Unit) c (call (.set_run_status target)) Q s ↔
      c.inv (s.write_run_status target) ∧ Q () (s.write_run_status target) :=
  wp_call_ok <| State.set_run_status_ok h

theorem wp_set_run_status_illegal {target : RunStatus} {Q : Unit → Storage.State → Prop}
    (h : ¬(s.status = target ∨ target ∈ s.status.next)) (hi : c.inv s)
    (he : ∀ e, c.error (.illegal_transition e) s) :
    Prog.wp (α := Unit) c (call (.set_run_status target)) Q s := by
  have ⟨e, hp⟩ := State.set_run_status_illegal h
  refine wp_call_of (d := .set_run_status target) ?_ ?_
  · intro _ t ht
    cases hp.symm.trans ht
  · intro _ t ht
    cases hp.symm.trans ht
    exact ⟨hi, he e⟩

theorem wp_set_case_status {id : String} {target : RunCaseStatus} {r : CaseRecord}
    {Q : Unit → Storage.State → Prop} (hr : s.get_case id = some r)
    (h : r.status = target ∨ target ∈ r.status.next) :
    Prog.wp (α := Unit) c (call (.set_case_status id target)) Q s ↔
      c.inv (s.write_case_status id target) ∧ Q () (s.write_case_status id target) :=
  wp_call_ok <| State.set_case_status_ok hr h

theorem wp_set_attempt_status {id : String} {target : AttemptStatus} {a : AttemptRecord}
    {u : State.AttemptUpdate} {Q : Unit → Storage.State → Prop}
    (ha : s.attempts.find id = some a) (h : a.status = target ∨ target ∈ a.status.next)
    (hb : State.bind_parameter u.error = .ok () := by rfl) :
    Prog.wp (α := Unit) c (call (.set_attempt_status id target u)) Q s ↔
      c.inv (s.write_attempt id target u) ∧ Q () (s.write_attempt id target u) :=
  wp_call_ok <| State.set_attempt_status_ok ha h hb

end Calls

@[simp]
theorem wp_ask {q : Query} {Q : q.Answer → Storage.State → Prop} :
    (ask q).wp c Q s ↔ ∀ r, c.allow q r → Q r s :=
  Iff.rfl

@[simp]
theorem wp_lift {x : Except Exc α} {Q : α → Storage.State → Prop} :
    (lift x).wp c Q s ↔
      match x with
      | .ok a    => Q a s
      | .error e => c.error (.evaluator e) s := by
  cases x <;> exact Iff.rfl

-- What a spec asks of an exception that `except EngineError` may catch.
def caught (c : Prog.Spec (store run p)) (Q : Except String α → Storage.State → Prop) :
    Storage.Error → Storage.State → Prop
  | .engine_error message, t => Q (.error message) t
  | e, t                     => c.error e t

theorem wp_catch_engine_error {q : M α} {Q : Except String α → Storage.State → Prop} :
    (catch_engine_error q).wp c Q s ↔
      q.wp { c with error := caught c Q } (fun a => Q (.ok a)) s := by
  rw [catch_engine_error, Prog.wp_tryCatch, Prog.wp_map]
  refine iff_of_eq <| congrArg (fun f => q.wp { c with error := f } _ s) ?_
  funext e t
  cases e <;> rfl

-- Marking the run incomplete is a write of its own, after which the error goes on.
theorem wp_mark_incomplete {q : M α} {Q : α → Storage.State → Prop}
    (h : q.wp
      { c with
        error := fun e t =>
          (t.status = .incomplete ∨ RunStatus.incomplete ∈ t.status.next) ∧
            c.inv (t.write_run_status .incomplete) ∧
            c.error e (t.write_run_status .incomplete) } Q s) :
    (mark_incomplete q).wp c Q s := by
  rw [mark_incomplete, Prog.wp_tryCatch]
  refine Prog.wp_weaken ?_ ?_ ?_ h
  case refine_1 | refine_2 => simp
  intro e t ⟨hl, hi, he⟩
  simp only
  rw [Prog.wp_bind, wp_set_run_status hl]
  exact ⟨hi, he⟩

end Engine
