import Traceline.Engine.Theorems.Run

open Lifecycle Spec Events Evaluators Storage

namespace Engine

variable {E : Engine} {run : Run} {p : Redaction.Patterns} {c : Prog.Spec (store run p)}
variable {s t u : Storage.State} {case : TestCase} {σ : Session} {cases : List TestCase}
variable {executed : List String} {samples : List (AttemptRecord × List CaseScore)}

variable (E run) in
-- The scores of an attempt from what storage kept of it.
def Rescored (t : Storage.State) (a : AttemptRecord) (scores : List CaseScore) : Prop :=
  run.spec.metrics.mapM (E.rescore_metric run a.case_id
    (t.evidence run.workspace_id a).1 (t.evidence run.workspace_id a).2) = .ok scores

def first_attempts (t : Storage.State) (case_id : String) : List AttemptRecord :=
  (t.list_attempts (some case_id)).filter (·.is_first_attempt)

theorem mem_first_attempts_iff {id : String} {a : AttemptRecord} :
    a ∈ first_attempts t id ↔ a ∈ t.case_rows id ∧ a.is_first_attempt := by
  rw [first_attempts, List.mem_filter, mem_list_attempts_case_iff]

variable (E run) in
-- The samples that a session takes from storage, each with its scores.
structure Resampled (t : Storage.State) (executed : List String) (cases : List TestCase)
    (samples : List (AttemptRecord × List CaseScore)) : Prop where
  attempts : samples.map Prod.fst =
    (cases.filter (·.case_id ∉ executed)).flatMap fun case => first_attempts t case.case_id
  rescored : ∀ x ∈ samples, Rescored E run t x.1 x.2

theorem wp_first_attempt_scores {id : String} {attempts : List AttemptRecord}
    {Q : List CaseScore → Storage.State → Prop} (hid : ∀ a ∈ attempts, a.case_id = id)
    (hinv : c.inv t) (herr : ∀ e, External e → c.error e t)
    (hq : ∀ samples : List (AttemptRecord × List CaseScore),
      samples.map Prod.fst = attempts.filter (·.is_first_attempt) →
      (∀ x ∈ samples, Rescored E run t x.1 x.2) → Q (samples.flatMap Prod.snd) t) :
    (E.first_attempt_scores run id attempts).wp c Q t := by
  induction attempts generalizing Q with
  | nil               => exact hq [] rfl nofun
  | cons a attempts ih =>
    have hid' := fun b hb => hid b <| .tail _ hb
    unfold first_attempt_scores
    split
    case isFalse hf => exact ih hid' fun samples hs => hq samples <| by simp [hs, hf]
    case isTrue hf =>
      simp only [Prog.wp_bind, wp_get_trace_events, wp_get_attempt_output]
      refine ⟨hinv, hinv, ?_⟩
      rw [wp_lift]
      split
      case h_2 e _ => exact herr (.evaluator e) trivial
      case h_1 scores hsc =>
        refine ih hid' fun samples hs hr => ?_
        refine hq ((a, scores) :: samples) (by simp [hs, hf]) fun x hx => ?_
        cases hx with
        | head       =>
          rw [Rescored, hid a (.head _), State.evidence, hid a (.head _)]
          exact hsc
        | tail _ hx => exact hr x hx

theorem wp_resume_scores {Q : List CaseScore → Storage.State → Prop} (hinv : c.inv t)
    (herr : ∀ e, External e → c.error e t)
    (hq : ∀ samples, Resampled E run t executed cases samples →
      Q (samples.flatMap Prod.snd) t) :
    (E.resume_scores run executed cases).wp c Q t := by
  induction cases generalizing Q with
  | nil             => exact hq [] ⟨rfl, nofun⟩
  | cons case cases ih =>
    unfold resume_scores
    split
    case isTrue hm => exact ih fun samples h => hq samples ⟨by simp [h.attempts, hm], h.rescored⟩
    case isFalse hm =>
      simp only [Prog.wp_bind, case_first_attempt_scores_from_trace, wp_list_attempts]
      refine ⟨hinv, wp_first_attempt_scores ?_ hinv herr fun own hown hrown => ?_⟩
      · exact fun a ha => (State.mem_list_attempts_iff.mp ha).right _ rfl
      refine ih fun samples h => ?_
      rw [Prog.wp_pure, ← List.flatMap_append]
      refine hq (own ++ samples) ⟨?_, ?_⟩
      · simp [h.attempts, hown, hm, first_attempts]
      · exact fun x hx => (List.mem_append.mp hx).elim (hrown x) (h.rescored x)

variable (E run) in
def gated_row (metric : Metric) (aggregate : RunAggregate) : RunMetricResult :=
  State.run_metric_result metric aggregate 1
    (some (if may_gate E.judge_readiness metric then gate_status (evaluate_gate E.L metric aggregate)
      else .NOT_APPLICABLE)) (no_ci run)

variable (E run) in
-- The rows that gate the run, computed from all the scores.
structure Gated (scores : List CaseScore) (metrics : List Metric)
    (rows rows' : Table RunMetricResult.key) : Prop where
  gated  : ∀ metric ∈ metrics, ∃ aggregate,
    aggregate_metric E.L metric (scores.filter (·.metric_id = metric.metric_id)) (expected_n run)
      false = .ok aggregate ∧
    rows'.find (metric.metric_id, 1) = some (gated_row E run metric aggregate)
  others : ∀ key, (∀ metric ∈ metrics, (metric.metric_id, 1) ≠ key) → rows'.find key = rows.find key

theorem wp_upsert_gated {metrics : List Metric} {Q : List GateResult → Storage.State → Prop}
    (hn : (metrics.map (·.metric_id)).Nodup)
    (hinv : ∀ rows, c.inv { t with run_results := rows })
    (herr : ∀ e rows, External e → c.error e { t with run_results := rows })
    (hq : ∀ gates rows, Gated E run σ.landed metrics t.run_results rows →
      Q gates { t with run_results := rows }) :
    (E.upsert_gated run σ metrics).wp c Q t := by
  induction metrics generalizing t Q with
  | nil                  => exact hq [] t.run_results ⟨by simp, fun _ _ => rfl⟩
  | cons metric metrics ih =>
    obtain ⟨hm, hn'⟩ := List.nodup_cons.mp hn
    rw [upsert_gated, Prog.wp_bind, wp_lift]
    split
    case h_2 e _ => exact herr (.evaluator e) t.run_results trivial
    case h_1 aggregate hagg =>
      rw [Prog.wp_bind, wp_upsert_run_metric_result]
      refine ⟨hinv _, ?_⟩
      rw [Prog.wp_bind]
      refine ih hn' hinv herr fun gates rows hrows => hq _ rows ⟨?_, fun key hkey => ?_⟩
      · rw [List.forall_mem_cons]
        refine ⟨⟨aggregate, hagg, ?_⟩, hrows.gated⟩
        have hother : ∀ m ∈ metrics, (m.metric_id, 1) ≠ (metric.metric_id, 1) := by
          intro m hmem he
          exact hm <| List.mem_map.mpr ⟨m, hmem, (Prod.mk.inj he).left⟩
        rw [hrows.others _ hother]
        exact Table.find_upsert.trans <| if_pos rfl
      · rw [List.forall_mem_cons] at hkey
        rw [hrows.others key hkey.right]
        exact Table.find_upsert.trans <| if_neg hkey.left

-- What `finalize` leaves alone while it runs.
structure Finalizing (t u : Storage.State) : Prop where
  status       : u.status = t.status ∨ u.status = .aggregating
  cases        : u.cases = t.cases
  attempts     : u.attempts = t.attempts
  events       : u.events = t.events
  outputs      : u.outputs = t.outputs
  case_results : u.case_results = t.case_results

variable (E run) in
-- A run that a session completed, from the scores of all its samples.
structure Finalized (scores : List CaseScore) (t u : Storage.State) : Prop where
  status       : u.status = .complete
  cases        : u.cases = t.cases
  attempts     : u.attempts = t.attempts
  events       : u.events = t.events
  outputs      : u.outputs = t.outputs
  case_results : u.case_results = t.case_results
  gated        : Gated E run scores run.spec.metrics t.run_results u.run_results

theorem wp_write_cost_summaries {Q : Unit → Storage.State → Prop}
    (hinv : ∀ rows, c.inv { t with cost_summaries := rows })
    (hq : ∀ rows, Q () { t with cost_summaries := rows }) : write_cost_summaries.wp c Q t := by
  rw [write_cost_summaries, Prog.wp_bind, wp_cost_blocks]
  refine ⟨hinv t.cost_summaries, ?_⟩
  split
  case isTrue  => exact hq t.cost_summaries
  case isFalse => exact wp_add_cost_summaries.mpr ⟨hinv _, hq _⟩

section Completion

variable {scores : List CaseScore} {Q : RunResult → Storage.State → Prop}

-- From the aggregation on, the session writes the rows of the run alone.
theorem wp_complete_run (hs : t.status = .aggregating) (hinv : ∀ u, Finalizing t u → c.inv u)
    (herr : ∀ e u, External e → Finalizing t u → c.error e u)
    (hdone : ∀ u, Finalized E run σ.landed t u → c.inv u)
    (hq : ∀ r u, Finalized E run σ.landed t u → Q r u) : (E.complete_run run σ).wp c Q t := by
  rw [complete_run, Prog.wp_bind]
  refine wp_upsert_gated run.spec.unique_metrics
    (fun rows => hinv _ ⟨.inl rfl, rfl, rfl, rfl, rfl, rfl⟩)
    (fun e rows he => herr e _ he ⟨.inl rfl, rfl, rfl, rfl, rfl, rfl⟩) fun gates rows hrows => ?_
  rw [Prog.wp_bind]
  refine wp_write_cost_summaries (fun _ => hinv _ ⟨.inl rfl, rfl, rfl, rfl, rfl, rfl⟩)
    fun costs => ?_
  have hfin : Finalized E run σ.landed t
      { t with status := .complete, run_results := rows, cost_summaries := costs } :=
    ⟨rfl, rfl, rfl, rfl, rfl, rfl, hrows⟩
  rw [Prog.wp_bind, wp_set_run_status (by simp [hs, RunStatus.next])]
  simp only [Prog.wp_bind, wp_get_run_metric_results, Prog.wp_pure]
  exact ⟨hdone _ hfin, hdone _ hfin, hq _ _ hfin⟩

theorem wp_finalize (hst : t.status = .running ∨ t.status = .aggregating)
    (hinv : ∀ u, Finalizing t u → c.inv u)
    (herr : ∀ e u, External e → Finalizing t u → c.error e u)
    (hdone : ∀ samples u, Resampled E run t (σ.executed.map (·.case_id)) run.spec.cases samples →
      Finalized E run (σ.landed ++ samples.flatMap Prod.snd) t u → c.inv u)
    (hq : ∀ r samples u, Resampled E run t (σ.executed.map (·.case_id)) run.spec.cases samples →
      Finalized E run (σ.landed ++ samples.flatMap Prod.snd) t u → Q r u) :
    (E.finalize run σ).wp c Q t := by
  have hrefl : Finalizing t t := ⟨.inl rfl, rfl, rfl, rfl, rfl, rfl⟩
  rw [finalize, Prog.wp_bind]
  refine wp_resume_scores (hinv t hrefl) (fun e he => herr e t he hrefl) fun samples hsamples => ?_
  simp only [Prog.wp_bind, wp_get_run]
  refine ⟨hinv t hrefl, ?_⟩
  have hrest : Prog.wp c
      (E.complete_run run { σ with landed := σ.landed ++ samples.flatMap Prod.snd }) Q
      (t.write_run_status .aggregating) := by
    have hframe : ∀ u, Finalizing (t.write_run_status .aggregating) u → Finalizing t u :=
      fun u hu => ⟨.inr <| hu.status.elim id id, hu.cases, hu.attempts, hu.events, hu.outputs,
        hu.case_results⟩
    have hfin : ∀ u, Finalized E run (σ.landed ++ samples.flatMap Prod.snd)
        (t.write_run_status .aggregating) u →
        Finalized E run (σ.landed ++ samples.flatMap Prod.snd) t u :=
      fun u hu => ⟨hu.status, hu.cases, hu.attempts, hu.events, hu.outputs, hu.case_results,
        hu.gated⟩
    exact wp_complete_run rfl (fun u hu => hinv u <| hframe u hu)
      (fun e u he hu => herr e u he <| hframe u hu)
      (fun u hu => hdone samples u hsamples <| hfin u hu)
      fun r u hu => hq r samples u hsamples <| hfin u hu
  split
  case isTrue hrun =>
    rw [Prog.wp_bind, wp_set_run_status (.inr <| by simp [hrun, RunStatus.next])]
    exact ⟨hinv _ ⟨.inr rfl, rfl, rfl, rfl, rfl, rfl⟩, hrest⟩
  case isFalse hrun =>
    have hagg : t.status = .aggregating := hst.resolve_left hrun
    have ht : t.write_run_status .aggregating = t := by rw [← hagg]; rfl
    exact ht ▸ hrest

end Completion

end Engine
