import Mathlib.Data.Fintype.EquivFin
import Traceline.Engine.Theorems.Cancellation
import Traceline.Engine.Theorems.Uncancelled
import Traceline.Library.May

open Lifecycle Spec Events Evaluators Storage

namespace Engine

variable {E : Engine} {run : Run} {p : Redaction.Patterns} {s t u : Storage.State}
variable {x : Invocation} {case : TestCase} {σ : Session} {cases done : List TestCase}
variable {id : String} {r k n : ℕ}

-- Nobody cancels the run, and the agent fails whenever it is invoked.
def failing : ∀ q : Query, q.Answer → Prop
  | .should_cancel _,   b => b = false
  | .invoke_agent _,    r => r = .ok ⟨.invocation_failed, none, [], .null, .null⟩
  | .invoke_target _ _, a => a = ⟨[], .ok ⟨"error", .null, [], none⟩, .ok []⟩
  | .uuid4,             _ => True
  | .set_order _,       _ => True

theorem failing_uncancelled {q : Query} {r : q.Answer} (h : failing q r) : uncancelled q r := by
  cases q with
  | should_cancel _   => exact h
  | uuid4             => trivial
  | set_order _       => trivial
  | invoke_agent _    =>
    rintro result rfl
    cases h
    simp
  | invoke_target _ _ =>
    intro result hr
    rw [show r = _ from h] at hr
    cases hr
    decide

theorem failing_answers (q : Query) : ∃ r, failing q r := by
  cases q with
  | should_cancel _   => exact ⟨false, rfl⟩
  | uuid4             => exact ⟨"", trivial⟩
  | set_order ids     => exact ⟨⟨ids, .refl ids⟩, trivial⟩
  | invoke_agent _    => exact ⟨_, rfl⟩
  | invoke_target _ _ => exact ⟨_, rfl⟩

-- The specification of a run that does not raise.
def quiet (run : Run) (p : Redaction.Patterns) : Prog.Spec (store run p) where
  allow := failing
  inv   := fun _ => True
  error := fun _ _ => False

theorem may_of_quiet {α : Type} {q : M α} {Q : α → Storage.State → Prop}
    (h : q.wp (quiet run p) Q s) : q.may (store run p) failing Q s :=
  Prog.may_of_wp (c := quiet run p) failing_answers (fun _ _ => id) h

section Attempt

theorem wp_invoke_quiet :
    (E.invoke run x).wp (quiet run p)
      (fun result u => u = t ∧ result.status = .invocation_failed ∧ result.trace_events = [] ∧
        State.bind_parameter result.error = .ok ()) t := by
  unfold invoke
  split
  case isFalse =>
    rw [Prog.wp_bind]
    rintro answer rfl
    exact ⟨rfl, rfl, rfl, rfl⟩
  case isTrue =>
    unfold invoke_target
    split
    case h_1 => exact ⟨rfl, rfl, rfl, rfl⟩
    case h_2 =>
      rw [Prog.wp_bind]
      refine wp_remote_job trivial fun job => ?_
      rw [Prog.wp_bind]
      rintro answer rfl
      exact ⟨rfl, rfl, rfl, rfl⟩

theorem wp_failed_attempt_quiet {result : InvocationResult} (h : Trying x .running s t)
    (he : result.trace_events = []) (hb : State.bind_parameter result.error = .ok ()) :
    (E.failed_attempt run x result .errored).wp (quiet run p)
      (fun o _ => o.status = .errored) t := by
  simp only [failed_attempt, he, List.filter_nil, if_true, Prog.wp_bind, Prog.wp_pure]
  exact wp_set_own_status h (by simp [AttemptStatus.next]) (fun _ _ => trivial)
    (fun _ _ _ _ => rfl) hb

end Attempt

theorem exists_fresh_id (s : Storage.State) : ∃ id, s.attempts.find id = none := by
  obtain ⟨id, hid⟩ := Infinite.exists_notMem_finset (s.attempts.rows.map (·.attempt_id)).toFinset
  refine ⟨id, Table.find_eq_none_iff.mpr fun a ha he => hid ?_⟩
  rw [List.mem_toFinset]
  exact List.mem_map.mpr ⟨a, ha, he⟩

-- What every run of a program returns with, where the agent fails.
theorem may_and_wp {α : Type} {q : M α} {Q Q' : α → Storage.State → Prop}
    (h : q.may (store run p) failing Q s)
    (hw : q.wp (M := store run p) ⟨failing, fun _ => True, fun _ _ => True⟩ Q' s) :
    q.may (store run p) failing (fun a t => Q a t ∧ Q' a t) s :=
  Prog.may_and (c := ⟨failing, fun _ => True, fun _ _ => True⟩) (fun _ _ ha => ha) h hw

theorem run_attempt_may (hf : Free case.case_id r k s) :
    (E.run_attempt run case r k).may (store run p) failing
      (fun made t => made.1.status = .errored ∧ Ran E run p case r k s made.1 t) s := by
  refine may_and_wp ?_ <|
    wp_run_attempt hf (fun _ _ => trivial) (fun _ _ _ _ => trivial) fun _ _ _ h => h
  obtain ⟨id, hid⟩ := exists_fresh_id s
  rw [run_attempt, Prog.may_bind]
  refine ⟨id, trivial, ?_⟩
  obtain ⟨e, -, -, a, ha⟩ | ⟨a, t, he, ha, ht, -⟩ := create_attempt_cases id hf
  · simp [hid] at ha
  change Prog.may (store run p) failing (call (.create_attempt id case.case_id r k) >>= _) _ s
  rw [Prog.may_bind, call, Prog.may_perform he, ha]
  refine may_of_quiet ?_
  simp only [Prog.wp_bind]
  refine wp_set_own_status ht (by simp [AttemptStatus.next]) (fun _ _ => trivial) fun u hu _ _ => ?_
  rw [guarded_invoke, Prog.wp_tryCatch]
  refine Prog.wp_weaken (c := quiet run p) (fun _ _ ha => ha) (fun _ ht => ht)
    (fun _ _ h => h.elim) ?_
  refine Prog.wp_mono ?_ wp_invoke_quiet
  rintro result v ⟨rfl, hst, hev, hb⟩
  simp only [hst, Prog.wp_bind]
  exact Prog.wp_mono (fun _ _ ho => ho) (wp_failed_attempt_quiet hu hev hb)

theorem run_repeats_may (hf : Free case.case_id r 0 s) :
    (E.run_repeats run case n r).may (store run p) failing
      (fun made _ => ∀ o ∈ made.1, o.status = .errored) s := by
  induction n generalizing r s with
  | zero      => exact fun _ h => by cases h
  | succ n ih =>
    rw [run_repeats, Prog.may_bind]
    refine Prog.may_mono ?_ (run_attempt_may hf)
    rintro made t ⟨hst, ho⟩
    obtain ⟨a, hown, ha, -⟩ := ho.adds
    have hfree : Free case.case_id (r + 1) 0 t := hf.next ha hown.repeat_index hown.attempt
      |>.next_repeat .refl fun b hb => by cases hb
    have hnot : retried made.1 = false := by simp [retried, hst]
    simp only [hnot, Bool.false_eq_true, if_false, Prog.may_bind, Prog.may_pure]
    refine Prog.may_mono ?_ (ih hfree)
    intro rest _ hrest
    exact List.forall_mem_cons.mpr ⟨hst, hrest⟩

-- A call that the store answers.
theorem call_may {d : Storage.Call} {reply : d.Reply} {Q : d.Reply → Storage.State → Prop}
    (h : Storage.perform run p d s = (.ok reply, t)) (hq : Q reply t) :
    (call d).may (store run p) failing Q s := by
  rw [call, Prog.may_perform h]
  exact hq

theorem ask_may {q : Query} {answer : q.Answer} {Q : q.Answer → Storage.State → Prop}
    (ha : failing q answer) (hq : Q answer s) : (ask q).may (store run p) failing Q s :=
  ⟨answer, ha, hq⟩

-- A case that is running comes to its end.
theorem close_case_may {firsts others : List AttemptResult} {w : List String}
    (hrun : s.case_status id = some .running) :
    (close_case id firsts others w).may (store run p) failing
      (fun result _ => result.repeat_outcomes = firsts) s := by
  unfold close_case
  rcases classify_case firsts with ⟨classification, category⟩
  set target : RunCaseStatus :=
    if firsts.any (·.status = .completed) then .completed else .failed with htarget
  simp only [Prog.may_bind]
  refine call_may (d := .set_case_classification id classification category) rfl ?_
  set t := s.set_case_classification id classification category
  have ht : t.case_status id = some .running := by simp [t, hrun]
  obtain ⟨record, hrec, hst⟩ := State.case_status_eq_some_iff.mp ht
  have hlegal : target ∈ record.status.next := by
    rw [hst, htarget]
    split <;> simp [RunCaseStatus.next]
  refine call_may (State.set_case_status_ok hrec (.inr hlegal)) ?_
  obtain ⟨closed, hclosed, -⟩ := State.case_status_eq_some_iff.mp <|
    show (t.write_case_status id target).case_status id = some target by simp [ht]
  refine call_may (d := .get_case id) rfl ?_
  rw [hclosed]
  rfl

theorem run_case_inner_may (hcase : case ∈ run.spec.cases) (hs : unsettled s case.case_id) :
    (E.run_case_inner run case.case_id).may (store run p) failing
      (fun result t => any_cancelled result.repeat_outcomes = false ∧
        ∃ new, Executed E run p case new s result t) s := by
  refine may_and_wp ?_ <| wp_run_case_inner hcase (status_of_unsettled hs) (fun _ _ => trivial)
    (fun _ _ _ _ => trivial) (fun _ _ _ _ => trivial) fun _ new _ h => ⟨new, h⟩
  obtain ⟨record, hrec, hlegal⟩ : ∃ r, s.get_case case.case_id = some r ∧
      (r.status = .running ∨ .running ∈ r.status.next) := by
    obtain h | h := status_of_unsettled hs
    all_goals
      obtain ⟨r, hr, hst⟩ := State.case_status_eq_some_iff.mp h
      exact ⟨r, hr, by simp [hst, RunCaseStatus.next]⟩
  rw [run_case_inner, EvaluationSpec.find_case hcase]
  simp only [Prog.may_bind]
  refine call_may (State.set_case_status_ok hrec hlegal) ?_
  set u := s.write_case_status case.case_id .running with hu
  refine call_may (d := .list_attempts (some case.case_id)) rfl ?_
  have hcases : ∀ r, Free case.case_id r 0 u →
      (E.run_repeats run case run.repeats r).wp (M := store run p)
        ⟨failing, fun _ => True, fun _ _ => True⟩ (fun _ v => v.cases = u.cases) u :=
    fun r hf => wp_run_repeats hf (fun _ _ => trivial) (fun _ _ _ _ => trivial)
      fun _ _ _ _ _ _ hc => hc
  refine Prog.may_mono ?_ <| may_and_wp (run_repeats_may free_offset) <| hcases _ free_offset
  rintro made v ⟨hst, hc⟩
  have hn : any_cancelled made.1 = false := by
    rw [any_cancelled, List.any_eq_false]
    intro o ho
    simp [hst o ho]
  have hrun : v.case_status case.case_id = some .running := by
    rw [case_status_of_cases hc, hu, State.case_status_write_case_status, if_pos rfl,
      State.case_status, hrec]
    rfl
  simp only [hn, Bool.false_eq_true, if_false]
  refine Prog.may_mono ?_ (close_case_may hrun)
  intro result _ hr
  rw [hr]
  exact hn

-- Scores of one metric always aggregate.
theorem exists_aggregate (scores : List CaseScore) (metric : Metric) (expected_n : ℕ)
    (in_progress : Bool) :
    ∃ aggregate, aggregate_metric E.L metric (scores.filter (·.metric_id = metric.metric_id))
      expected_n in_progress = .ok aggregate := by
  have hn : (scores.filter (·.metric_id = metric.metric_id)).find?
      (·.metric_id ≠ metric.metric_id) = none := by
    rw [List.find?_eq_none]
    intro score hs
    simpa using (List.mem_filter.mp hs).right
  rw [aggregate_metric, hn]
  exact ⟨_, rfl⟩

theorem lift_may {α : Type} {value : Except Exc α} {a : α} {Q : α → Storage.State → Prop}
    (h : value = .ok a) (hq : Q a s) : (lift value).may (store run p) failing Q s := by
  rw [h]
  exact hq

theorem upsert_aggregates_may {b : Bool} {metrics : List Metric} :
    (E.upsert_aggregates run σ b metrics).may (store run p) failing
      (fun _ u => ∃ rows, u = { t with run_results := rows }) t := by
  induction metrics generalizing t with
  | nil                  => exact ⟨t.run_results, rfl⟩
  | cons metric metrics ih =>
    obtain ⟨aggregate, ha⟩ := exists_aggregate σ.landed metric (expected_n run) b (E := E)
    rw [upsert_aggregates, Prog.may_bind]
    refine lift_may ha ?_
    rw [Prog.may_bind]
    refine call_may (d := .upsert_run_metric_result _) rfl ?_
    refine Prog.may_mono ?_ ih
    rintro _ u ⟨rows, rfl⟩
    exact ⟨rows, rfl⟩

-- The run loop comes to its end, if each case of the run is there.
theorem run_cases_may (hcov : Covers run s) (h : Looped E run p s done σ t)
    (hall : done ++ cases = run.spec.cases) :
    (E.run_cases run cases σ).may (store run p) failing
      (fun r u => ∃ σ', r = .inl σ' ∧ Looped E run p s run.spec.cases σ' u) t := by
  induction cases generalizing done σ t with
  | nil             =>
    rw [List.append_nil] at hall
    exact ⟨σ, rfl, hall ▸ h⟩
  | cons case cases ih =>
    have hall' : done ++ [case] ++ cases = run.spec.cases := by simpa using hall
    have hdone : ∀ c ∈ done, c ∈ run.spec.cases := fun c hc => hall ▸ List.mem_append_left _ hc
    have hcase : case ∈ run.spec.cases := hall ▸ List.mem_append_right _ (.head _)
    obtain ⟨record, hrec⟩ : ∃ r, t.get_case case.case_id = some r := by
      rw [← Option.isSome_iff_exists, ((h.looping hdone).progress case.case_id).isSome]
      exact (hcov _).mpr ⟨case, hcase, rfl⟩
    have hd : ∀ c ∈ done, c.case_id ≠ case.case_id := by
      have hn := run.spec.unique_cases
      rw [← hall, List.map_append, List.nodup_append] at hn
      exact fun c hc he => hn.right.right c.case_id (List.mem_map_of_mem hc) case.case_id
        (by simp) he
    have hunt := h.untouched case.case_id fun _ => hd
    rw [run_cases, Prog.may_bind]
    refine ask_may rfl ?_
    simp only [Bool.false_eq_true, if_false, Prog.may_bind]
    refine call_may (d := .get_case case.case_id) rfl ?_
    simp only [hrec]
    split
    case isTrue hset =>
      refine ih (h.skip ?_) hall'
      rw [← unsettled_congr hunt.get_case]
      simp [unsettled, State.case_status, hrec, hset]
    case isFalse hset =>
      have hut : unsettled t case.case_id := by
        simpa [unsettled, State.case_status, hrec] using hset
      have hus : unsettled s case.case_id := unsettled_congr hunt.get_case ▸ hut
      rw [Prog.may_bind, show record.case_id = case.case_id from Table.key_of_find hrec]
      refine Prog.may_mono ?_ (run_case_inner_may hcase hut)
      rintro result u ⟨hn, new, hu⟩
      rw [Prog.may_bind]
      refine Prog.may_mono ?_ upsert_aggregates_may
      rintro _ v ⟨rows, rfl⟩
      simp only [hn, Bool.false_eq_true, if_false]
      exact ih ((h.finish hus hd hu).with_run_results rows) hall'

section Finalize

theorem first_attempt_scores_may {attempts : List AttemptRecord}
    (hid : ∀ a ∈ attempts, a.case_id = id)
    (hscored : ∀ a ∈ attempts, a.is_first_attempt → ∃ scores, Rescored E run t a scores) :
    (E.first_attempt_scores run id attempts).may (store run p) failing (fun _ u => u = t) t := by
  induction attempts with
  | nil               => rfl
  | cons a attempts ih =>
    have hrest := ih (fun b hb => hid b <| .tail _ hb) fun b hb => hscored b <| .tail _ hb
    unfold first_attempt_scores
    split
    case isFalse => exact hrest
    case isTrue hf =>
      obtain ⟨scores, hs⟩ := hscored a (.head _) hf
      rw [Rescored, State.evidence, hid a (.head _)] at hs
      simp only [Prog.may_bind, Prog.may_pure]
      refine call_may (d := .get_trace_events id a.attempt_id) rfl ?_
      refine call_may (d := .get_attempt_output a.attempt_id) rfl ?_
      exact lift_may hs hrest

theorem resume_scores_may {executed : List String}
    (hscored : ∀ case ∈ cases, case.case_id ∉ executed → ∀ a ∈ first_attempts t case.case_id,
      ∃ scores, Rescored E run t a scores) :
    (E.resume_scores run executed cases).may (store run p) failing (fun _ u => u = t) t := by
  induction cases with
  | nil             => rfl
  | cons case cases ih =>
    have hrest := ih fun c hc => hscored c <| .tail _ hc
    unfold resume_scores
    split
    case isTrue => exact hrest
    case isFalse hm =>
      simp only [case_first_attempt_scores_from_trace, Prog.may_bind, Prog.may_pure]
      refine call_may (d := .list_attempts (some case.case_id)) rfl ?_
      refine Prog.may_mono ?_ <| first_attempt_scores_may
        (fun a ha => (State.mem_list_attempts_iff.mp ha).right _ rfl) fun a ha hf =>
          hscored case (.head _) hm a <| List.mem_filter.mpr ⟨ha, hf⟩
      rintro _ u rfl
      exact hrest

theorem upsert_gated_may {metrics : List Metric} :
    (E.upsert_gated run σ metrics).may (store run p) failing
      (fun _ u => u.status = t.status) t := by
  induction metrics generalizing t with
  | nil                  => rfl
  | cons metric metrics ih =>
    obtain ⟨aggregate, ha⟩ := exists_aggregate σ.landed metric (expected_n run) false (E := E)
    rw [upsert_gated, Prog.may_bind]
    refine lift_may ha ?_
    rw [Prog.may_bind]
    refine call_may (d := .upsert_run_metric_result _) rfl ?_
    rw [Prog.may_bind]
    refine Prog.may_mono ?_ ih
    intro _ u hu
    exact hu

theorem complete_run_may (ht : t.status = .aggregating) :
    (E.complete_run run σ).may (store run p) failing (fun _ _ => True) t := by
  rw [complete_run, Prog.may_bind]
  refine Prog.may_mono (fun gates u hu => ?_) upsert_gated_may
  rw [ht] at hu
  refine may_of_quiet ?_
  rw [Prog.wp_bind]
  refine wp_write_cost_summaries (fun _ => trivial) fun rows => ?_
  simp only [Prog.wp_bind]
  rw [wp_set_run_status (by simp [hu, RunStatus.next])]
  simp [quiet]

theorem finalize_may (ht : t.status = .running ∨ t.status = .aggregating)
    (hscored : ∀ case ∈ run.spec.cases, case.case_id ∉ σ.executed.map (·.case_id) →
      ∀ a ∈ first_attempts t case.case_id, ∃ scores, Rescored E run t a scores) :
    (E.finalize run σ).may (store run p) failing (fun _ _ => True) t := by
  rw [finalize, Prog.may_bind]
  refine Prog.may_mono ?_ (resume_scores_may hscored)
  rintro resumed u rfl
  rw [Prog.may_bind]
  refine call_may (d := .get_run) rfl ?_
  dsimp only
  obtain ht | ht := ht
  · rw [if_pos ht, Prog.may_bind]
    refine call_may (State.set_run_status_ok (.inr <| by simp [ht, RunStatus.next])) ?_
    exact complete_run_may rfl
  · rw [if_neg (by simp [ht])]
    exact complete_run_may ht

end Finalize

variable (E run) in
-- What storage kept of the cases that a session leaves alone can be scored again.
def Rescorable (s : Storage.State) : Prop :=
  ∀ case ∈ run.spec.cases, taken_up s case.case_id = false →
    ∀ a ∈ first_attempts s case.case_id, ∃ scores, Rescored E run s a scores

section Rescorable

variable {v : Storage.State} {a b : AttemptRecord} {scores : List CaseScore}

theorem rescored_congr (hid : b.attempt_id = a.attempt_id) (hc : b.case_id = a.case_id)
    (he : t.evidence run.workspace_id a = s.evidence run.workspace_id a) :
    Rescored E run t b scores ↔ Rescored E run s a scores := by
  have hb : t.evidence run.workspace_id b = s.evidence run.workspace_id a := by
    rw [← he, State.evidence, State.evidence, hid, hc]
  rw [Rescored, Rescored, hb, hc]

-- A case that a session leaves alone keeps its samples.
theorem rescorable_left_iff (hp : Prepared s u) (hl : Looped E run p u run.spec.cases σ v)
    (hleft : taken_up s id = false) :
    (∀ a ∈ first_attempts v id, ∃ scores, Rescored E run v a scores) ↔
      ∀ a ∈ first_attempts s id, ∃ scores, Rescored E run s a scores := by
  obtain ⟨g, hg, ho⟩ := hp.attempts
  have hunt : Untouched id u v := hl.untouched id fun hu => by
    rw [hp.unsettled, hleft] at hu
    cases hu
  have hmem : ∀ a ∈ s.attempts, g a ∈ u.attempts := by
    intro a ha
    rw [Table.mem_rows, hg]
    exact List.mem_map_of_mem ha
  have hev : ∀ a ∈ s.attempts, (Rescored E run v (g a) = Rescored E run s a) := by
    intro a ha
    funext scores
    refine propext <| rescored_congr (ho a ha).attempt_id (ho a ha).case_id ?_
    have hga : v.evidence run.workspace_id (g a) = u.evidence run.workspace_id (g a) :=
      (hl.keeps (g a) (hmem a ha)).right _
    have hsame : ∀ w : Storage.State, w.evidence run.workspace_id (g a) =
        w.evidence run.workspace_id a := by
      intro w
      rw [State.evidence, State.evidence, (ho a ha).attempt_id, (ho a ha).case_id]
    rw [← hsame, hga, hsame]
    simp [State.evidence, State.get_trace_events, State.get_attempt_output, hp.events, hp.outputs]
  have hrows : ∀ b, b ∈ first_attempts v id ↔ ∃ a ∈ first_attempts s id, b = g a := by
    intro b
    simp only [mem_first_attempts_iff, hunt.case_rows, State.mem_case_rows_iff, Table.mem_rows, hg,
      List.mem_map]
    constructor
    · rintro ⟨⟨⟨a, ha, rfl⟩, hc⟩, hf⟩
      have hoa := ho a ha
      exact ⟨a, ⟨⟨ha, hoa.case_id ▸ hc⟩, hoa.is_first_attempt ▸ hf⟩, rfl⟩
    · rintro ⟨a, ⟨⟨ha, hc⟩, hf⟩, rfl⟩
      have hoa := ho a ha
      exact ⟨⟨⟨a, ha, rfl⟩, hoa.case_id.trans hc⟩, hoa.is_first_attempt.trans hf⟩
  constructor
  · intro h a ha
    rw [← hev a (State.mem_case_rows_iff.mp (mem_first_attempts_iff.mp ha).left).left]
    exact h (g a) <| (hrows _).mpr ⟨a, ha, rfl⟩
  · intro h b hb
    obtain ⟨a, ha, rfl⟩ := (hrows b).mp hb
    rw [hev a (State.mem_case_rows_iff.mp (mem_first_attempts_iff.mp ha).left).left]
    exact h a ha

-- The cases a session did not execute are those it left alone.
theorem Looped.executed_iff (hp : Prepared s u) (hl : Looped E run p u run.spec.cases σ v)
    (hcase : case ∈ run.spec.cases) :
    case.case_id ∈ σ.executed.map (·.case_id) ↔ taken_up s case.case_id := by
  rw [← hp.unsettled]
  constructor
  · intro hm
    obtain ⟨result, hr, hid⟩ := List.mem_map.mp hm
    obtain ⟨c, hc, new, hf⟩ := hl.executed.exists_of_mem_right hr
    obtain ⟨hcm, hcu⟩ := List.mem_filter.mp hc
    rw [← hid, hf.result_case_id]
    exact hcu
  · intro hu
    obtain ⟨result, hr, new, hf⟩ := hl.executed.exists_of_mem_left <|
      List.mem_filter.mpr ⟨hcase, hu⟩
    exact List.mem_map.mpr ⟨result, hr, hf.result_case_id⟩

end Rescorable

-- A session may always complete the run, if the cases are there and can be scored again.
theorem run_may (hs : s.status ≠ .complete ∧ s.status ≠ .failed) (hcov : Covers run s)
    (hr : Rescorable E run s) : E.run.may (store run p) failing (fun _ _ => True) s := by
  rw [Engine.run, Prog.may_bind]
  refine call_may (d := .get_run) rfl ?_
  dsimp only
  rw [if_neg (not_or.mpr hs), Prog.may_bind]
  have hprepare : (prepare s.status).wp (quiet run p) (fun _ u => Prepared s u) s :=
    wp_prepare hs (fun _ _ => trivial) fun _ hu => hu
  refine Prog.may_mono ?_ (may_of_quiet hprepare)
  intro _ u hu
  rw [execute, Prog.may_bind]
  refine Prog.may_mono ?_ <| Prog.may_tryCatch <|
    run_cases_may (hu.covers hcov) .refl (List.nil_append _)
  rintro r v ⟨σ, rfl, hl⟩
  refine Prog.may_tryCatch <| finalize_may (hl.status ▸ hu.active) ?_
  intro case hcase hn
  have hleft : taken_up s case.case_id = false := by
    simpa using mt (hl.executed_iff hu hcase).mpr hn
  exact (rescorable_left_iff hu hl hleft).mpr <| hr case hcase hleft

end Engine
