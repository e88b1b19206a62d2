import Traceline.Engine.Theorems.Session

open Lifecycle Spec Events Evaluators Storage

namespace Engine

variable {E : Engine} {run : Run} {p : Redaction.Patterns} {s t u v : Storage.State}
variable {h : List Storage.State} {id : String}

variable (E run p) in
-- Sessions on one run, one after the other, each labelled with the state it took up. The code
-- around the engine may answer anything, and a session may die after any call.
def sessions : Machine Storage.State Storage.State where
  init s           := s = created run
  step s started t := started = s ∧ ∃ o, Prog.Exec (store run p) (fun _ _ => True) E.run s t o

-- Statuses of a case that was executed to its end.
def executed_to_end (status : RunCaseStatus) : Bool :=
  status = .completed || status = .failed || status = .skipped

-- A run that no resume takes its cancelled cases back for, although it has some.
def Stranded (s : Storage.State) : Prop :=
  s.status ∈ [RunStatus.draft, .queued, .provisioning, .running, .aggregating] ∧
    ∃ id, s.case_status id = some .cancelled

-- The session of a run of sessions that completed the run took it up from `s`.
def Completing (h : List Storage.State) (s t : Storage.State) : Prop :=
  t.status = .complete ∧ ∃ past future, h = past ++ s :: future ∧ s.status ≠ .complete ∧
    ∀ u ∈ future, u.status = .complete

theorem covers_created : Covers run (created run) := by
  intro id
  have hs : ((created run).get_case id).isSome = ((created run).case_status id).isSome := by
    simp [State.case_status]
  rw [hs, created, State.case_status_insert_cases]
  simp [State.case_status, State.get_case, State.draft]

theorem Prepared.isSome (h : Prepared s t) :
    (t.case_status id).isSome = (s.case_status id).isSome := by
  rw [h.cases, Option.isSome_map]

theorem Looping.isSome (h : Looping E run p s t) :
    (t.case_status id).isSome = (s.case_status id).isSome := by
  simpa [State.case_status] using (h.progress id).isSome

theorem case_status_of_cases (h : t.cases = s.cases) : t.case_status id = s.case_status id := by
  simp [State.case_status, State.get_case, h]

-- A session leaves the same cases there.
theorem Stage.isSome {allow : ∀ q : Query, q.Answer → Prop}
    {o : Prog.Outcome Storage.Error RunResult} (h : Stage E run p allow s t o) :
    (t.case_status id).isSome = (s.case_status id).isSome := by
  cases h with
  | refused _ _                => rfl
  | preparing _ h _            =>
    rcases h.cases id with h | ⟨hs, h | h⟩
    · rw [h]
    · simp [h, hs]
    · simp [h, hs]
  | executing _ _ _ hu hv ht   => rw [case_status_of_cases ht.cases, hv.isSome, hu.isSome]
  | cancelling _ _ hu _ hv     => rw [State.case_status_write_run_status, hv.isSome, hu.isSome]
  | cancelled u _ _ hu _ ht    =>
    obtain ⟨v, hv, rfl⟩ := ht.looping
    rw [State.case_status_write_run_status, hv.isSome, hu.isSome]
  | raised _ _ _ _ _ hu hv ht  => 
    rw [State.case_status_write_run_status, case_status_of_cases ht.cases, hv.isSome, hu.isSome]
  | completed _ _ _ _ _ _ hu hv _ _ _ ht =>
    rw [case_status_of_cases ht.cases, (hv.looping fun _ h => h).isSome, hu.isSome]

theorem sessions_covers (r : (sessions E run p).Run (created run) h t) : Covers run t := by
  refine r.preserves (P := Covers run) ?_ covers_created
  intro s _ t hs ⟨_, _, e⟩
  exact hs.of_case_status fun _ => (run_inv hs e).isSome

theorem reachable_covers (r : (sessions E run p).Reachable s) : Covers run s := by
  have ⟨_, _, hi, r⟩ := r.run
  exact sessions_covers (hi ▸ r)

section Session

variable {o : Prog.Outcome Storage.Error RunResult}

-- A run that is complete stays as it is.
theorem Stage.of_complete {allow : ∀ q : Query, q.Answer → Prop} (h : Stage E run p allow s t o)
    (hs : s.status = .complete) : t = s := by
  cases h with
  | refused _ _                        => rfl
  | preparing _ _ h                    => exact h (.inl hs)
  | executing _ _ _ hu _ _             => exact absurd hs hu.stored.left
  | cancelling _ _ hu _ _              => exact absurd hs hu.stored.left
  | cancelled _ _ _ hu _ _             => exact absurd hs hu.stored.left
  | raised _ _ _ _ _ hu _ _ _ _        => exact absurd hs hu.stored.left
  | completed _ _ _ _ _ _ hu _ _ _ _ _ => exact absurd hs hu.stored.left

variable (E run p) in
-- How a session completes a run that was not complete.
structure Completes (allow : ∀ q : Query, q.Answer → Prop) (s u : Storage.State) (σ : Session)
    (v : Storage.State) (samples : List (AttemptRecord × List CaseScore)) (t : Storage.State) :
    Prop where
  prepared  : Prepared s u
  looped    : Looped E run p u run.spec.cases σ v
  ended     : ∀ r ∈ σ.executed, r.status ≠ .cancelled
  answers   : ∀ case ∈ run.spec.cases, allow (.should_cancel case.case_id) false
  resampled : Resampled E run v (σ.executed.map (·.case_id)) run.spec.cases samples
  finalized : Finalized E run (σ.landed ++ samples.flatMap Prod.snd) v t

theorem Stage.to_complete {allow : ∀ q : Query, q.Answer → Prop} (h : Stage E run p allow s t o)
    (hs : s.status ≠ .complete) (ht : t.status = .complete) :
    ∃ u σ v samples, Completes E run p allow s u σ v samples t := by
  have hloop : ∀ {u v t}, Prepared s u → Looping E run p u v → Finalizing v t →
      t.status ≠ .complete := by
    intro u v t hu hv hw h
    rcases hw.active (hv.status ▸ hu.active) with h' | h' <;> simp [h'] at h
  cases h with
  | refused _ _                  => exact absurd ht hs
  | preparing _ h _              => rcases h.status with h | h | h | h <;> simp [h, hs] at ht
  | executing _ _ _ hu hv hw     => exact absurd ht <| hloop hu hv hw
  | cancelling _ _ _ _ _         => cases ht
  | cancelled _ _ _ _ _ hw       =>
    obtain ⟨_, _, rfl⟩ := hw.looping
    cases ht
  | raised _ _ _ _ _ _ _ _ _ _   => cases ht
  | completed u v _ σ samples _ hu hv he ha hr hf _ =>
    exact ⟨u, σ, v, samples, hu, hv, he, ha, hr, hf⟩

end Session

-- What becomes of a case in a session that completes the run.
theorem Completes.case_status {allow : ∀ q : Query, q.Answer → Prop} {σ : Session}
    {samples : List (AttemptRecord × List CaseScore)}
    (h : Completes E run p allow s u σ v samples t) (hc : Covers run s) {st : RunCaseStatus}
    (hst : s.case_status id = some st) :
    ∃ st', t.case_status id = some st' ∧
      if settled (prepared_status s.status st) then st' = prepared_status s.status st
      else st' = .completed ∨ st' = .failed := by
  have hu : u.case_status id = some (prepared_status s.status st) := by
    rw [h.prepared.cases, hst]
    rfl
  rw [case_status_of_cases h.finalized.cases]
  split
  case isTrue hset =>
    have hun : unsettled u id = false := by simp [unsettled, hu, hset]
    refine ⟨_, ?_, rfl⟩
    rw [(h.looped.untouched id fun hs => by simp [hun] at hs).case_status, hu]
  case isFalse hset =>
    have hun : unsettled u id := by simpa [unsettled, hu] using hset
    obtain ⟨case, hcase, rfl⟩ := (hc id).mp <| by
      simpa [State.case_status] using Option.isSome_of_eq_some hst
    obtain ⟨result, hr, new, hf⟩ := h.looped.executed.exists_of_mem_left <|
      List.mem_filter.mpr ⟨hcase, hun⟩
    refine ⟨_, hf.own, ?_⟩
    have hne := h.ended result hr
    rw [hf.result_status] at hne ⊢
    split at hne
    · exact absurd rfl hne
    · split
      · exact absurd ‹_› ‹_›
      · split <;> simp

theorem prepared_status_eq {stored : RunStatus} {st : RunCaseStatus}
    (h : settled (prepared_status stored st)) : prepared_status stored st = st := by
  cases st with
  | cancelled => cases hr : reopened stored <;> simp [prepared_status, hr, settled] at h ⊢
  | failed    => cases hr : resumed stored <;> simp [prepared_status, hr, settled] at h ⊢
  | _         => simp [prepared_status, settled] at h ⊢

theorem prepared_status_settled {stored : RunStatus} {st : RunCaseStatus}
    (h : settled (prepared_status stored st)) :
    executed_to_end (prepared_status stored st) ∨
      st = .cancelled ∧ reopened stored = false ∧ prepared_status stored st = .cancelled := by
  cases st with
  | cancelled =>
    cases hr : reopened stored <;> simp [prepared_status, hr, settled] at h ⊢
  | failed    =>
    cases hr : resumed stored <;> simp [prepared_status, hr, settled, executed_to_end] at h ⊢
  | _         => simp [prepared_status, settled, executed_to_end] at h ⊢

theorem stranded_iff (hs : s.status ≠ .complete ∧ s.status ≠ .failed) :
    Stranded s ↔ reopened s.status = false ∧ ∃ id, s.case_status id = some .cancelled := by
  have ⟨hc, hf⟩ := hs
  refine and_congr_left fun _ => ?_
  cases h : s.status <;> simp_all [reopened]

theorem Completes.all_settled {allow : ∀ q : Query, q.Answer → Prop} {σ : Session}
    {samples : List (AttemptRecord × List CaseScore)}
    (h : Completes E run p allow s u σ v samples t) (hc : Covers run s) {st : RunCaseStatus}
    (hst : t.case_status id = some st) : settled st := by
  obtain ⟨st', hst'⟩ : ∃ st', s.case_status id = some st' := by
    rw [← Option.isSome_iff_exists, ← h.prepared.isSome, ← (h.looped.looping fun _ h => h).isSome,
      ← case_status_of_cases h.finalized.cases, hst]
    rfl
  obtain ⟨st'', ht, hset⟩ := h.case_status hc hst'
  obtain rfl : st'' = st := Option.some_inj.mp <| ht.symm.trans hst
  split at hset
  case isTrue hs => exact hset ▸ hs
  case isFalse => rcases hset with rfl | rfl <;> rfl

-- The session that completes a run leaves a case unfinished where it found the run stranded.
theorem Completes.executed_iff {allow : ∀ q : Query, q.Answer → Prop} {σ : Session}
    {samples : List (AttemptRecord × List CaseScore)}
    (h : Completes E run p allow s u σ v samples t) (hc : Covers run s) :
    (∀ id st, t.case_status id = some st → executed_to_end st) ↔ ¬Stranded s := by
  rw [stranded_iff h.prepared.stored]
  constructor
  · rintro hall ⟨hre, id, hst⟩
    obtain ⟨st', ht, hst'⟩ := h.case_status hc hst
    simp only [prepared_status, hre, settled] at hst'
    have := hall id st' ht
    simp_all [executed_to_end]
  · intro hns id st' ht
    obtain ⟨st, hst⟩ : ∃ st, s.case_status id = some st := by
      rw [← Option.isSome_iff_exists, ← h.prepared.isSome, ← (h.looped.looping fun _ h => h).isSome,
        ← case_status_of_cases h.finalized.cases, ht]
      rfl
    obtain ⟨st'', ht', hst'⟩ := h.case_status hc hst
    obtain rfl : st'' = st' := Option.some_inj.mp <| ht'.symm.trans ht
    split at hst'
    case isTrue hset =>
      rcases prepared_status_settled hset with he | ⟨rfl, hre, _⟩
      · exact hst' ▸ he
      · exact absurd ⟨hre, id, hst⟩ hns
    case isFalse => rcases hst' with rfl | rfl <;> rfl

theorem completing_snoc_iff :
    Completing (h ++ [v]) s t ↔
      t.status = .complete ∧
        if v.status = .complete then
          ∃ past future, h = past ++ s :: future ∧ s.status ≠ .complete ∧
            ∀ u ∈ future, u.status = .complete
        else s = v := by
  refine and_congr_right fun _ => ?_
  constructor
  · rintro ⟨past, future, hl, hs, hf⟩
    cases future using List.reverseRecOn with
    | nil =>
      obtain ⟨-, hv⟩ := List.append_inj' hl rfl
      obtain rfl := List.singleton_inj.mp hv
      rw [if_neg hs]
    | append_singleton future w =>
      rw [← List.cons_append, ← List.append_assoc] at hl
      obtain ⟨rfl, hv⟩ := List.append_inj' hl rfl
      obtain rfl := List.singleton_inj.mp hv
      rw [if_pos (hf v (by simp))]
      exact ⟨past, future, rfl, hs, fun u hu => hf u (by simp [hu])⟩
  · split
    case isTrue hv =>
      rintro ⟨past, future, rfl, hs, hf⟩
      refine ⟨past, future ++ [v], by simp, hs, fun u hu => ?_⟩
      rcases List.mem_append.mp hu with hu | hu
      · exact hf u hu
      · exact List.mem_singleton.mp hu ▸ hv
    case isFalse hv =>
      rintro rfl
      exact ⟨h, [], rfl, hv, nofun⟩

-- A complete run has only finished cases exactly where the session that completed it did not
-- start from a stranded run.
theorem complete_runs_are_executed_iff (r : (sessions E run p).Run (created run) h t) :
    (t.status = .complete → ∀ id st, t.case_status id = some st → executed_to_end st) ↔
      ∀ s, Completing h s t → ¬Stranded s := by
  generalize hs₀ : created run = s₀ at r
  induction r with
  | refl =>
    subst hs₀
    constructor
    · rintro _ s ⟨_, past, future, hl, _⟩
      simp at hl
    · intro _ hc
      cases hc
  | @step h s started t r e ih =>
    subst hs₀
    obtain ⟨rfl, o, e⟩ := e
    have hcov := sessions_covers r
    have hst := run_inv hcov e
    by_cases ht : t.status = .complete
    case neg => simp [ht, Completing]
    case pos =>
      simp only [completing_snoc_iff, ht, true_and, forall_const]
      by_cases hs : started.status = .complete
      · obtain rfl := hst.of_complete hs
        simpa [Completing, hs] using ih
      · have ⟨u, σ, v, samples, hc⟩ := hst.to_complete hs ht
        simpa only [hs, if_false, forall_eq] using hc.executed_iff hcov

namespace OneCase

def languages : Languages where
  condition _     := .ok fun _ => true
  predicate _     := .ok fun _ => true
  rule _ _        := .ok { result := true }
  regex _         := .ok fun _ => true
  json_schema _ _ := .ok true
  selector _      := .ok []
  repr _          := ""

def redactors : Redaction.Patterns where
  canary _         := none
  provider_token _ := none
  bearer _         := none
  secret _         := none
  sensitive_key _  := false

def engine : Engine where
  L                  := languages
  patterns           := redactors
  judge_factory b    := ⟨b, fun _ _ _ _ => .error (.value "no judge")⟩
  custom_evaluators  := []
  judge_readiness    := none
  price_version      := "2026"
  has_target_adapter := false

-- The agent's answer has to be "yes".
def metric : Metric where
  metric_id     := "answer"
  name          := "answer"
  type          := .scalar
  target        := {
    type                       := .final_response
    tool                       := none
    selector                   := none
    occurrence                 := none
    on_missing                 := some .fail
    selector_shape             := by simp
    tool_for_tool_scoped_types := by simp [TargetType.toolScoped]
    on_missing_required        := by simp
  }
  evaluator     := {
    type                := .exact_match
    expected            := .str "yes"
    config_matches_type := by simp [EvaluatorConfig.config_matches_type]
  }
  scoring       := {
    type                := .binary
    range               := some (.finite 0, .finite 1)
    categories          := none
    condition           := none
    range_required      := by simp
    range_ordered       := by simp [PyFloat.lt]
    categories_required := by simp
  }
  aggregation   := ⟨.pass_rate, .fail⟩
  gate          := some {
    min     := some (.finite 1)
    max     := none
    bounded := by simp
    ordered := by simp
  }
  judge_binding := none
  provisional   := false
  judge_requires_binding     := by simp
  scoring_condition_required := by simp [Evaluator.numeric_producing]

def frozen : Run where
  run_id              := "r1"
  workspace_id        := "w1"
  spec                := {
    name           := "sample"
    cases          := [⟨"c1", [], []⟩]
    metrics        := [metric]
    unique_cases   := by simp
    unique_metrics := by simp
  }
  repeats             := 1
  retry_max           := 0
  invocation_manifest := none
  cases_nonempty   := by simp
  metrics_nonempty := by simp
  repeats_pos      := by simp

-- An agent that always comes to the same end.
def answers (cancelled : Bool) (result : InvocationResult) : ∀ q : Query, q.Answer
  | .should_cancel _   => cancelled
  | .uuid4             => "a1"
  | .invoke_agent _    => .ok result
  | .invoke_target _ _ => ⟨[], .error "no adapter", .ok []⟩
  | .set_order ids     => ⟨ids, .refl ids⟩

-- A session that is cut after `n` calls.
def session (n : ℕ) (env : ∀ q : Query, q.Answer) (s : Storage.State) : Storage.State :=
  (engine.run.run (store frozen redactors) env n s).1

theorem session_step (n : ℕ) (env : ∀ q : Query, q.Answer) (s : Storage.State) :
    (sessions engine frozen redactors).step s s (session n env s) :=
  ⟨rfl, _, Prog.run_exec (fun _ => trivial) _ _ _⟩

end OneCase

namespace Stranding

open OneCase

-- A cancellation dies once the only case is cancelled, before the run is.
def interrupted : Storage.State :=
  session 8 (answers true ⟨.completed, some 0, [], .null, .null⟩) (created frozen)

-- The next session has nothing to do and completes the run.
def completed : Storage.State :=
  session 40 (answers false ⟨.completed, some 0, [], .null, .null⟩) interrupted

theorem sessions_run :
    (sessions engine frozen redactors).Run (created frozen)
      [created frozen, interrupted] completed :=
  .step (.step .refl <| session_step 8 _ _) <| session_step 40 _ _

theorem completed_unfinished :
    ∃ h t, (sessions engine frozen redactors).Run (created frozen) h t ∧
      t.status = .complete ∧ t.case_status "c1" = some .cancelled :=
  ⟨_, completed, sessions_run, by decide +kernel⟩

theorem complete_runs_are_executed_iff_completed :
    (completed.status = .complete → ∀ id st, completed.case_status id = some st →
      executed_to_end st) ↔
      ∀ s, Completing [created frozen, interrupted] s completed → ¬Stranded s :=
  complete_runs_are_executed_iff sessions_run

end Stranding

end Engine
