import Mathlib.Data.List.Dedup
import Traceline.Evaluators.Evaluate
import Traceline.Library.Except

-- Which attempt a score says that it is of.
namespace Evaluators

open Spec Events

variable {L : Languages} {spec : EvaluationSpec} {case_id : String} {events : List TraceEvent}
variable {metric : Metric} {judge : Option JudgeEvaluator} {score : CaseScore} {k : Int}

-- A score with the identity of a sample.
structure Sample.Owns (x : Sample) (score : CaseScore) : Prop where
  metric_id         : score.metric_id = x.metric.metric_id
  attempt           : score.attempt = x.attempt
  on_retry_override : score.on_retry_override = x.on_retry_override

-- Whatever score comes out, it is the sample's.
def Sample.Yields (x : Sample) (r : Except Exc CaseScore) : Prop :=
  ∀ score, r = .ok score → x.Owns score

namespace Sample

variable {x : Sample} {raw : Raw} {evidence : List String} {what : String}

namespace Yields

theorem owns {r : Except Exc CaseScore} (h : r = .ok score) (hy : x.Yields r) : x.Owns score :=
  hy score h

theorem error {e : Exc} : x.Yields (.error e) := by
  intro score h
  cases h

theorem result {s : Option PyFloat} {status : CaseStatus} {message : String} {value : Json} :
    x.Yields (.ok (x.result s status evidence message value)) := by
  intro score h
  obtain rfl := Except.ok.inj h
  exact ⟨rfl, rfl, rfl⟩

theorem bind {α : Type} {m : Except Exc α} {f : α → Except Exc CaseScore}
    (h : ∀ a, m = .ok a → x.Yields (f a)) : x.Yields (m >>= f) := by
  intro score hs
  obtain ⟨a, ha, hs⟩ := Except.bind_eq_ok_iff.mp hs
  exact h a ha score hs

theorem on_missing {reason : String} : x.Yields (x.on_missing reason) := by
  unfold Sample.on_missing
  split
  · exact result
  · exact result
  · exact result
  · exact error

theorem protect {r : Except Exc CaseScore} (h : x.Yields r) : x.Yields (x.protect r) := by
  unfold Sample.protect
  split
  · exact result
  · exact h

theorem score_list {elements : List (Option Json)} :
    x.Yields (x.score_list L raw elements evidence what) := by
  unfold Sample.score_list
  split
  · exact bind fun _ _ => result
  · refine bind fun norms _ => ?_
    dsimp only
    split
    · exact error
    · exact result
  · exact error

theorem score_one {value : Option Json} : x.Yields (x.score_one L value evidence what) := by
  unfold Sample.score_one
  split
  · exact bind fun _ _ => result
  · exact bind fun _ _ => result
  · dsimp only
    split
    · exact result
    · exact result

theorem score_raw_value : x.Yields (x.score_raw_value L raw evidence what) := by
  unfold Sample.score_raw_value
  split
  · exact score_list
  · exact score_list
  · exact score_one

theorem boolean_case_score {passed : Bool} :
    x.Yields (x.boolean_case_score L passed evidence what) := by
  unfold Sample.boolean_case_score
  split
  · exact result
  · exact score_raw_value

theorem check {values : List (Option Json)} {label : String}
    {holds : Option Json → Except Exc Bool} :
    x.Yields (x.check L values evidence what label holds) := by
  unfold Sample.check
  split
  · exact bind fun _ _ => boolean_case_score
  · exact score_raw_value

theorem score_observed_value {values : List (Option Json)} {target_type : TargetType}
    {case : TestCase} : x.Yields (x.score_observed_value L values evidence target_type case) := by
  unfold Sample.score_observed_value
  dsimp only
  split
  case h_1 => exact check
  case h_2 =>
    split
    · exact error
    · exact check
  case h_3 => exact score_raw_value
  case h_4 =>
    split
    · exact error
    · split
      · exact error
      · exact score_raw_value
  case h_5 =>
    split
    · exact error
    · split
      · exact error
      · exact score_raw_value
  case h_6 => exact bind fun _ _ => check
  case h_7 => exact check
  case h_8 => exact error
  case h_9 => exact error

theorem score_trace_rule : x.Yields (x.score_trace_rule L events) := by
  unfold Sample.score_trace_rule
  split
  · exact error
  · refine bind fun result _ => ?_
    split
    · exact score_raw_value
    · split
      · exact Yields.result
      · exact Yields.result

theorem score_scalar : x.Yields (x.score_scalar L spec events) := by
  unfold Sample.score_scalar
  dsimp only
  split
  · exact error
  · exact error
  · exact bind fun _ _ => bind fun _ _ => score_observed_value
  · split
    · exact on_missing
    · refine bind fun observed _ => ?_
      split
      · exact on_missing
      · split
        · split
          · exact error
          · exact boolean_case_score
        · exact bind fun _ _ => bind fun _ _ => score_observed_value

theorem finish_judge {judge : JudgeEvaluator} {case : TestCase} :
    x.Yields (x.finish_judge L judge case evidence) := by
  unfold Sample.finish_judge
  split
  · exact error
  · exact error
  · split
    · exact error
    · exact score_raw_value

theorem score_judge {judge : JudgeEvaluator} : x.Yields (x.score_judge L spec events judge) := by
  unfold Sample.score_judge
  split
  · exact on_missing
  · exact on_missing
  · exact bind fun _ _ => finish_judge
  · split
    · exact on_missing
    · refine bind fun observed _ => ?_
      split
      · exact on_missing
      · exact bind fun _ _ => finish_judge

end Yields

end Sample

-- The attempt that a list of events is of. An empty one passes for the first.
def attempt_of (events : List TraceEvent) : Int :=
  (events.map (·.attempt)).dedup.head?.getD 0

theorem attempt_of_eq (hn : events ≠ []) (h : ∀ e ∈ events, e.attempt = k) :
    attempt_of events = k := by
  have hmem : ∀ a ∈ (events.map (·.attempt)).dedup, a = k := by
    intro a ha
    obtain ⟨e, he, rfl⟩ := List.mem_map.mp <| List.mem_dedup.mp ha
    exact h e he
  unfold attempt_of
  cases hd : (events.map (·.attempt)).dedup with
  | nil       =>
    obtain ⟨e, he⟩ := List.exists_mem_of_ne_nil events hn
    have hm := List.mem_dedup.mpr <| List.mem_map_of_mem (f := (·.attempt)) he
    simp [hd] at hm
  | cons a as => exact hmem a <| hd ▸ .head as

theorem attempt_of_filter : attempt_of (events.filter (·.attempt = 0)) = 0 := by
  by_cases hn : events.filter (·.attempt = 0) = []
  · rw [hn]
    rfl
  · exact attempt_of_eq hn fun e he => by simpa using List.of_mem_filter he

-- `score_attempt` takes the attempt from the events.
theorem score_attempt_identity (h : score_attempt L spec case_id events metric judge = .ok score) :
    score.metric_id = metric.metric_id ∧ score.attempt = attempt_of events ∧
      score.on_retry_override = decide (0 < attempt_of events) := by
  unfold score_attempt at h
  obtain ⟨_, _, h⟩ := Except.bind_eq_ok_iff.mp h
  obtain ⟨_, _, h⟩ := Except.bind_eq_ok_iff.mp h
  set x : Sample := {
    metric
    case_id
    attempt           := attempt_of events
    on_retry_override := decide (0 < attempt_of events)
    provisional       := metric.provisional
  } with hx
  have howns : x.Owns score := by
    dsimp only at h
    by_cases hj : metric.type = .judge ∧ judge.isNone
    · rw [if_pos hj] at h
      cases h
    by_cases hr : metric.target.type = .run
    · rw [if_neg hj, if_pos hr] at h
      cases h
    by_cases hl : (events.map (·.attempt)).dedup.length > 1
    · rw [if_neg hj, if_neg hr, if_pos hl] at h
      cases h
    rw [if_neg hj, if_neg hr, if_neg hl] at h
    refine Sample.Yields.owns h ?_
    split
    · exact .on_missing
    · refine .protect ?_
      split
      · exact .score_trace_rule
      · exact .score_scalar
      · exact .score_judge
      · exact .error
  exact ⟨howns.metric_id, howns.attempt, howns.on_retry_override⟩

-- A first attempt is scored as one, whatever its events say.
theorem evaluate_case_identity (h : evaluate_case L spec case_id events metric judge = .ok score) :
    score.metric_id = metric.metric_id ∧ score.attempt = 0 ∧ score.on_retry_override = false := by
  obtain ⟨_, _, h⟩ := Except.bind_eq_ok_iff.mp h
  obtain ⟨hm, ha, ho⟩ := score_attempt_identity h
  rw [attempt_of_filter] at ha ho
  exact ⟨hm, ha, ho⟩

-- What a score of an attempt carries where its number is passed along.
def Numbered (metric : Metric) (k : Int) (score : CaseScore) : Prop :=
  score.metric_id = metric.metric_id ∧ score.attempt = k ∧
    score.on_retry_override = decide (0 < k)

theorem Sample.Owns.numbered {provisional : Bool}
    (h : (⟨metric, case_id, k, decide (0 < k), provisional⟩ : Sample).Owns score) :
    Numbered metric k score :=
  ⟨h.metric_id, h.attempt, h.on_retry_override⟩

theorem score_output_numbered {output : Json} (ht : metric.type ≠ .trace_rule)
    (hn : non_event_target metric.target.type)
    (h : score_output L spec case_id metric judge k (0 < k) output = .ok score) :
    Numbered metric k score := by
  obtain ⟨case, _, h⟩ := Except.bind_eq_ok_iff.mp h
  refine Sample.Owns.numbered <| Sample.Yields.owns h <| .protect ?_
  cases hm : metric.type with
  | trace_rule => exact absurd hm ht
  | scalar     =>
    dsimp only
    rw [if_pos hn]
    exact .bind fun _ _ => .score_observed_value
  | judge      =>
    cases judge with
    | none   => exact .error
    | some _ =>
      dsimp only
      rw [if_pos hn]
      exact .finish_judge

-- A trace rule, or a metric on events, is scored on the empty trace instead.
theorem score_output_identity {output : Json}
    (h : score_output L spec case_id metric judge k (0 < k) output = .ok score) :
    Numbered metric k score ∨ Numbered metric 0 score := by
  by_cases hn : metric.type ≠ .trace_rule ∧ non_event_target metric.target.type
  · exact .inl <| score_output_numbered hn.left hn.right h
  obtain ⟨case, _, h⟩ := Except.bind_eq_ok_iff.mp h
  have hempty : ∀ {judge}, score_attempt L spec case_id [] metric judge = .ok score →
      Numbered metric 0 score := fun h => score_attempt_identity h
  have hprotect : ∀ {x : Sample} {r : Except Exc CaseScore}, x.protect r = .ok score →
      x.Owns score ∨ r = .ok score := by
    intro x r h
    unfold Sample.protect at h
    split at h
    · exact .inl <| Sample.Yields.owns h .result
    · exact .inr h
  obtain h | h := hprotect h
  · exact .inl h.numbered
  · right
    split at h
    · cases h
    · split at h
      case isTrue ht => exact absurd ⟨by simp_all, ht⟩ hn
      case isFalse   => exact hempty h
    · split at h
      case isTrue ht => exact absurd ⟨by simp_all, ht⟩ hn
      case isFalse   => exact hempty h
    · exact hempty h

theorem custom_verdict_yields {x : Sample} {evaluator : CustomEvaluator} {output : Option Json}
    {case : TestCase} : x.Yields (custom_verdict L metric x evaluator events output case) := by
  unfold custom_verdict
  refine .bind fun result _ => ?_
  dsimp only
  split
  case h_2 => exact .error
  case h_1 raw _ =>
    split
    case h_2 => exact .error
    case h_1 number _ =>
      refine .bind fun raw_score _ => ?_
      split
      · exact .error
      split
      · exact .error
      split
      · exact .error
      split
      · exact .error
      split
      · exact .error
      refine .bind fun s _ => ?_
      intro score h
      obtain rfl := Except.ok.inj h
      exact ⟨rfl, rfl, rfl⟩

theorem score_custom_numbered {evaluator : CustomEvaluator} {output : Option Json}
    (h : score_custom L spec case_id events metric k (0 < k) evaluator output = .ok score) :
    Numbered metric k score := by
  obtain ⟨_, _, h⟩ := Except.bind_eq_ok_iff.mp h
  obtain ⟨case, _, h⟩ := Except.bind_eq_ok_iff.mp h
  set x : Sample := ⟨metric, case_id, k, decide (0 < k), metric.provisional⟩ with hx
  have hversioned : ∀ {message : String} {version : Option String},
      x.Yields (.ok { x.result none .ERROR [] message .null with evaluator_version := version }) := by
    intro message version score h
    obtain rfl := Except.ok.inj h
    exact ⟨rfl, rfl, rfl⟩
  have howns : x.Owns score := by
    refine Sample.Yields.owns h ?_
    dsimp only
    split
    all_goals
      refine .bind fun selected _ => ?_
      split
      · exact .on_missing
      split
      · exact .on_missing
      split
      · exact .on_missing
      split
      · exact hversioned
      · exact hversioned
      · exact custom_verdict_yields
  exact howns.numbered

end Evaluators
