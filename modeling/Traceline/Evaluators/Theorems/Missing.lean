import Traceline.Evaluators.Identity
import Traceline.Evaluators.Schema
import Traceline.Predicates.Theorems.Monotone

namespace Predicates.Node

open Events

-- None of the paths of a predicate leads anywhere in the event.
def Unresolved (n : Node) (e : TraceEvent) : Prop :=
  ∀ x ∈ n.paths, resolve e x.fst x.snd = .missing

section

variable (fromisoformat : String → Option Timestamp)

-- What is left of a predicate once all of its paths are missing.
def blank : Node → Except String Value
  | .literal value         => .ok (.json value)
  | .path _ _              => .ok .missing
  | .compare op left right => do
    let a ← left.blank
    let b ← right.blank
    Predicates.compare fromisoformat op a b
  | .and left right        => do
    let a ← left.blank
    let b ← right.blank
    return bool_and a b
  | .or left right         => do
    let a ← left.blank
    let b ← right.blank
    return bool_or a b
  | .not child             => do
    let a ← child.blank
    return bool_not a

end

variable {fromisoformat : String → Option Timestamp} {n : Node} {e : TraceEvent}

theorem evaluate_unresolved (h : n.Unresolved e) :
    n.evaluate fromisoformat e = n.blank fromisoformat := by
  induction n with
  | literal value                => rfl
  | path field segments          =>
    have hr : resolve e field segments = .missing := h (field, segments) (.head _)
    rw [evaluate, hr, blank]
  | compare _ left right ihl ihr | and left right ihl ihr | or left right ihl ihr =>
    simp only [evaluate, blank, ihl fun x hx => h x (List.mem_append_left _ hx),
      ihr fun x hx => h x (List.mem_append_right _ hx)]
  | not child ih                 => rw [evaluate, blank, ih h]

end Predicates.Node

-- What becomes of a metric whose observed value is missing.
namespace Evaluators

open Spec Events

-- A scoring that comes to a PASS.
def Passes (r : Except Exc CaseScore) : Prop :=
  ∃ s, r = .ok s ∧ s.status = .PASS

section Raw

variable {x : Sample} {L : Languages} {values : List (Option Json)} {evidence : List String}
variable {what : String} {score : Option PyFloat} {status : CaseStatus} {message : String}
variable {value : Json} {passed : Bool}

theorem not_passes_error {e : Exc} : ¬ Passes (.error e) :=
  fun ⟨_, h, _⟩ => by cases h

theorem passes_result :
    Passes (.ok (x.result score status evidence message value)) ↔ status = .PASS :=
  ⟨fun ⟨_, h, hs⟩ => (congrArg CaseScore.status (Except.ok.inj h)).trans hs, fun h => ⟨_, rfl, h⟩⟩

theorem verdict_eq_pass : verdict passed = .PASS ↔ passed = true := by
  cases passed <;> simp [verdict]

theorem passes_protect {r : Except Exc CaseScore} : Passes (x.protect r) ↔ Passes r := by
  unfold Sample.protect
  split
  · exact iff_of_false (fun h => by cases passes_result.mp h) not_passes_error
  · exact .rfl

theorem passes_bind {α : Type} {t : Except Exc α} {f : α → Except Exc CaseScore} :
    Passes (t >>= f) ↔ ∃ a, t = .ok a ∧ Passes (f a) := by
  cases t with
  | error e => exact iff_of_false not_passes_error (by simp)
  | ok a    => exact ⟨fun h => ⟨a, rfl, h⟩, fun ⟨_, h, hp⟩ => Except.ok.inj h ▸ hp⟩

-- A verdict that comes out of a test.
theorem passes_test {t : Except Exc Bool} {f : Bool → Except Exc CaseScore}
    (hf : ∀ b, Passes (f b) ↔ b = true) : Passes (t >>= f) ↔ t = .ok true := by
  rw [passes_bind]
  constructor
  · rintro ⟨b, rfl, hp⟩
    rw [(hf b).mp hp]
  · rintro rfl
    exact ⟨true, rfl, (hf true).mpr rfl⟩

theorem elements_of_missing (hv : none ∈ values) :
    values = [none] ∨ Raw.of values = .many values := by
  match values, hv with
  | [value], hv    => exact .inl (by simp_all)
  | _ :: _ :: _, _ => exact .inr rfl

-- Under numeric scoring a missing value is never within the range, under categorical scoring it is
-- in no category.
theorem not_passes_raw (hv : none ∈ values) (hs : x.metric.scoring.type ≠ .binary) :
    ¬ Passes (x.score_raw_value L (.of values) evidence what) := by
  rcases elements_of_missing hv with rfl | h
  · change ¬ Passes (x.score_one L none evidence what)
    unfold Sample.score_one
    split
    case h_1 => contradiction
    case h_2 =>
      intro hp
      obtain ⟨score, -, hp⟩ := passes_bind.mp hp
      cases passes_result.mp hp
    case h_3 =>
      intro hp
      cases passes_result.mp hp
  · rw [h]
    change ¬ Passes (x.score_list L (.many values) values evidence what)
    unfold Sample.score_list
    split
    case h_1 => contradiction
    case h_2 =>
      intro hp
      obtain ⟨norms, -, hp⟩ := passes_bind.mp hp
      have hrange : values.all (in_score_range x.metric.scoring) = false :=
        List.all_eq_false.mpr ⟨none, hv, by simp [in_score_range]⟩
      dsimp only at hp
      rw [hrange] at hp
      split at hp
      · exact not_passes_error hp
      · cases passes_result.mp hp
    case h_3 => exact not_passes_error

-- Under binary scoring every value has to satisfy the condition.
theorem passes_raw_iff (hv : none ∈ values) :
    Passes (x.score_raw_value L (.of values) evidence what) ↔
      x.metric.scoring.type = .binary ∧ ∀ v ∈ values, L.eval_condition x.metric v = .ok true := by
  by_cases hs : x.metric.scoring.type = .binary
  case neg => exact iff_of_false (not_passes_raw hv hs) fun h => hs h.left
  case pos =>
    rw [and_iff_right hs]
    rcases elements_of_missing hv with rfl | h
    · change Passes (x.score_one L none evidence what) ↔ _
      rw [Sample.score_one, hs, List.forall_mem_singleton]
      exact passes_test fun b => passes_result.trans verdict_eq_pass
    · rw [h]
      change Passes (x.score_list L (.many values) values evidence what) ↔ _
      rw [Sample.score_list, hs, ← Except.allM_eq_ok_true_iff]
      exact passes_test fun b => passes_result.trans verdict_eq_pass

end Raw

section Values

variable {x : Sample} {L : Languages} {values : List (Option Json)} {evidence : List String}
variable {what label : String} {holds : Option Json → Except Exc Bool} {t : TargetType}
variable {case : TestCase}

theorem passes_boolean (hs : x.metric.scoring.type = .binary) {passed : Bool} :
    Passes (x.boolean_case_score L passed evidence what) ↔ passed = true := by
  rw [Sample.boolean_case_score, if_pos hs]
  exact passes_result.trans verdict_eq_pass

theorem passes_check (hv : none ∈ values) :
    Passes (x.check L values evidence what label holds) ↔
      x.metric.scoring.type = .binary ∧ ∀ v ∈ values, holds v = .ok true := by
  unfold Sample.check
  split
  case isTrue hs  =>
    rw [and_iff_right hs, ← Except.allM_eq_ok_true_iff]
    exact passes_test fun b => passes_boolean hs
  case isFalse hs => exact iff_of_false (not_passes_raw hv hs) fun h => hs h.left

theorem not_passes_check (hv : none ∈ values) (hh : holds none = .ok false) :
    ¬ Passes (x.check L values evidence what label holds) := by
  intro hp
  have ht := (passes_check hv).mp hp |>.right none hv
  rw [hh] at ht
  cases ht

theorem mapM_eq_none {α β : Type} {f : α → Option β} {l : List α} {a : α} (ha : a ∈ l)
    (hf : f a = none) : l.mapM f = none := by
  induction l with
  | nil         => cases ha
  | cons b l ih =>
    rw [List.mapM_cons]
    cases ha with
    | head      =>
      rw [hf]
      rfl
    | tail _ ha =>
      rw [ih ha]
      cases f b <;> rfl

-- What makes a metric pass on missing values: a schema or a condition that holds of them.
def Admits (metric : Metric) (L : Languages) (values : List (Option Json)) : Prop :=
  metric.scoring.type = .binary ∧
    (metric.evaluator.type = .json_schema ∧
      (∀ v ∈ values, L.json_schema (metric.evaluator.schema.getD []) v = .ok true) ∨
    metric.evaluator.type = .numeric ∧ ∀ v ∈ values, L.eval_condition metric v = .ok true)

theorem passes_observed_iff (hv : none ∈ values) :
    Passes (x.score_observed_value L values evidence t case) ↔ Admits x.metric L values := by
  unfold Sample.score_observed_value Admits
  dsimp only
  split
  case h_1 he =>
    rw [he]
    exact iff_of_false (not_passes_check hv rfl) (by simp)
  case h_2 he =>
    rw [he]
    refine iff_of_false ?_ (by simp)
    split
    · exact not_passes_error
    · exact not_passes_check hv rfl
  case h_3 he =>
    rw [he, passes_raw_iff hv]
    simp
  case h_4 he =>
    rw [he]
    refine iff_of_false ?_ (by simp)
    rcases elements_of_missing hv with rfl | h
    · exact not_passes_error
    · rw [h]
      dsimp only [Raw.elements?]
      rw [mapM_eq_none hv rfl]
      exact not_passes_error
  case h_5 he =>
    rw [he]
    refine iff_of_false ?_ (by simp)
    rcases elements_of_missing hv with rfl | h
    · exact not_passes_error
    · rw [h]
      dsimp only [Raw.elements?, Option.bind]
      rw [mapM_eq_none hv rfl]
      exact not_passes_error
  case h_6 he =>
    rw [he]
    refine iff_of_false (fun hp => ?_) (by simp)
    have ⟨expected, _, hp⟩ := passes_bind.mp hp
    exact not_passes_check hv rfl hp
  case h_7 he =>
    rw [he, passes_check hv]
    simp
  case h_8 he =>
    rw [he]
    exact iff_of_false not_passes_error (by simp)
  case h_9 =>
    refine iff_of_false not_passes_error fun ⟨_, h⟩ => ?_
    rcases h with ⟨he, _⟩ | ⟨he, _⟩ <;> contradiction

end Values

-- A schema that is about the instance at all.
def Schema.Constrains (schema : Schema.Fields) : Prop :=
  (∃ expected, schema.lookup "type" = some expected ∧ expected ≠ .null) ∨
    (schema.lookup "enum").isSome ∨ (schema.lookup "const").isSome

theorem matches_json_type_missing (expected : Json) :
    Schema.matches_json_type expected none = false := by
  unfold Schema.matches_json_type
  split <;> simp_all

theorem type_ok_missing {schema : Schema.Fields} : Schema.type_ok schema none = true ↔
    ¬ ∃ expected, schema.lookup "type" = some expected ∧ expected ≠ .null := by
  unfold Schema.type_ok
  split
  case h_1 h   => simp [h]
  case h_2 h   => simp [h]
  case h_3 h   =>
    rw [h]
    simp [matches_json_type_missing]
  case h_4 hn h =>
    rw [h, matches_json_type_missing]
    simp_all

theorem enum_ok_missing {schema : Schema.Fields} :
    Schema.enum_ok schema none = .ok true ↔ ¬ (schema.lookup "enum").isSome := by
  unfold Schema.enum_ok
  cases schema.lookup "enum" with
  | none      => simp
  | some enum =>
    refine iff_of_false (fun h => ?_) (by simp)
    obtain ⟨values, -, h⟩ := Except.bind_eq_ok_iff.mp h
    have hany : values.any (typed_eq none) = false :=
      List.any_eq_false.mpr fun _ _ => Bool.false_ne_true
    rw [hany] at h
    cases h

theorem const_ok_missing {schema : Schema.Fields} :
    Schema.const_ok schema none = true ↔ ¬ (schema.lookup "const").isSome := by
  unfold Schema.const_ok
  cases schema.lookup "const" <;> simp [typed_eq]

-- A missing instance is valid under exactly the schemas that are not about it.
theorem json_ok_missing {regex : String → Except String (String → Bool)} {schema : Schema.Fields} :
    Schema.json_ok regex (.obj schema) none = .ok true ↔ ¬ Schema.Constrains schema := by
  have hk : Schema.json_ok regex (.obj schema) none = .ok true ↔
      Schema.keywords_ok regex schema none = .ok true := by
    rw [Schema.json_ok.eq_def]
    dsimp only
    cases Schema.keywords_ok regex schema none with
    | error e => exact .rfl
    | ok b    => cases b <;> exact .rfl
  have hnumeric : Schema.numeric_ok schema none = .ok true := rfl
  have hstring : Schema.string_ok regex schema none = .ok true := rfl
  rw [hk, Schema.keywords_ok, Except.allM_eq_ok_true_iff]
  simp only [List.forall_mem_cons, List.not_mem_nil, id_eq, Except.ok.injEq]
  rw [hnumeric, hstring, type_ok_missing, enum_ok_missing, const_ok_missing, Schema.Constrains]
  simp only [not_or, IsEmpty.forall_iff, implies_true, and_true]

section Attempts

variable {L : Languages} {spec : EvaluationSpec} {case_id : String} {events : List TraceEvent}
variable {metric : Metric} {judge : Option JudgeEvaluator} {s : CaseScore} {case : TestCase}
variable {values : List (Option Json)} {value : Option Json}

-- The sample of an attempt.
def attempt_sample (metric : Metric) (case_id : String) (events : List TraceEvent) : Sample where
  metric
  case_id
  attempt           := attempt_of events
  on_retry_override := decide (0 < attempt_of events)
  provisional       := metric.provisional

theorem case_of_score_attempt (h : score_attempt L spec case_id events metric judge = .ok s) :
    ∃ case, case_from_spec L spec case_id = .ok case := by
  obtain ⟨_, _, h⟩ := Except.bind_eq_ok_iff.mp h
  obtain ⟨case, hcase, _⟩ := Except.bind_eq_ok_iff.mp h
  exact ⟨case, hcase⟩

theorem score_attempt_scalar (hm : metric.type = .scalar)
    (he : ¬ (events = [] ∧ metric.target.type ≠ .input))
    (h : score_attempt L spec case_id events metric judge = .ok s) :
    (attempt_sample metric case_id events).protect
      ((attempt_sample metric case_id events).score_scalar L spec events) = .ok s := by
  unfold score_attempt at h
  obtain ⟨_, _, h⟩ := Except.bind_eq_ok_iff.mp h
  obtain ⟨_, _, h⟩ := Except.bind_eq_ok_iff.mp h
  dsimp only at h
  rw [if_neg (by simp [hm])] at h
  by_cases hr : metric.target.type = .run
  · rw [if_pos hr] at h
    cases h
  by_cases hl : (events.map (·.attempt)).dedup.length > 1
  · rw [if_neg hr, if_pos hl] at h
    cases h
  rw [if_neg hr, if_neg hl, if_neg he, hm] at h
  exact h

theorem observed_empty {x : Sample} {sel : List TraceEvent} : x.observed [] ≠ .ok (.inl sel) := by
  unfold Sample.observed select_target_events
  cases target_event_type? x.metric.target.type with
  | none            => simp [bind, Except.bind, pure, Except.pure]
  | some event_type =>
    simp [sort_events, bind, Except.bind, pure, Except.pure]

theorem status_of_protect {x : Sample} {r : Except Exc CaseScore} (h : x.protect r = .ok s) :
    s.status = .PASS ↔ Passes r := by
  rw [← passes_protect (x := x), h]
  exact ⟨fun hs => ⟨s, rfl, hs⟩, fun ⟨_, he, hs⟩ => Except.ok.inj he ▸ hs⟩

theorem score_scalar_input {x : Sample} (ht : x.metric.target.type = .input)
    (hc : case_from_spec L spec x.case_id = .ok case)
    (hv : L.select_from (some (.obj case.input)) x.metric.target.selector = .ok value) :
    x.score_scalar L spec events = x.score_observed_value L [value] [] .input case := by
  unfold Sample.score_scalar
  dsimp only
  rw [ht]
  dsimp only
  rw [hc]
  dsimp only [bind, Except.bind]
  rw [hv]

theorem score_scalar_events {x : Sample} {sel : List TraceEvent}
    (ht : x.metric.target.type ∉ [TargetType.input, .run, .trace])
    (hn : non_event_target x.metric.target.type = false)
    (he : x.metric.evaluator.type ≠ .cel_predicate)
    (ho : x.observed events = .ok (.inl sel)) (hv : sel.mapM (x.observed_value L) = .ok values) :
    x.score_scalar L spec events = case_from_spec L spec x.case_id >>= fun case =>
      x.score_observed_value L values (ids_of sel) x.metric.target.type case := by
  simp only [List.mem_cons, List.not_mem_nil, or_false, not_or] at ht
  unfold Sample.score_scalar
  dsimp only
  split
  case h_1 h => exact absurd h ht.right.left
  case h_2 h => exact absurd h ht.right.right
  case h_3 h => exact absurd h ht.left
  case h_4   =>
    rw [hn, if_neg Bool.false_ne_true, ho]
    dsimp only [bind, Except.bind]
    rw [if_neg he, hv]

end Attempts

-- How a scalar metric comes to a score through the values that it observes: in the input of the
-- case, in the events of an attempt, or in its output.
inductive Scores (L : Languages) (spec : EvaluationSpec) (case_id : String) (metric : Metric) :
    List (Option Json) → CaseScore → Prop
  | input {events : List TraceEvent} {judge : Option JudgeEvaluator} {case : TestCase}
      {value : Option Json} {s : CaseScore} :
    metric.target.type = .input → case_from_spec L spec case_id = .ok case →
    L.select_from (some (.obj case.input)) metric.target.selector = .ok value →
    score_attempt L spec case_id events metric judge = .ok s →
    Scores L spec case_id metric [value] s
  | events {events sel : List TraceEvent} {judge : Option JudgeEvaluator}
      {values : List (Option Json)} {s : CaseScore} :
    metric.target.type ∉ [TargetType.input, .run, .trace] →
    non_event_target metric.target.type = false → metric.evaluator.type ≠ .cel_predicate →
    (attempt_sample metric case_id events).observed events = .ok (.inl sel) →
    sel.mapM ((attempt_sample metric case_id events).observed_value L) = .ok values →
    score_attempt L spec case_id events metric judge = .ok s →
    Scores L spec case_id metric values s
  | output {output : Json} {judge : Option JudgeEvaluator} {attempt : Int}
      {on_retry_override : Bool} {value : Option Json} {s : CaseScore} :
    non_event_target metric.target.type = true →
    L.select_from (some (output_context metric output)) metric.target.selector = .ok value →
    score_output L spec case_id metric judge attempt on_retry_override output = .ok s →
    Scores L spec case_id metric [value] s

section Scoring

variable {L : Languages} {spec : EvaluationSpec} {case_id : String} {metric : Metric}
variable {s : CaseScore} {values : List (Option Json)}

-- A missing value passes exactly where the metric admits it.
theorem Scores.passes_iff (h : Scores L spec case_id metric values s) (hm : metric.type = .scalar)
    (hv : none ∈ values) : s.status = .PASS ↔ Admits metric L values := by
  cases h with
  | input ht hcase hvalue hs                =>
    have hp := score_attempt_scalar hm (fun ⟨_, hn⟩ => hn ht) hs
    rw [status_of_protect hp, score_scalar_input ht hcase hvalue]
    exact passes_observed_iff hv
  | @events events _ _ _ _ ht hn he ho hvalues hs =>
    have hne : events ≠ [] := fun hempty => observed_empty (hempty ▸ ho)
    have hp := score_attempt_scalar hm (fun ⟨h, _⟩ => hne h) hs
    rw [status_of_protect hp, score_scalar_events ht hn he ho hvalues]
    have ⟨case, hcase⟩ := case_of_score_attempt hs
    change Passes (case_from_spec L spec case_id >>= _) ↔ _
    rw [hcase]
    exact passes_observed_iff hv
  | output hn hvalue hs                     =>
    obtain ⟨case, _, hs⟩ := Except.bind_eq_ok_iff.mp hs
    dsimp only at hs
    rw [hm] at hs
    dsimp only at hs
    rw [if_pos hn] at hs
    rw [status_of_protect hs, hvalue]
    exact passes_observed_iff hv

variable {py : Python} {raw : Option Json}

theorem eval_condition_iff : (L.implemented py).eval_condition metric raw = .ok true ↔
    ∃ text c, metric.scoring.condition = some text ∧ text ≠ "" ∧
      Conditions.compile py text.toList = .ok c ∧ Conditions.evaluate raw c = true := by
  unfold Languages.eval_condition
  cases metric.scoring.condition with
  | none      => simp [Languages.eval_condition.missing]
  | some text =>
    by_cases ht : text = ""
    case pos => simp [ht, Languages.eval_condition.missing]
    case neg =>
      have hl : (L.implemented py).condition text = compile_condition py text := rfl
      dsimp only
      rw [if_neg ht, hl, compile_condition]
      cases hc : Conditions.compile py text.toList with
      | error e => cases e <;> simp [hc]
      | ok c    => simp [ht, hc]

-- The metrics that let no missing value pass. Under binary scoring their schema says something of the
-- instance, or their condition is not true of a missing value, or else another value fails.
structure Guards (py : Python) (L : Languages) (metric : Metric) (values : List (Option Json)) :
    Prop where
  schema    : metric.scoring.type = .binary → metric.evaluator.type = .json_schema →
    Schema.Constrains (metric.evaluator.schema.getD []) ∨ ∃ v ∈ values, v ≠ none ∧
      Schema.json_ok L.regex (.obj (metric.evaluator.schema.getD [])) v ≠ .ok true
  condition : metric.scoring.type = .binary → metric.evaluator.type = .numeric →
    ∀ text c, metric.scoring.condition = some text → text ≠ "" →
      Conditions.compile py text.toList = .ok c → ∃ v ∈ values, Conditions.evaluate v c = false

theorem guards_iff (hv : none ∈ values) :
    Guards py L metric values ↔ ¬ Admits metric (L.implemented py) values := by
  constructor
  · rintro hg ⟨hs, ⟨he, hall⟩ | ⟨he, hall⟩⟩
    · rcases hg.schema hs he with hc | ⟨v, hmem, -, hne⟩
      · exact json_ok_missing.mp (hall none hv) hc
      · exact hne <| hall v hmem
    · have ⟨text, c, ht, hne, hc, _⟩ := eval_condition_iff.mp (hall none hv)
      have ⟨v, hmem, hf⟩ := hg.condition hs he text c ht hne hc
      have ⟨text', c', ht', _, hc', htrue⟩ := eval_condition_iff.mp (hall v hmem)
      cases ht.symm.trans ht'
      cases hc.symm.trans hc'
      rw [hf] at htrue
      cases htrue
  · intro hn
    constructor
    · intro hs he
      by_contra hcon
      push Not at hcon
      refine hn ⟨hs, .inl ⟨he, fun v hmem => ?_⟩⟩
      cases v with
      | none   => exact json_ok_missing.mpr hcon.left
      | some j => exact hcon.right (some j) hmem (by simp)
    · intro hs he text c ht hne hc
      by_contra hcon
      push Not at hcon
      refine hn ⟨hs, .inr ⟨he, fun v hmem => eval_condition_iff.mpr ⟨text, c, ht, hne, hc, ?_⟩⟩⟩
      simpa using hcon v hmem

end Scoring

section Grounds

open Conditions (Node Connective)
open Predicates (Value)

def is_null : Node → Bool
  | .literal .null => true
  | _              => false

mutual

-- The conditions without a comparison with null.
def null_free : Node → Bool
  | .literal _ | .raw      => true
  | .compare _ left right  => !is_null left && !is_null right && null_free left && null_free right
  | .bool _ children       => null_free_children children
  | .not child             => null_free child

def null_free_children : List Node → Bool
  | []                => true
  | child :: children => null_free child && null_free_children children

end

-- The conditions that only compare the observed value, and not with null.
inductive Grounded : Node → Prop
  | left {op : Predicates.Op} {n : Node} : n ≠ .literal .null → Grounded (.compare op .raw n)
  | right {op : Predicates.Op} {n : Node} : n ≠ .literal .null → Grounded (.compare op n .raw)
  | bool {op : Connective} {children : List Node} : children ≠ [] →
    (∀ n ∈ children, Grounded n) → Grounded (.bool op children)
  | not {n : Node} : Grounded n → Grounded (.not n)

theorem combine_ne_null {op : Connective} {a b : Value} : op.combine a b ≠ .json .null := by
  cases op with
  | and =>
    change Conditions.cond_and a b ≠ _
    unfold Conditions.cond_and
    split <;> try split
    all_goals simp
  | or  =>
    change Conditions.cond_or a b ≠ _
    unfold Conditions.cond_or
    split <;> try split
    all_goals simp

theorem evaluate_children_ne_null {op : Connective} {children : List Node} {result : Value}
    (h : result ≠ .json .null) :
    Conditions.evaluate_children .missing op result children ≠ .json .null := by
  induction children generalizing result with
  | nil         => exact h
  | cons n ns ih =>
    rw [Conditions.evaluate_children]
    exact ih combine_ne_null

-- Only the literal null comes to null.
theorem evaluate_ne_null {n : Node} (h : n ≠ .literal .null) :
    n.evaluate .missing ≠ .json .null := by
  cases n with
  | literal value         => simpa [Node.evaluate] using h
  | raw                   => simp [Node.evaluate]
  | compare op left right =>
    rw [Node.evaluate]
    unfold Conditions.cond_compare
    split
    · split <;> simp
    · split <;> try split
      all_goals simp
  | bool op children      =>
    rw [Node.evaluate]
    exact evaluate_children_ne_null (by simp)
  | not child             =>
    rw [Node.evaluate]
    unfold Conditions.cond_not
    split <;> simp

theorem combine_unknown {op : Connective} {a : Value} (h : a = op.unit ∨ a = .unknown) :
    op.combine a .unknown = .unknown := by
  rcases h with rfl | rfl <;> cases op <;> rfl

theorem evaluate_children_unknown {op : Connective} {children : List Node}
    (h : ∀ n ∈ children, n.evaluate .missing = .unknown) :
    Conditions.evaluate_children .missing op .unknown children = .unknown := by
  induction children with
  | nil         => rfl
  | cons n ns ih =>
    rw [List.forall_mem_cons] at h
    rw [Conditions.evaluate_children, h.left, combine_unknown (.inr rfl)]
    exact ih h.right

theorem Grounded.unknown {n : Node} (h : Grounded n) : n.evaluate .missing = .unknown := by
  induction h with
  | left hn             =>
    have hv := evaluate_ne_null hn
    simp [Node.evaluate, Conditions.cond_compare, hv]
  | right hn            =>
    have hv := evaluate_ne_null hn
    simp [Node.evaluate, Conditions.cond_compare, hv]
  | @bool op ns hne _ ih =>
    match ns, hne with
    | n :: ns, _ =>
      rw [List.forall_mem_cons] at ih
      rw [Node.evaluate, Conditions.evaluate_children, ih.left, combine_unknown (.inl rfl)]
      exact evaluate_children_unknown ih.right
  | not _ ih            =>
    rw [Node.evaluate, ih]
    rfl

-- Such a condition is not true of a missing value.
theorem Grounded.not_true {n : Node} (h : Grounded n) : Conditions.evaluate none n = false := by
  change decide (n.evaluate .missing = _) = false
  rw [h.unknown]
  rfl

theorem Guards.of_grounded {py : Python} {L : Languages} {metric : Metric}
    {values : List (Option Json)} (hv : none ∈ values)
    (hs : metric.evaluator.type = .json_schema →
      Schema.Constrains (metric.evaluator.schema.getD []))
    (hc : ∀ text c, metric.scoring.condition = some text →
      Conditions.compile py text.toList = .ok c → Grounded c) : Guards py L metric values where
  schema _ he                 := .inl (hs he)
  condition _ _ text c ht _ h := ⟨none, hv, (hc text c ht h).not_true⟩

end Grounds

section Unresolved

variable {x : Sample} {L : Languages} {lang : Predicates.Language} {e : CelPredicate}
variable {node : Predicates.Node} {sel : List TraceEvent} {b : Bool}

-- The truth values that come to a PASS under a scoring. Other than binary it takes them for 0.0
-- and 1.0.
def Counts (L : Languages) (scoring : Scoring) (b : Bool) : Prop :=
  match scoring.type with
  | .binary      => b = true
  | .numeric     => in_score_range scoring (some (.float (unit b))) = true
  | .categorical => L.str (.float (unit b)) ∈ scoring.categories.getD []

theorem passes_boolean_iff {evidence : List String} {what : String} :
    Passes (x.boolean_case_score L b evidence what) ↔ Counts L x.metric.scoring b := by
  by_cases hs : x.metric.scoring.type = .binary
  case pos =>
    rw [passes_boolean hs, Counts, hs]
  case neg =>
    rw [Sample.boolean_case_score, if_neg hs]
    change Passes (x.score_one L (some (.float (unit b))) evidence what) ↔ _
    rw [Sample.score_one, Counts]
    cases ht : x.metric.scoring.type with
    | binary      => exact absurd ht hs
    | numeric     =>
      have hr : x.metric.scoring.range.isSome := x.metric.scoring.range_required (.inr ht)
      obtain ⟨⟨lo, hi⟩, hr⟩ := Option.isSome_iff_exists.mp hr
      have hn : ∃ score, normalize_score x.metric.scoring (some (.float (unit b))) = .ok score := by
        simp only [normalize_score, Option.bind_some, Json.number?, hr, Json.toFloat]
        split <;> exact ⟨_, rfl⟩
      obtain ⟨score, hn⟩ := hn
      dsimp only
      rw [passes_bind]
      constructor
      · rintro ⟨_, -, hp⟩
        exact verdict_eq_pass.mp (passes_result.mp hp)
      · exact fun hp => ⟨score, hn, passes_result.mpr (verdict_eq_pass.mpr hp)⟩
    | categorical =>
      dsimp only [Option.map_some, Option.bind_some]
      cases hi : (x.metric.scoring.categories.getD []).idxOf? (L.str (.float (unit b))) with
      | none   =>
        rw [List.idxOf?_eq_none_iff] at hi
        exact iff_of_false (fun hp => by cases passes_result.mp hp) hi
      | some i =>
        have hmem : L.str (.float (unit b)) ∈ x.metric.scoring.categories.getD [] := by
          by_contra hn
          rw [List.idxOf?_eq_none_iff.mpr hn] at hi
          cases hi
        exact iff_of_true (passes_result.mpr rfl) hmem

-- What a predicate says of events in which none of its paths leads anywhere.
theorem passed_unresolved (hb : ¬ (e.predicate.getD "").toList.all lang.py.isspace)
    (hc : Predicates.compile lang.py (e.predicate.getD "").toList = .ok node) (hs : sel ≠ [])
    (hu : ∀ event ∈ sel, node.Unresolved event) : e.passed lang sel = .ok b ↔
      ∃ v, node.blank lang.fromisoformat = .ok v ∧ b = decide (v = .json (.bool true)) := by
  have hscored : e.scored lang =
      .ok fun event => Predicates.evaluate lang.fromisoformat event node := by
    rw [CelPredicate.scored, Predicates.Language.compile, if_neg hb]
    dsimp only [Option.getD_none]
    rw [hc]
    rfl
  rw [CelPredicate.passed, hscored]
  have heval : ∀ event ∈ sel,
      (Predicates.evaluate lang.fromisoformat event node).mapError Exc.value =
        ((node.blank lang.fromisoformat).mapError Exc.value).map
          fun v => decide (v = .json (.bool true)) := by
    intro event hmem
    rw [Predicates.evaluate, Predicates.Node.evaluate_unresolved (hu event hmem)]
    cases node.blank lang.fromisoformat <;> rfl
  change CelPredicate.passes _ sel = _ ↔ _
  rw [CelPredicate.passes, Except.allM_eq_of_forall hs heval, Except.map_eq_ok_iff]
  exact exists_congr fun v => and_congr Except.mapError_eq_ok_iff eq_comm

theorem passes_predicate_iff (hb : ¬ (e.predicate.getD "").toList.all lang.py.isspace)
    (hc : Predicates.compile lang.py (e.predicate.getD "").toList = .ok node) (hs : sel ≠ [])
    (hu : ∀ event ∈ sel, node.Unresolved event) :
    Passes (x.score_cel_predicate L lang e sel) ↔ ∃ v, node.blank lang.fromisoformat = .ok v ∧
      Counts L x.metric.scoring (v = .json (.bool true)) := by
  unfold Sample.score_cel_predicate
  rw [passes_bind]
  simp only [passes_boolean_iff, passed_unresolved hb hc hs hu]
  exact ⟨fun ⟨_, ⟨v, hv, hb⟩, hp⟩ => ⟨v, hv, hb ▸ hp⟩, fun ⟨v, hv, hp⟩ => ⟨_, ⟨v, hv, rfl⟩, hp⟩⟩

end Unresolved

namespace Absent

theorem amount_selector : ∀ s ∈ some "$.amount", s.startsWith "$" := by
  decide +kernel

theorem input_not_tool_scoped : TargetType.input.toolScoped → (none : Option String).isSome :=
  nofun

theorem on_missing_given : TargetType.input ≠ .run → (some OnMissing.fail).isSome :=
  fun _ => rfl

theorem range_given (type : ScoringType) :
    type = .binary ∨ type = .numeric → (some (PyFloat.finite 0, PyFloat.finite 10)).isSome :=
  fun _ => rfl

theorem no_categories :
    ScoringType.binary = .categorical → (none : Option (List String)).isSome :=
  nofun

def metric (condition : String) (h : Spec.nonempty (some condition)) : Metric where
  metric_id     := "m"
  name          := "amount"
  type          := .scalar
  target        := {
    type       := .input
    tool       := none
    selector   := some "$.amount"
    occurrence := none
    on_missing := some .fail
    selector_shape             := amount_selector
    tool_for_tool_scoped_types := input_not_tool_scoped
    on_missing_required        := on_missing_given }
  evaluator     := {
    type      := .numeric
    expected  := .int 5
    tolerance := some (.finite 0)
    predicate := some "payload.amount > 5"
    config_matches_type := rfl }
  scoring       := {
    type       := .binary
    range      := some (.finite 0, .finite 10)
    categories := none
    condition  := some condition
    range_required      := range_given .binary
    range_ordered       := by simp [PyFloat.lt]
    categories_required := no_categories }
  aggregation   := ⟨.pass_rate, .fail⟩
  gate          := none
  judge_binding := none
  provisional   := false
  judge_requires_binding     := by simp
  scoring_condition_required := fun _ _ => h

def case : TestCase := ⟨"c", [], []⟩

def spec (m : Metric) : EvaluationSpec where
  name    := "s"
  cases   := [case]
  metrics := [m]
  unique_cases   := by simp
  unique_metrics := by simp

def languages : Languages where
  condition _   := .ok fun _ => true
  predicate _   := .ok fun _ => true
  rule _ _      := .ok { result := true }
  regex _       := .ok fun _ => true
  json_schema _ := fun _ => .ok true
  selector _    := .ok [.key "amount"]
  repr _        := ""

def ordered : Metric :=
  metric "raw_value > 5" (by decide)

def ordered_node : Predicates.Node :=
  .compare .gt (.path .payload ["amount"]) (.literal (.int 5))

def lang : Predicates.Language where
  py              := .ascii
  fromisoformat _ := none
  cel _           := .ok fun _ => true

def event : TraceEvent where
  event_id          := "e"
  run_id            := "r"
  workspace_id      := "w"
  case_id           := "c"
  attempt_id        := "a"
  type              := .llm_call
  timestamp         := ⟨0, some 0⟩
  tool_typed_column := llm_call_untyped

theorem ordered_guards : Guards .ascii languages ordered [none] where
  schema _ h                   := by cases h
  condition _ _ text c ht _ hc := by
    cases ht
    have hf : (Conditions.compile .ascii "raw_value > 5".toList |>.map
        (Conditions.evaluate none)).toOption = some false := by
      decide +kernel
    rw [hc] at hf
    exact ⟨none, .head _, Option.some.inj hf⟩

end Absent

end Evaluators
