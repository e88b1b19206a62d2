import Traceline.Authoring.Service
import Traceline.Library.Edits

namespace Authoring

open Loads (Fields set_item lookup_set_item set_item_set_item set_item_of_lookup)

variable {spec base updated fields metric : Fields} {metrics : List Fields} {key k c d : String}
variable {value value' : Json} {p : TurnProposal}

section Items

theorem metrics_of_set_item :
    metrics_of (set_item "metrics" (.arr <| metrics.map .obj) spec) = .ok metrics := by
  rw [metrics_of, item, lookup_set_item, if_pos rfl]
  refine Except.mapM_eq_ok_iff.mpr <| List.forall₂_map_left_iff.mpr ?_
  exact List.forall₂_same.mpr fun _ _ => rfl

end Items

section Conditions

-- The scoring of a metric as a patch takes it, where it can be taken for a dict.
def scoring_of (metric : Fields) : Except Error Fields :=
  dict_of <| or_empty <| metric.lookup "scoring"

-- The metric with another condition, or unchanged where its scoring is no dict.
def rescored (c : String) (metric : Fields) : Fields :=
  (set_condition c metric).toOption.getD metric

def has_condition (c : String) (metric : Fields) : Prop :=
  ∃ scoring, metric.lookup "scoring" = some (.obj scoring) ∧
    scoring.lookup "condition" = some (.str c)

theorem rescored_of_ok {scoring : Fields} (h : scoring_of metric = .ok scoring) :
    rescored c metric =
      set_item "scoring" (.obj <| set_item "condition" (.str c) scoring) metric := by
  rw [rescored, set_condition, ← scoring_of, h]
  rfl

theorem rescored_of_error {e : Error} (h : scoring_of metric = .error e) :
    rescored c metric = metric := by
  rw [rescored, set_condition, ← scoring_of, h]
  rfl

theorem lookup_rescored (h : k ≠ "scoring") :
    (rescored c metric).lookup k = metric.lookup k := by
  cases hs : scoring_of metric with
  | error e    => rw [rescored_of_error hs]
  | ok scoring => rw [rescored_of_ok hs, lookup_set_item, if_neg h]

theorem scoring_of_obj {scoring : Fields} (h : metric.lookup "scoring" = some (.obj scoring)) :
    scoring_of metric = .ok scoring := by
  rw [scoring_of, h, or_empty]
  cases scoring with
  | nil       => rfl
  | cons kv t => rfl

theorem scoring_of_rescored {scoring : Fields} (h : scoring_of metric = .ok scoring) :
    scoring_of (rescored c metric) = .ok (set_item "condition" (.str c) scoring) := by
  refine scoring_of_obj ?_
  rw [rescored_of_ok h, lookup_set_item, if_pos rfl]

theorem scoring_of_rescored_isOk :
    (scoring_of <| rescored c metric).isOk = (scoring_of metric).isOk := by
  cases h : scoring_of metric with
  | error e    => rw [rescored_of_error h, h]
  | ok scoring => rw [scoring_of_rescored h]; rfl

-- The condition that is set last is the one that stays.
theorem rescored_rescored : rescored c (rescored d metric) = rescored c metric := by
  cases h : scoring_of metric with
  | error e    => rw [rescored_of_error (c := d) h]
  | ok scoring =>
    rw [rescored_of_ok (scoring_of_rescored h), rescored_of_ok h, rescored_of_ok h,
      set_item_set_item, set_item_set_item]

theorem rescored_of_has_condition (h : has_condition c metric) : rescored c metric = metric := by
  obtain ⟨scoring, hscoring, hcondition⟩ := h
  rw [rescored_of_ok <| scoring_of_obj hscoring, set_item_of_lookup hcondition,
    set_item_of_lookup hscoring]

end Conditions

namespace TurnProposal

-- The condition a proposal gives to a metric.
def condition_for (p : TurnProposal) (metric : Fields) : Option String :=
  if p.action = "patch_metrics" then
    by_id p.patches <| (metric.lookup "metric_id").getD .null
  else none

def keeps (p : TurnProposal) (metric : Fields) : Bool :=
  p.action ≠ "select_metrics" ||
    is_selected p.selected_metric_ids ((metric.lookup "metric_id").getD .null)

-- A proposal that changes something, if the metrics allow it.
def changes (p : TurnProposal) : Prop :=
  p.action = "patch_metrics" ∧ p.patches ≠ [] ∨
    p.action = "select_metrics" ∧ p.selected_metric_ids ≠ []

instance : Decidable p.changes :=
  inferInstanceAs <| Decidable (_ ∨ _)

-- The scoring of a metric that is given a condition has to be a dict.
def mends (p : TurnProposal) (metric : Fields) : Prop :=
  (p.condition_for metric).isSome → (scoring_of metric).isOk

instance : Decidable (p.mends metric) :=
  inferInstanceAs <| Decidable (_ → _)

def edit (p : TurnProposal) : Edit Fields where
  keep   := p.keeps
  update := fun metric => ((p.condition_for metric).map (rescored · metric)).getD metric

theorem update_of_some (h : p.condition_for metric = some c) :
    p.edit.update metric = rescored c metric := by
  rw [edit]
  dsimp only
  rw [h]
  rfl

theorem update_of_none (h : p.condition_for metric = none) : p.edit.update metric = metric := by
  rw [edit]
  dsimp only
  rw [h]
  rfl

theorem lookup_update (h : k ≠ "scoring") :
    (p.edit.update metric).lookup k = metric.lookup k := by
  cases hc : p.condition_for metric with
  | none   => rw [update_of_none hc]
  | some c => rw [update_of_some hc, lookup_rescored h]

theorem keeps_update {q : TurnProposal} : q.keeps (p.edit.update metric) = q.keeps metric := by
  rw [keeps, keeps, lookup_update (by decide)]

theorem condition_for_update {q : TurnProposal} :
    q.condition_for (p.edit.update metric) = q.condition_for metric := by
  rw [condition_for, condition_for, lookup_update (by decide)]

theorem metric_id_update : metric_id (p.edit.update metric) = metric_id metric := by
  rw [metric_id, metric_id, item, item, lookup_update (by decide)]

theorem mends_update {q : TurnProposal} : q.mends (p.edit.update metric) ↔ q.mends metric := by
  rw [mends, mends, condition_for_update]
  cases hc : p.condition_for metric with
  | none   => rw [update_of_none hc]
  | some c => rw [update_of_some hc, scoring_of_rescored_isOk]

theorem stable (ps : List TurnProposal) : Edit.Stable (ps.map edit) := by
  intro e he e' he' metric
  obtain ⟨p, -, rfl⟩ := List.mem_map.mp he
  obtain ⟨q, -, rfl⟩ := List.mem_map.mp he'
  exact keeps_update

end TurnProposal

theorem metric_id_getD {id : Json} (h : metric_id metric = .ok id) :
    (metric.lookup "metric_id").getD .null = id := by
  rw [metric_id, Except.bind_eq_ok_iff] at h
  obtain ⟨value, hvalue, h⟩ := h
  obtain ⟨_, -, h⟩ := Except.bind_eq_ok_iff.mp h
  cases h
  rw [item] at hvalue
  cases hlookup : metric.lookup "metric_id" with
  | none       => rw [hlookup] at hvalue; cases hvalue
  | some value => rw [hlookup] at hvalue; exact Except.ok.inj hvalue

theorem patch_metric_eq_ok_iff (hp : p.action = "patch_metrics") :
    patch_metric p.patches metric = .ok updated ↔
      (metric_id metric).isOk ∧ p.mends metric ∧ updated = p.edit.update metric := by
  rw [patch_metric, Except.bind_eq_ok_iff]
  constructor
  case mp  =>
    rintro ⟨id, hid, h⟩
    have hcondition : p.condition_for metric = by_id p.patches id := by
      rw [TurnProposal.condition_for, if_pos hp, metric_id_getD hid]
    refine ⟨by rw [hid]; rfl, ?_⟩
    cases hc : by_id p.patches id with
    | none   =>
      rw [hc] at h hcondition
      rw [TurnProposal.update_of_none hcondition, TurnProposal.mends, hcondition]
      exact ⟨nofun, (Except.ok.inj h).symm⟩
    | some c =>
      rw [hc] at h hcondition
      obtain ⟨scoring, hscoring, h⟩ := Except.bind_eq_ok_iff.mp h
      have hscoring : scoring_of metric = .ok scoring := hscoring
      rw [TurnProposal.update_of_some hcondition, TurnProposal.mends, rescored_of_ok hscoring,
        hscoring]
      exact ⟨fun _ => rfl, (Except.ok.inj h).symm⟩
  case mpr =>
    rintro ⟨hid, hmends, rfl⟩
    cases hid' : metric_id metric with
    | error e => rw [hid'] at hid; cases hid
    | ok id   =>
      refine ⟨id, rfl, ?_⟩
      have hcondition : p.condition_for metric = by_id p.patches id := by
        rw [TurnProposal.condition_for, if_pos hp, metric_id_getD hid']
      rw [← hcondition]
      cases hc : p.condition_for metric with
      | none   =>
        rw [TurnProposal.update_of_none hc]
        rfl
      | some c =>
        have hok := hmends <| by rw [hc]; rfl
        cases hscoring : scoring_of metric with
        | error e    => rw [hscoring] at hok; cases hok
        | ok scoring =>
          rw [TurnProposal.update_of_some hc, rescored_of_ok hscoring]
          dsimp only
          rw [set_condition, ← scoring_of, hscoring]
          rfl

theorem select_metric_eq_ok_iff {selected : List String} {kept : List Fields} :
    Except.filter (select_metric selected) metrics = .ok kept ↔
      (∀ metric ∈ metrics, (metric_id metric).isOk) ∧ kept = metrics.filter fun metric =>
        is_selected selected ((metric.lookup "metric_id").getD .null) := by
  induction metrics generalizing kept with
  | nil                    =>
    rw [Except.filter, Except.ok.injEq, List.filter_nil, eq_comm]
    exact (and_iff_right <| List.forall_mem_nil _).symm
  | cons metric metrics ih =>
    rw [Except.filter, List.forall_mem_cons]
    cases hid : metric_id metric with
    | error e =>
      have hselect : select_metric selected metric = .error e := by rw [select_metric, hid]; rfl
      rw [hselect]
      refine iff_of_false ?_ ?_
      · intro h
        cases h
      · rintro ⟨⟨h, -⟩, -⟩
        cases h
    | ok id   =>
      have hselect : select_metric selected metric = .ok (is_selected selected id) := by
        rw [select_metric, hid]
        rfl
      rw [hselect, List.filter_cons, metric_id_getD hid]
      constructor
      case mp  =>
        intro h
        obtain ⟨_, hselected, h⟩ := Except.bind_eq_ok_iff.mp h
        cases hselected
        obtain ⟨rest, hrest, h⟩ := Except.bind_eq_ok_iff.mp h
        obtain ⟨hids, rfl⟩ := ih.mp hrest
        exact ⟨⟨rfl, hids⟩, (Except.ok.inj h).symm⟩
      case mpr =>
        rintro ⟨⟨-, hids⟩, rfl⟩
        exact Except.bind_eq_ok_iff.mpr
          ⟨_, rfl, Except.bind_eq_ok_iff.mpr ⟨_, ih.mpr ⟨hids, rfl⟩, rfl⟩⟩

namespace TurnProposal

theorem condition_for_of_select (h : p.action = "select_metrics") :
    p.condition_for metric = none := by
  rw [condition_for, if_neg (by rw [h]; decide)]

theorem keeps_of_patch (h : p.action = "patch_metrics") : p.keeps metric = true := by
  rw [keeps, Bool.or_eq_true]
  exact .inl <| decide_eq_true <| by rw [h]; decide

theorem edit_of_patch (h : p.action = "patch_metrics") :
    p.edit.apply metrics = metrics.map p.edit.update := by
  have hkeep : metrics.filter p.edit.keep = metrics :=
    List.filter_eq_self.mpr fun _ _ => keeps_of_patch h
  rw [Edit.apply, hkeep]

theorem edit_of_select (h : p.action = "select_metrics") : p.edit.apply metrics =
    metrics.filter fun metric =>
      is_selected p.selected_metric_ids ((metric.lookup "metric_id").getD .null) := by
  have hupdate : p.edit.update = id := funext fun _ => update_of_none <| condition_for_of_select h
  have hkeep : p.edit.keep = fun metric =>
      is_selected p.selected_metric_ids ((metric.lookup "metric_id").getD .null) := by
    funext metric
    exact (congrArg (· || _) <| decide_eq_false <| not_not.mpr h).trans <| Bool.false_or _
  rw [Edit.apply, hupdate, List.map_id, hkeep]

end TurnProposal

-- What a proposal needs of the metrics to be applied.
structure Applies (p : TurnProposal) (metrics : List Fields) : Prop where
  changes : p.changes
  ids     : ∀ metric ∈ metrics, (metric_id metric).isOk
  mends   : ∀ metric ∈ metrics, p.mends metric

theorem mapM_patch_metric (hp : p.action = "patch_metrics") {new_metrics : List Fields} :
    metrics.mapM (patch_metric p.patches) = .ok new_metrics ↔
      (∀ metric ∈ metrics, (metric_id metric).isOk) ∧ (∀ metric ∈ metrics, p.mends metric) ∧
        new_metrics = metrics.map p.edit.update := by
  rw [Except.mapM_eq_ok_iff]
  induction metrics generalizing new_metrics with
  | nil                    =>
    rw [List.forall₂_nil_left_iff, List.map_nil]
    exact ⟨fun h => ⟨List.forall_mem_nil _, List.forall_mem_nil _, h⟩, fun h => h.right.right⟩
  | cons metric metrics ih =>
    rw [List.forall₂_cons_left_iff, List.forall_mem_cons, List.forall_mem_cons, List.map_cons]
    constructor
    case mp  =>
      rintro ⟨updated, rest, hupdated, hrest, rfl⟩
      obtain ⟨hid, hmends, rfl⟩ := (patch_metric_eq_ok_iff hp).mp hupdated
      obtain ⟨hids, hmends', rfl⟩ := ih.mp hrest
      exact ⟨⟨hid, hids⟩, ⟨hmends, hmends'⟩, rfl⟩
    case mpr =>
      rintro ⟨⟨hid, hids⟩, ⟨hmends, hmends'⟩, rfl⟩
      exact ⟨_, _, (patch_metric_eq_ok_iff hp).mpr ⟨hid, hmends, rfl⟩, ih.mpr ⟨hids, hmends', rfl⟩,
        rfl⟩

theorem apply_eq_ok_iff : _apply_proposal spec p = .ok updated ↔ ∃ metrics,
    metrics_of spec = .ok metrics ∧ Applies p metrics ∧
      updated = set_item "metrics" (.arr <| (p.edit.apply metrics).map .obj) spec := by
  rw [_apply_proposal]
  by_cases hno : p.action = "no_op"
  case pos =>
    rw [if_pos hno]
    refine iff_of_false nofun ?_
    rintro ⟨_, _, ⟨h | h, _, _⟩, _⟩ <;> exact absurd (hno.symm.trans h.left) (by decide)
  case neg =>
    rw [if_neg hno, Except.bind_eq_ok_iff]
    refine exists_congr fun metrics => and_congr_right fun _ => ?_
    by_cases hp : p.action = "patch_metrics"
    case pos =>
      have hnot : p.action ≠ "select_metrics" := by rw [hp]; decide
      rw [if_pos hp, TurnProposal.edit_of_patch hp]
      split
      case isTrue hnil  =>
        refine iff_of_false nofun ?_
        rintro ⟨⟨h | h, _, _⟩, _⟩
        · exact h.right hnil
        · exact hnot h.left
      case isFalse hnil =>
        rw [Except.bind_eq_ok_iff]
        constructor
        case mp  =>
          rintro ⟨new_metrics, hnew, h⟩
          obtain ⟨hids, hmends, rfl⟩ := (mapM_patch_metric hp).mp hnew
          exact ⟨⟨.inl ⟨hp, hnil⟩, hids, hmends⟩, (Except.ok.inj h).symm⟩
        case mpr =>
          rintro ⟨⟨-, hids, hmends⟩, rfl⟩
          exact ⟨_, (mapM_patch_metric hp).mpr ⟨hids, hmends, rfl⟩, rfl⟩
    case neg =>
      rw [if_neg hp]
      by_cases hs : p.action = "select_metrics"
      case pos =>
        rw [if_pos hs, TurnProposal.edit_of_select hs]
        split
        case isTrue hnil  =>
          refine iff_of_false nofun ?_
          rintro ⟨⟨h | h, _, _⟩, _⟩
          · exact hp h.left
          · exact h.right hnil
        case isFalse hnil =>
          rw [Except.bind_eq_ok_iff]
          constructor
          case mp  =>
            rintro ⟨kept, hkept, h⟩
            obtain ⟨hids, rfl⟩ := select_metric_eq_ok_iff.mp hkept
            refine ⟨⟨.inr ⟨hs, hnil⟩, hids, fun metric _ => ?_⟩, (Except.ok.inj h).symm⟩
            rw [TurnProposal.mends, TurnProposal.condition_for_of_select hs]
            exact nofun
          case mpr =>
            rintro ⟨⟨-, hids, -⟩, rfl⟩
            exact ⟨_, select_metric_eq_ok_iff.mpr ⟨hids, rfl⟩, rfl⟩
      case neg =>
        rw [if_neg hs]
        refine iff_of_false nofun ?_
        rintro ⟨⟨h | h, _, _⟩, _⟩
        · exact hp h.left
        · exact hs h.left

end Authoring
