import Traceline.Authoring.Service
import Traceline.Authoring.Theorems.Proposals

namespace Authoring

open Loads (Fields set_item lookup_set_item set_item_set_item)
open Versions (VersionRecord)

variable {h : Host} {command : Command} {session : Session} {current : VersionRecord}
variable {base spec spec' updated metric : Fields} {metrics : List Fields}
variable {accepted p : TurnProposal} {ps : List TurnProposal}
variable {replies replies' : List Json} {raw : Json} {messages : List Message}
variable {base_revision left repairs n k : ℕ}

namespace TurnProposal

-- The metrics a proposal names.
def named (p : TurnProposal) : List String :=
  p.patches.map MetricPatch.metric_id ++ p.selected_metric_ids

end TurnProposal

def has_metric (metrics : List Fields) (id : String) : Prop :=
  ∃ metric ∈ metrics, metric.lookup "metric_id" = some (.str id)

section Property

-- A metric that differs from another one at most in the condition that `p` names it for.
structure Rescored (p : TurnProposal) (metric updated : Fields) : Prop where
  named   : updated ≠ metric →
    ∃ patch ∈ p.patches, metric.lookup "metric_id" = some (.str patch.metric_id)
  fields  : ∀ key ≠ "scoring", updated.lookup key = metric.lookup key
  scoring : updated ≠ metric → ∃ scoring scoring', scoring_of metric = .ok scoring ∧
    updated.lookup "scoring" = some (.obj scoring') ∧
      ∀ key ≠ "condition", scoring'.lookup key = scoring.lookup key

-- What a proposal changes of a specification.
structure Narrowed (p : TurnProposal) (base updated : Fields) : Prop where
  fields  : ∀ key ≠ "metrics", updated.lookup key = base.lookup key
  metrics : ∃ metrics metrics', metrics_of base = .ok metrics ∧ metrics_of updated = .ok metrics' ∧
    List.Forall₂ (Rescored p) (metrics.filter p.keeps) metrics'

-- `spec` is what the last reply proposes for the base, and that alone.
structure Exact (h : Validator) (base : Fields) (replies : List Json) (accepted : TurnProposal)
    (spec : Fields) : Prop where
  last    : replies.getLast?.bind TurnProposal.model_validate = some accepted
  applied : ∃ updated, _apply_proposal base accepted = .ok updated ∧
    Narrowed accepted base updated ∧ h.validate_spec updated = .ok spec
  named   : ∃ metrics, metrics_of base = .ok metrics ∧ ∀ id ∈ accepted.named, has_metric metrics id

end Property

section Condition

-- The proposals that are applied if they come one after the other: what they patch of what those
-- before them have kept can be patched.
def applied (metrics : List Fields) (ps : List TurnProposal) : List TurnProposal :=
  ps.foldl (fun before p =>
    if p.changes ∧ ∀ metric ∈ metrics, (∀ q ∈ before, q.keeps metric) → p.mends metric then
      before ++ [p]
    else before) []

-- The condition that a metric has after some proposals, if one of them gives it one.
def last_condition (ps : List TurnProposal) (metric : Fields) : Option String :=
  ps.reverse.findSome? (·.condition_for metric)

-- The proposals that were refused have kept the metrics that the accepted one keeps, and where it
-- gives no condition itself the last one they gave is the one that the metric has in the base.
structure Untouched (metrics : List Fields) (refused : List TurnProposal)
    (accepted : TurnProposal) : Prop where
  named      : ∀ id ∈ accepted.named, has_metric metrics id
  kept       : ∀ metric ∈ metrics, accepted.keeps metric → ∀ p ∈ applied metrics refused,
    p.keeps metric
  conditions : ∀ metric ∈ metrics, accepted.keeps metric → accepted.condition_for metric = none →
    ∀ c, last_condition (applied metrics refused) metric = some c → has_condition c metric

end Condition

section Edits

theorem condition_for_updateAll :
    p.condition_for (Edit.updateAll (ps.map TurnProposal.edit) metric) = p.condition_for metric := by
  induction ps using List.reverseRecOn with
  | nil                       => rfl
  | append_singleton ps q ih =>
    rw [Edit.updateAll, List.map_append, List.foldl_append]
    exact TurnProposal.condition_for_update.trans ih

theorem updateAll_eq : Edit.updateAll (ps.map TurnProposal.edit) metric =
    ((last_condition ps metric).map (rescored · metric)).getD metric := by
  induction ps using List.reverseRecOn with
  | nil            => rfl
  | append_singleton ps p ih =>
    have hlast : last_condition (ps ++ [p]) metric =
        (p.condition_for metric).or (last_condition ps metric) := by
      rw [last_condition, List.reverse_append, List.reverse_singleton, List.singleton_append,
        List.findSome?_cons]
      cases p.condition_for metric <;> rfl
    rw [Edit.updateAll, List.map_append, List.foldl_append, hlast]
    change p.edit.update (Edit.updateAll (ps.map TurnProposal.edit) metric) = _
    cases hc : p.condition_for metric with
    | none   =>
      rw [TurnProposal.update_of_none <| condition_for_updateAll.trans hc, ih]
      rfl
    | some c =>
      rw [TurnProposal.update_of_some <| condition_for_updateAll.trans hc, ih]
      cases last_condition ps metric with
      | none   => rfl
      | some d => exact rescored_rescored

theorem all_keeps_iff : (∀ e ∈ ps.map TurnProposal.edit, e.keep metric = true) ↔
    ∀ p ∈ ps, p.keeps metric = true :=
  List.forall_mem_map

-- The metrics as the proposals of `ps` leave them.
def after (ps : List TurnProposal) (metrics : List Fields) : List Fields :=
  Edit.applyAll (ps.map TurnProposal.edit) metrics

theorem after_append : after (ps ++ [p]) metrics = p.edit.apply (after ps metrics) := by
  rw [after, List.map_append, Edit.applyAll, List.foldl_append]
  rfl

theorem mem_after {updated : Fields} : updated ∈ after ps metrics ↔
    ∃ metric ∈ metrics, (∀ p ∈ ps, p.keeps metric = true) ∧
      Edit.updateAll (ps.map TurnProposal.edit) metric = updated := by
  rw [after, Edit.applyAll_eq <| TurnProposal.stable ps, List.mem_map]
  refine exists_congr fun metric => ?_
  rw [List.mem_filter, List.all_eq_true, all_keeps_iff, and_assoc]

theorem metric_id_updateAll :
    metric_id (Edit.updateAll (ps.map TurnProposal.edit) metric) = metric_id metric := by
  induction ps using List.reverseRecOn with
  | nil                       => rfl
  | append_singleton ps q ih =>
    rw [Edit.updateAll, List.map_append, List.foldl_append]
    exact TurnProposal.metric_id_update.trans ih

theorem mends_updateAll :
    p.mends (Edit.updateAll (ps.map TurnProposal.edit) metric) ↔ p.mends metric := by
  induction ps using List.reverseRecOn with
  | nil                       => exact Iff.rfl
  | append_singleton ps q ih =>
    rw [Edit.updateAll, List.map_append, List.foldl_append]
    exact TurnProposal.mends_update.trans ih

-- Whether a proposal applies after others can be told from the metrics of the base.
theorem applies_after_iff (hids : ∀ metric ∈ metrics, (metric_id metric).isOk) :
    Applies p (after ps metrics) ↔ p.changes ∧
      ∀ metric ∈ metrics, (∀ q ∈ ps, q.keeps metric) → p.mends metric := by
  constructor
  case mp  =>
    rintro ⟨hchanges, -, hmends⟩
    refine ⟨hchanges, fun metric hmetric hkept => ?_⟩
    exact mends_updateAll.mp <| hmends _ <| mem_after.mpr ⟨metric, hmetric, hkept, rfl⟩
  case mpr =>
    rintro ⟨hchanges, hmends⟩
    refine ⟨hchanges, fun updated hupdated => ?_, fun updated hupdated => ?_⟩
    · obtain ⟨metric, hmetric, -, rfl⟩ := mem_after.mp hupdated
      rw [metric_id_updateAll]
      exact hids metric hmetric
    · obtain ⟨metric, hmetric, hkept, rfl⟩ := mem_after.mp hupdated
      exact mends_updateAll.mpr <| hmends metric hmetric hkept

theorem applied_append : applied metrics (ps ++ [p]) =
    if p.changes ∧ ∀ metric ∈ metrics, (∀ q ∈ applied metrics ps, q.keeps metric) →
      p.mends metric then applied metrics ps ++ [p] else applied metrics ps := by
  rw [applied, List.foldl_append]
  rfl

end Edits

section Run

theorem try_reply_accepted (htry : try_reply h spec raw = .accepted p updated) :
    TurnProposal.model_validate raw = some p ∧
      ∃ applied, _apply_proposal spec p = .ok applied ∧ h.validate_spec applied = .ok updated := by
  rw [try_reply] at htry
  split at htry
  · cases htry
  · next hmodel =>
    split at htry
    · cases htry
    · cases htry
    · next happly =>
      split at htry
      · next hvalid =>
        cases htry
        exact ⟨hmodel, _, happly, hvalid⟩
      · cases htry

-- What a reply that is refused leaves for the next one.
theorem try_reply_refused {text : String} (htry : try_reply h spec raw = .refused text spec') :
    TurnProposal.model_validate raw = none ∧ spec' = spec ∨
      ∃ p, TurnProposal.model_validate raw = some p ∧
        (_apply_proposal spec p = .ok spec' ∨ spec' = spec ∧ ∀ u, _apply_proposal spec p ≠ .ok u) := by
  rw [try_reply] at htry
  split at htry
  · next hmodel =>
    cases htry
    exact .inl ⟨hmodel, rfl⟩
  · next hmodel =>
    split at htry
    · next happly =>
      cases htry
      exact .inr ⟨_, hmodel, .inr ⟨rfl, fun u hu => by rw [happly] at hu; cases hu⟩⟩
    · cases htry
    · next happly =>
      split at htry
      · cases htry
      · cases htry
        exact .inr ⟨_, hmodel, .inl happly⟩

theorem repair_eq_prepared
    (hrun : repair h base_revision left repairs spec messages replies =
      .ok (.prepared n updated accepted k, replies')) : ∃ raw,
    try_reply h spec raw = .accepted accepted updated ∧ replies' = replies ++ [raw] ∨
      ∃ text spec' left' messages', left = left' + 1 ∧ try_reply h spec raw = .refused text spec' ∧
        repair h base_revision left' (repairs + 1) spec' messages' (replies ++ [raw]) =
          .ok (.prepared n updated accepted k, replies') := by
  rw [repair.eq_def] at hrun
  split at hrun
  · cases hrun
  · cases hrun
  · next raw _ =>
    refine ⟨raw, ?_⟩
    split at hrun
    · cases hrun
    · next htry =>
      cases hrun
      exact .inl ⟨htry, rfl⟩
    · next htry =>
      split at hrun
      · cases hrun
      · exact .inr ⟨_, _, _, _, rfl, htry, hrun⟩

-- A turn that is prepared has applied some proposal to the base as it was.
theorem exists_apply_of_prepared
    (hrun : repair h base_revision left repairs spec messages replies =
      .ok (.prepared n updated accepted k, replies')) : ∃ p u, _apply_proposal spec p = .ok u := by
  induction left generalizing repairs messages replies with
  | zero         =>
    obtain ⟨raw, ⟨htry, -⟩ | ⟨_, _, _, _, hleft, -⟩⟩ := repair_eq_prepared hrun
    · obtain ⟨-, u, hu, -⟩ := try_reply_accepted htry
      exact ⟨accepted, u, hu⟩
    · cases hleft
  | succ left ih =>
    obtain ⟨raw, ⟨htry, -⟩ | ⟨_, _, _, _, hleft, htry, hrest⟩⟩ := repair_eq_prepared hrun
    · obtain ⟨-, u, hu, -⟩ := try_reply_accepted htry
      exact ⟨accepted, u, hu⟩
    · cases hleft
      obtain ⟨-, rfl⟩ | ⟨p, -, hp | ⟨rfl, -⟩⟩ := try_reply_refused htry
      · exact ih hrest
      · exact ⟨p, _, hp⟩
      · exact ih hrest

-- The proposals that replies make.
def proposals (replies : List Json) : List TurnProposal :=
  replies.filterMap TurnProposal.model_validate

-- What the specification is once some replies have been refused.
structure Carried (base : Fields) (metrics : List Fields) (replies : List Json) (spec : Fields) :
    Prop where
  metrics : metrics_of spec = .ok (after (applied metrics <| proposals replies) metrics)
  fields  : ∀ value, set_item "metrics" value spec = set_item "metrics" value base

theorem Carried.refuse {text : String} (hc : Carried base metrics replies spec)
    (hids : ∀ metric ∈ metrics, (metric_id metric).isOk)
    (htry : try_reply h spec raw = .refused text spec') :
    Carried base metrics (replies ++ [raw]) spec' := by
  have happend : proposals (replies ++ [raw]) =
      proposals replies ++ (TurnProposal.model_validate raw).toList := by
    rw [proposals, List.filterMap_append, List.filterMap_cons]
    cases TurnProposal.model_validate raw <;> rfl
  obtain ⟨hmodel, rfl⟩ | ⟨p, hmodel, hp | ⟨rfl, hp⟩⟩ := try_reply_refused htry
  · rw [hmodel, Option.toList_none, List.append_nil] at happend
    exact ⟨happend ▸ hc.metrics, hc.fields⟩
  · rw [hmodel, Option.toList_some] at happend
    obtain ⟨metrics', hmetrics', happlies, rfl⟩ := apply_eq_ok_iff.mp hp
    cases hc.metrics.symm.trans hmetrics'
    have happlied := @applied_append metrics p (proposals replies)
    rw [if_pos <| (applies_after_iff hids).mp happlies] at happlied
    refine ⟨?_, fun value => ?_⟩
    · rw [metrics_of_set_item, happend, happlied, after_append]
    · rw [set_item_set_item, hc.fields]
  · rw [hmodel, Option.toList_some] at happend
    have happlied := @applied_append metrics p (proposals replies)
    rw [if_neg fun happlies => hp _ <| apply_eq_ok_iff.mpr
      ⟨_, hc.metrics, (applies_after_iff hids).mpr happlies, rfl⟩] at happlied
    refine ⟨?_, hc.fields⟩
    rw [happend, happlied]
    exact hc.metrics

-- What a turn that is prepared has applied, and to what.
structure Accepted (h : Validator) (base : Fields) (metrics : List Fields)
    (refused : List TurnProposal) (accepted : TurnProposal) (spec : Fields) : Prop where
  applies : Applies accepted (after (applied metrics refused) metrics)
  valid   : h.validate_spec (set_item "metrics" (.arr <| (accepted.edit.apply <|
    after (applied metrics refused) metrics).map .obj) base) = .ok spec

theorem accepted_of_try (hc : Carried base metrics replies spec)
    (htry : try_reply h spec raw = .accepted accepted updated) :
    (replies ++ [raw]).getLast?.bind TurnProposal.model_validate = some accepted ∧
      Accepted h.toValidator base metrics (proposals (replies ++ [raw]).dropLast) accepted
        updated := by
  obtain ⟨hmodel, u, happly, hvalid⟩ := try_reply_accepted htry
  obtain ⟨metrics', hmetrics', happlies, rfl⟩ := apply_eq_ok_iff.mp happly
  cases hc.metrics.symm.trans hmetrics'
  rw [List.getLast?_concat, List.dropLast_concat]
  exact ⟨hmodel, happlies, hc.fields _ ▸ hvalid⟩

theorem accepted_of_carried (hc : Carried base metrics replies spec)
    (hids : ∀ metric ∈ metrics, (metric_id metric).isOk)
    (hrun : repair h base_revision left repairs spec messages replies =
      .ok (.prepared n updated accepted k, replies')) :
    replies'.getLast?.bind TurnProposal.model_validate = some accepted ∧
      Accepted h.toValidator base metrics (proposals replies'.dropLast) accepted updated := by
  induction left generalizing repairs spec messages replies with
  | zero         =>
    obtain ⟨raw, ⟨htry, rfl⟩ | ⟨_, _, _, _, hleft, -⟩⟩ := repair_eq_prepared hrun
    · exact accepted_of_try hc htry
    · cases hleft
  | succ left ih =>
    obtain ⟨raw, ⟨htry, rfl⟩ | ⟨_, _, _, _, hleft, htry, hrest⟩⟩ := repair_eq_prepared hrun
    · exact accepted_of_try hc htry
    · cases hleft
      exact ih (hc.refuse hids htry) hrest

end Run

section Outline

theorem outline_set_item : outline (set_item "metrics" (.arr <| metrics.map .obj) spec) =
    metrics.mapM fun metric => outline_metric (.obj metric) := by
  rw [outline, lookup_set_item, if_pos rfl]
  dsimp only
  rw [List.mapM_map]
  rfl

theorem map_of_mapM {α β : Type} {f : α → Option β} {xs : List α} {ys : List β}
    (h : xs.mapM f = some ys) : xs.map f = ys.map some := by
  induction xs generalizing ys with
  | nil          => cases h; rfl
  | cons x xs ih =>
    rw [List.mapM_cons] at h
    obtain ⟨y, hy, h⟩ := Option.bind_eq_some_iff.mp h
    obtain ⟨ys', hys, h⟩ := Option.bind_eq_some_iff.mp h
    cases h
    rw [List.map_cons, List.map_cons, hy, ih hys]

theorem outline_metric_eq_some {id : String} {condition : Option String}
    (ho : outline_metric (.obj metric) = some (id, condition)) :
    ∃ scoring, metric.lookup "scoring" = some (.obj scoring) ∧
      ∀ c, condition = some c → scoring.lookup "condition" = some (.str c) := by
  rw [outline_metric] at ho
  obtain ⟨_, -, hid⟩ := Option.bind_eq_some_iff.mp ho
  obtain ⟨_, -, hrest⟩ := Option.bind_eq_some_iff.mp hid
  obtain ⟨value, hvalue, hrest⟩ := Option.bind_eq_some_iff.mp hrest
  obtain ⟨scoring, hscoring, hcondition⟩ := Option.bind_eq_some_iff.mp hrest
  have hvalue' : value = .obj scoring := by
    cases value <;> cases hscoring
    rfl
  refine ⟨scoring, hvalue' ▸ hvalue, ?_⟩
  split at hcondition
  · cases hcondition; exact nofun
  · cases hcondition; exact nofun
  · next hlookup =>
    cases hcondition
    rintro _ ⟨⟩
    exact hlookup
  · cases hcondition

theorem outline_rescored {id : String} {condition : Option String} {c : String}
    (ho : outline_metric (.obj metric) = some (id, condition)) :
    outline_metric (.obj <| rescored c metric) = some (id, some c) := by
  obtain ⟨scoring, hscoring, -⟩ := outline_metric_eq_some ho
  rw [outline_metric] at ho ⊢
  obtain ⟨value, hvalue, ho⟩ := Option.bind_eq_some_iff.mp ho
  obtain ⟨_, hid, ho⟩ := Option.bind_eq_some_iff.mp ho
  obtain ⟨_, -, ho⟩ := Option.bind_eq_some_iff.mp ho
  obtain ⟨_, -, ho⟩ := Option.bind_eq_some_iff.mp ho
  rw [lookup_rescored (by decide), hvalue, rescored_of_ok <| scoring_of_obj hscoring,
    lookup_set_item, if_pos rfl]
  dsimp only [bind, Option.bind]
  rw [hid]
  dsimp only [Json.fields?]
  rw [lookup_set_item, if_pos rfl]
  split at ho <;> cases ho <;> rfl

end Outline

section Exactness

theorem narrowed (happly : _apply_proposal base p = .ok updated) : Narrowed p base updated := by
  obtain ⟨metrics, hmetrics, happlies, rfl⟩ := apply_eq_ok_iff.mp happly
  refine ⟨fun key hkey => ?_, metrics, _, hmetrics, metrics_of_set_item, ?_⟩
  · rw [lookup_set_item, if_neg hkey]
  · rw [Edit.apply]
    refine List.forall₂_map_right_iff.mpr <| List.forall₂_same.mpr fun metric hmetric => ?_
    have hmends := happlies.mends metric (List.mem_filter.mp hmetric).left
    cases hc : p.condition_for metric with
    | none   =>
      have hsame := TurnProposal.update_of_none hc
      exact ⟨fun h => absurd hsame h, fun _ _ => by rw [hsame], fun h => absurd hsame h⟩
    | some c =>
      have hok := hmends <| by rw [hc]; rfl
      refine ⟨fun _ => ?_, fun key hkey => TurnProposal.lookup_update hkey, fun _ => ?_⟩
      · rw [TurnProposal.condition_for] at hc
        split at hc
        · obtain ⟨id, hid, hc⟩ := Option.bind_eq_some_iff.mp hc
          obtain ⟨patch, hpatch, -⟩ := Option.bind_eq_some_iff.mp hc
          refine ⟨patch, List.mem_reverse.mp <| List.mem_of_find?_eq_some hpatch, ?_⟩
          have hfound : patch.metric_id = id :=
            of_decide_eq_true <| List.find?_some (p := fun x : MetricPatch => decide (x.metric_id = id)) hpatch
          cases hlookup : metric.lookup "metric_id" with
          | none       => rw [hlookup] at hid; cases hid
          | some value =>
            rw [hlookup] at hid
            cases value <;> cases hid
            rw [hfound]
        · cases hc
      · cases hscoring : scoring_of metric with
        | error e    => rw [hscoring] at hok; cases hok
        | ok scoring =>
          rw [TurnProposal.update_of_some hc, rescored_of_ok hscoring]
          refine ⟨scoring, _, rfl, by rw [lookup_set_item, if_pos rfl], fun key hkey => ?_⟩
          rw [lookup_set_item, if_neg hkey]

variable {refused : List TurnProposal} (hbase : metrics_of base = .ok metrics)

include hbase

theorem untouched_of_exact (ha : Accepted h.toValidator base metrics refused accepted spec)
    (he : Exact h.toValidator base replies accepted spec) :
    Untouched metrics refused accepted := by
  obtain ⟨-, ⟨u, happly, -, hvalid⟩, metrics', hmetrics', hnamed⟩ := he
  cases hbase.symm.trans hmetrics'
  obtain ⟨metrics', hmetrics', -, rfl⟩ := apply_eq_ok_iff.mp happly
  cases hbase.symm.trans hmetrics'
  -- Both are valid with one result, so they have the same metrics and conditions.
  obtain ⟨hsome, hdumped⟩ := h.outlined hvalid
  have hsame := (h.outlined ha.valid).right.symm.trans hdumped
  rw [outline_set_item] at hsame hsome
  rw [outline_set_item] at hsame
  obtain ⟨ys, hys⟩ := Option.isSome_iff_exists.mp hsome
  have hmap := (map_of_mapM <| hsame.trans hys).trans (map_of_mapM hys).symm
  have hstable := TurnProposal.stable (accepted :: applied metrics refused)
  have heach := (Edit.apply_applyAll_eq_iff hstable).mp hmap
  refine ⟨hnamed, fun metric hmetric hkeeps => ?_, fun metric hmetric hkeeps hnone c hc => ?_⟩
  · exact all_keeps_iff.mp (heach metric hmetric hkeeps).left
  · have hview := (heach metric hmetric hkeeps).right
    have hcondition : accepted.condition_for
        (Edit.updateAll ((applied metrics refused).map TurnProposal.edit) metric) = none :=
      condition_for_updateAll.trans hnone
    rw [TurnProposal.update_of_none hcondition, TurnProposal.update_of_none hnone, updateAll_eq, hc]
      at hview
    have hmem : outline_metric (.obj metric) ∈ ys.map some := by
      rw [← map_of_mapM hys]
      refine List.mem_map.mpr ⟨metric, ?_, rfl⟩
      exact List.mem_map.mpr
        ⟨metric, List.mem_filter.mpr ⟨hmetric, hkeeps⟩, TurnProposal.update_of_none hnone⟩
    obtain ⟨⟨id, condition⟩, -, ho⟩ := List.mem_map.mp hmem
    obtain ⟨scoring, hscoring, hlookup⟩ := outline_metric_eq_some ho.symm
    have hview := (outline_rescored ho.symm).symm.trans hview
    rw [← ho] at hview
    cases hview
    exact ⟨scoring, hscoring, hlookup c rfl⟩

theorem exact_of_untouched (hids : ∀ metric ∈ metrics, (metric_id metric).isOk)
    (hlast : replies.getLast?.bind TurnProposal.model_validate = some accepted)
    (ha : Accepted h.toValidator base metrics refused accepted spec)
    (hu : Untouched metrics refused accepted) :
    Exact h.toValidator base replies accepted spec := by
  have happlies : Applies accepted metrics := by
    refine ⟨ha.applies.changes, hids, fun metric hmetric => ?_⟩
    by_cases hkeeps : accepted.keeps metric = true
    case pos =>
      refine mends_updateAll.mp <| ha.applies.mends _ <| mem_after.mpr ⟨metric, hmetric, ?_, rfl⟩
      exact hu.kept metric hmetric hkeeps
    case neg =>
      have hselect : accepted.action = "select_metrics" := by
        by_contra hselect
        refine hkeeps ?_
        rw [TurnProposal.keeps, Bool.or_eq_true]
        exact .inl <| decide_eq_true hselect
      rw [TurnProposal.mends, TurnProposal.condition_for_of_select hselect]
      exact fun h => Bool.noConfusion h
  have hstable := TurnProposal.stable (accepted :: applied metrics refused)
  have hsame : accepted.edit.apply (after (applied metrics refused) metrics) =
      accepted.edit.apply metrics := by
    have := (@Edit.apply_applyAll_eq_iff _ _ _ _ metrics id hstable).mpr
      fun metric hmetric hkeeps => ⟨all_keeps_iff.mpr <| hu.kept metric hmetric hkeeps, ?_⟩
    · rwa [List.map_id, List.map_id] at this
    · change accepted.edit.update _ = accepted.edit.update metric
      cases hc : accepted.condition_for metric with
      | none   =>
        rw [TurnProposal.update_of_none <| condition_for_updateAll.trans hc,
          TurnProposal.update_of_none hc, updateAll_eq]
        cases hlast : last_condition (applied metrics refused) metric with
        | none   => rfl
        | some c => exact rescored_of_has_condition <| hu.conditions metric hmetric hkeeps hc c hlast
      | some c =>
        rw [TurnProposal.update_of_some <| condition_for_updateAll.trans hc,
          TurnProposal.update_of_some hc, updateAll_eq]
        cases last_condition (applied metrics refused) metric with
        | none   => rfl
        | some d => exact rescored_rescored
  have happly := apply_eq_ok_iff.mpr ⟨metrics, hbase, happlies, rfl⟩
  exact ⟨hlast, ⟨_, happly, narrowed happly, hsame ▸ ha.valid⟩, metrics, hbase, hu.named⟩

end Exactness

-- A turn that is prepared is what the last reply proposes, and that alone, exactly if the proposals
-- that were refused before it have left alone what it keeps, and it names metrics of the base.
theorem prepared_exact_iff {turn : Turn} (hread : read_base h command = .ok (session, current, base))
    (hprepare : prepare h command = .ok (turn, replies))
    (hprepared : turn.outcome = .prepared n spec accepted k) :
    Exact h.toValidator base replies accepted spec ↔ ∃ metrics, metrics_of base = .ok metrics ∧
      Untouched metrics (proposals replies.dropLast) accepted := by
  rw [prepare, hread] at hprepare
  obtain ⟨_, hok, hprepare⟩ := Except.bind_eq_ok_iff.mp hprepare
  cases hok
  obtain ⟨⟨outcome, replies'⟩, hrun, hturn⟩ := Except.bind_eq_ok_iff.mp hprepare
  cases hturn
  cases hprepared
  obtain ⟨p, u, happly⟩ := exists_apply_of_prepared hrun
  obtain ⟨metrics, hmetrics, happlies, -⟩ := apply_eq_ok_iff.mp happly
  have hcarried : Carried base metrics [] base := ⟨hmetrics, fun _ => rfl⟩
  obtain ⟨hlast, ha⟩ := accepted_of_carried hcarried happlies.ids hrun
  constructor
  case mp  =>
    intro he
    exact ⟨metrics, hmetrics, untouched_of_exact hmetrics ha he⟩
  case mpr =>
    rintro ⟨metrics', hmetrics', hu⟩
    cases hmetrics.symm.trans hmetrics'
    exact exact_of_untouched hmetrics happlies.ids hlast ha hu

namespace Drafts

-- Every metric needs a condition.
def validate_spec (spec : Fields) : Except String Fields :=
  match outline spec with
  | none         => .error "metrics: Input should be a valid list"
  | some metrics =>
    if metrics.all fun metric => metric.2.isSome then .ok spec
    else .error "scoring: condition is required"

theorem outlined {spec dumped : Fields} (hvalid : validate_spec spec = .ok dumped) :
    (outline spec).isSome ∧ outline dumped = outline spec := by
  rw [validate_spec] at hvalid
  cases ho : outline spec with
  | none         => rw [ho] at hvalid; cases hvalid
  | some metrics =>
    rw [ho] at hvalid
    dsimp only at hvalid
    split at hvalid
    · cases hvalid
      exact ⟨rfl, ho⟩
    · cases hvalid

def scored (id : String) (scoring : Fields) : Fields :=
  [("metric_id", .str id), ("scoring", .obj scoring)]

def patch (id : String) : Json :=
  .obj [("action", .str "patch_metrics"), ("patches", .arr [
    .obj [("metric_id", .str id), ("scoring_condition", .str "raw_value > 0")]])]

def patched (id : String) : TurnProposal :=
  ⟨"patch_metrics", [⟨id, some "raw_value > 0"⟩], []⟩

def draft (scoring : Fields) : Fields :=
  [("metrics", .arr [.obj <| scored "a" [], .obj <| scored "b" scoring])]

def version (base : Fields) : VersionRecord where
  version_id           := "v"
  workspace_id         := "w"
  kind                 := "evaluation"
  parent_id            := "e"
  previous_version_id  := none
  content_digest       := ""
  revision             := 1
  actor_id             := "u"
  created_at           := ""
  content              := [("spec", .obj base)]
  authoring_provenance := []

def host (base : Fields) (first second : Json) : Host where
  validate_spec        := validate_spec
  outlined             := outlined
  session              := fun _ => .ok ⟨"e", some "v", none, 0⟩
  get                  := fun _ => .ok <| version base
  chat_json            := fun messages => .json <| if messages.length = 2 then first else second
  dumps                := fun _ => ""
  dumps_sorted         := fun _ => ""
  validation_text      := fun _ => ""
  spec_repair_attempts := 2

def request : Command :=
  ⟨"s", 0, .null, .null⟩

-- The first reply gives a condition to one metric, and is refused as the other one has none yet.
def both : Fields :=
  [("metrics", .arr [
    .obj <| scored "a" [("condition", .str "raw_value > 0")],
    .obj <| scored "b" [("condition", .str "raw_value > 0")]])]

def one : Fields :=
  [("metrics", .arr [
    .obj <| scored "a" [("condition", .str "raw_value > 0")],
    .obj <| scored "b" [("condition", .str "raw_value < 9")]])]

theorem prepare_both : prepare (host (draft []) (patch "a") (patch "b")) request =
    .ok (⟨"e", "v", .prepared 1 both (patched "b") 1⟩, [patch "a", patch "b"]) := by
  rfl

theorem prepare_one :
    prepare (host (draft [("condition", .str "raw_value < 9")]) .null (patch "a")) request =
      .ok (⟨"e", "v", .prepared 1 one (patched "a") 1⟩, [.null, patch "a"]) := by
  rfl

theorem untouched : Untouched
    [scored "a" [], scored "b" [("condition", .str "raw_value < 9")]] [] (patched "a") where
  named      := by
    intro id hid
    exact ⟨_, .head _, by rw [List.mem_singleton.mp hid]; rfl⟩
  kept       := fun _ _ _ _ h => nomatch h
  conditions := fun _ _ _ _ _ h => nomatch h

end Drafts

theorem prepared_exact_one : Exact
    (Drafts.host (Drafts.draft [("condition", .str "raw_value < 9")]) .null
      (Drafts.patch "a")).toValidator
    (Drafts.draft [("condition", .str "raw_value < 9")]) [.null, Drafts.patch "a"]
    (Drafts.patched "a") Drafts.one :=
  (prepared_exact_iff rfl Drafts.prepare_one rfl).mpr ⟨_, rfl, Drafts.untouched⟩

theorem not_prepared_exact : ¬ ∀ (h : Host) (command : Command) (session : Session)
    (current : VersionRecord) (base : Fields) (turn : Turn) (replies : List Json) (n k : ℕ)
    (spec : Fields) (accepted : TurnProposal),
    read_base h command = .ok (session, current, base) →
    prepare h command = .ok (turn, replies) → turn.outcome = .prepared n spec accepted k →
    Exact h.toValidator base replies accepted spec := by
  intro hexact
  have hboth := hexact _ _ _ _ _ _ _ _ _ _ _ rfl Drafts.prepare_both rfl
  obtain ⟨u, happly, -, hvalid⟩ := hboth.applied
  have happly' : _apply_proposal (Drafts.draft []) (Drafts.patched "b") = .ok
    [("metrics", .arr [.obj <| Drafts.scored "a" [],
      .obj <| Drafts.scored "b" [("condition", .str "raw_value > 0")]])] := by rfl
  cases happly'.symm.trans happly
  cases hvalid

end Authoring
