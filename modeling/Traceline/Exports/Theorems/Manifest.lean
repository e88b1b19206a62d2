import Traceline.Datasets.Theorems.RoundTrip
import Traceline.Exports.Theorems.Formats

-- What a manifest holds of a run, and that it is read again as it was written.
namespace Exports

open Loads (Fields set_item)
open Datasets (Value sorted)

variable {L : Python} {s : State L} {workspace_id run_id : String} {run : RunRecord L}
variable {case_ids metric_ids : Option (List String)}

section Values

theorem value_optional {text : Option String} : Value L.toDigests (optional text) := by
  cases text with
  | none      => exact .null
  | some text => exact .str text

theorem value_real {x : Option (Double L)} : Value L.toDigests (real x) := by
  cases x with
  | none   => exact .null
  | some x => exact .float x.property

theorem value_texts {ids : List String} : Value L.toDigests (.arr <| ids.map .str) :=
  .arr <| List.forall_mem_map.mpr fun id _ => .str id

theorem value_metric_entry (provisional : List Json) (row : RunMetricResultRecord L) :
    Value L.toDigests (metric_entry provisional row) := by
  refine .obj (by simp) ?_
  simp only [List.forall_mem_cons]
  exact ⟨.str _, value_real, value_real, value_real, value_optional, value_optional, .str _, .str _,
    .int _, .int _, .int _, .bool _, .int _, .bool _, List.forall_mem_nil _⟩

theorem value_case_entry (case : CaseRecord) : Value L.toDigests (case_entry case) := by
  refine .obj (by simp) ?_
  simp only [List.forall_mem_cons]
  exact ⟨.str _, .str _, .str _, value_optional, value_optional, List.forall_mem_nil _⟩

theorem value_case_metric_entry (row : CaseMetricResultRecord L) :
    Value L.toDigests (case_metric_entry row) := by
  refine .obj (by simp) ?_
  simp only [List.forall_mem_cons]
  exact ⟨.str _, .str _, .int _, .str _, value_real, row.raw_value.property, value_texts,
    value_optional, row.judge_binding.property, .bool _, .bool _, .bool _, .str _,
    List.forall_mem_nil _⟩

theorem value_run_entry (run : RunRecord L) : Value L.toDigests (run_entry run) := by
  refine .obj (by simp) ?_
  simp only [List.forall_mem_cons]
  exact ⟨.str _, .str _, .str _, .int _, .int _, value_optional, .str _, value_optional,
    List.forall_mem_nil _⟩

theorem value_get? {j v : Json} {key : String} (hj : Value L.toDigests j) (h : j.get? key = some v) :
    Value L.toDigests v := by
  cases hj with
  | obj hkeys hkvs =>
    obtain ⟨l₁, l₂, heq, -⟩ := List.lookup_eq_some_iff.mp h
    exact hkvs (key, v) (heq ▸ by simp)
  | _              => cases h

theorem value_dict_at (key : String) (j : Held L) : Value L.toDigests (dict_at key j) := by
  unfold dict_at
  split
  case h_1 fields h => exact value_get? j.property h
  case h_2          => exact .obj .nil <| List.forall_mem_nil _

theorem value_versions_entry (run : RunRecord L) : Value L.toDigests (versions_entry L run) := by
  have hsource : Value L.toDigests ((run.agent_version.val.get? "source_digest").getD .null) := by
    cases h : run.agent_version.val.get? "source_digest" with
    | none   => exact .null
    | some v => exact value_get? run.agent_version.property h
  refine .obj (by simp) ?_
  simp only [List.forall_mem_cons]
  exact ⟨.str _, hsource, value_optional, value_dict_at _ _, value_dict_at _ _, List.forall_mem_nil _⟩

theorem value_filter_entry (ids : Option (List String)) : Value L.toDigests (filter_entry ids) := by
  cases ids with
  | none     => exact .null
  | some ids => exact value_texts

end Values

section Evidence

variable {ids : List String} {retained : Fields} {events : List (TraceEvent L)} {id : String}

-- What a `dict` of events holds under an id.
theorem lookup_events {v : Json}
    (h : (events.foldl (fun retained event => set_item event.event_id event.model_dump retained)
      retained).lookup id = some v) :
    retained.lookup id = some v ∨ ∃ event ∈ events, event.event_id = id ∧ v = event.model_dump := by
  induction events generalizing retained with
  | nil               => exact .inl h
  | cons event events ih =>
    rcases ih h with h | ⟨event', hmem, hid⟩
    · rw [Loads.lookup_set_item] at h
      split at h
      case isTrue heq  => exact .inr ⟨event, .head _, heq.symm, (Option.some.inj h).symm⟩
      case isFalse hne => exact .inl h
    · exact .inr ⟨event', .tail _ hmem, hid⟩

theorem lookup_retained_events {v : Json}
    (h : (retained_events s workspace_id run_id ids).lookup id = some v) :
    Value L.toDigests v ∧ v.get? "event_id" = some (.str id) := by
  rcases lookup_events h with h | ⟨event, -, rfl, rfl⟩
  · cases h
  · exact ⟨event.model_dump.property, event.event_id_eq⟩

-- Of distinct ids, the events that are there are told apart by theirs.
theorem countP_filterMap {lookup : String → Option Json} {target : Json} (hids : ids.Nodup)
    (hlookup : ∀ id v, lookup id = some v → v.get? "event_id" = some (.str id))
    (htarget : target = .str id) :
    (ids.filterMap lookup).countP (·.get? "event_id" = some target) =
      if id ∈ ids ∧ (lookup id).isSome then 1 else 0 := by
  subst htarget
  induction ids with
  | nil          => rfl
  | cons i ids ih =>
    obtain ⟨hi, hids⟩ := List.nodup_cons.mp hids
    cases hv : lookup i with
    | none   =>
      rw [List.filterMap_cons_none hv, ih hids]
      by_cases heq : id = i
      case pos => simp [heq, hi, hv]
      case neg => simp [heq]
    | some v =>
      rw [List.filterMap_cons_some hv, List.countP_cons, ih hids, hlookup i v hv]
      by_cases heq : id = i
      case pos => simp [heq, hi, hv]
      case neg => simp [heq, Ne.symm heq]

theorem nodup_sorted_set : (sorted_set ids).Nodup :=
  (List.perm_insertionSort _ _).nodup_iff.mpr <| List.nodup_dedup ids

theorem mem_sorted_set : id ∈ sorted_set ids ↔ id ∈ ids :=
  (List.perm_insertionSort _ _).mem_iff.trans List.mem_dedup

-- Every id that a row cites is that of one event, or is missing, and not both.
structure Closed (m : Json) (rows events missing : List Json) : Prop where
  case_metrics : m.get? "case_metrics" = some (.arr rows)
  evidence     : m.get? "evidence" = some (.obj [("events", .arr events),
    ("missing_event_ids", .arr missing)])
  cited        : ∀ row ∈ rows, ∃ ids, row.get? "evidence_event_ids" = some (.arr ids) ∧
    ∀ id ∈ ids, events.countP (·.get? "event_id" = some id) = 1 ∧ missing.count id = 0 ∨
      events.countP (·.get? "event_id" = some id) = 0 ∧ missing.count id = 1

theorem count_missing {lookup : String → Option Json} (hids : ids.Nodup) :
    ((ids.filter fun id => (lookup id).isNone).map Json.str).count (.str id) =
      if id ∈ ids ∧ (lookup id).isNone then 1 else 0 := by
  have hinj : Function.Injective Json.str := fun _ _ => Json.str.inj
  rw [((hids.filter _).map hinj).count]
  exact if_congr (by rw [List.mem_map_of_injective hinj, List.mem_filter]) rfl rfl

-- The ids that rows cite are told apart by whether an event is left.
theorem cited_once (hid : id ∈ ids) (hids : ids.Nodup)
    (hretained : ∀ id v, retained.lookup id = some v → v.get? "event_id" = some (.str id)) :
    let events := ids.filterMap fun id => retained.lookup id
    let missing := (ids.filter fun id => (retained.lookup id).isNone).map Json.str
    events.countP (·.get? "event_id" = some (.str id)) = 1 ∧ missing.count (.str id) = 0 ∨
      events.countP (·.get? "event_id" = some (.str id)) = 0 ∧ missing.count (.str id) = 1 := by
  dsimp only
  rw [countP_filterMap hids hretained rfl, count_missing hids]
  cases retained.lookup id with
  | none   => exact .inr ⟨if_neg fun h => Bool.noConfusion h.right, if_pos ⟨hid, rfl⟩⟩
  | some v => exact .inl ⟨if_pos ⟨hid, rfl⟩, if_neg fun h => Bool.noConfusion h.right⟩

end Evidence

section Payload

-- The rows, the events and the ids that a manifest is made of.
def included (s : State L) (workspace_id run_id : String) (case_ids metric_ids : Option (List String)) :
    List Json :=
  (case_metric_rows s workspace_id run_id case_ids metric_ids).map case_metric_entry

def included_events (s : State L) (workspace_id run_id : String)
    (case_ids metric_ids : Option (List String)) : List Json :=
  let ids := evidence_ids s workspace_id run_id case_ids metric_ids
  ids.filterMap fun id => (retained_events s workspace_id run_id ids).lookup id

def missing_ids (s : State L) (workspace_id run_id : String) (case_ids metric_ids : Option (List String)) :
    List String :=
  let ids := evidence_ids s workspace_id run_id case_ids metric_ids
  ids.filter fun id => ((retained_events s workspace_id run_id ids).lookup id).isNone

theorem laid_payload (run : RunRecord L) :
    Laid (payload s workspace_id run_id case_ids metric_ids run) run
      (provisional_metric_ids run.spec_json) (metric_rows s workspace_id run_id metric_ids)
      (case_rows s workspace_id run_id case_ids)
      (case_metric_rows s workspace_id run_id case_ids metric_ids)
      (included_events s workspace_id run_id case_ids metric_ids)
      (missing_ids s workspace_id run_id case_ids metric_ids) :=
  ⟨rfl, rfl, rfl, rfl, rfl, rfl⟩

theorem closed_payload (run : RunRecord L) :
    Closed (payload s workspace_id run_id case_ids metric_ids run)
      (included s workspace_id run_id case_ids metric_ids)
      (included_events s workspace_id run_id case_ids metric_ids)
      ((missing_ids s workspace_id run_id case_ids metric_ids).map .str) where
  case_metrics := rfl
  evidence     := rfl
  cited        := by
    intro entry hentry
    obtain ⟨row, hrow, rfl⟩ := List.mem_map.mp hentry
    refine ⟨_, rfl, List.forall_mem_map.mpr fun id hid => ?_⟩
    refine cited_once ?_ nodup_sorted_set fun _ _ h => (lookup_retained_events h).right
    exact mem_sorted_set.mpr <| List.mem_flatMap.mpr ⟨row, hrow, hid⟩

theorem value_evidence_entry {ids : List String} :
    Value L.toDigests (evidence_entry ids <| retained_events s workspace_id run_id ids) := by
  refine .obj (by simp) ?_
  simp only [List.forall_mem_cons]
  refine ⟨.arr fun v hv => ?_, value_texts, List.forall_mem_nil _⟩
  obtain ⟨id, -, hlookup⟩ := List.mem_filterMap.mp hv
  exact (lookup_retained_events hlookup).left

theorem value_payload (run : RunRecord L) :
    Value L.toDigests (payload s workspace_id run_id case_ids metric_ids run) := by
  have hfilters : Value L.toDigests (.obj [("case_ids", filter_entry case_ids),
      ("metric_ids", filter_entry metric_ids)]) := by
    refine .obj (by simp) ?_
    simp only [List.forall_mem_cons]
    exact ⟨value_filter_entry _, value_filter_entry _, List.forall_mem_nil _⟩
  have hprovenance : Value L.toDigests provenance_entry := by
    refine .obj (by simp) ?_
    simp only [List.forall_mem_cons]
    exact ⟨.str _, .str _, .str _, List.forall_mem_nil _⟩
  refine .obj (by simp) ?_
  simp only [List.forall_mem_cons]
  exact ⟨.int _, value_run_entry run, value_versions_entry run, hfilters,
    .arr <| List.forall_mem_map.mpr fun row _ => value_metric_entry _ row,
    .arr <| List.forall_mem_map.mpr fun case _ => value_case_entry case,
    .arr <| List.forall_mem_map.mpr fun row _ => value_case_metric_entry row,
    value_evidence_entry, hprovenance, List.forall_mem_nil _⟩

-- The manifest as it is read of the store again.
theorem loads_payload (run : RunRecord L) :
    loads (encode L <| payload s workspace_id run_id case_ids metric_ids run).toList =
      some (sorted <| payload s workspace_id run_id case_ids metric_ids run) := by
  rw [encode, String.toList_ofList]
  exact Datasets.loads_dumps <| value_payload run

end Payload

end Exports
