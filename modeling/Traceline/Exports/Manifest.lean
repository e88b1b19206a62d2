import Mathlib.Data.List.Dedup
import Traceline.Datasets.Import
import Traceline.Datasets.Canonical
import Traceline.Library.Table

-- The manifest of an export, which holds what there is of a run.
namespace Exports

open Loads (Fields set_item)
open Datasets (Value ReadBack dumps)

abbrev Bytes := List UInt8

-- What the exports take from Python beside the text of values: the hexadecimal SHA-256 of bytes,
-- and the bytes of a ZIP archive whose entries have no dates of their own.
structure Python extends Datasets.Python where
  digest  : Bytes → String
  archive : List (String × Bytes) → Bytes

inductive Error
  | key_error (key : String)
  | value_error (message : String)
  | type_error
  | attribute_error
  | integrity_error
  deriving DecidableEq, Repr

section Records

variable (L : Python)

-- A column of JSON, and one of numbers.
abbrev Held := {j : Json // Value L.toDigests j}

abbrev Double := {x : PyFloat // ReadBack L.toDigests x}

structure RunRecord where
  run_id           : String
  workspace_id     : String
  project_id       : Option String
  run_manifest_ref : Option String
  spec_json        : String
  agent_version    : Held L
  status           : String
  tier             : String
  repeats          : Int
  retry_max        : Int
  world_config     : Held L
  run_completed_at : Option String
  created_at       : String

structure CaseRecord where
  run_id         : String
  workspace_id   : String
  case_id        : String
  case_key       : String
  status         : String
  classification : Option String
  error_category : Option String
  deriving DecidableEq

structure RunMetricResultRecord where
  run_id            : String
  workspace_id      : String
  metric_id         : String
  score_revision    : Int
  value             : Option (Double L)
  ci_lower          : Option (Double L)
  ci_upper          : Option (Double L)
  unit              : Option String
  aggregation_state : String
  method            : String
  sample_n          : Int
  error_n           : Int
  skipped_n         : Int
  gate_status       : Option String
  no_ci             : Bool

structure CaseMetricResultRecord where
  run_id             : String
  workspace_id       : String
  case_id            : String
  metric_id          : String
  score_revision     : Int
  status             : String
  score              : Option (Double L)
  raw_value          : Held L
  evidence_event_ids : List String
  evaluator_version  : Option String
  judge_binding      : Held L
  is_authoritative   : Bool
  on_retry_override  : Bool
  overridden         : Bool
  computed_at        : String

structure TraceEvent where
  run_id         : String
  workspace_id   : String
  event_id       : String
  timestamp      : String
  sequence       : Int
  model_dump     : Held L
  event_id_eq    : model_dump.val.get? "event_id" = some (.str event_id)

-- A row of `export_snapshots`.
structure ExportSnapshot where
  workspace_id    : String
  export_id       : String
  run_id          : String
  manifest_json   : String
  manifest_sha256 : String
  created_at      : String
  deriving DecidableEq, Repr

def ExportSnapshot.key (e : ExportSnapshot) : String × String :=
  (e.workspace_id, e.export_id)

structure State where
  runs                    : List (RunRecord L)
  run_cases               : List CaseRecord
  run_metric_results      : List (RunMetricResultRecord L)
  run_case_metric_results : List (CaseMetricResultRecord L)
  trace_events            : List (TraceEvent L)
  export_snapshots        : Table ExportSnapshot.key

end Records

namespace State

variable {L : Python} (s : State L) (run_id workspace_id : String)

def get_run : Option (RunRecord L) :=
  s.runs.find? fun r => r.run_id = run_id && r.workspace_id = workspace_id

-- ORDER BY metric_id
def get_run_metric_results : List (RunMetricResultRecord L) :=
  (s.run_metric_results.filter fun r => r.run_id = run_id && r.workspace_id = workspace_id).insertionSort
    fun r r' => r.metric_id ≤ r'.metric_id

-- ORDER BY rowid
def list_cases : List CaseRecord :=
  s.run_cases.filter fun r => r.run_id = run_id && r.workspace_id = workspace_id

-- ORDER BY case_id, metric_id
def get_case_scores : List (CaseMetricResultRecord L) :=
  (s.run_case_metric_results.filter fun r =>
      r.run_id = run_id && r.workspace_id = workspace_id).insertionSort
    fun r r' => r.case_id < r'.case_id ∨ r.case_id = r'.case_id ∧ r.metric_id ≤ r'.metric_id

-- ORDER BY timestamp, sequence
def get_trace_events : List (TraceEvent L) :=
  (s.trace_events.filter fun e => e.run_id = run_id && e.workspace_id = workspace_id).insertionSort
    fun e e' => e.timestamp < e'.timestamp ∨ e.timestamp = e'.timestamp ∧ e.sequence ≤ e'.sequence

end State

section Entries

variable {L : Python}

def optional : Option String → Json
  | some text => .str text
  | none      => .null

def real : Option (Double L) → Json
  | some x => .float x
  | none   => .null

def unhashable : Json → Bool
  | .arr _ | .obj _ => true
  | _               => false

-- The `metric_id` of a metric of the spec that is provisional.
def provisional_metric_id (metric : Json) : Option Json :=
  match metric with
  | .obj fields =>
    if fields.lookup "provisional" = some (.bool true) then some <| (fields.lookup "metric_id").getD .null
    else none
  | _           => none

-- A spec that cannot be read has no provisional metrics.
def provisional_metric_ids (spec_json : String) : List Json :=
  match loads spec_json.toList with
  | some (.obj fields) =>
    match fields.lookup "metrics" with
    | some (.arr metrics) =>
      let ids := metrics.filterMap provisional_metric_id
      if ids.any unhashable then [] else ids
    | _                   => []
  | _                  => []

def metric_entry (provisional : List Json) (row : RunMetricResultRecord L) : Json :=
  .obj [
    ("metric_id", .str row.metric_id),
    ("value", real row.value),
    ("ci_lower", real row.ci_lower),
    ("ci_upper", real row.ci_upper),
    ("unit", optional row.unit),
    ("gate_status", optional row.gate_status),
    ("aggregation_state", .str row.aggregation_state),
    ("method", .str row.method),
    ("sample_n", .int row.sample_n),
    ("error_n", .int row.error_n),
    ("skipped_n", .int row.skipped_n),
    ("no_ci", .bool row.no_ci),
    ("score_revision", .int row.score_revision),
    ("provisional", .bool (Json.str row.metric_id ∈ provisional))
  ]

def case_entry (case : CaseRecord) : Json :=
  .obj [
    ("case_id", .str case.case_id),
    ("case_key", .str case.case_key),
    ("status", .str case.status),
    ("classification", optional case.classification),
    ("error_category", optional case.error_category)
  ]

def case_metric_entry (row : CaseMetricResultRecord L) : Json :=
  .obj [
    ("case_id", .str row.case_id),
    ("metric_id", .str row.metric_id),
    ("score_revision", .int row.score_revision),
    ("status", .str row.status),
    ("score", real row.score),
    ("raw_value", row.raw_value),
    ("evidence_event_ids", .arr <| row.evidence_event_ids.map .str),
    ("evaluator_version", optional row.evaluator_version),
    ("judge_binding", row.judge_binding),
    ("is_authoritative", .bool row.is_authoritative),
    ("on_retry_override", .bool row.on_retry_override),
    ("overridden", .bool row.overridden),
    ("computed_at", .str row.computed_at)
  ]

def run_entry (run : RunRecord L) : Json :=
  .obj [
    ("run_id", .str run.run_id),
    ("status", .str run.status),
    ("tier", .str run.tier),
    ("repeats", .int run.repeats),
    ("retry_max", .int run.retry_max),
    ("project_id", optional run.project_id),
    ("created_at", .str run.created_at),
    ("completed_at", optional run.run_completed_at)
  ]

-- `value.get(key)` if it is a `dict`, and else an empty one.
def dict_at (key : String) (j : Json) : Json :=
  match j.get? key with
  | some (.obj fields) => .obj fields
  | _                  => .obj []

def utf8 (text : String) : Bytes :=
  text.toUTF8.toList

variable (L) in
def versions_entry (run : RunRecord L) : Json :=
  .obj [
    ("spec_sha256", .str <| L.digest <| utf8 run.spec_json),
    ("source_digest", (run.agent_version.val.get? "source_digest").getD .null),
    ("run_manifest_ref", optional run.run_manifest_ref),
    ("version_refs", dict_at "version_refs" run.world_config),
    ("evaluator_versions", dict_at "evaluator_versions" run.world_config)
  ]

def provenance_entry : Json :=
  .obj [
    ("score_source", .str "engine"),
    ("trace_redaction", .str "capture_time"),
    ("evidence_state", .str "retained_evidence_is_run_scoped")
  ]

end Entries

-- A filter leaves out nothing if it is empty.
def selects (ids : Option (List String)) (id : String) : Bool :=
  (ids.getD []).isEmpty || (ids.getD []).contains id

-- `sorted(set(ids))`
def sorted_set (ids : List String) : List String :=
  ids.dedup.insertionSort (· ≤ ·)

def filter_entry : Option (List String) → Json
  | some ids => .arr <| (sorted_set ids).map .str
  | none     => .null

-- `json.dumps(value, sort_keys=True, separators=(",", ":"), ensure_ascii=False)`
def encode (L : Python) (value : Json) : String :=
  String.ofList <| dumps L.toDigests false value

structure Snapshot where
  manifest : Json
  sha256   : String

section

variable {L : Python} (s : State L) (workspace_id run_id : String)
variable (case_ids metric_ids : Option (List String))

def metric_rows : List (RunMetricResultRecord L) :=
  (s.get_run_metric_results run_id workspace_id).filter (selects metric_ids ·.metric_id)

def case_rows : List CaseRecord :=
  (s.list_cases run_id workspace_id).filter (selects case_ids ·.case_id)

def case_metric_rows : List (CaseMetricResultRecord L) :=
  (s.get_case_scores run_id workspace_id).filter fun row =>
    selects case_ids row.case_id && selects metric_ids row.metric_id

def evidence_ids : List String :=
  sorted_set <| (case_metric_rows s workspace_id run_id case_ids metric_ids).flatMap (·.evidence_event_ids)

-- The events that are left of the evidence, by their ids.
def retained_events (ids : List String) : Fields :=
  ((s.get_trace_events run_id workspace_id).filter (ids.contains ·.event_id)).foldl
    (fun retained event => set_item event.event_id event.model_dump retained) []

def evidence_entry (ids : List String) (retained : Fields) : Json :=
  .obj [
    ("events", .arr <| ids.filterMap fun id => retained.lookup id),
    ("missing_event_ids", .arr <| (ids.filter fun id => (retained.lookup id).isNone).map .str)
  ]

def payload (run : RunRecord L) : Json :=
  let ids := evidence_ids s workspace_id run_id case_ids metric_ids
  .obj [
    ("schema_version", .int 1),
    ("run", run_entry run),
    ("versions", versions_entry L run),
    ("filters", .obj [("case_ids", filter_entry case_ids), ("metric_ids", filter_entry metric_ids)]),
    ("metrics", .arr <| (metric_rows s workspace_id run_id metric_ids).map <|
      metric_entry <| provisional_metric_ids run.spec_json),
    ("cases", .arr <| (case_rows s workspace_id run_id case_ids).map case_entry),
    ("case_metrics", .arr <|
      (case_metric_rows s workspace_id run_id case_ids metric_ids).map case_metric_entry),
    ("evidence", evidence_entry ids <| retained_events s workspace_id run_id ids),
    ("provenance", provenance_entry)
  ]

-- `len(set(ids)) != len(ids)`
def duplicated (ids : Option (List String)) : Bool :=
  (ids.getD []).dedup.length ≠ (ids.getD []).length

def _manifest : Except Error Snapshot :=
  match s.get_run run_id workspace_id with
  | none     => .error <| .key_error run_id
  | some run =>
    if duplicated case_ids then .error <| .value_error "case_ids must not contain duplicates"
    else if duplicated metric_ids then .error <| .value_error "metric_ids must not contain duplicates"
    else
      let manifest := payload s workspace_id run_id case_ids metric_ids run
      .ok { manifest, sha256 := L.digest <| utf8 <| encode L manifest }

end

end Exports
