import Traceline.Exports.Manifest
import Traceline.Library.Keys

-- The formats that a manifest is rendered in.
namespace Exports

open Loads (Fields)
open Datasets (str encode_string encode_float)

section Access

-- `value[key]`
def item (key : String) : Json → Except Error Json
  | .obj fields =>
    match fields.lookup key with
    | some value => .ok value
    | none       => .error <| .key_error key
  | _           => .error .type_error

-- `value.get(key, default)`
def get (key : String) (default : Json) : Json → Except Error Json
  | .obj fields => .ok <| (fields.lookup key).getD default
  | _           => .error .attribute_error

-- `value or default`
def either (value default : Json) : Json :=
  if value.truthy then value else default

-- What a loop over a value goes through.
def elements : Json → Except Error (List Json)
  | .arr xs     => .ok xs
  | .obj fields => .ok <| fields.map fun kv => .str kv.1
  | .str text   => .ok <| text.toList.map fun c => .str (String.singleton c)
  | _           => .error .type_error

def texts (values : List Json) : Except Error (List String) :=
  values.mapM fun
    | .str text => .ok text
    | _         => .error .type_error

end Access

section Text

variable (L : Python)

-- `json.dumps(value, sort_keys=True, ensure_ascii=False)`, with a space after what separates.
def enclose (first last : Char) (parts : List (List Char)) : List Char :=
  first :: (List.intercalate [',', ' '] parts ++ [last])

def encode_field (kv : String × List Char) : List Char :=
  encode_string false kv.1 ++ ':' :: ' ' :: kv.2

mutual

def dumps_spaced : Json → List Char
  | .null       => "null".toList
  | .bool true  => "true".toList
  | .bool false => "false".toList
  | .int n      => (toString n).toList
  | .float x    => (encode_float L.toDigests x).toList
  | .str s      => encode_string false s
  | .arr xs     => enclose '[' ']' (dumps_spaced_list xs)
  | .obj kvs    => enclose '\x7b' '\x7d' <|
    (Datasets.sort_keys (dumps_spaced_fields kvs)).map encode_field

def dumps_spaced_list : List Json → List (List Char)
  | []      => []
  | x :: xs => dumps_spaced x :: dumps_spaced_list xs

def dumps_spaced_fields : List (String × Json) → List (String × List Char)
  | []            => []
  | (k, v) :: kvs => (k, dumps_spaced v) :: dumps_spaced_fields kvs

end

def dumps_text (value : Json) : String :=
  String.ofList <| dumps_spaced L value

def _formula_safe (value : Json) : String :=
  let text := if value = .null then "" else str L.toPython value
  if text.toList.head? ∈ ['=', '+', '-', '@'].map some then "'" ++ text else text

-- `html.escape`
def escape (text : String) : String :=
  String.ofList <| text.toList.flatMap fun
    | '&'    => "&amp;".toList
    | '<'    => "&lt;".toList
    | '>'    => "&gt;".toList
    | '"'    => "&quot;".toList
    | '\x27' => "&#x27;".toList
    | c      => [c]

end Text

variable (L : Python)

def _json_bytes (manifest : Json) : Bytes :=
  utf8 <| encode L manifest

section Csv

-- A field, which is quoted where it has to be.
def csv_field (text : String) : List Char :=
  if text.toList.any (· ∈ [',', '"', '\n', '\r']) then
    '"' :: (text.toList.flatMap fun c => if c = '"' then ['"', '"'] else [c]) ++ ['"']
  else text.toList

def csv_row (fields : List String) : List Char :=
  List.intercalate [','] (fields.map csv_field) ++ ['\n']

def csv_header : List String := [
  "record_type", "case_id", "case_key", "metric_id", "status", "score",
  "raw_value", "evidence_event_ids", "classification", "error_category"
]

def csv_case (case : Json) : Except Error (List String) := do
  let safe (key : String) : Except Error String := do return _formula_safe L (← item key case)
  return ["case", ← safe "case_id", ← safe "case_key", "", ← safe "status", "", "", "",
    ← safe "classification", ← safe "error_category"]

-- An entry of a `dict`, whose key must be hashable.
def csv_case_key (case : Json) : Except Error (Json × Json) := do
  let case_id ← item "case_id" case
  if unhashable case_id then .error .type_error
  else return (case_id, ← item "case_key" case)

def csv_metric (case_keys : List (Json × Json)) (metric : Json) : Except Error (List String) := do
  let safe (key : String) : Except Error String := do return _formula_safe L (← item key metric)
  let case_id ← item "case_id" metric
  if unhashable case_id then .error .type_error
  else
    let case_key := (case_keys.reverse.lookup case_id).getD (.str "")
    let raw_value := dumps_text L (← item "raw_value" metric)
    let evidence := ";".intercalate (← texts (← elements (← item "evidence_event_ids" metric)))
    return ["metric", ← safe "case_id", _formula_safe L case_key, ← safe "metric_id", ← safe "status",
      ← safe "score", _formula_safe L (.str raw_value), _formula_safe L (.str evidence), "", ""]

def _csv_bytes (manifest : Json) : Except Error Bytes := do
  let cases ← elements (← item "cases" manifest)
  let case_rows ← cases.mapM (csv_case L)
  let case_keys ← cases.mapM csv_case_key
  let metrics ← elements (← get "case_metrics" (.arr []) manifest)
  let metric_rows ← metrics.mapM (csv_metric L case_keys)
  return utf8 <| String.ofList <| (csv_header :: case_rows ++ metric_rows).flatMap csv_row

end Csv

section Html

def partial_metric (metric : Json) : Except Error Bool := do
  let state ← get "aggregation_state" .null metric
  if unhashable state then .error .type_error
  else return state ≠ .null && state ≠ .str "COMPLETE"

def provisional_metric (metric : Json) : Except Error Bool := do
  return (← get "provisional" .null metric) = .bool true

-- `any(p(x) for x in xs)`
def any (p : Json → Except Error Bool) : List Json → Except Error Bool
  | []      => .ok false
  | x :: xs => do if ← p x then return true else any p xs

def is_partial (run : Json) (metrics : List Json) : Except Error Bool := do
  if (← get "status" .null run) = .str "incomplete" then return true else any partial_metric metrics

def provisional_id (metric : Json) : Except Error (Option String) := do
  if ← provisional_metric metric then
    return some <| escape <| str L.toPython (← get "metric_id" (.str "unknown") metric)
  else return none

def html_case (case : Json) : Except Error String := do
  return "<tr><td>" ++ escape (str L.toPython (← item "case_id" case)) ++ "</td>" ++
    "<td>" ++ escape (str L.toPython (← item "status" case)) ++ "</td></tr>"

def html_case_metric (metric : Json) : Except Error String := do
  return "<tr><td>" ++ escape (str L.toPython (← item "case_id" metric)) ++ "</td>" ++
    "<td>" ++ escape (str L.toPython (← item "metric_id" metric)) ++ "</td>" ++
    "<td>" ++ escape (str L.toPython (← item "status" metric)) ++ "</td>" ++
    "<td>" ++ escape (";".intercalate (← texts (← elements (← item "evidence_event_ids" metric)))) ++
    "</td></tr>"

def html_metric (metric : Json) : Except Error String := do
  return "<tr>" ++
    "<td>" ++ escape (str L.toPython (← get "metric_id" (.str "") metric)) ++ "</td>" ++
    "<td>" ++ escape (dumps_text L (← get "value" .null metric)) ++ "</td>" ++
    "<td>" ++ escape (str L.toPython (← get "gate_status" (.str "UNKNOWN") metric)) ++ "</td>" ++
    "<td>" ++ escape (str L.toPython (← get "aggregation_state" (.str "UNKNOWN") metric)) ++ "</td>" ++
    "<td>" ++ (if (← get "provisional" .null metric).truthy then "yes" else "no") ++ "</td>" ++
    "</tr>"

-- What is text of the ids that are missing.
def missing_texts (ids : List Json) : List String :=
  ids.filterMap Json.string?

def _html_text (manifest : Json) : Except Error String := do
  let run := either (← get "run" .null manifest) (.obj [])
  let metrics ← elements <| either (← get "metrics" .null manifest) (.arr [])
  let incomplete ← is_partial run metrics
  let provisional ← any provisional_metric metrics
  let provisional_ids ← if provisional then metrics.mapM (provisional_id L) else pure []
  let evidence := either (← get "evidence" .null manifest) (.obj [])
  let missing_evidence := missing_texts (← elements (← get "missing_event_ids" (.arr []) evidence))
  let status := escape <| str L.toPython (← get "status" (.str "unknown") run)
  let cases ← (← elements (← item "cases" manifest)).mapM (html_case L)
  let case_metrics ←
    (← elements (← get "case_metrics" (.arr []) manifest)).mapM (html_case_metric L)
  let metric_summary ← metrics.mapM (html_metric L)
  return "<p>Run status: " ++ status ++ "</p>" ++
    (if incomplete then
      "<p role=\"alert\"><strong>Partial results</strong> — some cases or metric rows are incomplete.</p>"
    else "") ++
    (if provisional then
      "<p><strong>Provisional</strong> — one or more judge-derived metrics are not calibrated. " ++
        "Metrics: " ++ ", ".intercalate (provisional_ids.filterMap id) ++ ".</p>"
    else "") ++
    (if missing_evidence ≠ [] then
      "<p role=\"alert\"><strong>Evidence unavailable</strong> — " ++
        toString missing_evidence.length ++ " retained evidence reference(s) could not be included.</p>"
    else "") ++
    "<table><tr><th>Case</th><th>Status</th></tr>" ++ String.join cases ++
    "</table><table><tr><th>Case</th><th>Metric</th><th>Status</th>" ++
    "<th>Evidence</th></tr>" ++ String.join case_metrics ++
    "</table><table><tr><th>Metric</th><th>Value</th><th>Gate</th>" ++
    "<th>Aggregation</th><th>Provisional</th></tr>" ++ String.join metric_summary ++ "</table>"

end Html

section Bundle

def _evidence_filename (event_id : String) : String :=
  "evidence/" ++ L.digest (utf8 event_id) ++ ".json"

-- The file of an event, which has one if it has an id.
def evidence_file (event : Json) : Except Error (Option (String × Bytes)) := do
  match ← get "event_id" .null event with
  | .str event_id =>
    return if event_id = "" then none
      else some (_evidence_filename L event_id, utf8 <| encode L event)
  | _             => return none

-- `files[name] = content`
def set_file (files : List (String × Bytes)) (file : String × Bytes) : List (String × Bytes) :=
  if files.any (·.1 = file.1) then files.map fun f => if f.1 = file.1 then file else f
  else files ++ [file]

def sorted_texts (texts : List String) : List String :=
  texts.insertionSort (· ≤ ·)

-- `event.get("event_id")`, of an event that has one.
def retained_event_id (event : Json) : Option String :=
  (event.get? "event_id").bind Json.string?

def bundle_manifest (files : List (String × Bytes)) (manifest : Json) (events missing : List Json)
    (provenance : Json) : Json :=
  .obj [
    ("schema_version", .int 1),
    ("manifest_sha256", .str <| L.digest <| _json_bytes L manifest),
    ("files", .obj <| Keys.sort <| files.map fun file => (file.1, .str <| L.digest file.2)),
    ("evidence", .obj [
      ("retained_event_ids", .arr <| (sorted_texts <| events.filterMap retained_event_id).map .str),
      ("missing_event_ids", .arr <| (sorted_texts <| missing_texts missing).map .str)
    ]),
    ("provenance", provenance)
  ]

def _bundle_bytes (manifest : Json) : Except Error Bytes := do
  let results := [
    ("manifest.json", _json_bytes L manifest),
    ("results.csv", ← _csv_bytes L manifest),
    ("report.html", utf8 (← _html_text L manifest))
  ]
  let evidence := either (← get "evidence" .null manifest) (.obj [])
  let events ← elements <| either (← get "events" .null evidence) (.arr [])
  let evidence_files ← events.mapM (evidence_file L)
  let files := (evidence_files.filterMap id).foldl set_file results
  let missing ← elements <| either (← get "missing_event_ids" .null evidence) (.arr [])
  let provenance := either (← get "provenance" .null manifest) (.obj [])
  let first := ("bundle-manifest.json",
    utf8 <| encode L <| bundle_manifest L files manifest events missing provenance)
  let ordered := results ++ Keys.sort (files.filter fun file => "evidence/".toList.isPrefixOf file.1.toList)
  return L.archive <| first :: ordered

end Bundle

-- The formats, with how each is rendered.
def render (format_name : String) (manifest : Json) : Except Error Bytes :=
  match format_name with
  | "json"   => .ok <| _json_bytes L manifest
  | "csv"    => _csv_bytes L manifest
  | "html"   => (_html_text L manifest).map utf8
  | "bundle" => _bundle_bytes L manifest
  | _        => .error <| .value_error "unsupported export format"

def format_hashes (manifest : Json) : Except Error (List (String × String)) :=
  ["json", "csv", "html", "bundle"].mapM fun format_name => do
    return (format_name, L.digest (← render L format_name manifest))

end Exports

-- What is frozen of a run, and what is served of it later.
namespace Exports

structure Frozen where
  export_id    : String
  workspace_id : String
  run_id       : String
  manifest     : Json
  sha256       : String
  created_at   : String
  formats      : List (String × String)

-- `re.fullmatch(r"[0-9a-f]{32}", export_id)`
def is_export_id (export_id : String) : Bool :=
  export_id.length = 32 && export_id.toList.all fun c => c.isDigit || 'a' ≤ c && c ≤ 'f'

section

variable {L : Python} (s : State L) (workspace_id run_id : String)

def create_export_snapshot (export_id manifest_sha256 now : String) (manifest : Json) :
    Except Error (State L) :=
  if ¬ is_export_id export_id then .error <| .value_error "export_id must be a 32-hex identifier"
  else
    let snapshot : ExportSnapshot := {
      manifest_json := encode L manifest
      created_at    := now
      workspace_id, export_id, run_id, manifest_sha256
    }
    match s.export_snapshots.insert snapshot with
    | none                  => .error .integrity_error
    | some export_snapshots => .ok { s with export_snapshots }

def freeze (case_ids metric_ids : Option (List String)) (export_id now : String) :
    Except Error Frozen × State L :=
  let created := do
    let snapshot ← _manifest s workspace_id run_id case_ids metric_ids
    return (snapshot, ← create_export_snapshot s workspace_id run_id export_id snapshot.sha256 now
      snapshot.manifest)
  match created with
  | .error e           => (.error e, s)
  | .ok (snapshot, t) =>
    let frozen := do
      return {
        manifest   := snapshot.manifest
        sha256     := snapshot.sha256
        created_at := now
        formats    := ← format_hashes L snapshot.manifest
        export_id, workspace_id, run_id
      }
    (frozen, t)

def delete_export_snapshots_before (cutoff : String) : State L :=
  { s with export_snapshots := s.export_snapshots.delete fun e =>
      e.workspace_id = workspace_id && e.created_at < cutoff }

def frozen (export_id : String) : Except Error Frozen :=
  match s.export_snapshots.find (workspace_id, export_id) with
  | none     => .error <| .key_error export_id
  | some row =>
    match loads row.manifest_json.toList with
    | none          => .error <| .value_error "JSONDecodeError"
    | some manifest => do
      return {
        export_id    := row.export_id
        workspace_id := row.workspace_id
        run_id       := row.run_id
        sha256       := row.manifest_sha256
        created_at   := row.created_at
        formats      := ← format_hashes L manifest
        manifest
      }

def frozen_bytes (export_id format_name : String) : Except Error Bytes := do
  render L format_name (← frozen s workspace_id export_id).manifest

end

end Exports
