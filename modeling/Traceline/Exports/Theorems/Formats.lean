import Traceline.Datasets.Theorems.Order
import Traceline.Exports.Formats

-- No format shows in which order the keys of a manifest came.
namespace Exports

open Datasets (sorted sorted_arr sorted_obj sorted_sorted)

variable {L : Python} {j m : Json} {key : String} {value default : Json} {α β : Type}

section Access

theorem ok_bind {f : α → Except Error β} {a : α} : (Except.ok a >>= f) = f a :=
  rfl

theorem get?_sorted : (sorted j).get? key = (j.get? key).map sorted := by
  cases j with
  | obj kvs =>
    rw [sorted_obj, Json.get?, Json.get?, Keys.lookup_sort, Keys.lookup_map]
  | arr xs  =>
    rw [sorted_arr]
    rfl
  | _       => rfl

theorem item_eq (h : j.get? key = some value) : item key j = .ok value := by
  cases j with
  | obj kvs =>
    have h : kvs.lookup key = some value := h
    rw [item, h]
  | _       => cases h

theorem get_eq (h : j.get? key = some value) : get key default j = .ok value := by
  cases j with
  | obj kvs =>
    have h : kvs.lookup key = some value := h
    rw [get, h]
    rfl
  | _       => cases h

theorem item_sorted (h : j.get? key = some value) : item key (sorted j) = .ok (sorted value) :=
  item_eq <| get?_sorted.trans <| congrArg (Option.map sorted) h

theorem get_sorted (h : j.get? key = some value) : get key default (sorted j) = .ok (sorted value) :=
  get_eq <| get?_sorted.trans <| congrArg (Option.map sorted) h

-- What the order of keys does not touch.
theorem item_same (key : String) (h : j.get? key = some value) (hvalue : sorted value = value) :
    item key (sorted j) = item key j :=
  (item_sorted h).trans <| hvalue.symm ▸ (item_eq h).symm

theorem get_same (key : String) (h : j.get? key = some value) (hvalue : sorted value = value) :
    get key default (sorted j) = get key default j :=
  (get_sorted h).trans <| hvalue.symm ▸ (get_eq h).symm

theorem sorted_optional {text : Option String} : sorted (optional text) = optional text := by
  cases text <;> rfl

theorem sorted_real {x : Option (Double L)} : sorted (real x) = real x := by
  cases x <;> rfl

theorem sorted_texts_arr {ids : List String} : sorted (.arr <| ids.map .str) = .arr (ids.map .str) := by
  rw [sorted_arr, List.map_map]
  rfl

theorem mapM_sorted {f : Json → Except Error α} {xs : List Json}
    (h : ∀ x ∈ xs, f (sorted x) = f x) : (xs.map sorted).mapM f = xs.mapM f := by
  induction xs with
  | nil          => rfl
  | cons x xs ih =>
    obtain ⟨hx, hxs⟩ := List.forall_mem_cons.mp h
    rw [List.map_cons, List.mapM_cons, List.mapM_cons, hx, ih hxs]

theorem any_sorted {p : Json → Except Error Bool} {xs : List Json}
    (h : ∀ x ∈ xs, p (sorted x) = p x) : any p (xs.map sorted) = any p xs := by
  induction xs with
  | nil          => rfl
  | cons x xs ih =>
    obtain ⟨hx, hxs⟩ := List.forall_mem_cons.mp h
    rw [List.map_cons, any, any, hx, ih hxs]

theorem truthy_sorted : (sorted j).truthy = j.truthy := by
  cases j with
  | arr xs  =>
    rw [sorted_arr]
    cases xs <;> rfl
  | obj kvs =>
    rw [sorted_obj, Json.truthy, Json.truthy, decide_eq_decide, not_iff_not, Keys.sort_eq_nil_iff,
      List.map_eq_nil_iff]
  | _       => rfl

theorem either_eq (h : j.truthy = true) : either j value = j :=
  if_pos h

theorem either_sorted (h : j.truthy = true) : either (sorted j) value = sorted j :=
  if_pos <| truthy_sorted.trans h

theorem elements_either {xs : List Json} : elements (either (.arr xs) (.arr [])) = .ok xs := by
  cases xs <;> rfl

end Access

section Text

theorem dumps_spaced_list_eq {xs : List Json} :
    dumps_spaced_list L xs = xs.map (dumps_spaced L) := by
  induction xs with
  | nil          => rfl
  | cons x xs ih => rw [dumps_spaced_list, ih, List.map_cons]

theorem dumps_spaced_fields_eq {kvs : List (String × Json)} :
    dumps_spaced_fields L kvs = kvs.map (Prod.map id (dumps_spaced L)) := by
  induction kvs with
  | nil            => rfl
  | cons kv kvs ih =>
    obtain ⟨k, v⟩ := kv
    rw [dumps_spaced_fields, ih, List.map_cons]
    rfl

theorem dumps_spaced_sorted : dumps_spaced L (sorted j) = dumps_spaced L j := by
  induction j using Json.induct with
  | arr xs ih  =>
    rw [sorted_arr, dumps_spaced, dumps_spaced, dumps_spaced_list_eq, dumps_spaced_list_eq,
      List.map_map]
    exact congrArg (enclose _ _) <| List.map_congr_left ih
  | obj kvs ih =>
    have hmap : kvs.map (Prod.map id (dumps_spaced L ∘ sorted)) =
        kvs.map (Prod.map id (dumps_spaced L)) :=
      List.map_congr_left fun kv hkv => Prod.ext rfl <| ih kv hkv
    have hsort : Datasets.sort_keys (dumps_spaced_fields L (Keys.sort (kvs.map (Prod.map id sorted)))) =
        Datasets.sort_keys (dumps_spaced_fields L kvs) := by
      change Keys.sort _ = Keys.sort _
      rw [dumps_spaced_fields_eq, dumps_spaced_fields_eq, ← Keys.sort_map, Keys.sort_sort,
        List.map_map, Prod.map_comp_map, Function.id_comp, hmap]
    rw [sorted_obj, dumps_spaced, dumps_spaced, hsort]
  | _          => rfl

theorem dumps_text_sorted : dumps_text L (sorted j) = dumps_text L j :=
  congrArg String.ofList dumps_spaced_sorted

theorem encode_sorted : encode L (sorted j) = encode L j :=
  congrArg String.ofList Datasets.dumps_sorted

theorem json_bytes_sorted : _json_bytes L (sorted j) = _json_bytes L j :=
  congrArg utf8 encode_sorted

end Text

-- What a manifest holds, under the keys that the formats read.
structure Laid (m : Json) (run : RunRecord L) (provisional : List Json)
    (metrics : List (RunMetricResultRecord L)) (cases : List CaseRecord)
    (rows : List (CaseMetricResultRecord L)) (events : List Json) (missing : List String) : Prop where
  run          : m.get? "run" = some (run_entry run)
  metrics      : m.get? "metrics" = some (.arr <| metrics.map <| metric_entry provisional)
  cases        : m.get? "cases" = some (.arr <| cases.map case_entry)
  case_metrics : m.get? "case_metrics" = some (.arr <| rows.map case_metric_entry)
  evidence     : m.get? "evidence" = some (.obj [("events", .arr events),
    ("missing_event_ids", .arr <| missing.map .str)])
  provenance   : m.get? "provenance" = some provenance_entry

variable {run : RunRecord L} {provisional : List Json} {metrics : List (RunMetricResultRecord L)}
variable {cases : List CaseRecord} {rows : List (CaseMetricResultRecord L)} {events : List Json}
variable {missing : List String}

section Csv

theorem csv_case_sorted (case : CaseRecord) :
    csv_case L (sorted (case_entry case)) = csv_case L (case_entry case) := by
  unfold csv_case
  dsimp only
  rw [item_same "case_id" rfl rfl, item_same "case_key" rfl rfl, item_same "status" rfl rfl,
    item_same "classification" rfl sorted_optional, item_same "error_category" rfl sorted_optional]

theorem csv_case_key_sorted (case : CaseRecord) :
    csv_case_key (sorted (case_entry case)) = csv_case_key (case_entry case) := by
  unfold csv_case_key
  rw [item_same "case_id" rfl rfl, item_same "case_key" rfl rfl]

theorem csv_metric_sorted (case_keys : List (Json × Json)) (row : CaseMetricResultRecord L) :
    csv_metric L case_keys (sorted (case_metric_entry row)) =
      csv_metric L case_keys (case_metric_entry row) := by
  have hraw : (case_metric_entry row).get? "raw_value" = some row.raw_value.val := rfl
  unfold csv_metric
  dsimp only
  rw [item_same "case_id" rfl rfl, item_same "metric_id" rfl rfl, item_same "status" rfl rfl,
    item_same "score" rfl sorted_real, item_same "evidence_event_ids" rfl sorted_texts_arr,
    item_sorted hraw, item_eq hraw]
  simp only [ok_bind, dumps_text_sorted]

theorem csv_bytes_sorted (h : Laid m run provisional metrics cases rows events missing) :
    _csv_bytes L (sorted m) = _csv_bytes L m := by
  unfold _csv_bytes
  rw [item_sorted h.cases, item_eq h.cases, get_sorted h.case_metrics, get_eq h.case_metrics,
    sorted_arr, sorted_arr]
  have hcase := mapM_sorted <| List.forall_mem_map.mpr fun case (_ : case ∈ cases) =>
    csv_case_sorted (L := L) case
  have hkey := mapM_sorted <| List.forall_mem_map.mpr fun case (_ : case ∈ cases) =>
    csv_case_key_sorted case
  have hmetric (case_keys : List (Json × Json)) :=
    mapM_sorted <| List.forall_mem_map.mpr fun row (_ : row ∈ rows) => csv_metric_sorted case_keys row
  simp only [ok_bind, elements, hcase, hkey, hmetric]

end Csv

section Html

theorem html_case_sorted (case : CaseRecord) :
    html_case L (sorted (case_entry case)) = html_case L (case_entry case) := by
  unfold html_case
  rw [item_same "case_id" rfl rfl, item_same "status" rfl rfl]

theorem html_case_metric_sorted (row : CaseMetricResultRecord L) :
    html_case_metric L (sorted (case_metric_entry row)) =
      html_case_metric L (case_metric_entry row) := by
  unfold html_case_metric
  rw [item_same "case_id" rfl rfl, item_same "metric_id" rfl rfl, item_same "status" rfl rfl,
    item_same "evidence_event_ids" rfl sorted_texts_arr]

section Metrics

variable (provisional : List Json) (row : RunMetricResultRecord L)

theorem partial_metric_sorted :
    partial_metric (sorted (metric_entry provisional row)) =
      partial_metric (metric_entry provisional row) := by
  unfold partial_metric
  rw [get_same "aggregation_state" rfl rfl]

theorem provisional_metric_sorted :
    provisional_metric (sorted (metric_entry provisional row)) =
      provisional_metric (metric_entry provisional row) := by
  unfold provisional_metric
  rw [get_same "provisional" rfl rfl]

theorem provisional_id_sorted :
    provisional_id L (sorted (metric_entry provisional row)) =
      provisional_id L (metric_entry provisional row) := by
  unfold provisional_id
  rw [provisional_metric_sorted, get_same "metric_id" rfl rfl]

theorem html_metric_sorted :
    html_metric L (sorted (metric_entry provisional row)) =
      html_metric L (metric_entry provisional row) := by
  unfold html_metric
  rw [get_same "metric_id" rfl rfl, get_same "value" rfl sorted_real,
    get_same "gate_status" rfl sorted_optional, get_same "aggregation_state" rfl rfl,
    get_same "provisional" rfl rfl]

end Metrics

theorem is_partial_sorted {xs ys : List Json} (h : any partial_metric xs = any partial_metric ys) :
    is_partial (sorted (run_entry run)) xs = is_partial (run_entry run) ys := by
  unfold is_partial
  rw [get_same "status" rfl rfl, h]

theorem html_text_sorted (h : Laid m run provisional metrics cases rows events missing) :
    _html_text L (sorted m) = _html_text L m := by
  have hcase := mapM_sorted <| List.forall_mem_map.mpr fun case (_ : case ∈ cases) =>
    html_case_sorted (L := L) case
  have hrow := mapM_sorted <| List.forall_mem_map.mpr fun row (_ : row ∈ rows) =>
    html_case_metric_sorted row
  have hmetric := mapM_sorted <| List.forall_mem_map.mpr fun row (_ : row ∈ metrics) =>
    html_metric_sorted provisional row
  have hid := mapM_sorted <| List.forall_mem_map.mpr fun row (_ : row ∈ metrics) =>
    provisional_id_sorted provisional row
  have hpartial := any_sorted <| List.forall_mem_map.mpr fun row (_ : row ∈ metrics) =>
    partial_metric_sorted provisional row
  have hprovisional := any_sorted <| List.forall_mem_map.mpr fun row (_ : row ∈ metrics) =>
    provisional_metric_sorted provisional row
  unfold _html_text
  rw [get_sorted h.run, get_eq h.run, get_sorted h.metrics, get_eq h.metrics, get_sorted h.evidence,
    get_eq h.evidence, item_sorted h.cases, item_eq h.cases, get_sorted h.case_metrics,
    get_eq h.case_metrics]
  rw [sorted_arr, sorted_arr, sorted_arr]
  simp only [ok_bind]
  rw [either_sorted (j := run_entry run) rfl, either_eq (j := run_entry run) rfl, elements_either,
    elements_either, either_sorted rfl, either_eq rfl]
  simp only [ok_bind, elements]
  rw [is_partial_sorted hpartial, hprovisional, hid, hmetric, hcase, hrow,
    get_same "missing_event_ids" rfl sorted_texts_arr, get_same "status" rfl rfl]

end Html

section Bundle

variable {event : Json} {files : List (String × Bytes)} {xs : List Json}

theorem string?_sorted : (sorted j).string? = j.string? := by
  cases j <;> rfl

theorem get_null_sorted : get key .null (sorted j) = (get key .null j).map sorted := by
  cases j with
  | obj kvs =>
    rw [sorted_obj, get, get, Keys.lookup_sort, Keys.lookup_map]
    cases kvs.lookup key <;> rfl
  | _       => rfl

-- An event has the same file, whatever the order of its keys.
theorem evidence_file_sorted : evidence_file L (sorted event) = evidence_file L event := by
  unfold evidence_file
  rw [get_null_sorted, encode_sorted]
  cases get "event_id" .null event with
  | error e  => rfl
  | ok value => cases value <;> rfl

theorem retained_event_id_sorted : retained_event_id (sorted event) = retained_event_id event := by
  unfold retained_event_id
  rw [get?_sorted]
  cases event.get? "event_id" with
  | none       => rfl
  | some value => exact string?_sorted

theorem retained_ids_sorted :
    (xs.map sorted).filterMap retained_event_id = xs.filterMap retained_event_id := by
  rw [List.filterMap_map]
  exact congrArg (List.filterMap · xs) <| funext fun _ => retained_event_id_sorted

-- A document that differs from another in the order of keys within one of its fields.
theorem encode_congr {j' : Json} (h : sorted j = sorted j') : encode L j = encode L j' := by
  rw [← encode_sorted, h, encode_sorted]

theorem bundle_manifest_sorted (events missing : List Json) (provenance : Json) :
    encode L (bundle_manifest L files (sorted m) (events.map sorted) missing (sorted provenance)) =
      encode L (bundle_manifest L files m events missing provenance) := by
  refine encode_congr ?_
  unfold bundle_manifest
  rw [json_bytes_sorted, retained_ids_sorted, sorted_obj, sorted_obj]
  simp only [List.map_cons, Prod.map, sorted_sorted]

theorem bundle_bytes_sorted (h : Laid m run provisional metrics cases rows events missing) :
    _bundle_bytes L (sorted m) = _bundle_bytes L m := by
  have hfile := mapM_sorted fun event (_ : event ∈ events) => evidence_file_sorted (L := L)
  let evidence : Json := .obj [("events", .arr events), ("missing_event_ids", .arr <| missing.map .str)]
  have hevents : evidence.get? "events" = some (.arr events) := rfl
  have hevidence : either (sorted evidence) (.obj []) = sorted evidence := either_sorted rfl
  have hprovenance : either (sorted provenance_entry) (.obj []) = sorted provenance_entry :=
    either_sorted rfl
  unfold _bundle_bytes
  rw [csv_bytes_sorted h, html_text_sorted h, json_bytes_sorted, get_sorted h.evidence,
    get_eq h.evidence, get_sorted h.provenance, get_eq h.provenance]
  simp only [ok_bind]
  rw [hevidence, hprovenance, either_eq (j := evidence) rfl, either_eq (j := provenance_entry) rfl,
    get_sorted hevents, get_eq hevents, get_same "missing_event_ids" rfl sorted_texts_arr, sorted_arr]
  simp only [ok_bind]
  rw [elements_either, elements_either]
  simp only [ok_bind]
  rw [hfile]
  simp only [bundle_manifest_sorted]

end Bundle

-- What is rendered of a manifest is rendered of it with its keys in order.
theorem render_sorted (h : Laid m run provisional metrics cases rows events missing)
    (format_name : String) : render L format_name (sorted m) = render L format_name m := by
  unfold render
  rw [json_bytes_sorted, csv_bytes_sorted h, html_text_sorted h, bundle_bytes_sorted h]

-- A manifest of this shape is rendered in every format.
section Success

theorem texts_eq {ids : List String} : texts (ids.map .str) = .ok ids := by
  unfold texts
  induction ids with
  | nil          => rfl
  | cons id ids ih =>
    rw [List.map_cons, List.mapM_cons, ih]
    rfl

theorem exists_mapM {f : Json → Except Error α} {e : β → Json} (xs : List β)
    (h : ∀ x, ∃ y, f (e x) = .ok y) : ∃ ys, (xs.map e).mapM f = .ok ys :=
  Except.exists_mapM_eq_ok_iff.mpr <| List.forall_mem_map.mpr fun x _ => h x

theorem exists_any {p : Json → Except Error Bool} {xs : List Json} (h : ∀ x ∈ xs, ∃ b, p x = .ok b) :
    ∃ b, any p xs = .ok b := by
  induction xs with
  | nil          => exact ⟨false, rfl⟩
  | cons x xs ih =>
    obtain ⟨hx, hxs⟩ := List.forall_mem_cons.mp h
    obtain ⟨b, hb⟩ := hx
    rw [any, hb, ok_bind]
    cases b
    · exact ih hxs
    · exact ⟨true, rfl⟩

theorem csv_metric_ok (case_keys : List (Json × Json)) (row : CaseMetricResultRecord L) :
    ∃ cells, csv_metric L case_keys (case_metric_entry row) = .ok cells := by
  have hids : (case_metric_entry row).get? "evidence_event_ids" =
      some (.arr <| row.evidence_event_ids.map .str) := rfl
  unfold csv_metric
  rw [item_eq hids]
  simp only [ok_bind, elements, texts_eq]
  exact ⟨_, rfl⟩

theorem csv_bytes_ok (h : Laid m run provisional metrics cases rows events missing) :
    ∃ bytes, _csv_bytes L m = .ok bytes := by
  have hcases : ∃ case_rows, (cases.map case_entry).mapM (csv_case L) = .ok case_rows :=
    exists_mapM _ fun case => ⟨_, rfl⟩
  have hkeys : ∃ case_keys, (cases.map case_entry).mapM csv_case_key = .ok case_keys :=
    exists_mapM _ fun case => ⟨_, rfl⟩
  obtain ⟨case_rows, hcase⟩ := hcases
  obtain ⟨case_keys, hkey⟩ := hkeys
  obtain ⟨metric_rows, hmetric⟩ := exists_mapM rows <| csv_metric_ok (L := L) case_keys
  unfold _csv_bytes
  rw [item_eq h.cases, get_eq h.case_metrics]
  simp only [ok_bind, elements, hcase, hkey, hmetric]
  exact ⟨_, rfl⟩

theorem html_case_metric_ok (row : CaseMetricResultRecord L) :
    ∃ text, html_case_metric L (case_metric_entry row) = .ok text := by
  have hids : (case_metric_entry row).get? "evidence_event_ids" =
      some (.arr <| row.evidence_event_ids.map .str) := rfl
  unfold html_case_metric
  rw [item_eq hids]
  simp only [ok_bind, elements, texts_eq]
  exact ⟨_, rfl⟩

theorem is_partial_ok (run : RunRecord L) {xs : List Json} (h : ∃ b, any partial_metric xs = .ok b) :
    ∃ b, is_partial (run_entry run) xs = .ok b := by
  have hstatus : (run_entry run).get? "status" = some (.str run.status) := rfl
  unfold is_partial
  rw [get_eq hstatus, ok_bind]
  split
  · exact ⟨true, rfl⟩
  · exact h

theorem provisional_id_ok (provisional : List Json) (row : RunMetricResultRecord L) :
    ∃ text, provisional_id L (metric_entry provisional row) = .ok text := by
  have hprovisional : provisional_metric (metric_entry provisional row) =
      .ok (decide (Json.bool (Json.str row.metric_id ∈ provisional) = .bool true)) := rfl
  unfold provisional_id
  rw [hprovisional, ok_bind]
  split
  · exact ⟨_, rfl⟩
  · exact ⟨_, rfl⟩

theorem html_text_ok (h : Laid m run provisional metrics cases rows events missing) :
    ∃ text, _html_text L m = .ok text := by
  have hpartials : ∃ b, any partial_metric (metrics.map <| metric_entry provisional) = .ok b :=
    exists_any <| List.forall_mem_map.mpr fun row _ => ⟨_, rfl⟩
  have hprovisionals : ∃ b, any provisional_metric (metrics.map <| metric_entry provisional) = .ok b :=
    exists_any <| List.forall_mem_map.mpr fun row _ => ⟨_, rfl⟩
  have hcases : ∃ texts, (cases.map case_entry).mapM (html_case L) = .ok texts :=
    exists_mapM _ fun case => ⟨_, rfl⟩
  have hmetrics : ∃ texts, (metrics.map <| metric_entry provisional).mapM (html_metric L) = .ok texts :=
    exists_mapM _ fun row => ⟨_, rfl⟩
  obtain ⟨incomplete, hpartial⟩ := is_partial_ok run hpartials
  obtain ⟨b, hprovisional⟩ := hprovisionals
  obtain ⟨ids, hid⟩ := exists_mapM metrics <| provisional_id_ok provisional
  obtain ⟨case_texts, hcase⟩ := hcases
  obtain ⟨row_texts, hrow⟩ := exists_mapM rows html_case_metric_ok
  obtain ⟨metric_texts, hmetric⟩ := hmetrics
  unfold _html_text
  rw [get_eq h.run, get_eq h.metrics, get_eq h.evidence, item_eq h.cases, get_eq h.case_metrics]
  simp only [ok_bind]
  rw [either_eq (j := run_entry run) rfl, elements_either]
  simp only [ok_bind, elements, hpartial, hprovisional, hid, hcase, hrow, hmetric]
  cases b
  · exact ⟨_, rfl⟩
  · exact ⟨_, rfl⟩

theorem evidence_file_ok (event : Json) {id : String} (h : event.get? "event_id" = some (.str id)) :
    ∃ file, evidence_file L event = .ok file := by
  unfold evidence_file
  rw [get_eq h]
  exact ⟨_, rfl⟩

theorem bundle_bytes_ok (h : Laid m run provisional metrics cases rows events missing)
    (hevents : ∀ event ∈ events, ∃ id, event.get? "event_id" = some (.str id)) :
    ∃ bytes, _bundle_bytes L m = .ok bytes := by
  obtain ⟨csv, hcsv⟩ := csv_bytes_ok h
  obtain ⟨html, hhtml⟩ := html_text_ok h
  have hfiles : ∃ files, events.mapM (evidence_file L) = .ok files :=
    Except.exists_mapM_eq_ok_iff.mpr fun event hevent =>
      (hevents event hevent).elim fun _ => evidence_file_ok event
  obtain ⟨files, hfile⟩ := hfiles
  let evidence : Json := .obj [("events", .arr events), ("missing_event_ids", .arr <| missing.map .str)]
  have hretained : evidence.get? "events" = some (.arr events) := rfl
  have hmissing : evidence.get? "missing_event_ids" = some (.arr <| missing.map .str) := rfl
  unfold _bundle_bytes
  rw [hcsv, hhtml, get_eq h.evidence, get_eq h.provenance]
  simp only [ok_bind]
  rw [either_eq (j := evidence) rfl, get_eq hretained, get_eq hmissing]
  simp only [ok_bind]
  rw [elements_either, elements_either]
  simp only [ok_bind, hfile]
  exact ⟨_, rfl⟩

-- The formats, each of which a manifest of this shape is rendered in.
def FORMATS : List String :=
  ["json", "csv", "html", "bundle"]

theorem render_ok (h : Laid m run provisional metrics cases rows events missing)
    (hevents : ∀ event ∈ events, ∃ id, event.get? "event_id" = some (.str id)) :
    ∀ format_name ∈ FORMATS, ∃ bytes, render L format_name m = .ok bytes := by
  obtain ⟨html, hhtml⟩ := html_text_ok h
  simp only [FORMATS, List.forall_mem_cons]
  refine ⟨⟨_, rfl⟩, csv_bytes_ok h, ⟨utf8 html, ?_⟩, bundle_bytes_ok h hevents, List.forall_mem_nil _⟩
  change (_html_text L m).map utf8 = _
  rw [hhtml]
  rfl

end Success

end Exports
