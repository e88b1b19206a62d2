import Traceline.Exports.Formats
import Traceline.Exports.Theorems.Manifest
import Traceline.Library.Machine

-- What an export holds, and what is served of it however the store goes on.
namespace Exports

open Datasets (sorted)

-- What happens to the store: a call that freezes an export, the retention, or anything that leaves
-- the exports alone.
inductive Act
  | freeze (workspace_id run_id : String) (case_ids metric_ids : Option (List String))
    (export_id now : String)
  | delete (workspace_id cutoff : String)
  | other

def Act.export_id : Act → Option String
  | .freeze _ _ _ _ export_id _ => some export_id
  | _                           => none

def exports (L : Python) : Machine (State L) Act where
  init s     := s.export_snapshots = .empty
  step s a t :=
    match a with
    | .freeze workspace_id run_id case_ids metric_ids export_id now =>
      t = (freeze s workspace_id run_id case_ids metric_ids export_id now).2
    | .delete workspace_id cutoff => t = delete_export_snapshots_before s workspace_id cutoff
    | .other                      => t.export_snapshots = s.export_snapshots

variable {L : Python} {s t u : State L} {workspace_id run_id export_id now : String}
variable {run : RunRecord L} {case_ids metric_ids : Option (List String)} {acts : List Act}
variable {a : Act}

section Rows

-- A filter names every id if it is absent.
def named (ids : Option (List String)) (id : String) : Bool :=
  match ids with
  | none     => true
  | some ids => ids.contains id

-- A manifest holds the rows that the filters name, and no others.
structure Exact (s : State L) (workspace_id run_id : String) (case_ids metric_ids : Option (List String))
    (run : RunRecord L) (m : Json) : Prop where
  metrics      : m.get? "metrics" = some (.arr <| ((s.get_run_metric_results run_id workspace_id).filter
    (named metric_ids ·.metric_id)).map <| metric_entry <| provisional_metric_ids run.spec_json)
  cases        : m.get? "cases" = some (.arr <| ((s.list_cases run_id workspace_id).filter
    (named case_ids ·.case_id)).map case_entry)
  case_metrics : m.get? "case_metrics" = some (.arr <| ((s.get_case_scores run_id workspace_id).filter
    fun row => named case_ids row.case_id && named metric_ids row.metric_id).map case_metric_entry)

-- An empty filter has nothing to leave out.
structure Selective (s : State L) (workspace_id run_id : String)
    (case_ids metric_ids : Option (List String)) : Prop where
  metrics      : metric_ids = some [] → s.get_run_metric_results run_id workspace_id = []
  cases        : case_ids = some [] → s.list_cases run_id workspace_id = []
  case_metrics : case_ids = some [] ∨ metric_ids = some [] →
    ∀ row ∈ s.get_case_scores run_id workspace_id,
      ¬ (selects case_ids row.case_id ∧ selects metric_ids row.metric_id)

theorem selects_eq {ids : Option (List String)} (h : ids ≠ some []) (id : String) :
    selects ids id = named ids id := by
  cases ids with
  | none     => rfl
  | some ids =>
    cases ids with
    | nil      => exact absurd rfl h
    | cons _ _ => rfl

theorem filter_eq_filter_iff {α β : Type} {p q : α → Bool} {e : α → β} {xs : List α} (b : Prop)
    (hsame : ¬ b → p = q) (hnone : b → ∀ x, q x = false) :
    (xs.filter p).map e = (xs.filter q).map e ↔ (b → ∀ x ∈ xs, ¬ p x) := by
  by_cases hb : b
  case pos =>
    rw [List.filter_eq_nil_iff.mpr fun x _ hq => Bool.noConfusion <| hq.symm.trans <| hnone hb x,
      List.map_nil, List.map_eq_nil_iff, List.filter_eq_nil_iff]
    exact ⟨fun h _ => h, fun h => h hb⟩
  case neg => exact iff_of_true (by rw [hsame hb]) fun h => absurd h hb

theorem filter_selects_iff {α β : Type} {e : α → β} {key : α → String} {xs : List α}
    {ids : Option (List String)} :
    (xs.filter (selects ids <| key ·)).map e = (xs.filter (named ids <| key ·)).map e ↔
      (ids = some [] → xs = []) := by
  rw [filter_eq_filter_iff (ids = some []) (fun h => funext fun x => selects_eq h _)
    (fun h x => by rw [h]; rfl)]
  refine forall_congr' fun h => ?_
  rw [h]
  refine ⟨fun hnot => List.eq_nil_iff_forall_not_mem.mpr fun x hx => hnot x hx rfl, fun hnil => ?_⟩
  rw [hnil]
  exact List.forall_mem_nil _

-- A manifest is exact if no filter is empty where there are rows that it would leave out.
theorem exact_payload_iff (run : RunRecord L) :
    Exact s workspace_id run_id case_ids metric_ids run
        (payload s workspace_id run_id case_ids metric_ids run) ↔
      Selective s workspace_id run_id case_ids metric_ids := by
  have hrows : (case_metric_rows s workspace_id run_id case_ids metric_ids).map case_metric_entry =
      ((s.get_case_scores run_id workspace_id).filter fun row =>
        named case_ids row.case_id && named metric_ids row.metric_id).map case_metric_entry ↔
      (case_ids = some [] ∨ metric_ids = some [] → ∀ row ∈ s.get_case_scores run_id workspace_id,
        ¬ (selects case_ids row.case_id && selects metric_ids row.metric_id)) := by
    refine filter_eq_filter_iff _ (fun h => funext fun row => ?_) ?_
    · obtain ⟨hcases, hmetrics⟩ := not_or.mp h
      rw [selects_eq hcases, selects_eq hmetrics]
    · rintro (h | h) row
      · rw [h]
        rfl
      · rw [h]
        exact Bool.and_false _
  simp only [Bool.and_eq_true] at hrows
  refine ⟨fun h => ⟨?_, ?_, ?_⟩, fun h => ⟨?_, ?_, ?_⟩⟩
  · exact filter_selects_iff.mp <| Json.arr.inj <| Option.some.inj h.metrics
  · exact filter_selects_iff.mp <| Json.arr.inj <| Option.some.inj h.cases
  · exact hrows.mp <| Json.arr.inj <| Option.some.inj h.case_metrics
  · exact congrArg (some <| Json.arr ·) <| filter_selects_iff.mpr h.metrics
  · exact congrArg (some <| Json.arr ·) <| filter_selects_iff.mpr h.cases
  · exact congrArg (some <| Json.arr ·) <| hrows.mpr h.case_metrics

end Rows

section Store

variable {k : String × String} {format_name : String} {bytes : Bytes} {formats : List (String × String)}

-- What there is under a key is as it was, or deleted.
def Kept (k : String × String) (s t : State L) : Prop :=
  t.export_snapshots.find k = none ∨ t.export_snapshots.find k = s.export_snapshots.find k

theorem Kept.trans (h : Kept k s t) (h' : Kept k t u) : Kept k s u := by
  rcases h' with hnone | hsame
  · exact .inl hnone
  · exact h.imp hsame.trans hsame.trans

theorem kept_delete (cutoff : String) :
    Kept k s (delete_export_snapshots_before s workspace_id cutoff) := by
  cases hfind : (delete_export_snapshots_before s workspace_id cutoff).export_snapshots.find k with
  | none   => exact .inl hfind
  | some r =>
    obtain ⟨hmem, hkey⟩ := Table.find_eq_some_iff.mp hfind
    have hold := Table.find_eq_some_iff.mpr ⟨(Table.mem_delete.mp hmem).left, hkey⟩
    exact .inr <| hfind.trans hold.symm

theorem find_create {manifest : Json} {manifest_sha256 : String}
    (h : create_export_snapshot s workspace_id run_id export_id manifest_sha256 now manifest = .ok t) :
    ∃ row : ExportSnapshot, row.manifest_json = encode L manifest ∧
      ∀ k, t.export_snapshots.find k =
        if (workspace_id, export_id) = k then some row else s.export_snapshots.find k := by
  unfold create_export_snapshot at h
  split at h
  case isTrue  => cases h
  case isFalse =>
    dsimp only at h
    split at h
    case h_1         => cases h
    case h_2 hinsert =>
      cases h
      exact ⟨_, rfl, fun k => Table.find_insert hinsert⟩

theorem kept_freeze (hk : k.2 ≠ export_id) :
    Kept k s (freeze s workspace_id run_id case_ids metric_ids export_id now).2 := by
  unfold freeze
  dsimp only
  split
  case h_1 => exact .inr rfl
  case h_2 snapshot t hcreated =>
    obtain ⟨snapshot', -, hcreated⟩ := Except.bind_eq_ok_iff.mp hcreated
    obtain ⟨t', hcreate, ht⟩ := Except.bind_eq_ok_iff.mp hcreated
    cases ht
    obtain ⟨row, -, hfind⟩ := find_create hcreate
    exact .inr <| (hfind k).trans <| if_neg fun heq => hk (congrArg Prod.snd heq).symm

theorem kept_step (h : (exports L).step s a t) (ha : a.export_id ≠ some k.2) : Kept k s t := by
  cases a with
  | freeze workspace_id run_id case_ids metric_ids export_id now =>
    cases h
    exact kept_freeze fun heq => ha <| congrArg some heq.symm
  | delete workspace_id cutoff =>
    cases h
    exact kept_delete cutoff
  | other                      => exact .inr <| congrArg (·.find k) h

-- Of an export nothing changes, until it is deleted.
theorem kept_run (h : (exports L).Run s acts t) (hacts : ∀ a ∈ acts, a.export_id ≠ some k.2) :
    Kept k s t := by
  induction h with
  | refl        => exact .inr rfl
  | step _ e ih =>
    exact (ih fun a ha => hacts a <| List.mem_append_left _ ha).trans <|
      kept_step e <| hacts _ <| List.mem_append_right _ <| .head _

end Store

section Serve

variable {formats : List (String × String)} {row : ExportSnapshot} {format_name : String}

theorem hash_of_mem {m : Json} (h : format_hashes L m = .ok formats) {kv : String × String}
    (hkv : kv ∈ formats) : ∃ bytes, render L kv.1 m = .ok bytes ∧ L.digest bytes = kv.2 := by
  obtain ⟨format_name, -, hformat⟩ := Except.exists_of_mapM_eq_ok h hkv
  obtain ⟨bytes, hbytes, heq⟩ := Except.bind_eq_ok_iff.mp hformat
  cases heq
  exact ⟨bytes, hbytes, rfl⟩

theorem formats_eq {m : Json} (h : format_hashes L m = .ok formats) : formats.map (·.1) = FORMATS := by
  have hforall : List.Forall₂ (fun format_name kv => format_name = kv.1) FORMATS formats := by
    refine (Except.mapM_eq_ok_iff.mp h).imp fun format_name kv hformat => ?_
    obtain ⟨bytes, -, heq⟩ := Except.bind_eq_ok_iff.mp hformat
    cases heq
    rfl
  have hmap : List.Forall₂ Eq FORMATS (formats.map (·.1)) := List.forall₂_map_right_iff.mpr hforall
  rw [List.forall₂_eq_eq_eq] at hmap
  exact hmap.symm

theorem format_hashes_sorted (run : RunRecord L) :
    format_hashes L (sorted <| payload s workspace_id run_id case_ids metric_ids run) =
      format_hashes L (payload s workspace_id run_id case_ids metric_ids run) := by
  unfold format_hashes
  simp only [render_sorted (laid_payload run)]

theorem format_hashes_ok (run : RunRecord L) :
    ∃ formats, format_hashes L (payload s workspace_id run_id case_ids metric_ids run) = .ok formats := by
  refine Except.exists_mapM_eq_ok_iff.mpr fun format_name hformat => ?_
  have hevents : ∀ event ∈ included_events s workspace_id run_id case_ids metric_ids,
      ∃ id, event.get? "event_id" = some (.str id) := by
    intro event hevent
    obtain ⟨id, -, hlookup⟩ := List.mem_filterMap.mp hevent
    exact ⟨id, (lookup_retained_events hlookup).right⟩
  obtain ⟨bytes, hbytes⟩ := render_ok (laid_payload run) hevents format_name hformat
  rw [hbytes]
  exact ⟨_, rfl⟩

-- What is served of a manifest that was stored.
theorem frozen_bytes_eq
    (hfind : u.export_snapshots.find (workspace_id, export_id) = some row)
    (hjson : row.manifest_json = encode L (payload s workspace_id run_id case_ids metric_ids run)) :
    frozen_bytes u workspace_id export_id format_name =
      render L format_name (payload s workspace_id run_id case_ids metric_ids run) := by
  have hhashes : ∃ formats, format_hashes L (payload s workspace_id run_id case_ids metric_ids run) =
      .ok formats := format_hashes_ok run
  obtain ⟨formats, hformats⟩ := hhashes
  unfold frozen_bytes frozen
  rw [hfind]
  dsimp only
  rw [hjson, loads_payload]
  dsimp only
  rw [format_hashes_sorted, hformats, ok_bind]
  exact render_sorted (laid_payload run) format_name

end Serve

-- An export holds what its filters name, tells of each id that it cites whether the event is there,
-- and is served in each format as it was when it was frozen.
structure Faithful (s t : State L) (workspace_id run_id export_id : String)
    (case_ids metric_ids : Option (List String)) (run : RunRecord L) (frozen : Frozen) : Prop where
  exact   : Exact s workspace_id run_id case_ids metric_ids run frozen.manifest
  closed  : ∃ rows events missing, Closed frozen.manifest rows events missing
  formats : frozen.formats.map (·.1) = FORMATS
  served  : ∀ acts u, (exports L).Run t acts u → (∀ a ∈ acts, a.export_id ≠ some export_id) →
    u.export_snapshots.find (workspace_id, export_id) = none ∨ ∀ kv ∈ frozen.formats, ∃ bytes,
      frozen_bytes u workspace_id export_id kv.1 = .ok bytes ∧ L.digest bytes = kv.2

def ExportsFaithfully (s : State L) (workspace_id run_id : String)
    (case_ids metric_ids : Option (List String)) (export_id now : String) : Prop :=
  ∃ run frozen t, s.get_run run_id workspace_id = some run ∧
    freeze s workspace_id run_id case_ids metric_ids export_id now = (.ok frozen, t) ∧
    Faithful s t workspace_id run_id export_id case_ids metric_ids run frozen

section Freeze

variable {formats : List (String × String)}

theorem create_ok {manifest : Json} {manifest_sha256 : String} (hid : is_export_id export_id)
    (hfresh : s.export_snapshots.find (workspace_id, export_id) = none) :
    ∃ t, create_export_snapshot s workspace_id run_id export_id manifest_sha256 now manifest = .ok t := by
  unfold create_export_snapshot
  rw [if_neg (not_not.mpr hid)]
  dsimp only
  split
  case h_1 hinsert =>
    obtain ⟨row, hrow⟩ := Table.insert_eq_none_iff.mp hinsert
    cases hrow.symm.trans hfresh
  case h_2         => exact ⟨_, rfl⟩

-- A run is frozen under an id that is new.
theorem freeze_ok (now : String) (hrun : s.get_run run_id workspace_id = some run)
    (hcases : duplicated case_ids = false) (hmetrics : duplicated metric_ids = false)
    (hid : is_export_id export_id)
    (hfresh : s.export_snapshots.find (workspace_id, export_id) = none) :
    ∃ (frozen : Frozen) (t : State L) (row : ExportSnapshot),
      freeze s workspace_id run_id case_ids metric_ids export_id now = (.ok frozen, t) ∧
      frozen.manifest = payload s workspace_id run_id case_ids metric_ids run ∧
      format_hashes L frozen.manifest = .ok frozen.formats ∧
      t.export_snapshots.find (workspace_id, export_id) = some row ∧
      row.manifest_json = encode L frozen.manifest := by
  have hhashes : ∃ formats, format_hashes L (payload s workspace_id run_id case_ids metric_ids run) =
      .ok formats := format_hashes_ok run
  have hmanifest : _manifest s workspace_id run_id case_ids metric_ids =
      let manifest := payload s workspace_id run_id case_ids metric_ids run
      .ok ⟨manifest, L.digest <| utf8 <| encode L manifest⟩ := by
    unfold _manifest
    rw [hrun, hcases, hmetrics]
    rfl
  dsimp only at hmanifest
  generalize payload s workspace_id run_id case_ids metric_ids run = manifest at hhashes hmanifest ⊢
  generalize L.digest (utf8 <| encode L manifest) = sha256 at hmanifest
  have hcreates : ∃ t, create_export_snapshot s workspace_id run_id export_id sha256 now manifest =
      .ok t := create_ok hid hfresh
  obtain ⟨formats, hformats⟩ := hhashes
  obtain ⟨t, hcreate⟩ := hcreates
  obtain ⟨row, hjson, hfind⟩ := find_create hcreate
  let frozen : Frozen := { export_id, workspace_id, run_id, manifest, sha256, created_at := now, formats }
  refine ⟨frozen, t, row, ?_, rfl, hformats, (hfind _).trans <| if_pos rfl, hjson⟩
  unfold freeze
  rw [hmanifest, ok_bind, hcreate, ok_bind]
  dsimp only [pure, Except.pure]
  rw [hformats]
  rfl

end Freeze

-- What is frozen is exact only if no empty filter had something to leave out.
theorem selective_of_faithful (hrun : s.get_run run_id workspace_id = some run)
    (hcases : duplicated case_ids = false) (hmetrics : duplicated metric_ids = false)
    (hid : is_export_id export_id)
    (hfresh : s.export_snapshots.find (workspace_id, export_id) = none)
    (h : ExportsFaithfully s workspace_id run_id case_ids metric_ids export_id now) :
    Selective s workspace_id run_id case_ids metric_ids := by
  obtain ⟨frozen, t, row, hfreeze, hmanifest, -, -, -⟩ := freeze_ok now hrun hcases hmetrics hid hfresh
  obtain ⟨run', frozen', t', hrun', hfreeze', hfaithful⟩ := h
  cases hrun.symm.trans hrun'
  cases hfreeze.symm.trans hfreeze'
  exact (exact_payload_iff run).mp <| hmanifest ▸ hfaithful.exact

-- An export is faithful if and only if no empty filter had something to leave out.
theorem export_faithful_iff (s : State L) (hrun : s.get_run run_id workspace_id = some run)
    (hcases : duplicated case_ids = false) (hmetrics : duplicated metric_ids = false)
    (hid : is_export_id export_id)
    (hfresh : s.export_snapshots.find (workspace_id, export_id) = none) :
    ExportsFaithfully s workspace_id run_id case_ids metric_ids export_id now ↔
      Selective s workspace_id run_id case_ids metric_ids := by
  refine ⟨selective_of_faithful hrun hcases hmetrics hid hfresh, fun hselective => ?_⟩
  obtain ⟨frozen, t, row, hfreeze, hmanifest, hformats, hfind, hjson⟩ :=
    freeze_ok now hrun hcases hmetrics hid hfresh
  have hexact := (exact_payload_iff run).mpr hselective
  rw [← hmanifest] at hexact
  refine ⟨run, frozen, t, hrun, hfreeze, hexact, ?_, formats_eq hformats, fun acts u hu hacts => ?_⟩
  · rw [hmanifest]
    exact ⟨_, _, _, closed_payload run⟩
  · refine (kept_run (k := (workspace_id, export_id)) hu hacts).imp_right fun hkept kv hkv => ?_
    obtain ⟨bytes, hbytes, hdigest⟩ := hash_of_mem hformats hkv
    refine ⟨bytes, ?_, hdigest⟩
    rw [frozen_bytes_eq (hkept.trans hfind) (hmanifest ▸ hjson), ← hmanifest, hbytes]

namespace Sample

def python : Python where
  repr _        := "0.5"
  sha256        := id
  int _         := none
  quoted        := id
  inner _       := ""
  dict_reader _ := none
  digest bytes  := String.ofList <| bytes.map fun byte => Char.ofNat byte.toNat
  archive files := files.flatMap (·.2)

def nothing : Held python :=
  ⟨.obj [], .obj .nil <| List.forall_mem_nil _⟩

def null : Held python :=
  ⟨.null, .null⟩

def record : RunRecord python where
  run_id           := "r"
  workspace_id     := "w"
  project_id       := none
  run_manifest_ref := none
  spec_json        := "\x7b\x7d"
  agent_version    := nothing
  status           := "complete"
  tier             := "quick"
  repeats          := 1
  retry_max        := 0
  world_config     := nothing
  run_completed_at := none
  created_at       := "2025"

def score : CaseMetricResultRecord python where
  run_id             := "r"
  workspace_id       := "w"
  case_id            := "c"
  metric_id          := "m"
  score_revision     := 1
  status             := "PASS"
  score              := none
  raw_value          := null
  evidence_event_ids := ["e", "f"]
  evaluator_version  := none
  judge_binding      := null
  is_authoritative   := true
  on_retry_override  := false
  overridden         := false
  computed_at        := "2025"

def event : TraceEvent python where
  run_id       := "r"
  workspace_id := "w"
  event_id     := "e"
  timestamp    := "2025"
  sequence     := 0
  model_dump   := ⟨.obj [("event_id", .str "e")], .obj (List.nodup_singleton _) <| by
    simp only [List.forall_mem_cons]
    exact ⟨.str _, List.forall_mem_nil _⟩⟩
  event_id_eq  := rfl

-- A run of two cases, of which one has a score that cites an event that is left and one that is not.
def state : State python where
  runs                    := [record]
  run_cases               := [⟨"r", "w", "c", "key", "completed", none, none⟩,
    ⟨"r", "w", "d", "other", "completed", none, none⟩]
  run_metric_results      := []
  run_case_metric_results := [score]
  trace_events            := [event]
  export_snapshots        := .empty

def new_id : String :=
  "0123456789abcdef0123456789abcdef"

theorem new_id_ok : is_export_id new_id := by
  decide +kernel

end Sample

open Sample in
theorem export_of_one_case : ExportsFaithfully state "w" "r" (some ["c"]) none new_id "2026" :=
  (export_faithful_iff state (rfl : state.get_run "r" "w" = some record) rfl rfl new_id_ok rfl).mpr
    ⟨fun _ => rfl, fun h => absurd h (by decide), fun h => absurd h (by decide)⟩

open Sample in
-- An empty list of cases is taken for none that is given.
theorem not_export_of_no_case : ¬ ExportsFaithfully state "w" "r" (some []) none new_id "2026" := by
  intro h
  have hnone : state.list_cases "r" "w" = [] :=
    (selective_of_faithful (rfl : state.get_run "r" "w" = some record) rfl rfl new_id_ok rfl h).cases rfl
  exact absurd hnone (by decide)

end Exports
