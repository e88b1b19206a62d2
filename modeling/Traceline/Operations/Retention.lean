import Traceline.Artifacts.Store
import Traceline.Library.Wp
import Traceline.Text
import Mathlib.Data.List.Sort
import Mathlib.Data.String.Basic

-- What a workspace keeps, and what the local retention policy removes from it.
namespace Operations

open Artifacts (ArtifactStore.delete_unreferenced Directory Path)
open Versions (Actor)

-- The columns of `jobs` that retention reads.
structure Job where
  workspace_id : String
  job_id       : String
  status       : String
  command_json : String
  result_json  : Option String
  updated_at   : String
  deriving DecidableEq, Repr

def Job.key (j : Job) : String × String :=
  (j.workspace_id, j.job_id)

structure ExportSnapshot where
  workspace_id : String
  export_id    : String
  created_at   : String
  deriving DecidableEq, Repr

def ExportSnapshot.key (e : ExportSnapshot) : String × String :=
  (e.workspace_id, e.export_id)

structure State (ι : Type) where
  store   : Artifacts.State ι
  jobs    : Table Job.key
  exports : Table ExportSnapshot.key

inductive Error
  | artifact (e : Artifacts.Error)
  | overflow_error
  deriving DecidableEq, Repr

def workflow_error (message : String) : Error :=
  .artifact <| .workflow_error message "validation_error" 422

section Storage

variable {ι : Type} (loads : String → Option Json)

-- `column LIKE pattern`, which does not tell the cases of the ASCII letters apart.
def like : List Char → List Char → Bool
  | [],        text => text.isEmpty
  | '%' :: ps, text => text.tails.any (like ps)
  | p :: ps,   text =>
    match text with
    | []      => false
    | c :: cs => (p = '_' || p.toLower = c.toLower) && like ps cs

-- `result["artifact_ids"]` of a row, where it is a list.
def artifact_ids (j : Job) : Option (List String) :=
  match j.result_json.bind loads with
  | some result =>
    match result.get? "artifact_ids" with
    | some (.arr items) => some (items.filterMap Json.string?)
    | _                 => none
  | none        => none

def State.workspace_jobs (s : State ι) (workspace_id : String) : List Job :=
  s.jobs.rows.filter fun j => j.workspace_id = workspace_id && j.result_json.isSome

-- ORDER BY updated_at DESC, job_id DESC
def newer (j j' : Job) : Prop :=
  j'.updated_at < j.updated_at ∨ (j'.updated_at = j.updated_at ∧ j'.job_id ≤ j.job_id)

instance : DecidableRel newer :=
  fun _ _ => inferInstanceAs (Decidable (_ ∨ _))

def State.preview_rows (s : State ι) (workspace_id : String) : List Job :=
  List.insertionSort newer <| (s.workspace_jobs workspace_id).filter fun j =>
    j.status = "completed" && like "%dashboard_preview%".toList j.command_json.toList

def keep_revisions : ℕ :=
  20

-- The loop of `preview_artifact_ids_before`.
def outdated (cutoff : String) : ℕ → List Job → List String
  | _,                  []          => []
  | retained_revisions, row :: rows =>
    match artifact_ids loads row with
    | none                    => outdated cutoff retained_revisions rows
    | some revision_artifacts =>
      if retained_revisions < keep_revisions then outdated cutoff (retained_revisions + 1) rows
      else if row.updated_at < cutoff then
        revision_artifacts ++ outdated cutoff retained_revisions rows
      else outdated cutoff retained_revisions rows

def State.preview_artifact_ids_before (s : State ι) (workspace_id cutoff : String) : List String :=
  (outdated loads cutoff 0 (s.preview_rows workspace_id)).dedup

def State.all_job_artifact_ids (s : State ι) (workspace_id : String) : List String :=
  ((s.workspace_jobs workspace_id).flatMap fun j => (artifact_ids loads j).getD []).dedup

def State.expired_exports (s : State ι) (workspace_id cutoff : String) : List ExportSnapshot :=
  s.exports.rows.filter fun e => e.workspace_id = workspace_id && e.created_at < cutoff

def State.delete_export_snapshots_before (s : State ι) (workspace_id cutoff : String) : State ι :=
  { s with
    exports := s.exports.delete fun e => e.workspace_id = workspace_id && e.created_at < cutoff }

end Storage

section Files

variable {ι : Type}

-- `workspace_id.replace("_", "").replace("-", "").isalnum()`
def _workspace_dir (py : Python) (workspace_id : String) : Except Error Unit :=
  let rest := workspace_id.toList.filter fun c => c ≠ '_' && c ≠ '-'
  if !rest.isEmpty && rest.all py.isalnum then .ok ()
  else .error <| workflow_error "invalid workspace identity"

def State._old_uploads (s : State ι) (workspace_id : String) (cutoff : ℚ) : List Path :=
  (s.store.files.rows.filter fun f =>
    f.path.directory = .quarantine && f.path.workspace_id = workspace_id &&
      f.path.name ≠ ".keep" && f.mtime < cutoff).map (·.path)

def old_staging (workspace_id : String) (cutoff : ℚ) (f : Artifacts.File) : Bool :=
  f.path.directory = .artifacts && f.path.workspace_id = workspace_id &&
    Artifacts.suffix f.path.name = ".stage" && f.mtime < cutoff

def State._old_staging_files (s : State ι) (workspace_id : String) (cutoff : ℚ) : ℕ :=
  s.store.files.rows.countP (old_staging workspace_id cutoff)

def State._delete_old_staging (s : State ι) (workspace_id : String) (cutoff : ℚ) : State ι :=
  { s with store := { s.store with
      files := s.store.files.delete (old_staging workspace_id cutoff) } }

-- The uploads that are still there when their turn comes.
def State.unlink_uploads (s : State ι) : List Path → ℕ × State ι
  | []            => (0, s)
  | path :: paths =>
    let found := (s.store.read path).isSome
    let (deleted, t) := unlink_uploads { s with store := s.store.unlink path } paths
    (deleted + found.toNat, t)

end Files

-- The arithmetic of `datetime`.
structure Clock (τ : Type) where
  now         : τ
  aware       : τ → Bool
  astimezone  : τ → Except Error τ
  minus_days  : τ → Int → Except Error τ
  minus_hours : τ → Int → Except Error τ
  isoformat   : τ → String
  timestamp   : τ → ℚ

-- The arguments of `enforce_retention`.
structure Request (τ : Type) where
  actor                  : Actor
  now                    : Option τ := none
  export_days            : Json := .int 7
  preview_days           : Json := .int 30
  abandoned_import_hours : Json := .int 24
  dry_run                : Bool := false

structure Cutoffs where
  export_cutoff  : String
  preview_cutoff : String
  upload_cutoff  : ℚ

structure Report where
  state             : String
  expired_exports   : ℕ
  preview_artifacts : ℕ
  abandoned_uploads : ℕ
  staging_files     : ℕ
  deriving DecidableEq, Repr

section Retention

variable {ι τ : Type} (py : Python) (loads : String → Option Json) (clock : Clock τ)

def at_least_one (name : String) : Json → Except Error Int
  | .int n =>
    if n < 1 then .error <| workflow_error s!"{name} must be an integer >= 1" else .ok n
  | _      => .error <| workflow_error s!"{name} must be an integer >= 1"

def Request.cutoffs (r : Request τ) : Except Error Cutoffs := do
  (Artifacts._require r.actor true r.actor.workspace_id).mapError .artifact
  let export_days ← at_least_one "export_days" r.export_days
  let preview_days ← at_least_one "preview_days" r.preview_days
  let abandoned_import_hours ← at_least_one "abandoned_import_hours" r.abandoned_import_hours
  let current := r.now.getD clock.now
  (Artifacts.check (clock.aware current)
    (.workflow_error "retention now must be timezone-aware" "validation_error" 422)).mapError .artifact
  let current ← clock.astimezone current
  let exports ← clock.minus_days current export_days
  let previews ← clock.minus_days current preview_days
  let uploads ← clock.minus_hours current abandoned_import_hours
  return ⟨clock.isoformat exports, clock.isoformat previews, clock.timestamp uploads⟩

-- What the policy selects, before it changes anything.
structure Candidates where
  cutoffs      : Cutoffs
  preview_ids  : List String
  upload_paths : List Path
  report       : Report

def State.candidates (s : State ι) (r : Request τ) : Except Error Candidates := do
  let cutoffs ← r.cutoffs clock
  let workspace_id := r.actor.workspace_id
  let preview_ids := s.preview_artifact_ids_before loads workspace_id cutoffs.preview_cutoff
  let protected_job_ids :=
    (s.all_job_artifact_ids loads workspace_id).filter (· ∉ preview_ids)
  let preview_ids := preview_ids.filter (· ∉ protected_job_ids)
  let export_rows := (s.expired_exports workspace_id cutoffs.export_cutoff).length
  _workspace_dir py workspace_id
  let upload_paths := s._old_uploads workspace_id cutoffs.upload_cutoff
  return {
    cutoffs
    preview_ids
    upload_paths
    report := {
      state             := "dry_run"
      expired_exports   := export_rows
      preview_artifacts := preview_ids.length
      abandoned_uploads := upload_paths.length
      staging_files     := s._old_staging_files workspace_id cutoffs.upload_cutoff
    }
  }

-- A system that serves every call.
def served : ∀ q, (Artifacts.sig ι).Answer q
  | .failure _                                     => none
  | .uuid4 | .tempname | .now | .versions _        => ""

def State.delete_unreferenced (s : State ι) (i : ι) (actor : Actor) (artifact_id : String) :
    Except Error Bool × State ι :=
  let r := (ArtifactStore.delete_unreferenced i actor actor.workspace_id artifact_id).eval
    (Artifacts.store ι) served s.store
  (r.1.mapError .artifact, { s with store := r.2 })

-- The artifacts that are deleted, one after the other, until one of them raises.
def State.delete_previews (i : ι) (actor : Actor) : State ι → List String → Except Error ℕ × State ι
  | s, []                => (.ok 0, s)
  | s, artifact_id :: ids =>
    match s.delete_unreferenced i actor artifact_id with
    | (.error e, t)    => (.error e, t)
    | (.ok deleted, t) =>
      let r := delete_previews i actor t ids
      (r.1.map (· + deleted.toNat), r.2)

def State.complete (s : State ι) (i : ι) (actor : Actor) (c : Candidates) :
    Except Error Report × State ι :=
  let workspace_id := actor.workspace_id
  let deleted_exports := (s.expired_exports workspace_id c.cutoffs.export_cutoff).length
  let s := s.delete_export_snapshots_before workspace_id c.cutoffs.export_cutoff
  match s.delete_previews i actor (List.insertionSort (· ≤ ·) c.preview_ids) with
  | (.error e, s)             => (.error e, s)
  | (.ok preview_artifacts, s) =>
    let (deleted_uploads, s) := s.unlink_uploads c.upload_paths
    let deleted_staging := s._old_staging_files workspace_id c.cutoffs.upload_cutoff
    (.ok {
      state             := "completed"
      expired_exports   := deleted_exports
      preview_artifacts
      abandoned_uploads := deleted_uploads
      staging_files     := deleted_staging
    }, s._delete_old_staging workspace_id c.cutoffs.upload_cutoff)

def State.enforce_retention (s : State ι) (i : ι) (r : Request τ) : Except Error Report × State ι :=
  match s.candidates py loads clock r with
  | .error e => (.error e, s)
  | .ok c    => if r.dry_run then (.ok c.report, s) else s.complete i r.actor c

end Retention

end Operations
