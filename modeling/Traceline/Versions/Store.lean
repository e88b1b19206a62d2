import Traceline.Library.Table
import Traceline.Library.Wp
import Traceline.Python

-- Immutable versions of an object, with a pointer to the active one.
namespace Versions

inductive Role
  | owner
  | editor
  | viewer
  deriving DecidableEq, Repr

structure Actor where
  actor_id     : String
  workspace_id : String
  role         : Role

structure VersionRecord where
  version_id           : String
  workspace_id         : String
  kind                 : String
  parent_id            : String
  previous_version_id  : Option String
  content_digest       : String
  revision             : ℕ
  actor_id             : String
  created_at           : String
  content              : List (String × Json)
  authoring_provenance : List (String × Json)
  deriving DecidableEq

-- A row of `version_heads`.
structure VersionHead where
  workspace_id      : String
  kind              : String
  parent_id         : String
  active_version_id : Option String
  revision          : ℕ
  deriving DecidableEq, Repr

-- A row of `version_artifacts`.
structure VersionArtifact where
  workspace_id : String
  version_id   : String
  artifact_id  : String
  deriving DecidableEq, Repr

def VersionRecord.id (v : VersionRecord) : String × String :=
  (v.workspace_id, v.version_id)

-- What a version is a version of.
def VersionRecord.key (v : VersionRecord) : String × String × String :=
  (v.workspace_id, v.kind, v.parent_id)

def VersionHead.key (h : VersionHead) : String × String × String :=
  (h.workspace_id, h.kind, h.parent_id)

-- SET active_version_id, revision
def VersionHead.activate (v : VersionRecord) (h : VersionHead) : VersionHead :=
  { h with active_version_id := some v.version_id, revision := v.revision }

theorem VersionRecord.key_activate (v : VersionRecord) (h : VersionHead) :
    (h.activate v).key = h.key :=
  rfl

-- The tables an object with versions may have its row in.
inductive ParentTable
  | projects
  | custom_evals
  | datasets
  | targets
  deriving DecidableEq, Repr

structure Parent where
  table        : ParentTable
  workspace_id : String
  parent_id    : String
  deriving DecidableEq, Repr

-- An artifact is ready once its row is there.
structure State where
  parents    : List Parent
  artifacts  : List (String × String)
  heads      : Table VersionHead.key
  versions   : Table VersionRecord.id
  references : Table (id : VersionArtifact → VersionArtifact)

inductive Error
  | workflow_error (message code : String) (status : ℕ)
  | not_found
  | revision_conflict (current_revision : ℕ)
  | integrity_error (constraint : String)
  | type_error (message : String)
  deriving DecidableEq, Repr

def validation_error (message : String) : Error :=
  .workflow_error message "validation_error" 422

def Actor.require_write (a : Actor) : Except Error Unit :=
  if a.actor_id = "" || a.workspace_id = "" then
    .error <| .workflow_error "Authentication required" "unauthorized" 401
  else if a.role = .viewer then
    .error <| .workflow_error "Editing permission required" "forbidden" 403
  else .ok ()

-- The statements of the transaction.
inductive Statement
  | select_parent (p : Parent)
  | insert_head (workspace_id kind parent_id : String)
  | select_head (workspace_id kind parent_id : String)
  | select_artifact (workspace_id artifact_id : String)
  | insert_version (v : VersionRecord)
  | insert_reference (r : VersionArtifact)
  | update_head (v : VersionRecord) (expected_revision : ℕ)

inductive Query
  | uuid4
  | now

abbrev sql : Sig where
  Call := Statement
  Reply
    | .select_parent _ | .select_artifact .. => Bool
    | .select_head ..                        => Option VersionHead
    | .update_head ..                        => ℕ
    | _                                      => Unit
  Query    := Query
  Answer _ := String
  Error    := Error

namespace State

variable (s : State)

-- INSERT INTO version_heads … ON CONFLICT DO NOTHING
def insert_head (workspace_id kind parent_id : String) : State :=
  { s with heads := (s.heads.insert ⟨workspace_id, kind, parent_id, none, 0⟩).getD s.heads }

def insert_version (v : VersionRecord) : Except Error Unit × State :=
  if s.versions.rows.any fun v' => v'.key = v.key && v'.revision = v.revision then
    (.error (.integrity_error
      "object_versions.workspace_id, kind, parent_id, revision"), s)
  else if v.previous_version_id.any fun id => (s.versions.find (v.workspace_id, id)).isNone then
    (.error (.integrity_error "object_versions.previous_version_id"), s)
  else
    match s.versions.insert v with
    | none          => (.error (.integrity_error "object_versions.version_id"), s)
    | some versions => (.ok (), { s with versions })

def insert_reference (r : VersionArtifact) : Except Error Unit × State :=
  if (s.versions.find (r.workspace_id, r.version_id)).isNone ||
      (r.workspace_id, r.artifact_id) ∉ s.artifacts then
    (.error (.integrity_error "version_artifacts"), s)
  else
    match s.references.insert r with
    | none            => (.error (.integrity_error "version_artifacts.artifact_id"), s)
    | some references => (.ok (), { s with references })

-- UPDATE version_heads SET … WHERE revision = expected_revision, which replies how many rows it set
def update_head (v : VersionRecord) (expected_revision : ℕ) : ℕ × State :=
  let selected := fun h : VersionHead => h.key = v.key && h.revision = expected_revision
  (s.heads.rows.countP selected,
    { s with heads := s.heads.update selected (·.activate v) v.key_activate })

end State

abbrev store : Store sql where
  State := State
  perform
    | .select_parent p, s                    => (.ok (p ∈ s.parents : Bool), s)
    | .insert_head workspace_id kind parent_id, s =>
      (.ok (), s.insert_head workspace_id kind parent_id)
    | .select_head workspace_id kind parent_id, s =>
      (.ok (s.heads.find (workspace_id, kind, parent_id)), s)
    | .select_artifact workspace_id artifact_id, s =>
      (.ok ((workspace_id, artifact_id) ∈ s.artifacts : Bool), s)
    | .insert_version v, s                   => s.insert_version v
    | .insert_reference r, s                 => s.insert_reference r
    | .update_head v expected_revision, s    =>
      (.ok (s.update_head v expected_revision).1, (s.update_head v expected_revision).2)

def VERSION_KINDS : List String := [
  "source", "knowledge", "evaluation", "dataset", "target", "connection", "dashboard", "evaluator",
  "model_profile", "model_selection", "judge_rubric"
]

-- The arguments of a call of `VersionStore.create`.
structure Request where
  kind              : String
  parent_id         : String
  content           : Json
  expected_revision : Json
  actor             : Actor

-- What is left of a request once its checks went through.
structure Checked where
  content              : List (String × Json)
  expected_revision    : ℕ
  authoring_provenance : List (String × Json)
  artifact_ids         : List String
  deriving DecidableEq

namespace Request

def nonnegative? : Json → Option ℕ
  | .int (.ofNat n) => some n
  | _               => none

def artifact_ids? : Json → Option (List String)
  | .arr ids => ids.mapM Json.string?
  | _        => none

def demand (o : Option α) (message : String) : Except Error α :=
  match o with
  | some a => .ok a
  | none   => .error <| validation_error message

def check (r : Request) : Except Error Checked := do
  r.actor.require_write
  let content ← demand (if r.kind ∈ VERSION_KINDS then r.content.fields? else none)
    "A supported version kind and JSON object are required"
  let expected_revision ← demand (nonnegative? r.expected_revision)
    "expected_revision must be a nonnegative integer"
  let identity := ["workspace_id", "actor_id", "created_at", "revision"]
  let _ ← demand (if identity.all fun k => (r.content.get? k).isNone then some () else none)
    "Identity and revision come from trusted context"
  let _ ← demand (if r.content.finiteFloats then some () else none) "Content must be finite JSON"
  let human := Json.obj [("type", .str "human"), ("actor_id", .str r.actor.actor_id)]
  let authoring_provenance ← demand ((r.content.get? "authoring_provenance").getD human).fields?
    "authoring_provenance must be an object"
  let artifact_ids ← demand (artifact_ids? <| (r.content.get? "artifact_ids").getD (.arr []))
    "artifact_ids must be a list of IDs"
  return { content, expected_revision, authoring_provenance, artifact_ids }

end Request

section Create

def execute (c : Statement) : Prog sql (sql.Reply c) :=
  Prog.perform (S := sql) c

def ask (q : Query) : Prog sql String :=
  Prog.query (S := sql) q

variable (sha256 : List (String × Json) → String)

def find_parent (workspace_id parent_id : String) : List ParentTable → Prog sql Unit
  | []              => throw .not_found
  | table :: tables => do
    let found ← execute (.select_parent { table, workspace_id, parent_id })
    if found then return
    find_parent workspace_id parent_id tables

def _parent (parent_id : String) (actor : Actor) : Prog sql Unit :=
  find_parent actor.workspace_id parent_id [.projects, .custom_evals, .datasets, .targets]

def ready (actor : Actor) (artifact_id : String) : Prog sql PUnit := do
  let found ← execute (.select_artifact actor.workspace_id artifact_id)
  if !found then throw .not_found

def reference (record : VersionRecord) (artifact_id : String) : Prog sql PUnit :=
  execute (.insert_reference {
    workspace_id := record.workspace_id
    version_id   := record.version_id
    artifact_id
  })

-- The version a call writes over a head.
def version_record (r : Request) (c : Checked) (head : VersionHead)
    (version_id created_at : String) : VersionRecord where
  version_id
  workspace_id         := r.actor.workspace_id
  kind                 := r.kind
  parent_id            := r.parent_id
  previous_version_id  := head.active_version_id
  content_digest       := sha256 c.content
  revision             := c.expected_revision + 1
  actor_id             := r.actor.actor_id
  created_at
  content              := c.content
  authoring_provenance := c.authoring_provenance

def write (record : VersionRecord) (artifact_ids : List String) (expected_revision : ℕ) :
    Prog sql VersionRecord := do
  execute (.insert_version record)
  -- `set(artifact_ids)`
  artifact_ids.dedup.forM <| reference record
  let updated ← execute (.update_head record expected_revision)
  if updated ≠ 1 then
    throw <| .revision_conflict expected_revision
  else
    return record

-- The body of the transaction.
def insert (r : Request) (c : Checked) : Prog sql VersionRecord := do
  _parent r.parent_id r.actor
  execute (.insert_head r.actor.workspace_id r.kind r.parent_id)
  let some head ← execute (.select_head r.actor.workspace_id r.kind r.parent_id)
    | throw <| .type_error "'NoneType' object is not subscriptable"
  if head.revision ≠ c.expected_revision then
    throw <| .revision_conflict head.revision
  c.artifact_ids.forM <| ready r.actor
  let version_id ← ask .uuid4
  let created_at ← ask .now
  write (version_record sha256 r c head version_id created_at) c.artifact_ids c.expected_revision

def create (r : Request) : Prog sql VersionRecord := do
  let c ← Prog.ofExcept r.check
  insert sha256 r c

end Create

-- SELECT * FROM object_versions … ORDER BY revision
def State.list (s : State) (workspace_id kind parent_id : String) : List VersionRecord :=
  (s.versions.rows.filter (·.key = (workspace_id, kind, parent_id))).mergeSort
    fun v v' => v.revision ≤ v'.revision

end Versions
