import Traceline.Library.Wp
import Traceline.Loads
import Traceline.Versions.Store

-- The migration of the definitions that evaluations had before there were versions.
namespace Versions

open Loads (Fields set_item)

-- A row of `custom_evals`.
structure CustomEval where
  workspace_id   : String
  eval_id        : String
  spec_json      : String
  dashboard_json : String
  deriving DecidableEq, Repr

inductive LegacyKind
  | evaluation
  | dashboard
  deriving DecidableEq, Repr

def LegacyKind.name : LegacyKind → String
  | .evaluation => "evaluation"
  | .dashboard  => "dashboard"

def LegacyKind.column : LegacyKind → CustomEval → String
  | .evaluation, row => row.spec_json
  | .dashboard,  row => row.dashboard_json

-- A row of `legacy_definition_migrations`.
structure LegacyMigration where
  workspace_id  : String
  eval_id       : String
  kind          : String
  source_digest : String
  version_id    : Option String
  state         : String
  reason        : Option String
  created_at    : String
  deriving DecidableEq, Repr

def LegacyMigration.key (m : LegacyMigration) : String × String × String × String :=
  (m.workspace_id, m.eval_id, m.kind, m.source_digest)

structure LegacyState where
  custom_evals : Table CustomEval.eval_id
  versions     : State
  migrations   : Table LegacyMigration.key

inductive LegacyError
  | version (e : Error)
  | raised (exception : String)
  deriving DecidableEq, Repr

-- The clock and the ids at one definition.
structure Answers where
  uuid4    : String
  now      : String
  recorded : String

def Answers.env (a : Answers) : ∀ q, sql.Answer q
  | .uuid4 => a.uuid4
  | .now   => a.now

def spec_fields : List String :=
  ["spec_version", "name", "dataset_version", "cases", "metrics", "run_tier"]

def definition_fields : List String :=
  ["version", "name", "layout", "filters", "blocks", "registry_version"]

-- The validators, which name the exception that they raise. They also take the text of a definition,
-- and no fields but those of their models.
structure LegacyHost where
  validate_spec       : Json → Option String
  validate_definition : Json → Option String
  content_digest      : List (String × Json) → String
  source_digest       : String → String
  answers             : ℕ → Answers
  spec_known          : ∀ {fields}, validate_spec (.obj fields) = none →
    ∀ kv ∈ fields, kv.1 ∈ spec_fields
  definition_known    : ∀ {fields}, validate_definition (.obj fields) = none →
    ∀ kv ∈ fields, kv.1 ∈ definition_fields
  definition_blocks   : ∀ {fields}, validate_definition (.obj fields) = none →
    ∃ blocks, fields.lookup "blocks" = some (.arr blocks) ∧ ∀ block ∈ blocks, ∃ members name,
      block = .obj members ∧ members.lookup "component" = some (.str name)

def LegacyHost.validate (h : LegacyHost) : LegacyKind → Json → Option String
  | .evaluation => h.validate_spec
  | .dashboard  => h.validate_definition

def LEGACY_COMPONENTS : List (String × String) := [
  ("metric_summary", "MetricCard"),
  ("run_table", "RunSummary"),
  ("case_table", "TestCaseTable"),
  ("trace_evidence", "TraceTimeline")
]

def canonicalize_block : Json → Except LegacyError Json
  | .obj members =>
    match members.lookup "component" with
    | some (.str name)          =>
      match LEGACY_COMPONENTS.lookup name with
      | some component => .ok <| .obj <| set_item "component" (.str component) members
      | none           => .ok <| .obj members
    | some (.arr _ ) | some (.obj _) => .error <| .raised "TypeError"
    | _                         => .ok <| .obj members
  | _            => .error <| .raised "AttributeError"

-- The blocks of an object are its keys, and those of text its characters: neither has fields.
def canonicalize_dashboard : Json → Except LegacyError Json
  | .obj fields =>
    match fields.lookup "blocks" with
    | none        => .ok <| .obj fields
    | some blocks =>
      if blocks.truthy then
        match blocks with
        | .arr blocks     => do
          let blocks ← blocks.mapM canonicalize_block
          return .obj <| set_item "blocks" (.arr blocks) fields
        | .obj _ | .str _ => .error <| .raised "AttributeError"
        | _               => .error <| .raised "TypeError"
      else .ok <| .obj fields
  | _           => .error <| .raised "AttributeError"

def canonicalize (kind : LegacyKind) (content : Json) : Except LegacyError Json :=
  match kind with
  | .evaluation => .ok content
  | .dashboard  => canonicalize_dashboard content

def request (actor : Actor) (kind : LegacyKind) (parent_id : String) (content : Json) : Request :=
  { kind := kind.name, parent_id, content, expected_revision := .int 0, actor }

-- `self.list(kind, eval_id, actor)["active_revision"]`
def active_revision (a : Answers) (actor : Actor) (kind eval_id : String) (s : State) :
    Except LegacyError ℕ := do
  ((_parent eval_id actor).eval store a.env s).1.mapError .version
  return ((s.heads.find (actor.workspace_id, kind, eval_id)).map (·.revision)).getD 0

section

variable (h : LegacyHost) (a : Answers) (actor : Actor)

def LegacyState.record (row : CustomEval) (kind : LegacyKind) (version_id reason : Option String)
    (state : String) (s : LegacyState) : Except LegacyError LegacyState :=
  let migration : LegacyMigration := {
    workspace_id  := actor.workspace_id
    eval_id       := row.eval_id
    kind          := kind.name
    source_digest := h.source_digest <| kind.column row
    created_at    := a.recorded
    version_id, state, reason
  }
  match s.migrations.insert migration with
  | none            =>
    .error <| .version <| .integrity_error "legacy_definition_migrations"
  | some migrations => .ok { s with migrations }

def create_version (row : CustomEval) (kind : LegacyKind) (content : Json) (s : LegacyState) :
    Except LegacyError LegacyState := do
  let content ← canonicalize kind content
  let created := (create h.content_digest (request actor kind row.eval_id content)).eval store a.env
    s.versions
  let version ← created.1.mapError .version
  { s with versions := created.2 }.record h a actor row kind version.version_id none "migrated"

def migrate_content (row : CustomEval) (kind : LegacyKind) (content : Json) (s : LegacyState) :
    Except LegacyError LegacyState := do
  if (← active_revision a actor kind.name row.eval_id s.versions) ≠ 0 then
    s.record h a actor row kind none
      (some <| "Legacy content changed after a durable version was created; " ++
        "explicit review required") "quarantined"
  else create_version h a actor row kind content s

def migrate_definition (row : CustomEval) (kind : LegacyKind) (s : LegacyState) :
    Except LegacyError LegacyState :=
  let digest := h.source_digest <| kind.column row
  if (s.migrations.find (actor.workspace_id, row.eval_id, kind.name, digest)).isSome then .ok s
  else
    let quarantine (exception : String) := s.record h a actor row kind none
      (some s!"Invalid legacy {kind.name}: {exception}") "quarantined"
    match loads (kind.column row).toList with
    | none         => quarantine "JSONDecodeError"
    | some content =>
      match h.validate kind content with
      | some exception => quarantine exception
      | none           => migrate_content h a actor row kind content s

end

-- The definitions that a migration goes through.
def LegacyState.definitions (s : LegacyState) (workspace_id : String) :
    List (CustomEval × LegacyKind) :=
  (s.custom_evals.rows.filter (·.workspace_id = workspace_id)).flatMap fun row =>
    [(row, .evaluation), (row, .dashboard)]

-- SELECT * FROM legacy_definition_migrations … ORDER BY eval_id,kind,created_at
def LegacyState.listed (s : LegacyState) (workspace_id : String) : List LegacyMigration :=
  (s.migrations.rows.filter (·.workspace_id = workspace_id)).mergeSort fun m m' =>
    m.eval_id < m'.eval_id || m.eval_id = m'.eval_id &&
      (m.kind < m'.kind || m.kind = m'.kind && m.created_at ≤ m'.created_at)

def migrate_legacy (h : LegacyHost) (actor : Actor) (s : LegacyState) :
    Except LegacyError (List LegacyMigration) × LegacyState :=
  match actor.require_write with
  | .error e => (.error <| .version e, s)
  | .ok _    =>
    let migrated := (s.definitions actor.workspace_id).zipIdx.foldlM (fun s d =>
      migrate_definition h (h.answers d.2) actor d.1.1 d.1.2 s) s
    match migrated with
    | .error e => (.error e, s)
    | .ok t    => (.ok <| t.listed actor.workspace_id, t)

end Versions
