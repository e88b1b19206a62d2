import Traceline.Library.May
import Traceline.Streaming.Parser
import Traceline.Versions.Store
import Mathlib.Data.Rat.Defs

-- Checksummed artifacts of a workspace, published atomically.
namespace Artifacts

open Versions (Actor Request VersionArtifact VersionRecord)
open Streaming (Bytes)

structure ArtifactRecord where
  artifact_id  : String
  workspace_id : String
  checksum     : String
  size_bytes   : ℕ
  media_type   : String
  created_at   : String
  deriving DecidableEq, Repr

def ArtifactRecord.id (r : ArtifactRecord) : String × String :=
  (r.workspace_id, r.artifact_id)

-- The directories below the artifact root that hold files of a workspace.
inductive Directory
  | artifacts
  | quarantine
  deriving DecidableEq, Repr

structure Path where
  directory    : Directory
  workspace_id : String
  name         : String
  deriving DecidableEq, Repr

structure File where
  path  : Path
  data  : Bytes
  mtime : ℚ
  deriving DecidableEq, Repr

-- Where the bytes of an artifact are.
def final (id : String × String) : Path :=
  ⟨.artifacts, id.1, id.2⟩

-- The rows of `artifacts`, which are all ready, and the tables of the versions.
structure Database where
  rows   : Table ArtifactRecord.id
  tables : Versions.State
  ready  : tables.artifacts = rows.rows.map ArtifactRecord.id

-- A transaction that is open, with the one who holds the connection.
structure Tx (ι : Type) where
  owner : ι
  db    : Database

-- `drawn` are the ids that `uuid4` gave out and `deleted` the ones whose row was deleted. No
-- statement reads either of them.
structure State (ι : Type) where
  db      : Database
  tx      : Option (Tx ι)
  files   : Table File.path
  clock   : ℚ
  drawn   : List (ι × String)
  deleted : List (String × String)

inductive Error
  | workflow_error (message code : String) (status : ℕ)
  | not_found
  | version (e : Versions.Error)
  | integrity_error (constraint : String)
  | os_error (name : String)
  | programming_error
  deriving DecidableEq, Repr

inductive Statement (ι : Type)
  | uuid4 (i : ι) (artifact_id : String)
  | begin (i : ι)
  | commit
  | rollback
  | select_artifacts (workspace_id : String)
  | select_artifact (id : String × String)
  | select_reference (id : String × String)
  | insert_artifact (record : ArtifactRecord)
  | delete_artifact (id : String × String)
  | versions (c : Versions.Statement)
  | create (path : Path)
  | write (path : Path) (data : Bytes)
  | read_bytes (path : Path)
  | replace (source destination : Path)
  | is_file (path : Path)
  | unlink (path : Path) (missing_ok : Bool)
  | iterdir (workspace_id : String)

-- A failure is what the system raises in place of a call.
inductive Query (ι : Type)
  | uuid4
  | tempname
  | now
  | failure (c : Statement ι)
  | versions (q : Versions.Query)

abbrev sig (ι : Type) : Sig where
  Call := Statement ι
  Reply
    | .select_artifacts _                => List ArtifactRecord
    | .select_artifact _                 => Option ArtifactRecord
    | .select_reference _ | .is_file _   => Bool
    | .delete_artifact _                 => ℕ
    | .versions c                        => Versions.sql.Reply c
    | .read_bytes _                      => Bytes
    | .iterdir _                         => List String
    | _                                  => Unit
  Query := Query ι
  Answer
    | .failure _ => Option Error
    | _          => String
  Error := Error

namespace Database

variable (d : Database)

def insert_artifact (record : ArtifactRecord) : Option Database :=
  (d.rows.insert record).map fun rows => {
    rows
    tables := { d.tables with artifacts := rows.rows.map ArtifactRecord.id }
    ready  := rfl
  }

def referenced (id : String × String) : Bool :=
  d.tables.references.rows.any fun r => (r.workspace_id, r.artifact_id) = id

def delete_artifact (id : String × String) : Database :=
  let rows := d.rows.delete (·.id = id)
  {
    rows
    tables := { d.tables with artifacts := rows.rows.map ArtifactRecord.id }
    ready  := rfl
  }

end Database

theorem perform_artifacts (c : Versions.Statement) (s : Versions.State) :
    (Versions.store.perform c s).2.artifacts = s.artifacts := by
  cases c with
  | insert_version v   =>
    simp only [Versions.State.insert_version]
    split <;> [rfl; (split <;> [rfl; (split <;> rfl)])]
  | insert_reference r =>
    simp only [Versions.State.insert_reference]
    split <;> [rfl; (split <;> rfl)]
  | _                  => rfl

def Database.versions (d : Database) (c : Versions.Statement) :
    Except Versions.Error (Versions.sql.Reply c) × Database :=
  let r := Versions.store.perform c d.tables
  (r.1, { d with tables := r.2, ready := (perform_artifacts c d.tables).trans d.ready })

namespace State

variable {ι : Type} (s : State ι)

-- What a statement reads: the open transaction, or what is committed.
def current : Database :=
  (s.tx.map Tx.db).getD s.db

def owner : Option ι :=
  s.tx.map Tx.owner

-- A statement that writes, which only a transaction does.
def within {α : Type} (f : Database → Except Error α × Database) : Except Error α × State ι :=
  match s.tx with
  | none    => (.error .programming_error, s)
  | some tx => ((f tx.db).1, { s with tx := some { tx with db := (f tx.db).2 } })

def commit : State ι :=
  match s.tx with
  | none    => s
  | some tx => { s with
    db      := tx.db
    tx      := none
    deleted := s.deleted ++ (s.db.tables.artifacts.filter (!tx.db.tables.artifacts.contains ·))
  }

def read (path : Path) : Option Bytes :=
  (s.files.find path).map File.data

def write (path : Path) (data : Bytes) : State ι :=
  { s with files := s.files.upsert ⟨path, data, s.clock⟩ }

def unlink (path : Path) : State ι :=
  { s with files := s.files.delete (·.path = path) }

-- `os.replace`, which keeps the time of the file it moves.
def replace (source destination : Path) : Except Error Unit × State ι :=
  match s.files.find source with
  | none      => (.error <| .os_error "FileNotFoundError", s)
  | some file =>
    (.ok (), { s with
      files := (s.files.delete (·.path = source)).upsert { file with path := destination }
    })

def iterdir (workspace_id : String) : List String :=
  (s.files.rows.filter fun f =>
    f.path.directory = .artifacts && f.path.workspace_id = workspace_id).map (·.path.name)

end State

abbrev store (ι : Type) : Store (sig ι) where
  State := State ι
  perform
    | .uuid4 i artifact_id, s        => (.ok (), { s with drawn := s.drawn ++ [(i, artifact_id)] })
    | .begin i, s                    => (.ok (), { s with tx := some ⟨i, s.db⟩ })
    | .commit, s                     => (.ok (), s.commit)
    | .rollback, s                   => (.ok (), { s with tx := none })
    | .select_artifacts w, s         => (.ok (s.current.rows.rows.filter (·.workspace_id = w)), s)
    | .select_artifact id, s         => (.ok (s.current.rows.find id), s)
    | .select_reference id, s        => (.ok (s.current.referenced id), s)
    | .insert_artifact record, s     =>
      s.within fun d =>
        match d.insert_artifact record with
        | none    => (.error <| .integrity_error "artifacts", d)
        | some d' => (.ok (), d')
    | .delete_artifact id, s         =>
      s.within fun d =>
        if d.referenced id then (.error <| .integrity_error "version_artifacts", d)
        else (.ok (d.rows.rows.countP (·.id = id)), d.delete_artifact id)
    | .versions c, s                 =>
      s.within fun d => ((d.versions c).1.mapError .version, (d.versions c).2)
    | .create path, s                =>
      if (s.read path).isSome then (.error <| .os_error "FileExistsError", s)
      else (.ok (), s.write path [])
    | .write path data, s            => (.ok (), s.write path data)
    | .read_bytes path, s            =>
      match s.read path with
      | none      => (.error <| .os_error "FileNotFoundError", s)
      | some data => (.ok data, s)
    | .replace source destination, s => s.replace source destination
    | .is_file path, s               => (.ok (s.read path).isSome, s)
    | .unlink path missing_ok, s     =>
      if (s.read path).isNone && !missing_ok then (.error <| .os_error "FileNotFoundError", s)
      else (.ok (), s.unlink path)
    | .iterdir workspace_id, s       => (.ok (s.iterdir workspace_id), s)

section Checks

def check (b : Bool) (e : Error) : Except Error Unit :=
  if b then .ok () else .error e

def _require (actor : Actor) (write : Bool) (workspace_id : String) : Except Error Unit := do
  check (actor.actor_id ≠ "" && actor.workspace_id ≠ "")
    (.workflow_error "Authentication required" "unauthorized" 401)
  check (workspace_id = actor.workspace_id)
    (.workflow_error "Workspace access denied" "forbidden" 403)
  check (!write || actor.role ≠ .viewer)
    (.workflow_error "Editing permission required" "forbidden" 403)

-- `[A-Za-z0-9_-]{1,128}`
def identity (workspace_id : String) : Bool :=
  workspace_id ≠ "" && workspace_id.length ≤ 128 &&
    workspace_id.toList.all fun c => c.isAlphanum || c = '_' || c = '-'

def _directory (actor : Actor) (workspace_id : String) : Except Error Unit := do
  _require actor false workspace_id
  check (identity workspace_id)
    (.workflow_error "Invalid workspace identity" "validation_error" 422)

-- `[0-9a-f]{32}`
def hex32 (name : String) : Bool :=
  name.length = 32 && name.toList.all fun c => c.isDigit || ('a' ≤ c && c ≤ 'f')

-- `[A-Za-z0-9!#$&^_.+-]`
def token (c : Char) : Bool :=
  c.isAlphanum || c ∈ ['!', '#', '$', '&', '^', '_', '.', '+', '-']

-- Two tokens with a slash between them.
def media (media_type : String) : Bool :=
  match media_type.toList.span token with
  | (type, '/' :: subtype) => !type.isEmpty && !subtype.isEmpty && subtype.all token
  | _                      => false

-- `path.suffix`, which is empty for a name that starts with its only dot or ends in one.
def suffix (name : String) : String :=
  let after := name.toList.reverse.takeWhile (· ≠ '.')
  let before := name.toList.reverse.dropWhile (· ≠ '.')
  if after.isEmpty || before.length ≤ 1 then "" else String.ofList ('.' :: after.reverse)

end Checks

section Operations

variable {ι : Type} (sha256 : Bytes → String)

abbrev ask (q : Query ι) : Prog (sig ι) ((sig ι).Answer q) :=
  Prog.query (S := sig ι) q

abbrev perform (c : Statement ι) : Prog (sig ι) ((sig ι).Reply c) :=
  Prog.perform (S := sig ι) c

-- A call that the system may fail.
def execute (c : Statement ι) : Prog (sig ι) ((sig ι).Reply c) := do
  match ← ask (.failure c) with
  | some e => throw e
  | none   => perform c

def uuid4 (i : ι) : Prog (sig ι) String := do
  let artifact_id ← ask .uuid4
  perform (.uuid4 i artifact_id)
  return artifact_id

def workspace_transaction {α : Type} (i : ι) (body : Prog (sig ι) α) : Prog (sig ι) α := do
  execute (.begin i)
  tryCatch (do
    let a ← body
    execute .commit
    return a) fun e => do
      perform .rollback
      throw e

namespace ArtifactStore

variable (i : ι) (actor : Actor) (workspace_id : String)

-- What the variable `stage` holds at the end, and whether the block raised.
abbrev Staged :=
  Option Path × Except Error Unit

-- The block under `NamedTemporaryFile`, and what follows it.
def publish (record : ArtifactRecord) (data : Bytes) (stage : Path) : Prog (sig ι) Unit := do
  execute (.write stage data)
  let written ← execute (.read_bytes stage)
  Prog.ofExcept <| check (sha256 written = record.checksum)
    (.workflow_error "Artifact checksum mismatch" "artifact_corrupt" 500)
  execute (.replace stage (final record.id))
  execute (.insert_artifact record)

def stage (record : ArtifactRecord) (data : Bytes) : Prog (sig ι) Staged :=
  tryCatch (do
    let name ← ask .tempname
    let path : Path := ⟨.artifacts, record.workspace_id, name ++ ".stage"⟩
    execute (.create path)
    tryCatch (do
      publish sha256 record data path
      return (some path, .ok ())) fun e => return (some path, .error e))
    fun e => return (none, .error e)

-- The transaction of `put`.
def transaction (record : ArtifactRecord) (data : Bytes) : Prog (sig ι) Staged :=
  tryCatch (do
    execute (.begin i)
    let staged ← stage sha256 record data
    match staged.2 with
    | .error e => do
      perform .rollback
      return (staged.1, .error e)
    | .ok ()   =>
      tryCatch (do
        execute .commit
        return staged) fun e => do
          perform .rollback
          return (staged.1, .error e))
    fun e => return (none, .error e)

def discard (stage : Option Path) : Prog (sig ι) Unit :=
  match stage with
  | none      => return ()
  | some path => execute (.unlink path true)

def put (data : Bytes) (media_type : String) : Prog (sig ι) ArtifactRecord := do
  Prog.ofExcept <| _require actor true workspace_id
  Prog.ofExcept <| check (data ≠ [])
    (.workflow_error "Artifact must contain bytes" "validation_error" 422)
  Prog.ofExcept <| check (media media_type)
    (.workflow_error "Invalid media type" "validation_error" 422)
  Prog.ofExcept <| _directory actor workspace_id
  let artifact_id ← uuid4 i
  let created_at ← ask .now
  let record := ⟨artifact_id, workspace_id, sha256 data, data.length, media_type, created_at⟩
  let staged ← transaction sha256 i record data
  match staged.2 with
  | .ok ()   => return record
  | .error e => do
    discard staged.1
    execute (.unlink (final record.id) true)
    throw e

def record (artifact_id : String) : Prog (sig ι) ArtifactRecord := do
  Prog.ofExcept <| _require actor false workspace_id
  let some row ← execute (.select_artifact (workspace_id, artifact_id)) | throw .not_found
  return row

def read_bytes (path : Path) : Prog (sig ι) Bytes :=
  tryCatch (execute (.read_bytes path)) fun e =>
    if e = .os_error "FileNotFoundError" then
      throw <| .workflow_error "Artifact is unavailable" "artifact_unavailable" 409
    else throw e

def get (artifact_id : String) : Prog (sig ι) Bytes := do
  let record ← record actor workspace_id artifact_id
  Prog.ofExcept <| check (hex32 artifact_id) .not_found
  Prog.ofExcept <| _directory actor workspace_id
  let data ← read_bytes (final (workspace_id, artifact_id))
  Prog.ofExcept <| check (data.length = record.size_bytes && sha256 data = record.checksum)
    (.workflow_error "Artifact checksum mismatch" "artifact_corrupt" 409)
  return data

def list : Prog (sig ι) (List ArtifactRecord) := do
  Prog.ofExcept <| _require actor false workspace_id
  execute (.select_artifacts workspace_id)

def remove_uncommitted (committed : List String) : List String → Prog (sig ι) ℕ
  | []            => return 0
  | name :: names => do
    let path : Path := ⟨.artifacts, workspace_id, name⟩
    let found ← execute (.is_file path)
    if found && name ∉ committed && (suffix name = ".stage" || hex32 name) then do
      execute (.unlink path false)
      let removed ← remove_uncommitted committed names
      return removed + 1
    else remove_uncommitted committed names

def available (artifact_id : String) : Prog (sig ι) Bool :=
  tryCatch (do
    let _ ← get sha256 actor workspace_id artifact_id
    return true) fun
    | .workflow_error .. | .not_found => return false
    | e                               => throw e

def unavailable : List ArtifactRecord → Prog (sig ι) (List String)
  | []                => return []
  | record :: records => do
    let found ← available sha256 actor workspace_id record.artifact_id
    let missing ← unavailable records
    return if found then missing else record.artifact_id :: missing

structure Recovery where
  removed_uncommitted      : ℕ
  unavailable_artifact_ids : List String
  deriving DecidableEq

def recover : Prog (sig ι) Recovery := do
  Prog.ofExcept <| _require actor true workspace_id
  workspace_transaction i do
    Prog.ofExcept <| _directory actor workspace_id
    let records ← list actor workspace_id
    let names ← execute (.iterdir workspace_id)
    let removed ← remove_uncommitted workspace_id (records.map (·.artifact_id)) names
    let missing ← unavailable sha256 actor workspace_id records
    return ⟨removed, missing⟩

def delete_row (artifact_id : String) : Prog (sig ι) Bool := do
  let referenced ← execute (.select_reference (workspace_id, artifact_id))
  if referenced then return false
  else do
    let rowcount ← execute (.delete_artifact (workspace_id, artifact_id))
    return rowcount = 1

def delete_file (path : Path) : Prog (sig ι) Unit := do
  let found ← execute (.is_file path)
  if found then execute (.unlink path false) else return ()

def delete_unreferenced (artifact_id : String) : Prog (sig ι) Bool := do
  Prog.ofExcept <| _require actor true workspace_id
  Prog.ofExcept <| check (hex32 artifact_id) .not_found
  let deleted ← workspace_transaction i <| delete_row workspace_id artifact_id
  if !deleted then return false
  else do
    Prog.ofExcept <| _directory actor workspace_id
    delete_file (final (workspace_id, artifact_id))
    return true

end ArtifactStore

def version_calls : Versions.sql.Embedding (sig ι) where
  call         := .versions
  reply _ r    := r.mapError fun
    | .version e => e
    | _          => .type_error ""
  query        := .versions
  answer _ r   := r
  error        := .version

-- `VersionStore.create`, with its transaction.
def create (digest : List (String × Json) → String) (i : ι) (r : Request) :
    Prog (sig ι) VersionRecord := do
  let c ← Prog.ofExcept <| r.check.mapError .version
  workspace_transaction i <| (Versions.insert digest r c).embed version_calls

end Operations

end Artifacts
