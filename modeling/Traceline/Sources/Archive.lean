import Traceline.Library.Except
import Traceline.Library.Framing
import Traceline.Library.Paths

namespace Sources

abbrev Bytes := List UInt8

-- What Python knows about Unicode text. Normalising it brings in no NUL and leaves a text that does
-- not begin with a slash beginning with something else.
structure Unicode where
  nfc      : List Char → List Char
  casefold : List Char → List Char
  lower    : List Char → List Char
  nfc_nul  : ∀ s, '\x00' ∉ s → '\x00' ∉ nfc s
  nfc_head : ∀ c s, c ≠ '/' → ∃ c' s', c' ≠ '/' ∧ nfc (c :: s) = c' :: s'

structure ArchiveLimits where
  max_archive_bytes   : ℕ := 16 * 1024 * 1024
  max_files           : ℕ := 10000
  max_expanded_bytes  : ℕ := 64 * 1024 * 1024
  max_member_bytes    : ℕ := 16 * 1024 * 1024
  max_expansion_ratio : ℕ := 100
  max_path_depth      : ℕ := 32
  max_nested_archives : ℕ := 0

inductive Failure where
  | import_failure (code message : String)
  | raised (text : String)
  deriving DecidableEq

-- A member as the directory of the archive describes it, and what reading it gives.
structure ZipInfo where
  filename      : List Char
  flag_bits     : ℕ
  external_attr : ℕ
  file_size     : ℕ
  compress_size : ℕ
  read          : ℕ → Except String Bytes

inductive ZipError where
  | unreadable
  | other (text : String)

-- `zipfile.ZipFile(io.BytesIO(data)).infolist()`
abbrev ZipFile := Bytes → Except ZipError (List ZipInfo)

structure Manifest where
  file_count     : ℕ
  expanded_bytes : ℕ
  content_digest : String
  deriving DecidableEq

structure InspectedArchive where
  files    : List (List Char × Bytes)
  manifest : Manifest
  deriving DecidableEq

structure PurePosixPath where
  root : List Char
  tail : List (List Char)

namespace PurePosixPath

def segments (text : List Char) : List (List Char) :=
  Paths.segments '/' ['.'] text

def parse (text : List Char) : PurePosixPath where
  root := if ['/', '/'].isPrefixOf text ∧ ¬ ['/', '/', '/'].isPrefixOf text then ['/', '/']
    else if ['/'].isPrefixOf text then ['/']
    else []
  tail := segments text

def parts (path : PurePosixPath) : List (List Char) :=
  if path.root = [] then path.tail else path.root :: path.tail

def is_absolute (path : PurePosixPath) : Bool :=
  path.root ≠ []

end PurePosixPath

-- `_DRIVE_PATH`
def drive_path : List Char → Bool
  | c :: ':' :: _ => c.isAlpha
  | _             => false

def absolute_name (name : List Char) : Bool :=
  name = [] || name.contains '\x00' ||
    [['/'], ['\\'], ['/', '/'], ['\\', '\\']].any (·.isPrefixOf name) || drive_path name

-- `name.replace("\\", "/")`
def forward (name : List Char) : List Char :=
  name.map fun c => if c = '\\' then '/' else c

section

variable (u : Unicode) (limits : ArchiveLimits)

def normalized (name : List Char) : List Char :=
  u.nfc (forward name)

def _safe_name (name : List Char) : Except Failure (List Char) :=
  if absolute_name name then
    throw <| .import_failure "unsafe_archive_path" "Archive contains an absolute or drive path"
  else
    let path := PurePosixPath.parse (normalized u name)
    if path.is_absolute ∨ path.parts.any ([[], ['.'], ['.', '.']].contains ·) ∨
        path.parts.length > limits.max_path_depth then
      throw <| .import_failure "unsafe_archive_path" "Archive contains a traversal or invalid path"
    else return (normalized u name).rdropWhile (· == '/')

-- `stat.S_IFMT` of the mode in the upper half of the attributes.
def ZipInfo.kind (info : ZipInfo) : ℕ :=
  (info.external_attr >>> 16) &&& 0o170000

def S_IFREG : ℕ := 0o100000

def S_IFDIR : ℕ := 0o040000

def folded (name : List Char) : List Char :=
  u.casefold (u.nfc name)

def nested_archive (name : List Char) : Bool :=
  [".zip", ".tar", ".tgz", ".tar.gz"].any (·.toList.isSuffixOf (u.lower name))

-- What the loop over the members keeps.
structure Examined where
  names      : List (List Char) := []
  total      : ℕ := 0
  candidates : List (List Char × ZipInfo) := []

def require (holds : Bool) (code message : String) : Except Failure Unit :=
  if holds then return () else throw <| .import_failure code message

def Examined.add (seen : Examined) (name : List Char) (info : ZipInfo) : Except Failure Examined := do
  require (info.kind = 0 || info.kind = S_IFREG || info.kind = S_IFDIR)
    "unsafe_archive_member" "Archive contains a link or special file"
  require (!seen.names.contains (folded u name))
    "archive_name_collision" "Archive has colliding case or Unicode names"
  require (!(nested_archive u name && limits.max_nested_archives = 0))
    "nested_archive" "Nested archives are not accepted"
  require (info.file_size ≤ limits.max_member_bytes)
    "archive_expansion_limit" "Archive member exceeds expanded-size limit"
  let total := seen.total + info.file_size
  require (seen.candidates.length + 1 ≤ limits.max_files && total ≤ limits.max_expanded_bytes)
    "archive_expansion_limit" "Archive exceeds expansion limits"
  require (info.file_size = 0 || info.compress_size = 0 ||
      info.file_size ≤ info.compress_size * limits.max_expansion_ratio)
    "archive_expansion_limit" "Archive member exceeds compression-ratio limit"
  return { names := folded u name :: seen.names, total,
           candidates := seen.candidates ++ [(name, info)] }

def examine (seen : Examined) (info : ZipInfo) : Except Failure Examined := do
  require (info.flag_bits &&& 0x1 = 0)
    "encrypted_archive" "Encrypted ZIP members are not accepted"
  let name ← _safe_name u limits info.filename
  if name = [] then return seen
  else seen.add u limits name info

def read_member (candidate : List Char × ZipInfo) : Except Failure (List Char × Bytes) := do
  let content ← (candidate.2.read (limits.max_member_bytes + 1)).mapError .raised
  require (content.length = candidate.2.file_size && content.length ≤ limits.max_member_bytes)
    "archive_expansion_limit" "Archive changed while being read"
  return (candidate.1, content)

-- `name.encode()`
def encode (name : List Char) : Bytes :=
  name.flatMap String.utf8EncodeChar

-- The bytes that are hashed.
def hashed (files : List (List Char × Bytes)) : Bytes :=
  Framing.stream 0 (files.map fun f => (encode f.1, f.2))

variable (zip : ZipFile) (sha256 : Bytes → String)

def open_zip (data : Bytes) : Except Failure (List ZipInfo) :=
  (zip data).mapError fun
    | .unreadable => .import_failure "invalid_archive" "Archive is not a readable ZIP"
    | .other text => .raised text

def inspect_zip (data : Bytes) : Except Failure InspectedArchive := do
  require (data ≠ []) "invalid_archive" "A non-empty ZIP archive is required"
  require (data.length ≤ limits.max_archive_bytes)
    "archive_size_limit" "Archive exceeds its compressed-size limit"
  let infolist ← open_zip zip data
  let seen ← infolist.foldlM (examine u limits) {}
  let files ← seen.candidates.mapM (read_member limits)
  return {
    files
    manifest := {
      file_count     := files.length
      expanded_bytes := seen.total
      content_digest := sha256 (hashed files)
    }
  }

-- Where `materialize` stages the archive of a version.
def source_dir (artifact_root : List String) (workspace_id version_id : String)
    (inspected : InspectedArchive) : List String :=
  artifact_root ++ ["ws", workspace_id, "runtime", "sources", version_id,
    inspected.manifest.content_digest]

end

end Sources
