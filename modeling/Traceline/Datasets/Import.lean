import Traceline.Datasets.Canonical
import Traceline.Loads
import Traceline.Targets.HttpJson
import Traceline.Traces.Files

-- JSON Pointers, as the import of datasets reads them and as the standard does.
namespace Datasets

open Targets (tokens)

-- `xs[i]`, which counts a negative index from the end.
def element (xs : List Json) (i : Int) : Option Json :=
  if 0 ≤ i then xs[i.toNat]? else if -xs.length ≤ i then xs[(xs.length + i).toNat]? else none

section

variable (int : String → Option Int)

-- One token, with none for MISSING.
def follow (current : Json) (token : String) : Option Json :=
  match current with
  | .obj kvs => kvs.lookup token
  | .arr xs  => (int token).bind (element xs)
  | _        => none

def _pointer (document : Json) : Option String → Except String (Option Json)
  | none         => .ok none
  | some pointer =>
    if pointer = "" then .ok <| some document
    else if pointer.toList.head? ≠ some '/' then .error "JSON Pointer mappings must start with '/'"
    else .ok <| (tokens pointer).foldlM (follow int) document

end

-- RFC 6901.
namespace Standard

-- `~0` and `~1` are the only escapes.
def unescape : List Char → Option (List Char)
  | []               => some []
  | '~' :: '0' :: cs => (unescape cs).map ('~' :: ·)
  | '~' :: '1' :: cs => (unescape cs).map ('/' :: ·)
  | '~' :: _         => none
  | c :: cs          => (unescape cs).map (c :: ·)

-- An index is a numeral with neither a sign nor leading zeros.
def index (cs : List Char) : Option ℕ :=
  let n := Nat.ofDigitChars 10 cs 0
  if Nat.toDigits 10 n = cs then some n else none

def step (current : Json) (raw : List Char) : Option Json := do
  let token ← unescape raw
  match current with
  | .obj kvs => kvs.lookup (String.ofList token)
  | .arr xs  => xs[← index token]?
  | _        => none

-- The reference tokens of a pointer.
def references (pointer : String) : Option (List (List Char)) :=
  match pointer.toList with
  | []        => some []
  | '/' :: cs => some (cs.splitOn '/')
  | _         => none

def evaluate (document : Json) (pointer : String) : Option Json := do
  (← references pointer).foldlM step document

end Standard

end Datasets

-- The import of datasets.
namespace Datasets

open Lines (lines nonblank)
open Traces (isspace linebreak)

abbrev Fields := List (String × Json)

def MAX_UPLOAD_BYTES : ℕ :=
  25 * 1024 * 1024

def MAX_ROWS : ℕ :=
  5000

def MAX_INPUT_BYTES : ℕ :=
  256 * 1024

inductive Error
  | workflow_error (message code : String) (status : ℕ) (details : Fields)
  -- Any other exception.
  | raised

def validation_error (message : String) : Error :=
  .workflow_error message "validation_error" 422 []

-- What the import takes from Python: `int(text)`, `repr(text)`, what `str(value)` has between the
-- brackets of a list or a dict, and the rows of `csv.DictReader`, if there is a header.
structure Python extends Digests where
  int         : String → Option Int
  quoted      : String → String
  inner       : Json → String
  dict_reader : String → Option (List Fields)

section

variable (L : Python)

-- `str(value)`
def str : Json → String
  | .null             => "None"
  | .bool true        => "True"
  | .bool false       => "False"
  | .int n            => toString n
  | .float (.finite q) => L.repr q
  | .float .posInf    => "inf"
  | .float .negInf    => "-inf"
  | .float .nan       => "nan"
  | .str s            => s
  | .arr xs           => "[" ++ L.inner (.arr xs) ++ "]"
  | .obj kvs          => "\x7b" ++ L.inner (.obj kvs) ++ "\x7d"

def encode (value : Json) : Except Error String :=
  match canonical_json L.toDigests value with
  | some text => .ok text
  | none      => .error <| validation_error "Content must be finite JSON"

def digest (value : Json) : Except Error String :=
  (encode L value).map L.sha256

def _clone (value : Json) : Except Error Json := do
  let text ← encode L value
  match loads text.toList with
  | some value => return value
  | none       => throw .raised

-- In what follows, a value that is none is MISSING.
def _label_status (expected declared : Option Json) : Except Error (String × Option String) :=
  if expected ∈ [none, some .null, some (.obj [])] then .ok ("missing", none)
  else
    match declared with
    | none | some .null => .ok ("inferred", some "inferred")
    | some declared     =>
      let text := str L declared
      if declared = .str "" then .ok ("inferred", some "inferred")
      else if text ∈ ["user_stated", "derived_from_trace", "approved"] then
        .ok ("approved", some <| if text = "approved" then "user_stated" else text)
      else if text ∈ ["inferred", "agent_output"] then .ok ("inferred", some "inferred")
      else .error <| validation_error s!"Unsupported label_status {L.quoted text}"

def _wrap_expected (expected : Option Json) (tag : Option String) : Json :=
  let provenance := match tag with
    | none | some "" => "inferred"
    | some tag       => tag
  let wrap (value : Json) : Json := .obj [("tag", .str provenance), ("value", value)]
  match expected with
  | none | some .null => .obj []
  | some (.obj kvs)   => .obj <| kvs.map fun kv => (kv.1, wrap kv.2)
  | some value        => .obj [("value", wrap value)]

def _field_state : Option Json → String
  | none       => "missing"
  | some .null => "null"
  | some _     => "present"

def _csv_cell (row : Fields) (column : Option Json) : Except Error (Option Json) :=
  match column with
  | none        => .ok none
  | some column =>
    if ¬column.truthy then .ok none
    else
      match column with
      | .str column     => .ok <| (row.lookup column).filter (· ≠ .str "")
      | .arr _ | .obj _ => .error .raised
      | _               => .ok none

structure Row where
  row_number : ℕ
  document   : Fields
  csv        : Bool

def _iter_jsonl (text : String) : Except Error (List Row) :=
  go 1 <| lines linebreak [] text.toList
where
  go (number : ℕ) : List (List Char) → Except Error (List Row)
    | []            => .ok []
    | line :: lines =>
      if nonblank isspace line then
        match loads line with
        | some (.obj payload) => do
          return { row_number := number, document := payload, csv := false } :: (← go (number + 1) lines)
        | some _ => .error <| validation_error s!"JSONL row {number} must be an object"
        | none   =>
          .error <| .workflow_error s!"Invalid JSONL at row {number}" "row_parse_error" 422 []
      else go (number + 1) lines

def _iter_json (text : String) : Except Error (List Row) :=
  match loads text.toList with
  | some (.arr payload) => go 1 payload
  | some _              => .error <| validation_error "JSON datasets must be an array of objects"
  | none                => .error <| .workflow_error "Invalid JSON array" "row_parse_error" 422 []
where
  go (number : ℕ) : List Json → Except Error (List Row)
    | []                 => .ok []
    | .obj item :: items => do
      return { row_number := number, document := item, csv := false } :: (← go (number + 1) items)
    | _ :: _             => .error <| validation_error s!"JSON row {number} must be an object"

def _iter_csv (text : String) : Except Error (List Row) :=
  match L.dict_reader text with
  | some rows => .ok <| rows.zipIdx 2 |>.map fun (row, number) =>
    { row_number := number, document := row, csv := true }
  | none      => .error <| validation_error "CSV is missing a header row"

def _mapped (document : Fields) (selector : Option Json) (csv_mode : Bool) :
    Except Error (Option Json) :=
  if csv_mode then _csv_cell document selector
  else
    match selector with
    | none | some .null    => .ok none
    | some (.str selector) =>
      if selector.toList.head? = some '/' then
        (_pointer L.int (.obj document) (some selector)).mapError validation_error
      else .error <| validation_error "JSON/JSONL mappings must use JSON Pointers"
    | some _               => .error <| validation_error "JSON/JSONL mappings must use JSON Pointers"

-- The parts of a row that a mapping selects.
structure Parts where
  input         : Option Json
  expected      : Option Json
  declared      : Option Json
  tags          : Option Json
  split         : Option Json
  fixture_state : Option Json

-- `{key: value for key, column in (mapping.get(name) or {}).items() if …}`
def cells (document mapping : Fields) (name : String) : Except Error Fields :=
  match (mapping.lookup name).filter (·.truthy) with
  | none                => .ok []
  | some (.obj columns) => columns.filterMapM fun (key, column) =>
    (_csv_cell document (some column)).map (·.map fun value => (key, value))
  | some _              => .error .raised

def parts (row : Row) (mapping : Fields) : Except Error Parts :=
  let document := row.document
  if row.csv then do
    let input ← cells document mapping "input_fields"
    let expected ← cells document mapping "expected_fields"
    return {
      input         := some (.obj input)
      expected      := if expected = [] then none else some (.obj expected)
      declared      := ← _csv_cell document (mapping.lookup "label_status")
      tags          := some (.arr [])
      split         := ← _csv_cell document (mapping.lookup "split")
      fixture_state := none }
  else do
    return {
      input         := ← _mapped L document (mapping.lookup "input") false
      expected      := ← _mapped L document (mapping.lookup "expected") false
      declared      := ← _mapped L document (mapping.lookup "label_status") false
      tags          := ← _mapped L document (mapping.lookup "tags") false
      split         := ← _mapped L document (mapping.lookup "split") false
      fixture_state := ← _mapped L document (mapping.lookup "fixture_state") false }

structure Case where
  case_id          : String
  case_key         : String
  input_hash       : String
  reference_hash   : String
  metadata_hash    : String
  input            : Json
  expected         : Json
  agent_request    : Json
  label_status     : String
  label_provenance : Option String
  tags             : Json
  split            : Json
  fixture_state    : Json
  expected_state   : String
  deriving DecidableEq

def case_id (row : Row) (mapping : Fields) : Except Error String := do
  match ← _mapped L row.document (mapping.lookup "case_id") row.csv with
  | none | some .null | some (.str "") =>
    throw <| validation_error s!"Row {row.row_number} is missing case_id"
  | some case_id => return str L case_id

-- `[] if tags is MISSING or tags is None else tags`
def given_tags : Option Json → Json
  | none | some .null => .arr []
  | some tags         => tags

def metadata_of (row_number : ℕ) (p : Parts) : Json :=
  .obj [
    ("tags", given_tags p.tags), ("split", p.split.getD .null),
    ("fixture_state", p.fixture_state.getD .null), ("row_number", .int row_number)]

-- The case of a row, from its id and its parts.
def case_of (row_number : ℕ) (case_id : String) (p : Parts) : Except Error Case := do
  let some (.obj input_value) := p.input
    | throw <| validation_error s!"Row {row_number} is missing a mapped input object"
  let encoded_input ← encode L (.obj input_value)
  if encoded_input.utf8ByteSize > MAX_INPUT_BYTES then
    throw <| .workflow_error "A case input exceeds 256 KiB" "case_input_limit" 422
      [("case_id", .str case_id), ("row_number", .int row_number)]
  let (status, provenance) ← _label_status L p.expected p.declared
  let expected := _wrap_expected p.expected provenance
  return {
    case_id
    case_key         := ← digest L (.obj input_value)
    input_hash       := ← digest L (.obj input_value)
    reference_hash   := ← digest L expected
    metadata_hash    := ← digest L (metadata_of row_number p)
    input            := ← _clone L (.obj input_value)
    expected
    agent_request    := ← _clone L (.obj input_value)
    label_status     := status
    label_provenance := provenance
    tags             := given_tags p.tags
    split            := p.split.getD .null
    fixture_state    := p.fixture_state.getD .null
    expected_state   := _field_state p.expected }

def _case (row : Row) (mapping : Fields) : Except Error Case := do
  let case_id ← case_id L row mapping
  let p ← parts L row mapping
  case_of L row.row_number case_id p

def cases_of_rows (rows : List Row) (mapping : Fields) : Except Error (List Case) :=
  if rows.length > MAX_ROWS then
    .error <| .workflow_error "Dataset exceeds 5,000 rows" "row_limit" 422 []
  else rows.mapM fun row => _case L row mapping

def _parse (text : String) (mapping : Fields) : Except Error (List Case) := do
  let rows ←
    match mapping.lookup "format" with
    | some (.str "jsonl") => _iter_jsonl text
    | some (.str "json")  => _iter_json text
    | some (.str "csv")   => _iter_csv L text
    | _                   => .error <| validation_error "format must be csv, json, or jsonl"
  cases_of_rows L rows mapping

-- The cases before, by which a case is refused that has the identity of one of them.
def _reject_duplicate_identities (seen : List Case) : List Case → Except Error Unit
  | []            => .ok ()
  | case :: cases =>
    let prior := (seen.find? (·.case_id = case.case_id)).or (seen.find? (·.input_hash = case.input_hash))
    match prior with
    | some prior => .error <| .workflow_error "Duplicate or contradictory case identity"
      "duplicate_identity" 422 [("case_id", .str case.case_id), ("other_case_id", .str prior.case_id)]
    | none       => _reject_duplicate_identities (seen ++ [case]) cases

-- The cases that `validate_import` reports on.
def imported (text : String) (mapping : Fields) : Except Error (List Case) := do
  if text.utf8ByteSize > MAX_UPLOAD_BYTES then
    throw <| .workflow_error "Dataset exceeds the 25 MiB import limit" "quota_exceeded" 413 []
  let cases ← _parse L text mapping
  _reject_duplicate_identities [] cases
  return cases

end

end Datasets
