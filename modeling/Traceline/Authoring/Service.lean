import Mathlib.Data.List.Enum
import Traceline.Library.Except
import Traceline.Loads
import Traceline.Versions.Store

-- What a model may propose for the specification of an evaluation, and what a proposal does to it.
namespace Authoring

open Loads (Fields set_item)

inductive Error
  | not_found
  | revision_conflict (current_revision : ℕ)
  | value_error (text : String)
  | raised (exception : String)
  deriving DecidableEq, Repr

structure MetricPatch where
  metric_id         : String
  scoring_condition : Option String
  deriving DecidableEq, Repr

def MetricPatch.model_validate : Json → Option MetricPatch
  | .obj fields => do
    guard (∀ kv ∈ fields, kv.1 ∈ ["metric_id", "scoring_condition"])
    let metric_id ← (← fields.lookup "metric_id").string?
    match fields.lookup "scoring_condition" with
    | none | some .null => return ⟨metric_id, none⟩
    | some (.str text)  => return ⟨metric_id, some text⟩
    | some _            => none
  | _           => none

structure TurnProposal where
  action              : String
  patches             : List MetricPatch
  selected_metric_ids : List String
  deriving DecidableEq, Repr

-- A field that is a list, empty where it is missing.
def list_field {α : Type} (fields : Fields) (key : String) (item : Json → Option α) :
    Option (List α) :=
  match fields.lookup key with
  | none           => some []
  | some (.arr xs) => xs.mapM item
  | some _         => none

def TurnProposal.model_validate : Json → Option TurnProposal
  | .obj fields => do
    guard (∀ kv ∈ fields, kv.1 ∈ ["action", "patches", "selected_metric_ids"])
    let action ← (← fields.lookup "action").string?
    let patches ← list_field fields "patches" MetricPatch.model_validate
    let selected_metric_ids ← list_field fields "selected_metric_ids" Json.string?
    return { action, patches, selected_metric_ids }
  | _           => none

section Values

-- What a loop over a value sees.
def items : Json → Except Error (List Json)
  | .arr xs     => .ok xs
  | .obj fields => .ok <| fields.map fun kv => .str kv.1
  | .str s      => .ok <| s.toList.map fun c => .str (String.singleton c)
  | _           => .error <| .raised "TypeError"

-- An element of what a dict is made from. The keys of a dict are text here.
def pair (element : Json) (i : ℕ) : Except Error (String × Json) := do
  match ← items element with
  | [.str key, value] => return (key, value)
  | [_, _]            => .error <| .raised "TypeError"
  | xs                =>
    .error <| .value_error
      s!"dictionary update sequence element #{i} has length {xs.length}; 2 is required"

-- `dict(value)`
def dict_of : Json → Except Error Fields
  | .obj fields => .ok fields
  | value       => do
    let pairs ← (← items value).zipIdx.mapM fun e => pair e.1 e.2
    return pairs.foldl (fun fields kv => set_item kv.1 kv.2 fields) []

-- `value or {}`
def or_empty : Option Json → Json
  | some value => if value.truthy then value else .obj []
  | none       => .obj []

def item (fields : Fields) (key : String) : Except Error Json :=
  match fields.lookup key with
  | some value => .ok value
  | none       => .error <| .raised "KeyError"

def hash : Json → Except Error Unit
  | .arr _ | .obj _ => .error <| .raised "TypeError"
  | _               => .ok ()

end Values

-- The condition that `by_id` has for a metric, the last patch of an id being the one it keeps.
def by_id (patches : List MetricPatch) (id : Json) : Option String := do
  let id ← id.string?
  let patch ← patches.reverse.find? (·.metric_id = id)
  patch.scoring_condition.filter (· ≠ "")

def set_condition (condition : String) (metric : Fields) : Except Error Fields := do
  let scoring ← dict_of <| or_empty <| metric.lookup "scoring"
  return set_item "scoring" (.obj <| set_item "condition" (.str condition) scoring) metric

-- The id of a metric, which is looked up in a dict or a set.
def metric_id (metric : Fields) : Except Error Json := do
  let id ← item metric "metric_id"
  hash id
  return id

def patch_metric (patches : List MetricPatch) (metric : Fields) : Except Error Fields := do
  match by_id patches (← metric_id metric) with
  | some condition => set_condition condition metric
  | none           => return metric

def is_selected (selected : List String) (id : Json) : Bool :=
  id.string?.any (· ∈ selected)

def select_metric (selected : List String) (metric : Fields) : Except Error Bool := do
  return is_selected selected (← metric_id metric)

def metrics_of (spec : Fields) : Except Error (List Fields) := do
  (← items <| ← item spec "metrics").mapM dict_of

def _apply_proposal (spec : Fields) (proposal : TurnProposal) : Except Error Fields :=
  if proposal.action = "no_op" then
    .error <| .value_error "proposal made no evaluation change"
  else do
    let metrics ← metrics_of spec
    if proposal.action = "patch_metrics" then
      if proposal.patches = [] then
        .error <| .value_error "patch_metrics requires patches"
      else
        let new_metrics ← metrics.mapM (patch_metric proposal.patches)
        return set_item "metrics" (.arr <| new_metrics.map .obj) spec
    else if proposal.action = "select_metrics" then
      if proposal.selected_metric_ids = [] then
        .error <| .value_error "select_metrics requires selected_metric_ids"
      else
        let kept ← Except.filter (select_metric proposal.selected_metric_ids) metrics
        return set_item "metrics" (.arr <| kept.map .obj) spec
    else
      .error <| .value_error s!"unsupported proposal action {proposal.action}"

-- A turn of an evaluation: what a model is asked for, and how often it may repair its answer.
section Turns

open Versions (VersionRecord)

structure Session where
  evaluation_id         : String
  evaluation_version_id : Option String
  knowledge_version_id  : Option String
  revision              : ℕ

structure Command where
  session_id        : String
  expected_revision : ℕ
  message           : Json
  card_action       : Json

structure Message where
  role    : String
  content : String

inductive Reply
  | json (raw : Json)
  | gateway_error
  | raised (exception : String)

-- The metrics of a valid specification: their ids and the conditions of their scoring.
def outline_metric : Json → Option (String × Option String)
  | .obj metric => do
    let id ← (← metric.lookup "metric_id").string?
    let scoring ← (← metric.lookup "scoring").fields?
    match scoring.lookup "condition" with
    | none | some .null     => return (id, none)
    | some (.str condition) => return (id, some condition)
    | some _                => none
  | _           => none

def outline (spec : Fields) : Option (List (String × Option String)) :=
  match spec.lookup "metrics" with
  | some (.arr metrics) => metrics.mapM outline_metric
  | _                   => none

-- `validate_spec`, and what `model_dump` makes of its result. A specification is refused, never
-- adjusted: a dump has the metrics and the conditions of what was validated.
structure Validator where
  validate_spec : Fields → Except String Fields
  outlined      : ∀ {spec dumped}, validate_spec spec = .ok dumped →
    (outline spec).isSome ∧ outline dumped = outline spec

structure Host extends Validator where
  session              : String → Except Error Session
  get                  : Option String → Except Error VersionRecord
  chat_json            : List Message → Reply
  dumps                : Json → String
  dumps_sorted         : Json → String
  validation_text      : Json → String
  spec_repair_attempts : ℕ

-- How a turn ended.
inductive Outcome
  | rejected (proposal : Json) (repairs : ℕ)
  | failed
  | prepared (base_revision : ℕ) (spec : Fields) (proposal : TurnProposal) (repairs : ℕ)

structure Turn where
  evaluation_id         : String
  evaluation_version_id : String
  outcome               : Outcome

-- What a reply comes to. Where it is refused, `spec` is what the next one is applied to.
inductive Tried
  | accepted (proposal : TurnProposal) (validated : Fields)
  | refused (text : String) (spec : Fields)
  | raised (e : Error)

section

variable (h : Host)

def try_reply (spec : Fields) (raw : Json) : Tried :=
  match TurnProposal.model_validate raw with
  | none          => .refused (h.validation_text raw) spec
  | some proposal =>
    match _apply_proposal spec proposal with
    | .error (.value_error text) => .refused text spec
    | .error e                   => .raised e
    | .ok spec                   =>
      match h.validate_spec spec with
      | .ok validated => .accepted proposal validated
      | .error text   => .refused text spec

-- The loop, with `left` repairs to go. The replies it has seen are kept beside its result.
def repair (base_revision left repairs : ℕ) (spec : Fields) (messages : List Message)
    (replies : List Json) : Except Error (Outcome × List Json) :=
  match h.chat_json messages with
  | .gateway_error    => .ok (.failed, replies)
  | .raised exception => .error <| .raised exception
  | .json raw         =>
    match try_reply h spec raw with
    | .raised e                    => .error e
    | .accepted proposal validated =>
      .ok (.prepared base_revision validated proposal repairs, replies ++ [raw])
    | .refused text spec           =>
      match left with
      | 0        =>
        let proposal := if raw.fields?.isSome then raw else .obj []
        .ok (.rejected proposal (repairs + 1), replies ++ [raw])
      | left + 1 =>
        repair base_revision left (repairs + 1) spec
          (messages ++ [⟨"assistant", h.dumps raw⟩, ⟨"user", s!"Validation failed: {text}"⟩])
          (replies ++ [raw])

def prompt (command : Command) (session : Session) (spec : Fields) : List Message := [
  ⟨"system", "Return one JSON object for the evaluation turn. " ++
    "Patch only named metrics. Never invent labels or verification."⟩,
  ⟨"user", h.dumps_sorted <| .obj [
    ("message", command.message),
    ("card_action", command.card_action),
    ("evaluation", .obj spec),
    ("knowledge_version_id", (session.knowledge_version_id.map Json.str).getD .null)
  ]⟩
]

-- The session at the revision that is expected, and the version it is at.
def read_base (command : Command) : Except Error (Session × VersionRecord × Fields) := do
  let session ← h.session command.session_id
  if session.revision ≠ command.expected_revision then
    .error <| .revision_conflict session.revision
  else
    let current ← h.get session.evaluation_version_id
    let spec ← dict_of <| ← item current.content "spec"
    return (session, current, spec)

def prepare (command : Command) : Except Error (Turn × List Json) := do
  let (session, current, spec) ← read_base h command
  let (outcome, replies) ←
    repair h current.revision h.spec_repair_attempts 0 spec (prompt h command session spec) []
  return (⟨session.evaluation_id, current.version_id, outcome⟩, replies)

end

end Turns

end Authoring
