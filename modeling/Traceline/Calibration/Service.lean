import Traceline.Evaluators.Aggregate
import Traceline.Library.Wp
import Traceline.Library.Table
import Traceline.Text
import Traceline.Versions.Store
import Mathlib.Data.List.Dedup
import Mathlib.Data.List.Sort

-- The calibration of judges: the labels of people beside those of the judge, and what they say of
-- the binding.
namespace Calibration

open Evaluators (ReadinessState)
open Spec (JudgeBinding)
open Versions (Actor)

-- A row of `judge_calibrations`, of one workspace.
structure JudgeCalibrationRecord where
  binding_key : String
  binding     : JudgeBinding
  generation  : ℕ
  state       : ReadinessState
  label_count : ℕ
  kappa       : Option ℚ
  min_labels  : ℕ
  kappa_ready : ℚ
  kappa_reset : ℚ
  deriving DecidableEq, Repr

structure JudgeCalibrationLabelRecord where
  binding_key : String
  generation  : ℕ
  label_id    : String
  case_id     : String
  human_label : Json
  judge_label : Json
  author_id   : String
  created_at  : Int
  deriving DecidableEq, Repr

def JudgeCalibrationLabelRecord.key (l : JudgeCalibrationLabelRecord) : String × ℕ × String :=
  (l.binding_key, l.generation, l.label_id)

structure State where
  calibrations : Table JudgeCalibrationRecord.binding_key
  labels       : Table JudgeCalibrationLabelRecord.key

inductive Error
  | workflow_error (message code : String) (status : ℕ)
  | assertion_error
  deriving DecidableEq, Repr

inductive Call
  | get_judge_calibration (binding_key : String)
  | upsert_judge_calibration (record : JudgeCalibrationRecord)
  | append_judge_calibration_label (label : JudgeCalibrationLabelRecord)
  | list_judge_calibration_labels (binding_key : String) (generation : ℕ)

inductive Query
  | uuid4
  | now

abbrev sig : Sig where
  Call := Call
  Reply
    | .get_judge_calibration _           => Option JudgeCalibrationRecord
    | .upsert_judge_calibration _        => Unit
    | .append_judge_calibration_label _  => JudgeCalibrationLabelRecord
    | .list_judge_calibration_labels _ _ => List JudgeCalibrationLabelRecord
  Query := Query
  Answer
    | .uuid4 => String
    | .now   => Int
  Error := Error

namespace State

variable (s : State)

-- ORDER BY created_at, label_id
def earlier (l l' : JudgeCalibrationLabelRecord) : Prop :=
  l.created_at < l'.created_at ∨ (l.created_at = l'.created_at ∧ l.label_id ≤ l'.label_id)

instance : DecidableRel earlier :=
  fun _ _ => inferInstanceAs (Decidable (_ ∨ _))

def list_judge_calibration_labels (binding_key : String) (generation : ℕ) :
    List JudgeCalibrationLabelRecord :=
  List.insertionSort earlier <| s.labels.rows.filter fun l =>
    l.binding_key = binding_key && l.generation = generation

-- The INSERT does nothing where the label is there. The row is then read back.
def append_judge_calibration_label (label : JudgeCalibrationLabelRecord) :
    JudgeCalibrationLabelRecord × State :=
  match s.labels.insert label with
  | some labels => (label, { s with labels })
  | none        => ((s.labels.find label.key).getD label, s)

end State

abbrev store : Store sig where
  State := State
  perform
    | .get_judge_calibration binding_key, s        => (.ok (s.calibrations.find binding_key), s)
    | .upsert_judge_calibration record, s          =>
      (.ok (), { s with calibrations := s.calibrations.upsert record })
    | .append_judge_calibration_label label, s     =>
      (.ok (s.append_judge_calibration_label label).1, (s.append_judge_calibration_label label).2)
    | .list_judge_calibration_labels binding_key generation, s =>
      (.ok (s.list_judge_calibration_labels binding_key generation), s)

def call (c : Call) : Prog sig (sig.Reply c) :=
  Prog.perform (S := sig) c

def ask (q : Query) : Prog sig (sig.Answer q) :=
  Prog.query (S := sig) q

-- The share of the pairs that agree, beyond what is expected of two that label at random.
def cohen_kappa (pairs : List (Json × Json)) : Option ℚ :=
  if pairs = [] then none
  else
    let total : ℚ := pairs.length
    let observed := (pairs.countP fun p => p.1.pyEq p.2) / total
    let categories := (pairs.map Prod.fst ++ pairs.map Prod.snd).dedup
    let expected := (categories.map fun category =>
      (pairs.countP (·.1 = category) / total) * (pairs.countP (·.2 = category) / total)).sum
    if expected = 1 then some (if observed = 1 then 1 else 0)
    else some ((observed - expected) / (1 - expected))

structure JudgeReadiness where
  binding     : JudgeBinding
  state       : ReadinessState
  label_count : ℕ
  kappa       : Option ℚ
  min_labels  : ℕ
  kappa_ready : ℚ
  kappa_reset : ℚ
  generation  : ℕ
  deriving DecidableEq, Repr

namespace JudgeReadiness

variable (r : JudgeReadiness)

def sufficient : Bool :=
  r.min_labels ≤ r.label_count && r.kappa.any (r.kappa_ready ≤ ·)

def _derive : JudgeReadiness :=
  { r with
    state :=
      if r.kappa.any (· < r.kappa_reset) then
        if 0 < r.label_count then .CALIBRATING else .UNCALIBRATED
      else if r.sufficient then .CALIBRATED
      else if 0 < r.label_count then .CALIBRATING
      else .UNCALIBRATED }

end JudgeReadiness

def MIN_LABELS : ℕ :=
  30

def KAPPA_READY : ℚ :=
  3 / 5

def KAPPA_RESET : ℚ :=
  1 / 2

def readiness (binding : JudgeBinding) (record : JudgeCalibrationRecord) : JudgeReadiness where
  binding
  state       := record.state
  label_count := record.label_count
  kappa       := record.kappa
  min_labels  := record.min_labels
  kappa_ready := record.kappa_ready
  kappa_reset := record.kappa_reset
  generation  := record.generation

def record (binding_key : String) (r : JudgeReadiness) (generation : ℕ) :
    JudgeCalibrationRecord where
  binding_key
  binding     := r.binding
  generation
  state       := r.state
  label_count := r.label_count
  kappa       := r.kappa
  min_labels  := r.min_labels
  kappa_ready := r.kappa_ready
  kappa_reset := r.kappa_reset

-- A binding without labels.
def uncalibrated (binding : JudgeBinding) (min_labels : ℕ) (kappa_ready kappa_reset : ℚ) :
    JudgeReadiness where
  binding
  state       := .UNCALIBRATED
  label_count := 0
  kappa       := none
  min_labels
  kappa_ready
  kappa_reset
  generation  := 0

def require (actor : Actor) (write : Bool) : Except Error Unit :=
  if actor.actor_id = "" || actor.workspace_id = "" then
    .error <| .workflow_error "Authentication required" "unauthorized" 401
  else if write && actor.role = .viewer then
    .error <| .workflow_error "Editing permission required" "forbidden" 403
  else .ok ()

section Service

variable (py : Python) (binding_key : JudgeBinding → String)

-- Whether `value.strip()` leaves nothing.
def blank (value : String) : Bool :=
  value.toList.all py.isspace

def _label : Json → Except Error Json
  | .str value          =>
    if blank py value || 255 < value.length then
      .error <| .workflow_error "calibration labels must be bounded non-empty strings"
        "validation_error" 422
    else .ok (.str value)
  | .float (.finite x)  => .ok (.float (.finite x))
  | .null               => .ok .null
  | .int n              => .ok (.int n)
  | .bool b             => .ok (.bool b)
  | _                   =>
    .error <| .workflow_error "calibration labels must be finite scalar values" "validation_error"
      422

-- A row that was just written is there.
def found : Option JudgeCalibrationRecord → Prog sig JudgeCalibrationRecord
  | some record => return record
  | none        => throw .assertion_error

def get (actor : Actor) (binding : JudgeBinding) : Prog sig JudgeReadiness := do
  Prog.ofExcept (require actor false)
  match ← call (.get_judge_calibration (binding_key binding)) with
  | some record => return readiness binding record
  | none        => do
    call (.upsert_judge_calibration <| record (binding_key binding)
      (uncalibrated binding MIN_LABELS KAPPA_READY KAPPA_RESET) 0)
    let record ← found (← call (.get_judge_calibration (binding_key binding)))
    return readiness binding record

def _generation (key : String) : Prog sig ℕ := do
  let record ← found (← call (.get_judge_calibration key))
  return record.generation

def _recompute (binding : JudgeBinding) (current : JudgeReadiness) : Prog sig JudgeReadiness := do
  let key := binding_key binding
  let listed ← _generation key
  let labels ← call (.list_judge_calibration_labels key listed)
  let generation ← _generation key
  let readiness := JudgeReadiness._derive {
    binding
    state       := .UNCALIBRATED
    label_count := labels.length
    kappa       := cohen_kappa (labels.map fun row => (row.human_label, row.judge_label))
    min_labels  := current.min_labels
    kappa_ready := current.kappa_ready
    kappa_reset := current.kappa_reset
    generation
  }
  let written ← _generation key
  call (.upsert_judge_calibration <| record key readiness written)
  return readiness

-- `label_id or uuid.uuid4().hex`
def label_id_of (label_id : Option String) : Prog sig String :=
  match label_id.filter (· ≠ "") with
  | some label_id => return label_id
  | none          => ask .uuid4

def record_label (actor : Actor) (binding : JudgeBinding) (case_id : String)
    (human_label judge_label : Json) (label_id : Option String) : Prog sig JudgeReadiness := do
  Prog.ofExcept (require actor true)
  Prog.ofExcept <| if blank py case_id then
    .error <| .workflow_error "case_id is required" "calibration_label_invalid" 422 else .ok ()
  let human_label ← Prog.ofExcept (_label py human_label)
  let judge_label ← Prog.ofExcept (_label py judge_label)
  let current ← get binding_key actor binding
  let generation ← _generation (binding_key binding)
  let label_id ← label_id_of label_id
  let created_at ← ask .now
  let _ ← call (.append_judge_calibration_label {
    binding_key := binding_key binding
    generation
    label_id
    case_id
    human_label
    judge_label
    author_id   := actor.actor_id
    created_at
  })
  _recompute binding_key binding current

def reset (actor : Actor) (binding : JudgeBinding) : Prog sig JudgeReadiness := do
  Prog.ofExcept (require actor true)
  let key := binding_key binding
  let current ← get binding_key actor binding
  let row ← found (← call (.get_judge_calibration key))
  call (.upsert_judge_calibration <| record key
    (uncalibrated binding current.min_labels current.kappa_ready current.kappa_reset)
    (row.generation + 1))
  get binding_key actor binding

end Service

end Calibration
