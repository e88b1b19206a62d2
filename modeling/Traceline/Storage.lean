import Mathlib.Data.Prod.Lex
import Mathlib.Data.String.Basic
import Traceline.Evaluators.Aggregate
import Traceline.Library.Store
import Traceline.Library.Table
import Traceline.Lifecycle

-- The tables of one run.
namespace Storage

open Lifecycle Spec Events Evaluators

-- What a run row froze at creation.
structure Run where
  run_id              : String
  workspace_id        : String
  spec                : EvaluationSpec
  repeats             : ℕ
  retry_max           : ℕ
  invocation_manifest : Option (List (String × Json))
  cases_nonempty   : spec.cases ≠ []
  metrics_nonempty : spec.metrics ≠ []
  repeats_pos      : 0 < repeats

structure RunRecord extends Run where
  status : RunStatus

-- A row of `run_cases`.
structure CaseRecord where
  case_id        : String
  status         : RunCaseStatus
  classification : Option String
  error_category : Option String
  deriving DecidableEq, Repr

-- A row of `run_case_attempts`. The error is whatever scalar was bound to its column.
structure AttemptRecord where
  attempt_id       : String
  case_id          : String
  repeat_index     : ℕ
  attempt          : ℕ
  is_first_attempt : Bool
  status           : AttemptStatus
  exit_code        : Option Int
  event_count      : ℕ
  trace_truncated  : Bool
  error            : Json
  deriving DecidableEq, Repr

-- A row of `attempt_outputs`.
structure AttemptOutput where
  attempt_id     : String
  case_id        : String
  result_payload : Option (List (String × Json))
  deriving DecidableEq, Repr

-- A row of `remote_jobs`.
structure RemoteJob where
  attempt_id    : String
  case_id       : String
  remote_job_id : String
  state         : String
  deriving DecidableEq, Repr

-- A row of `run_case_metric_results`. The score is a REAL column, which stores a NaN as NULL.
structure CaseMetricResult where
  case_id            : String
  metric_id          : String
  score_revision     : ℕ
  status             : CaseStatus
  score              : Option PyFloat
  raw_value          : Json
  evidence_event_ids : List String
  evaluator_version  : Option String
  judge_binding      : Option JudgeBinding
  is_authoritative   : Bool
  on_retry_override  : Bool
  deriving DecidableEq, Repr

def CaseMetricResult.key (r : CaseMetricResult) : String × String × ℕ :=
  (r.case_id, r.metric_id, r.score_revision)

inductive GateStatus
  | PASS
  | FAIL
  | NOT_APPLICABLE
  deriving DecidableEq, Repr

-- A row of `run_metric_results`.
structure RunMetricResult where
  metric_id         : String
  score_revision    : ℕ
  value             : Option PyFloat
  aggregation_state : AggregationState
  method            : Method
  on_error          : OnError
  sample_n          : ℕ
  error_n           : ℕ
  skipped_n         : ℕ
  gate_status       : Option GateStatus
  no_ci             : Bool
  deriving DecidableEq, Repr

def RunMetricResult.key (r : RunMetricResult) : String × ℕ :=
  (r.metric_id, r.score_revision)

-- A row of `cost_summaries`.
structure CostSummary where
  price_version : String
  input_tokens  : Int
  output_tokens : Int
  usd_micros    : Int
  deriving DecidableEq, Repr

-- `remote_jobs` is kept in the order of `updated_at`.
structure State where
  status         : RunStatus
  cases          : Table CaseRecord.case_id
  attempts       : Table AttemptRecord.attempt_id
  events         : Table TraceEvent.event_id
  outputs        : Table AttemptOutput.attempt_id
  remote_jobs    : List RemoteJob
  case_results   : Table CaseMetricResult.key
  run_results    : Table RunMetricResult.key
  cost_summaries : Table CostSummary.price_version

inductive Error
  | key_error (message : String)
  | run_already_terminal (message : String)
  | illegal_transition (e : IllegalTransition)
  | engine_error (message : String)
  | value_error (message : String)
  | overflow_error (message : String)
  | integrity_error (constraint : String)
  | evaluator (e : Exc)
  | raised (message : String)
  deriving DecidableEq, Repr

def Error.message : Error → String
  | .key_error message | .run_already_terminal message | .engine_error message
  | .value_error message | .overflow_error message | .raised message => message
  | .illegal_transition e => e.message
  | .integrity_error constraint => "UNIQUE constraint failed: " ++ constraint
  | .evaluator e => e.message

namespace State

-- A run whose row was just inserted.
def draft : State where
  status         := .draft
  cases          := .empty
  attempts       := .empty
  events         := .empty
  outputs        := .empty
  remote_jobs    := []
  case_results   := .empty
  run_results    := .empty
  cost_summaries := .empty

variable (s : State)

-- UPDATE runs SET status
def write_run_status (status : RunStatus) : State :=
  { s with status }

def set_run_status (target : RunStatus) : Except Error Unit × State :=
  match transition RunStatus.toString RunStatus.next s.status target with
  | .ok status => (.ok (), s.write_run_status status)
  | .error e   => (.error (.illegal_transition e), s)

-- ORDER BY rowid
def list_cases : List CaseRecord :=
  s.cases.rows

def get_case (case_id : String) : Option CaseRecord :=
  s.cases.find case_id

def case_status (case_id : String) : Option RunCaseStatus :=
  (s.get_case case_id).map (·.status)

-- UPDATE run_cases SET status WHERE case_id
def write_case_status (case_id : String) (status : RunCaseStatus) : State :=
  { s with cases := s.cases.update (·.case_id = case_id) ({ · with status }) fun _ => rfl }

-- The same status for several cases, one update each.
def write_cases (case_ids : List String) (status : RunCaseStatus) : State :=
  case_ids.foldl (·.write_case_status · status) s

def set_case_status (case_id : String) (target : RunCaseStatus) : Except Error Unit × State :=
  match s.get_case case_id with
  | none         => (.error <| .key_error s!"case '{case_id}' not in run", s)
  | some current =>
    match transition RunCaseStatus.toString RunCaseStatus.next current.status target with
    | .error e   => (.error (.illegal_transition e), s)
    | .ok status => (.ok (), s.write_case_status case_id status)

def set_case_classification (case_id : String) (classification error_category : Option String) :
    State :=
  { s with
    cases := s.cases.update (·.case_id = case_id) ({ · with classification, error_category })
      fun _ => rfl }

-- INSERT OR IGNORE
def insert_cases (cases : List TestCase) : State :=
  { s with
    cases := cases.foldl (fun t case =>
      (t.insert ⟨case.case_id, .queued, none, none⟩).getD t) s.cases }

-- The rows of a case, or of the run. ORDER BY repeat_index, attempt
def list_attempts (case_id : Option String) : List AttemptRecord :=
  (s.attempts.rows.filter fun a => case_id.all (a.case_id = ·)).mergeSort fun a b =>
    toLex (a.repeat_index, a.attempt) ≤ toLex (b.repeat_index, b.attempt)

def create_attempt (attempt_id case_id : String) (repeat_index attempt : ℕ) :
    Except Error AttemptRecord × State :=
  let a : AttemptRecord := {
    attempt_id
    case_id
    repeat_index
    attempt
    is_first_attempt := attempt = 0
    status           := .queued
    exit_code        := none
    event_count      := 0
    trace_truncated  := false
    error            := .null
  }
  if s.attempts.rows.any fun b =>
      b.case_id = case_id && b.repeat_index = repeat_index && b.attempt = attempt then
    (.error (.integrity_error "run_case_attempts.case_id, repeat_index, attempt"), s)
  else
    match s.attempts.insert a with
    | none          => (.error (.integrity_error "run_case_attempts.attempt_id"), s)
    | some attempts => (.ok a, { s with attempts })

-- What an attempt's status update may set besides the status.
structure AttemptUpdate where
  exit_code       : Option Int := none
  event_count     : Option ℕ := none
  trace_truncated : Option Bool := none
  error           : Json := .null
  deriving DecidableEq, Repr

def int64 (n : Int) : Bool :=
  -2 ^ 63 ≤ n && n < 2 ^ 63

-- What SQLite takes as a parameter.
def bind_parameter : Json → Except Error Unit
  | .arr _ => .error (.raised "type 'list' is not supported")
  | .obj _ => .error (.raised "type 'dict' is not supported")
  | .int n =>
    if int64 n then .ok ()
    else .error (.overflow_error "Python int too large to convert to SQLite INTEGER")
  | _      => .ok ()

def AttemptUpdate.apply (u : AttemptUpdate) (status : AttemptStatus) (a : AttemptRecord) :
    AttemptRecord :=
  { a with
    status
    exit_code       := u.exit_code.or a.exit_code
    event_count     := u.event_count.getD a.event_count
    trace_truncated := u.trace_truncated.getD a.trace_truncated
    error           := if u.error = .null then a.error else u.error }

-- UPDATE run_case_attempts SET … WHERE attempt_id
def write_attempt (attempt_id : String) (status : AttemptStatus) (u : AttemptUpdate) : State :=
  { s with
    attempts := s.attempts.update (·.attempt_id = attempt_id) (u.apply status) fun _ => rfl }

def set_attempt_status (attempt_id : String) (target : AttemptStatus) (u : AttemptUpdate) :
    Except Error Unit × State :=
  match s.attempts.find attempt_id with
  | none         => (.error <| .key_error s!"attempt '{attempt_id}' not found", s)
  | some current =>
    match transition AttemptStatus.toString AttemptStatus.next current.status target with
    | .error e   => (.error (.illegal_transition e), s)
    | .ok status =>
      match bind_parameter u.error with
      | .error e => (.error e, s)
      | .ok _    => (.ok (), s.write_attempt attempt_id status u)

-- The columns of a trace event that SQLite refuses, or that do not convert to one.
def event_row (e : TraceEvent) : Except Error Unit :=
  let micros := e.cost.map (·.cost_usd)
  if micros.any (·.isNaN) then .error (.value_error "cannot convert float NaN to integer")
  else if micros.any (!·.isFinite) then
    .error (.overflow_error "cannot convert float infinity to integer")
  else if !([e.repeat_index, e.attempt, e.sequence] ++ e.duration_ms.toList).all int64 ||
      !micros.all fun x => int64 (usd_micros x) then
    .error (.overflow_error "Python int too large to convert to SQLite INTEGER")
  else .ok ()
where
  -- `round(cost_usd * 1_000_000)`, which rounds a half to the even neighbour
  usd_micros : PyFloat → Int
    | .finite q =>
      let x := q * 1000000
      let n := ⌊x⌋
      if x - n < 1 / 2 ∨ x - n = 1 / 2 ∧ n % 2 = 0 then n else n + 1
    | _ => 0

-- INSERT OR IGNORE
def insert_events (t : Table TraceEvent.event_id) (events : List TraceEvent) :
    Table TraceEvent.event_id :=
  events.foldl (fun t e => (t.insert e).getD t) t

-- Batch insert of events that are redacted once more on their way.
def insert_trace_events (p : Redaction.Patterns) (events : List TraceEvent) :
    Except Error Unit × State :=
  match events with
  | [] => (.ok (), s)
  | first :: _ =>
    if events.any (·.workspace_id ≠ first.workspace_id) then
      (.error (.value_error "trace batches must belong to one workspace"), s)
    else
      match events.forM event_row with
      | .error e => (.error e, s)
      | .ok _    => (.ok (), { s with events := insert_events s.events (events.map (·.redacted p)) })

-- The events of an attempt. ORDER BY timestamp, sequence
def get_trace_events (workspace_id case_id attempt_id : String) : List TraceEvent :=
  let selected := s.events.rows.filter fun e =>
    e.workspace_id = workspace_id && e.case_id = case_id && e.attempt_id = attempt_id
  selected.mergeSort fun a b =>
    toLex (a.timestamp.isoformat, a.sequence) ≤ toLex (b.timestamp.isoformat, b.sequence)

-- `json.dumps(value, allow_nan=False)`
def dumps (value : Json) : Except Error Json :=
  if value.finiteFloats then .ok value
  else .error (.value_error "Out of range float values are not JSON compliant")

-- A REAL column.
def real (x : PyFloat) : Option PyFloat :=
  if x.isNaN then none else some x

def case_metric_result (metrics : List Metric) (case_id : String) (score_revision : ℕ)
    (score : CaseScore) : Except Error CaseMetricResult := do
  let raw_value ← dumps score.raw_value
  return {
    case_id
    metric_id          := score.metric_id
    score_revision
    status             := score.status
    score              := score.score.bind real
    raw_value
    evidence_event_ids := score.evidence_event_ids
    evaluator_version  := score.evaluator_version
    judge_binding      :=
      (metrics.find? (·.metric_id = score.metric_id)).bind (·.judge_binding)
    is_authoritative   := score.attempt = 0
    on_retry_override  := score.on_retry_override
  }

def upsert_case_metric_results (metrics : List Metric) (case_id : String) (scores : List CaseScore)
    (score_revision : ℕ) : Except Error Unit × State :=
  match scores.mapM (case_metric_result metrics case_id score_revision) with
  | .error e => (.error e, s)
  | .ok rows => (.ok (), { s with case_results := rows.foldl .upsert s.case_results })

def save_attempt_output (attempt_id case_id : String)
    (result_payload : Option (List (String × Json))) : Except Error Unit × State :=
  match result_payload.mapM (dumps ∘ Json.obj) with
  | .error e => (.error e, s)
  | .ok _    =>
    (.ok (), { s with outputs := s.outputs.upsert ⟨attempt_id, case_id, result_payload⟩ })

def get_attempt_output (attempt_id : String) : Option (List (String × Json)) :=
  (s.outputs.find attempt_id).bind (·.result_payload)

-- What storage kept of an attempt: its events and its output.
def evidence (workspace_id : String) (a : AttemptRecord) :
    List TraceEvent × Option (List (String × Json)) :=
  (s.get_trace_events workspace_id a.case_id a.attempt_id, s.get_attempt_output a.attempt_id)

def save_remote_job (job : RemoteJob) : State :=
  { s with remote_jobs := s.remote_jobs.filter (·.attempt_id ≠ job.attempt_id) ++ [job] }

def get_remote_job (attempt_id : String) : Option RemoteJob :=
  s.remote_jobs.find? (·.attempt_id = attempt_id)

-- ORDER BY updated_at DESC LIMIT 1
def get_resumable_remote_job (case_id : String) : Option RemoteJob :=
  s.remote_jobs.reverse.find? fun job => job.case_id = case_id && job.state = "orphaned"

def set_remote_job_state (attempt_id state : String) : State :=
  match s.get_remote_job attempt_id with
  | none     => s
  | some job => s.save_remote_job { job with state }

def run_metric_result (metric : Metric) (aggregate : RunAggregate) (score_revision : ℕ)
    (gate_status : Option GateStatus) (no_ci : Bool) : RunMetricResult where
  metric_id         := metric.metric_id
  score_revision
  value             := aggregate.value.bind real
  aggregation_state := aggregate.aggregation_state
  method            := metric.aggregation.method
  on_error          := metric.aggregation.on_error
  sample_n          := aggregate.n_cases
  error_n           := aggregate.error_n
  skipped_n         := aggregate.skipped_n
  gate_status
  no_ci

def upsert_run_metric_result (row : RunMetricResult) : State :=
  { s with run_results := s.run_results.upsert row }

-- ORDER BY metric_id
def get_run_metric_results : List RunMetricResult :=
  s.run_results.rows.mergeSort fun a b =>
    toLex (a.metric_id, a.score_revision) ≤ toLex (b.metric_id, b.score_revision)

-- `iter_cost_json`
def cost_blocks (workspace_id : String) : List CostBlock :=
  (s.events.rows.filter (·.workspace_id = workspace_id)).filterMap (·.cost)

def add_cost_summaries (rows : List CostSummary) : State :=
  { s with cost_summaries := rows.foldl .upsert s.cost_summaries }

-- The attempts of a case, in the order they were made.
def case_rows (case_id : String) : List AttemptRecord :=
  s.attempts.rows.filter (·.case_id = case_id)

section

variable {s : State}

theorem set_run_status_ok {target : RunStatus} (h : s.status = target ∨ target ∈ s.status.next) :
    s.set_run_status target = (.ok (), s.write_run_status target) := by
  simp [set_run_status, transition_ok h]

theorem set_run_status_illegal {target : RunStatus}
    (h : ¬(s.status = target ∨ target ∈ s.status.next)) :
    ∃ e, s.set_run_status target = (.error (.illegal_transition e), s) := by
  simp [set_run_status, transition, if_neg h]

theorem set_case_status_ok {case_id : String} {target : RunCaseStatus} {r : CaseRecord}
    (hr : s.get_case case_id = some r) (h : r.status = target ∨ target ∈ r.status.next) :
    s.set_case_status case_id target = (.ok (), s.write_case_status case_id target) := by
  simp [set_case_status, hr, transition_ok h]

theorem set_attempt_status_ok {attempt_id : String} {target : AttemptStatus} {a : AttemptRecord}
    {u : AttemptUpdate} (ha : s.attempts.find attempt_id = some a)
    (h : a.status = target ∨ target ∈ a.status.next) (hb : bind_parameter u.error = .ok ()) :
    s.set_attempt_status attempt_id target u = (.ok (), s.write_attempt attempt_id target u) := by
  simp [set_attempt_status, ha, transition_ok h, hb]

theorem set_attempt_status_unbound {attempt_id : String} {target : AttemptStatus}
    {a : AttemptRecord} {u : AttemptUpdate} {e : Error} (ha : s.attempts.find attempt_id = some a)
    (h : a.status = target ∨ target ∈ a.status.next) (hb : bind_parameter u.error = .error e) :
    s.set_attempt_status attempt_id target u = (.error e, s) := by
  simp [set_attempt_status, ha, transition_ok h, hb]

theorem get_case_write_case_status {case_id id : String} {status : RunCaseStatus} :
    (s.write_case_status case_id status).get_case id =
      (s.get_case id).map fun r => if id = case_id then { r with status } else r := by
  cases h : s.cases.find id with
  | none   => simp [write_case_status, get_case, h]
  | some r => simp [write_case_status, get_case, h, Table.key_of_find h]

theorem get_case_set_case_classification {case_id id : String}
    {classification error_category : Option String} :
    (s.set_case_classification case_id classification error_category).get_case id =
      (s.get_case id).map fun r =>
        if id = case_id then { r with classification, error_category } else r := by
  cases h : s.cases.find id with
  | none   => simp [set_case_classification, get_case, h]
  | some r => simp [set_case_classification, get_case, h, Table.key_of_find h]

theorem case_status_eq_some_iff {case_id : String} {status : RunCaseStatus} :
    s.case_status case_id = some status ↔ ∃ r, s.get_case case_id = some r ∧ r.status = status :=
  Option.map_eq_some_iff

@[simp]
theorem case_status_write_run_status {case_id : String} {status : RunStatus} :
    (s.write_run_status status).case_status case_id = s.case_status case_id :=
  rfl

@[simp]
theorem case_status_write_case_status {case_id id : String} {status : RunCaseStatus} :
    (s.write_case_status case_id status).case_status id =
      if id = case_id then (s.case_status id).map fun _ => status else s.case_status id := by
  simp only [case_status, get_case_write_case_status]
  cases s.get_case id with
  | none   => simp
  | some r => by_cases h : id = case_id <;> simp [h]

@[simp]
theorem case_status_set_case_classification {case_id id : String}
    {classification error_category : Option String} :
    (s.set_case_classification case_id classification error_category).case_status id =
      s.case_status id := by
  simp only [case_status, get_case_set_case_classification]
  cases s.get_case id with
  | none   => simp
  | some r => by_cases h : id = case_id <;> simp [h]

@[simp]
theorem case_status_write_cases {case_ids : List String} {id : String} {status : RunCaseStatus} :
    (s.write_cases case_ids status).case_status id =
      if id ∈ case_ids then (s.case_status id).map fun _ => status else s.case_status id := by
  induction case_ids generalizing s with
  | nil                => simp [write_cases]
  | cons case_id ids ih =>
    change ((s.write_case_status case_id status).write_cases ids status).case_status id = _
    rw [ih, case_status_write_case_status]
    by_cases h : id = case_id <;> by_cases h' : id ∈ ids <;>
      simp [h, h', Function.comp_def]

-- A write to the cases touches nothing else.
theorem write_cases_eq {case_ids : List String} {status : RunCaseStatus} :
    ∃ cases, s.write_cases case_ids status = { s with cases } := by
  induction case_ids generalizing s with
  | nil                 => exact ⟨s.cases, rfl⟩
  | cons case_id ids ih =>
    have ⟨cases, h⟩ := ih (s := s.write_case_status case_id status)
    exact ⟨cases, h⟩

-- Inserted cases are queued, and those that were there stay as they were.
theorem case_status_insert_cases {cases : List TestCase} {id : String} :
    (s.insert_cases cases).case_status id =
      (s.case_status id).or (if ∃ case ∈ cases, case.case_id = id then some .queued else none) := by
  induction cases generalizing s with
  | nil             => simp [insert_cases]
  | cons case cases ih =>
    set r : CaseRecord := ⟨case.case_id, .queued, none, none⟩ with hr
    have hstep : ({ s with cases := (s.cases.insert r).getD s.cases } : State).case_status id =
        (s.case_status id).or (if case.case_id = id then some .queued else none) := by
      cases h : s.cases.insert r with
      | none   =>
        by_cases hid : case.case_id = id
        · obtain ⟨r', hr'⟩ := Table.insert_eq_none_iff.mp h
          have hr' : s.cases.find id = some r' := hid ▸ hr'
          simp [case_status, get_case, hr']
        · simp [hid, case_status, get_case]
      | some t =>
        have hn := Table.insert_eq_some_iff.mp h |>.left
        by_cases hid : case.case_id = id
        · have hs : s.case_status id = none := by
            rw [case_status, get_case, ← hid]
            exact congrArg _ hn
          simp [case_status, get_case, Table.find_insert h, hr, hid] at hs ⊢
          simp [hs]
        · simp [case_status, get_case, Table.find_insert h, hr, hid]
    change (({ s with cases := (s.cases.insert r).getD s.cases } : State).insert_cases
      cases).case_status id = _
    rw [ih, hstep, Option.or_assoc]
    by_cases hid : case.case_id = id <;> simp [hid]

theorem case_status_of_mem {r : CaseRecord} (h : r ∈ s.cases) :
    s.case_status r.case_id = some r.status := by
  rw [case_status, get_case, Table.find_key h]
  rfl

-- New events join the table after the old ones, each with the identity it came with.
theorem insert_events_rows (t : Table TraceEvent.event_id) (events : List TraceEvent) :
    ∃ new, (insert_events t events).rows = t.rows ++ new ∧ ∀ e ∈ new, e ∈ events := by
  induction events generalizing t with
  | nil            => exact ⟨[], by simp [insert_events]⟩
  | cons e events ih =>
    have ⟨new, hr, hn⟩ := ih ((t.insert e).getD t)
    have hmem : ∀ e' ∈ new, e' ∈ e :: events := fun e' he' => .tail _ <| hn e' he'
    cases h : t.insert e with
    | none =>
      rw [h] at hr
      exact ⟨new, by simpa [insert_events, h] using hr, hmem⟩
    | some t' =>
      have ⟨_, ht'⟩ := Table.insert_eq_some_iff.mp h
      simp only [h, Option.getD_some, ht', List.append_assoc] at hr
      refine ⟨[e] ++ new, by simpa [insert_events, h] using hr, ?_⟩
      intro e' he'
      rcases List.mem_append.mp he' with he' | he'
      · simp [List.mem_singleton.mp he']
      · exact hmem e' he'

-- The events of one attempt do not depend on those of others.
theorem get_trace_events_insert_events {events : List TraceEvent} {w case_id id : String}
    (h : ∀ e ∈ events, e.attempt_id ≠ id) :
    ({ s with events := insert_events s.events events } : State).get_trace_events w case_id id =
      s.get_trace_events w case_id id := by
  have ⟨new, hr, hn⟩ := insert_events_rows s.events events
  have hnew : new.filter (fun e =>
      e.workspace_id = w && e.case_id = case_id && e.attempt_id = id) = [] := by
    rw [List.filter_eq_nil_iff]
    intro e he
    simp [h e (hn e he)]
  simp [get_trace_events, hr, List.filter_append, hnew]

theorem mem_case_rows_iff {case_id : String} {a : AttemptRecord} :
    a ∈ s.case_rows case_id ↔ a ∈ s.attempts ∧ a.case_id = case_id := by
  simp [case_rows, Table.mem_rows]

theorem mem_list_attempts_iff {case_id : Option String} {a : AttemptRecord} :
    a ∈ s.list_attempts case_id ↔ a ∈ s.attempts ∧ ∀ id ∈ case_id, a.case_id = id := by
  cases case_id <;> simp [list_attempts, Table.mem_rows]

end

end State

inductive Call
  | get_run
  | set_run_status (target : RunStatus)
  | list_cases
  | get_case (case_id : String)
  | set_case_status (case_id : String) (target : RunCaseStatus)
  | set_case_classification (case_id : String) (classification error_category : Option String)
  | list_attempts (case_id : Option String)
  | create_attempt (attempt_id case_id : String) (repeat_index attempt : ℕ)
  | set_attempt_status (attempt_id : String) (target : AttemptStatus) (u : State.AttemptUpdate)
  | insert_trace_events (events : List TraceEvent)
  | get_trace_events (case_id attempt_id : String)
  | upsert_case_metric_results (case_id : String) (scores : List CaseScore) (score_revision : ℕ)
  | save_attempt_output (attempt_id case_id : String)
    (result_payload : Option (List (String × Json)))
  | get_attempt_output (attempt_id : String)
  | save_remote_job (job : RemoteJob)
  | get_remote_job (attempt_id : String)
  | get_resumable_remote_job (case_id : String)
  | set_remote_job_state (attempt_id state : String)
  | cost_blocks
  | add_cost_summaries (rows : List CostSummary)
  | upsert_run_metric_result (row : RunMetricResult)
  | get_run_metric_results

@[reducible]
def Call.Reply : Call → Type
  | .get_run                    => Option RunRecord
  | .list_cases                 => List CaseRecord
  | .get_case _                 => Option CaseRecord
  | .list_attempts _            => List AttemptRecord
  | .create_attempt _ _ _ _     => AttemptRecord
  | .get_trace_events _ _       => List TraceEvent
  | .get_attempt_output _       => Option (List (String × Json))
  | .get_remote_job _           => Option RemoteJob
  | .get_resumable_remote_job _ => Option RemoteJob
  | .cost_blocks                => List CostBlock
  | .get_run_metric_results     => List RunMetricResult
  | _                           => Unit

-- Each operation commits one transaction of its own.
def perform (run : Run) (p : Redaction.Patterns) :
    (c : Call) → State → Except Error c.Reply × State
  | .get_run, s => (.ok (some ⟨run, s.status⟩), s)
  | .set_run_status target, s => s.set_run_status target
  | .list_cases, s => (.ok s.list_cases, s)
  | .get_case case_id, s => (.ok (s.get_case case_id), s)
  | .set_case_status case_id target, s => s.set_case_status case_id target
  | .set_case_classification case_id classification category, s =>
    (.ok (), s.set_case_classification case_id classification category)
  | .list_attempts case_id, s => (.ok (s.list_attempts case_id), s)
  | .create_attempt attempt_id case_id repeat_index attempt, s =>
    s.create_attempt attempt_id case_id repeat_index attempt
  | .set_attempt_status attempt_id target u, s => s.set_attempt_status attempt_id target u
  | .insert_trace_events events, s => s.insert_trace_events p events
  | .get_trace_events case_id attempt_id, s =>
    (.ok (s.get_trace_events run.workspace_id case_id attempt_id), s)
  | .upsert_case_metric_results case_id scores score_revision, s =>
    s.upsert_case_metric_results run.spec.metrics case_id scores score_revision
  | .save_attempt_output attempt_id case_id result_payload, s =>
    s.save_attempt_output attempt_id case_id result_payload
  | .get_attempt_output attempt_id, s => (.ok (s.get_attempt_output attempt_id), s)
  | .save_remote_job job, s => (.ok (), s.save_remote_job job)
  | .get_remote_job attempt_id, s => (.ok (s.get_remote_job attempt_id), s)
  | .get_resumable_remote_job case_id, s => (.ok (s.get_resumable_remote_job case_id), s)
  | .set_remote_job_state attempt_id state, s => (.ok (), s.set_remote_job_state attempt_id state)
  | .cost_blocks, s => (.ok (s.cost_blocks run.workspace_id), s)
  | .add_cost_summaries rows, s => (.ok (), s.add_cost_summaries rows)
  | .upsert_run_metric_result row, s => (.ok (), s.upsert_run_metric_result row)
  | .get_run_metric_results, s => (.ok s.get_run_metric_results, s)

end Storage
