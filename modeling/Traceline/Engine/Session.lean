import Traceline.Engine.Run

namespace Engine

open Lifecycle Spec Storage

variable (E : Engine)

def set_cases (target : RunCaseStatus) : List String → M Unit
  | []        => pure ()
  | id :: ids => do
    call (.set_case_status id target)
    set_cases target ids

def ids_with (status : RunCaseStatus) (cases : List CaseRecord) : List String :=
  (cases.filter (·.status = status)).map (·.case_id)

-- The resume of a run that was cancelled or left incomplete, which takes its cancelled cases back.
def reopen : M Unit := do
  call (.set_run_status .queued)
  let cases ← call .list_cases
  set_cases .queued (ids_with .cancelled cases)

def start (status : RunStatus) : M Unit :=
  match status with
  | .draft        => do
    call (.set_run_status .queued)
    call (.set_run_status .provisioning)
    call (.set_run_status .running)
  | .queued       => do
    call (.set_run_status .provisioning)
    call (.set_run_status .running)
  | .provisioning => call (.set_run_status .running)
  | _             => pure ()

def orphan_message : String :=
  "previous runner process died; attempt orphaned on resume"

def live (status : AttemptStatus) : Bool :=
  status = .queued || status = .running

def orphan_attempts : List AttemptRecord → M Unit
  | []            => pure ()
  | a :: attempts => do
    if live a.status then
      call (.set_attempt_status a.attempt_id .orphaned { error := .str orphan_message })
      call (.set_remote_job_state a.attempt_id "orphaned")
    orphan_attempts attempts

-- `_reconcile_stale`: the cases that a dead runner left running.
def reconcile_stale : M (List String) := do
  let attempts ← call (.list_attempts none)
  orphan_attempts attempts
  let cases ← call .list_cases
  let stale := ids_with .running cases
  set_cases .cancelled stale
  return stale

-- The cases that a resume runs afresh because all their attempts failed.
def failed_cases (resumed : Bool) : M (List String) := do
  if resumed then
    let cases ← call .list_cases
    return ids_with .failed cases
  else return []

def mark_incomplete {α : Type} (p : M α) : M α :=
  tryCatch p fun e => do
    call (.set_run_status .incomplete)
    throw e

def reopened (stored : RunStatus) : Bool :=
  stored = .cancelled || stored = .incomplete

-- Whether a session takes up again what an earlier one began.
def resumed (stored : RunStatus) : Bool :=
  stored = .running || stored = .aggregating || reopened stored

-- The cases that an earlier session left behind go back to the queue.
def requeue (stored : RunStatus) : M Unit := do
  let stale ← reconcile_stale
  let failed ← failed_cases (resumed stored)
  let order ← ask (.set_order (stale ++ failed).dedup)
  set_cases .queued order.val

-- What a session does before its run loop.
def prepare (stored : RunStatus) : M Unit := do
  if reopened stored then reopen
  start (if reopened stored then .queued else stored)
  requeue stored

def execute (run : Run) : M RunResult := do
  match ← mark_incomplete (E.run_cases run run.spec.cases {}) with
  | .inr result => return result
  | .inl σ      => mark_incomplete (E.finalize run σ)

-- `create_run`, which writes the row of the run and then its cases.
def created (run : Run) : Storage.State :=
  State.draft.insert_cases run.spec.cases

-- `Engine.run`
def run (E : Engine) : M RunResult := do
  match ← call .get_run with
  | none        => throw (.key_error "run not found")
  | some record =>
    if record.status = .complete ∨ record.status = .failed then
      throw <| .run_already_terminal <|
        s!"run '{record.run_id}' is already {record.status.toString}; " ++
        "a terminal run does not re-run"
    prepare record.status
    E.execute record.toRun

end Engine
