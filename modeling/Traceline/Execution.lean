import Traceline.Engine.Session
import Traceline.Library.May

-- The execution of a run plan, which resumes the run of its idempotency key or creates one.
namespace Execution

open Lifecycle Storage

-- What an execution does around the run it drives, none of which touches the run's own tables.
inductive Step
  | load_plan
  | resolve_target
  | link_custom_evaluation_run
  | assemble_engine
  | check_run
  | start_proxy_session
  | stop_proxy_session
  deriving DecidableEq, Repr

inductive Call
  | get_run_by_idempotency_key
  | create_run
  | insert_cases
  | engine (c : Storage.Call)

@[reducible]
def Call.Reply : Call → Type
  | .get_run_by_idempotency_key => Option RunStatus
  | .create_run                 => Unit
  | .insert_cases               => Unit
  | .engine c                   => c.Reply

inductive Query
  | around (step : Step)
  | engine (q : Engine.Query)

@[reducible]
def Query.Answer : Query → Type
  | .around _ => Except String Unit
  | .engine q => q.Answer

@[reducible]
def sig : Sig where
  Call   := Call
  Reply  := Call.Reply
  Query  := Query
  Answer := Query.Answer
  Error  := Storage.Error

-- The tables of the run of one idempotency key, where there is one. Each operation commits a
-- transaction of its own, and a key that is taken keeps its run.
def perform (run : Run) (p : Redaction.Patterns) :
    (c : Call) → Option Storage.State → Except Storage.Error c.Reply × Option Storage.State
  | .get_run_by_idempotency_key, s      => (.ok (s.map (·.status)), s)
  | .create_run,                 none   => (.ok (), some .draft)
  | .create_run,                 some s => (.ok (), some s)
  | .insert_cases,               some s => (.ok (), some (s.insert_cases run.spec.cases))
  | .insert_cases,               none   => (.error (.key_error "run not found"), none)
  | .engine c,                   some s =>
    let (reply, s) := Storage.perform run p c s
    (reply, some s)
  | .engine _,                   none   => (.error (.key_error "run not found"), none)

abbrev store (run : Run) (p : Redaction.Patterns) : Store sig where
  State   := Option Storage.State
  perform := perform run p

abbrev M := Prog sig

abbrev call (c : Call) : M c.Reply :=
  Prog.perform (S := sig) c

def around (step : Step) : M Unit := do
  match ← Prog.query (S := sig) (.around step) with
  | .ok _          => pure ()
  | .error message => throw (.raised message)

-- A session of the engine is part of the execution.
def engine_calls : Engine.sig.Embedding sig where
  call   := .engine
  reply  := fun _ r => r
  query  := .engine
  answer := fun _ r => r
  error  := id

def finished (status : RunStatus) : Bool :=
  status = .complete || status = .failed || status = .cancelled

variable (E : Engine)

-- `finally: proxy_session.stop()`
def session : M Engine.RunResult := do
  let result ← tryCatch (E.run.embed engine_calls) fun e => do
    around .stop_proxy_session
    throw e
  around .stop_proxy_session
  return result

def drive : M RunStatus := do
  around .link_custom_evaluation_run
  around .start_proxy_session
  let result ← session E
  return result.status

-- `Engine.create_run`
def create_run : M Unit := do
  around .check_run
  call .create_run
  call .insert_cases

-- `RunExecutionService.execute`
def execute : M RunStatus := do
  around .load_plan
  around .resolve_target
  match ← call .get_run_by_idempotency_key with
  | none        => do
    around .assemble_engine
    create_run
    drive E
  | some status => do
    if finished status then
      around .link_custom_evaluation_run
      return status
    around .assemble_engine
    drive E

end Execution
