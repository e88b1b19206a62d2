import Traceline.Engine.Basic

-- One agent process per attempt, and how what it did and left behind is classified.
namespace Runner

open Events Engine

def MAX_TRACE_FILE_BYTES : ℕ :=
  64 * 1048576

-- Reading and decoding `result.json`. Errors of the file system and of the syntax are expected,
-- anything else that the decoder raises is not.
inductive ResultFile
  | missing
  | unreadable (message : String)
  | raised (message : String)
  | payload (value : Json)

inductive TraceLine
  | blank
  | event (e : TraceEvent)
  | invalid (message : String)

-- What stops the iteration over the lines of the trace.
inductive TraceEnd
  | eof
  | os_error (message : String)
  | decode_error (message : String)

inductive TraceFile
  | missing
  | unreadable (message : String)
  | opened (size : ℕ) (lines : List TraceLine) (ending : TraceEnd)

-- A process that timed out is killed, and that may take too long as well.
inductive Process
  | no_command
  | not_spawned (message : String)
  | timed_out (exit_code : Except String Int)
  | exited (exit_code : Int) (result : ResultFile) (trace : TraceFile)

section

variable (repr : Option Json → String) (result_path timeout_seconds : String)

-- `_read_result_json`, inside what it lets through.
def read_result_json : ResultFile → Except String (Except String (List (String × Json)))
  | .missing =>
    .ok <| .error
      s!"result.json not found at {result_path} — the agent must write it atomically (§11A)"
  | .unreadable message => .ok <| .error s!"result.json is unreadable: {message}"
  | .raised message     => .error message
  | .payload (.obj kvs) => .ok (.ok kvs)
  | .payload value      =>
    .ok <| .error s!"result.json must be a JSON object, got {value.type_name}"

def read_lines (ending : TraceEnd) :
    ℕ → List TraceEvent → List TraceLine → Except String (Except String (List TraceEvent))
  | _, events, [] =>
    match ending with
    | .eof                  => .ok (.ok events)
    | .os_error message     => .ok <| .error s!"trace file unreadable: {message}"
    | .decode_error message => .error message
  | lineno, events, line :: lines =>
    match line with
    | .blank           => read_lines ending (lineno + 1) events lines
    | .event e         => read_lines ending (lineno + 1) (events ++ [e]) lines
    | .invalid message =>
      .ok <| .error s!"trace line {lineno} is not a valid TraceEvent: {message}"

-- `_read_trace`, inside what it lets through.
def read_trace : TraceFile → Except String (Except String (List TraceEvent))
  | .missing                   => .ok (.ok [])
  | .unreadable message        => .ok <| .error s!"trace file unreadable: {message}"
  | .opened size lines ending  =>
    if size = 0 then .ok (.ok [])
    else if size > MAX_TRACE_FILE_BYTES then
      .ok <| .error <| s!"trace file is {size} bytes — above the {MAX_TRACE_FILE_BYTES}-byte " ++
        "cap; a trace this large is not evidence, it is a broken agent"
    else read_lines ending 1 [] lines

-- `payload.get("error") or {}`, which is then asked for its keys.
def error_block (payload : List (String × Json)) : Except String (List (String × Json)) :=
  match (payload.lookup "error").filter (·.truthy) with
  | none            => .ok []
  | some (.obj kvs) => .ok kvs
  | some value      => .error s!"'{value.type_name}' object has no attribute 'get'"

-- `block.get("message") or default`
def message_or (block : List (String × Json)) (default : String) : Json :=
  ((block.lookup "message").filter (·.truthy)).getD (.str default)

def failed (exit_code : Option Int) (error : Json)
    (payload : Option (List (String × Json)) := none) : InvocationResult where
  status         := .invocation_failed
  exit_code
  result_payload := (payload.map .obj).getD .null
  error

-- A result that says that the agent failed.
def reported (exit_code : Int) (payload : List (String × Json)) :
    Except String InvocationResult := do
  let block ← error_block payload
  if block.lookup "type" = some (.str "provider_unreachable") then
    return {
      status         := .provider_unreachable
      exit_code      := some exit_code
      result_payload := .obj payload
      error          := message_or block "provider unreachable"
    }
  else
    return failed (some exit_code)
      (message_or block ("agent reported status " ++ repr (some (.str "error")))) payload

-- A result that says that the agent completed. The trace decides.
def completed (exit_code : Int) (payload : List (String × Json)) (trace : TraceFile) :
    Except String InvocationResult := do
  match ← read_trace trace with
  | .error message => return failed (some exit_code) (.str message)
  | .ok []         =>
    return {
      status         := .no_trace
      exit_code      := some exit_code
      result_payload := .obj payload
      error          := .str "the agent completed but wrote no trace events"
    }
  | .ok events =>
    return {
      status         := .completed
      exit_code      := some exit_code
      trace_events   := events
      result_payload := .obj payload
    }

def invoke_agent : Process → Except String InvocationResult
  | .no_command =>
    .ok <| failed none (.str "agent command is empty — no entrypoint resolved")
  | .not_spawned message => .ok <| failed none (.str s!"could not spawn agent: {message}")
  | .timed_out exit_code => do
    return {
      status    := .timed_out
      exit_code := some (← exit_code)
      error     := .str <|
        s!"timed out after {timeout_seconds}s (SIGTERM, 10s grace, then SIGKILL)"
    }
  | .exited exit_code result trace =>
    if exit_code ≠ 0 then
      .ok <| failed (some exit_code) <| .str <| s!"agent exited {exit_code} (§11A.5: nonzero " ++
        "exit is an agent failure, never scored as an assertion)"
    else do
      match ← read_result_json result_path result with
      | .error message => return failed (some exit_code) (.str message)
      | .ok payload    =>
        let status := (payload.lookup "status").getD .null
        if status = .str "error" then reported repr exit_code payload
        else if status ≠ .str "completed" then
          return failed (some exit_code)
            (.str <| "result.json status must be 'completed' or 'error', got " ++
              repr (some status)) payload
        else completed exit_code payload trace

end

end Runner
