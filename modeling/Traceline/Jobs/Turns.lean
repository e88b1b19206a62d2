import Traceline.Jobs.Queue
import Traceline.Library.Machine

-- The submission of turns: `WorkflowService.submit_turn` with the tables it writes, of one workspace.
namespace Jobs

-- A row of `harness_sessions`, with the columns a submission reads.
structure SessionRow where
  session_id    : String
  evaluation_id : String
  revision      : Int
  deriving DecidableEq, Repr

-- A row of `harness_messages`.
structure MessageRow where
  message_id     : String
  session_id     : String
  role           : String
  kind           : String
  content        : Json
  operation_id   : Option String
  job_id         : Option String
  observed_state : Option String
  created_at     : Time
  deriving DecidableEq, Repr

structure TurnBody where
  expected_revision : Int
  message           : Option String
  card_action       : Json
  deriving DecidableEq, Repr

inductive TurnError
  | revision_conflict (current_revision : Int)
  | job (e : Error)
  | aborted
  deriving DecidableEq, Repr

-- One call of `submit_turn`, with what the clock reads and the ids `uuid4` draws for it.
structure Submission where
  session_id      : String
  body            : TurnBody
  idempotency_key : String
  now             : Time
  uuid            : ℕ → String

namespace Submission

variable (s : Submission)

def message : Json :=
  s.body.message.elim .null .str

def command (session : SessionRow) : List (String × Json) := [
  ("kind", .str "session_turn"),
  ("session_id", .str s.session_id),
  ("evaluation_id", .str session.evaluation_id),
  ("message", s.message),
  ("card_action", s.body.card_action),
  ("expected_revision", .int s.body.expected_revision),
  ("operation_id", .str s.idempotency_key)
]

-- The row that `append_message` inserts.
def user_message (patterns : Redaction.Patterns) (job : JobRecord) : MessageRow where
  message_id     := s.uuid 2
  session_id     := s.session_id
  role           := "user"
  kind           := "turn"
  content        :=
    (patterns.redact (16 * 1024)
      (.obj [("message", s.message), ("card_action", s.body.card_action)])).content
  operation_id   := some s.idempotency_key
  job_id         := some job.job_id
  observed_state := some "queued"
  created_at     := s.now

-- The same request, sent once more.
def Repeats (s' : Submission) : Prop :=
  s'.session_id = s.session_id ∧ s'.idempotency_key = s.idempotency_key ∧ s'.body = s.body

end Submission

-- How far the transaction of a call has come: it has read the session, it has found the job of its
-- key or found none, or it has ended.
inductive Phase
  | begun
  | checked (command : List (String × Json))
  | found (job : JobRecord)
  | absent (command : List (String × Json))
  | ended (result : Except TurnError JobRecord)

def Phase.under_way : Phase → Bool
  | .ended _ => false
  | _        => true

-- No step reads the last field: the calls that were under way, or had returned, when this one began.
structure Called where
  submission : Submission
  phase      : Phase
  since      : List ℕ

def Called.failed (c : Called) : Bool :=
  match c.phase with
  | .ended (.error _) => true
  | _                 => false

structure World where
  sessions : Table SessionRow.session_id
  queue    : State
  messages : Table MessageRow.message_id
  calls    : List Called

namespace World

variable (q : JobQueue) (w : World) (s : Submission)

def put (i : ℕ) (c : Called) (phase : Phase) : World :=
  { w with calls := w.calls.set i { c with phase } }

-- The call begins while these have not failed.
def standing : List ℕ :=
  (List.range w.calls.length).filter fun i => w.calls[i]?.any (!·.failed)

-- `SessionStore.get` and the comparison of the revisions.
def check : Phase :=
  match w.sessions.find s.session_id with
  | none         => .ended (.error (.job .not_found))
  | some session =>
    if s.body.expected_revision ≠ session.revision then
      .ended (.error (.revision_conflict session.revision))
    else .checked (s.command session)

-- The checks of `enqueue` and its SELECT.
def look (command : List (String × Json)) : Phase :=
  if s.idempotency_key = "" ∨ s.idempotency_key.length > 255 then
    .ended (.error (.job (.validation_error "A bounded idempotency key is required")))
  else
    match w.queue.jobs.rows.find? (·.idempotency_key = s.idempotency_key) with
    | some existing =>
      if existing.command_digest ≠ q.fingerprint (.obj command) then
        .ended (.error (.job .idempotency_conflict))
      else .found existing
    | none          => .absent command

def append_message (job : JobRecord) : Except TurnError (Table MessageRow.message_id) :=
  match w.sessions.find s.session_id with
  | none   => .error (.job .not_found)
  | some _ =>
    match w.messages.insert (s.user_message q.patterns job) with
    | none          => .error (.job .integrity_error)
    | some messages => .ok messages

-- The INSERTs of `enqueue`. Where another transaction has bound the key meanwhile, the UNIQUE
-- constraint refuses the job.
def insert_job (command : List (String × Json)) : Except Error JobRecord × State :=
  if w.queue.jobs.rows.any (·.idempotency_key = s.idempotency_key) then
    (.error .integrity_error, w.queue)
  else q.enqueue s.now s.uuid w.queue command s.idempotency_key 3

-- The message, and the COMMIT. What fails takes back all writes of the call.
def finish (i : ℕ) (c : Called) (queue : State) (job : JobRecord) : World :=
  match w.append_message q c.submission job with
  | .error e     => w.put i c (.ended (.error e))
  | .ok messages => { w with queue, messages }.put i c (.ended (.ok job))

def commit (i : ℕ) (c : Called) : Option World :=
  match c.phase with
  | .found job      => some <| w.finish q i c w.queue job
  | .absent command =>
    match w.insert_job q c.submission command with
    | (.error e, _)    => some <| w.put i c (.ended (.error (.job e)))
    | (.ok job, queue) => some <| w.finish q i c queue job
  | _               => none

end World

-- A call begins or does the next part of its transaction, or is rolled back; or somebody else calls
-- a method of the queue, or a session advances.
inductive TurnAct
  | begin (s : Submission)
  | check (i : ℕ)
  | look (i : ℕ)
  | commit (i : ℕ)
  | abort (i : ℕ)
  | serve (c : Call)
  | advance (session_id : String) (revision : Int)

namespace World

variable (q : JobQueue) (w : World)

def step : TurnAct → Option World
  | .begin s  => some { w with calls := w.calls ++ [⟨s, .begun, w.standing⟩] }
  | .check i  => do
    let c ← w.calls[i]?
    match c.phase with
    | .begun => some <| w.put i c (w.check c.submission)
    | _      => none
  | .look i   => do
    let c ← w.calls[i]?
    match c.phase with
    | .checked command => some <| w.put i c (w.look q c.submission command)
    | _                => none
  | .commit i => do
    let c ← w.calls[i]?
    w.commit q i c
  | .abort i  => do
    let c ← w.calls[i]?
    if c.phase.under_way then some <| w.put i c (.ended (.error .aborted)) else none
  | .serve c  => some { w with queue := (store.perform c w.queue).2 }
  | .advance session_id revision =>
    some { w with
      sessions := w.sessions.update (·.session_id = session_id) ({ · with revision }) fun _ => rfl }

def Returned (c : Called) (job : JobRecord) : Prop :=
  c ∈ w.calls ∧ c.phase = .ended (.ok job)

def messages_of (key : String) : List MessageRow :=
  w.messages.rows.filter (·.operation_id = some key)

end World

-- Calls with one key return one job and leave one message, and calls with different keys share
-- neither. A call that repeats one that stood when it began returns what that one returns, unless it
-- is rolled back.
structure Idempotent (w : World) : Prop where
  same_job    : ∀ c c' job job', w.Returned c job → w.Returned c' job' →
    c.submission.idempotency_key = c'.submission.idempotency_key → job.job_id = job'.job_id
  one_message : ∀ c job, w.Returned c job →
    (w.messages_of c.submission.idempotency_key).length = 1
  at_most_one : ∀ key, (w.messages_of key).length ≤ 1
  own_job     : ∀ m ∈ w.messages, ∀ m' ∈ w.messages, m.operation_id ≠ m'.operation_id →
    m.job_id ≠ m'.job_id
  repeats     : ∀ c ∈ w.calls, ∀ i ∈ c.since, ∀ c' ∈ w.calls[i]?,
    c'.submission.Repeats c.submission → ∀ job result, c'.phase = .ended (.ok job) →
      c.phase = .ended result →
        result = .error .aborted ∨ ∃ job', result = .ok job' ∧ job'.job_id = job.job_id

end Jobs
