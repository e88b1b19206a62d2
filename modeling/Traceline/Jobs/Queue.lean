import Mathlib.Data.String.Basic
import Traceline.Library.Store
import Traceline.Library.Table
import Traceline.Redaction

namespace Jobs

-- Microseconds since the epoch.
abbrev Time := Int

inductive Status
  | queued
  | leased
  | completed
  | failed
  | cancelled
  deriving DecidableEq, Repr

def Status.toString : Status → String
  | .queued    => "queued"
  | .leased    => "leased"
  | .completed => "completed"
  | .failed    => "failed"
  | .cancelled => "cancelled"

def Status.Terminal (s : Status) : Prop :=
  s = .completed ∨ s = .failed ∨ s = .cancelled

instance (s : Status) : Decidable s.Terminal :=
  inferInstanceAs <| Decidable (_ ∨ _)

structure RedactionData where
  version        : String
  detector_flags : List String
  truncated      : Bool
  deriving DecidableEq, Repr

-- A row of `jobs`, of one workspace.
structure JobRecord where
  job_id                 : String
  command                : Json
  command_digest         : String
  idempotency_key        : String
  status                 : Status
  attempts               : ℕ
  max_attempts           : ℕ
  fence                  : ℕ
  lease_worker_id        : Option String
  lease_expires_at       : Option Time
  cancellation_requested : Bool
  result                 : Option Json
  error                  : Option Json
  command_redaction      : RedactionData
  result_redaction       : Option RedactionData
  created_at             : Time
  updated_at             : Time
  deriving DecidableEq, Repr

-- A row of `job_outbox`. Its payload repeats the job id and the event type.
structure OutboxRow where
  event_id     : String
  job_id       : String
  event_type   : String
  created_at   : Time
  published_at : Option Time
  deriving DecidableEq, Repr

inductive Error
  | stale_lease
  | job_cancelled
  | not_found
  | validation_error (message : String)
  | idempotency_conflict
  | value_error (message : String)
  | integrity_error
  deriving DecidableEq, Repr

def Error.message : Error → String
  | .stale_lease              => "Job lease is stale or no longer active"
  | .job_cancelled            => "Job was cancelled during execution"
  | .not_found                => "Object not found"
  | .validation_error message => message
  | .idempotency_conflict     => "Idempotency key is already bound to a different command"
  | .value_error message      => message
  | .integrity_error          => "UNIQUE constraint failed"

structure State where
  jobs   : Table JobRecord.job_id
  outbox : List OutboxRow

def State.empty : State where
  jobs   := .empty
  outbox := []

-- A queue object, with the HMAC of a canonical command under its fingerprint key.
structure JobQueue where
  lease_seconds     : ℕ
  lease_seconds_pos : 0 < lease_seconds
  fingerprint       : Json → String
  patterns          : Redaction.Patterns

inductive Op
  | enqueue (command : List (String × Json)) (idempotency_key : String) (max_attempts : Int)
  | get (job_id : String)
  | claim (worker_id : String)
  | claim_specific (job_id worker_id : String)
  | assert_active (lease : JobRecord)
  | acknowledge_cancel (job_id : String) (fence : ℕ)
  | abandon (job_id : String) (fence : ℕ)
  | heartbeat (job_id : String) (fence : ℕ)
  | complete (job_id : String) (fence : ℕ) (result : Json)
  | fail (job_id : String) (fence : ℕ) (error : List (String × Json))
  | request_cancel (job_id : String)

-- One call of a method: on which queue object, what its clock reads, and the ids `uuid4` draws for
-- it, the first of which names a new job.
structure Call where
  self : JobQueue
  now  : Time
  uuid : ℕ → String
  op   : Op

def redaction_data (value : Redaction.RedactedPayload) : RedactionData where
  version        := value.version
  detector_flags := value.detector_flags
  truncated      := value.truncated

namespace JobRecord

def retry_exhausted : Json :=
  .obj [("code", .str "retry_exhausted")]

def expired (now : Time) (j : JobRecord) : Bool :=
  j.status = .leased ∧ j.lease_expires_at.any (· ≤ now)

def next_status (j : JobRecord) : Status :=
  if j.cancellation_requested then .cancelled
  else if j.attempts ≥ j.max_attempts then .failed
  else .queued

-- What `_expire_and_cancel` sets on an expired row.
def expire (now : Time) (j : JobRecord) : JobRecord :=
  { j with
    status           := j.next_status
    lease_worker_id  := none
    lease_expires_at := none
    error            := if j.next_status = .failed then some retry_exhausted else none
    updated_at       := now }

def claimable (j : JobRecord) : Bool :=
  j.status = .queued ∧ ¬j.cancellation_requested

def grant (worker_id : String) (lease_until now : Time) (j : JobRecord) : JobRecord :=
  { j with
    status           := .leased
    attempts         := j.attempts + 1
    fence            := j.fence + 1
    lease_worker_id  := some worker_id
    lease_expires_at := some lease_until
    updated_at       := now }

-- The WHERE clause that heartbeat, complete and fail share.
def holds (fence : ℕ) (now : Time) (j : JobRecord) : Bool :=
  j.status = .leased ∧ j.fence = fence ∧ j.lease_expires_at.any (now < ·) ∧
  ¬j.cancellation_requested

def extend (lease_until now : Time) (j : JobRecord) : JobRecord :=
  { j with lease_expires_at := some lease_until, updated_at := now }

def release (status : Status) (now : Time) (j : JobRecord) : JobRecord :=
  { j with status, lease_worker_id := none, lease_expires_at := none, updated_at := now }

def request_cancel (now : Time) (j : JobRecord) : JobRecord :=
  let j := { j with cancellation_requested := true }
  if j.status = .queued then j.release .cancelled now else { j with updated_at := now }

def complete (safe : Redaction.RedactedPayload) (now : Time) (j : JobRecord) : JobRecord :=
  { j.release .completed now with
    result           := some safe.content
    result_redaction := some (redaction_data safe) }

def fail (safe : Redaction.RedactedPayload) (now : Time) (j : JobRecord) : JobRecord :=
  { j.release .failed now with
    error            := some safe.content
    result_redaction := some (redaction_data safe) }

variable {j : JobRecord} {now lease_until : Time} {worker_id : String} {st : Status}
variable {safe : Redaction.RedactedPayload}

-- No update touches the primary key.
@[simp]
theorem expire_job_id : (j.expire now).job_id = j.job_id := rfl

@[simp]
theorem grant_job_id : (j.grant worker_id lease_until now).job_id = j.job_id := rfl

@[simp]
theorem extend_job_id : (j.extend lease_until now).job_id = j.job_id := rfl

@[simp]
theorem release_job_id : (j.release st now).job_id = j.job_id := rfl

@[simp]
theorem complete_job_id : (j.complete safe now).job_id = j.job_id := rfl

@[simp]
theorem fail_job_id : (j.fail safe now).job_id = j.job_id := rfl

@[simp]
theorem request_cancel_job_id : (j.request_cancel now).job_id = j.job_id := by
  simp only [request_cancel]
  split <;> rfl

end JobRecord

namespace State

variable (s : State)

def outboxRow (event_id job_id event_type : String) (now : Time) : OutboxRow where
  event_id
  job_id
  event_type
  created_at   := now
  published_at := none

def emit (event_id job_id event_type : String) (now : Time) : State :=
  { s with outbox := s.outbox ++ [outboxRow event_id job_id event_type now] }

-- SELECT * FROM jobs WHERE job_id=?
def row (job_id : String) : Except Error JobRecord :=
  match s.jobs.find job_id with
  | some j => .ok j
  | none   => .error .not_found

-- An UPDATE of one job whose WHERE clause also demands `p`. Where it changes no row the lease is
-- stale and nothing is written.
def guarded (job_id : String) (p : JobRecord → Bool) (f : JobRecord → JobRecord)
    (hf : ∀ j, (f j).job_id = j.job_id) (outbox : State → State) : Except Error JobRecord × State :=
  if (s.jobs.find job_id).any p then
    let s' := outbox { s with jobs := s.jobs.update (fun j => j.job_id = job_id && p j) f hf }
    (s'.row job_id, s')
  else (.error .stale_lease, s)

def expire_and_cancel (uuid : ℕ → String) (now : Time) : State where
  jobs   := s.jobs.update (·.expired now) (·.expire now) fun _ => JobRecord.expire_job_id
  outbox := s.outbox ++ (s.jobs.rows.filter (·.expired now)).mapIdx fun i j =>
    outboxRow (uuid i) j.job_id j.next_status.toString now

-- ORDER BY created_at,job_id LIMIT 1
def next_queued : Option JobRecord :=
  (s.jobs.rows.filter (·.claimable)).mergeSort (fun i j =>
    i.created_at < j.created_at || i.created_at = j.created_at && i.job_id ≤ j.job_id) |>.head?

end State

namespace JobQueue

variable (self : JobQueue) (now : Time) (uuid : ℕ → String) (s : State)

def lease_until : Time :=
  now + self.lease_seconds * 1000000

def enqueue (command : List (String × Json)) (idempotency_key : String) (max_attempts : Int) :
    Except Error JobRecord × State :=
  if command = [] then (.error <| .validation_error "Job command must be a non-empty object", s)
  else if idempotency_key = "" ∨ idempotency_key.length > 255 then
    (.error <| .validation_error "A bounded idempotency key is required", s)
  else if ¬(1 ≤ max_attempts ∧ max_attempts ≤ 20) then
    (.error <| .validation_error "max_attempts must be between 1 and 20", s)
  else
    let safe := self.patterns.redact (16 * 1024) (.obj command)
    let digest := self.fingerprint (.obj command)
    match s.jobs.rows.find? (·.idempotency_key = idempotency_key) with
    | some existing =>
      if existing.command_digest ≠ digest then (.error .idempotency_conflict, s)
      else (.ok existing, s)
    | none =>
      let j : JobRecord := {
        job_id                 := uuid 0
        command                := safe.content
        command_digest         := digest
        idempotency_key
        status                 := .queued
        attempts               := 0
        max_attempts           := max_attempts.toNat
        fence                  := 0
        lease_worker_id        := none
        lease_expires_at       := none
        cancellation_requested := false
        result                 := none
        error                  := none
        command_redaction      := redaction_data safe
        result_redaction       := none
        created_at             := now
        updated_at             := now
      }
      match s.jobs.insert j with
      | none      => (.error .integrity_error, s)
      | some jobs =>
        let s' := { s with jobs }.emit (uuid 1) (uuid 0) "queued" now
        (s'.row (uuid 0), s')

-- The UPDATE that grants a lease, after the expired ones were taken back.
def lease (s : State) (job_id worker_id : String) : Except Error (Option JobRecord) × State :=
  if (s.jobs.find job_id).any (·.claimable) then
    let jobs := s.jobs.update (fun j => j.job_id = job_id && j.claimable)
      (·.grant worker_id (self.lease_until now) now) fun _ => JobRecord.grant_job_id
    let s' := { s with jobs }.emit (uuid s.outbox.length) job_id "leased" now
    ((s'.row job_id).map some, s')
  else (.ok none, s)

def claim (worker_id : String) : Except Error (Option JobRecord) × State :=
  if worker_id = "" then (.error <| .value_error "worker_id is required", s)
  else
    let s := s.expire_and_cancel uuid now
    match s.next_queued with
    | none   => (.ok none, s)
    | some j => self.lease now uuid s j.job_id worker_id

def claim_specific (job_id worker_id : String) : Except Error (Option JobRecord) × State :=
  if job_id = "" then (.error <| .value_error "job_id is required", s)
  else if worker_id = "" then (.error <| .value_error "worker_id is required", s)
  else self.lease now uuid (s.expire_and_cancel uuid now) job_id worker_id

end JobQueue

namespace State

variable (s : State)

def assert_active (now : Time) (lease : JobRecord) : Except Error JobRecord :=
  match s.jobs.find lease.job_id with
  | none => .error .stale_lease
  | some current =>
    if current.status ≠ .leased ∨ current.fence ≠ lease.fence ∨
        current.lease_worker_id ≠ lease.lease_worker_id ∨
        current.lease_expires_at.any (· ≤ now) then .error .stale_lease
    else if current.cancellation_requested then .error .job_cancelled
    else .ok current

def acknowledge_cancel (now : Time) (uuid : ℕ → String) (job_id : String) (fence : ℕ) :
    Except Error JobRecord × State :=
  s.guarded job_id
    (fun j => j.status = .leased && j.fence = fence && j.cancellation_requested)
    (·.release .cancelled now) (fun _ => JobRecord.release_job_id)
    (·.emit (uuid 0) job_id "cancelled" now)

def abandon (now : Time) (job_id : String) (fence : ℕ) : Except Error JobRecord × State :=
  s.guarded job_id (fun j => j.status = .leased && j.fence = fence)
    (·.extend now now) (fun _ => JobRecord.extend_job_id) id

def request_cancel (now : Time) (uuid : ℕ → String) (job_id : String) :
    Except Error JobRecord × State :=
  match s.jobs.find job_id with
  | none => (.error .not_found, s)
  | some record =>
    if record.status.Terminal then (.ok record, s)
    else
      let jobs := s.jobs.update (·.job_id = job_id) (·.request_cancel now)
        fun _ => JobRecord.request_cancel_job_id
      let event_type :=
        if record.status = .queued then "cancelled" else "cancellation_requested"
      let s' := { s with jobs }.emit (uuid 0) job_id event_type now
      (s'.row job_id, s')

end State

namespace JobQueue

variable (self : JobQueue) (now : Time) (uuid : ℕ → String) (s : State)

def heartbeat (job_id : String) (fence : ℕ) : Except Error JobRecord × State :=
  s.guarded job_id (·.holds fence now) (·.extend (self.lease_until now) now)
    (fun _ => JobRecord.extend_job_id) id

def complete (job_id : String) (fence : ℕ) (result : Json) : Except Error JobRecord × State :=
  let safe := self.patterns.redact (16 * 1024) result
  s.guarded job_id (·.holds fence now) (·.complete safe now)
    (fun _ => JobRecord.complete_job_id) (·.emit (uuid 0) job_id "completed" now)

def fail (job_id : String) (fence : ℕ) (error : List (String × Json)) :
    Except Error JobRecord × State :=
  match error.lookup "code" with
  | some (.str _) =>
    let safe := self.patterns.redact (16 * 1024) (.obj error)
    s.guarded job_id (·.holds fence now) (·.fail safe now)
      (fun _ => JobRecord.fail_job_id) (·.emit (uuid 0) job_id "failed" now)
  | _ => (.error <| .validation_error "A typed job error is required", s)

end JobQueue

@[reducible]
def sig : Sig where
  Call := Call
  Reply c :=
    match c.op with
    | .claim _ | .claim_specific _ _ => Option JobRecord
    | _                              => JobRecord
  Query  := Empty
  Answer := Empty.elim
  Error  := Error

-- Each method runs as one serial transaction.
@[reducible]
def store : Store sig where
  State := State
  perform
    | ⟨self, now, uuid, .enqueue command key max_attempts⟩, s =>
      self.enqueue now uuid s command key max_attempts
    | ⟨_, _, _, .get job_id⟩, s => (s.row job_id, s)
    | ⟨self, now, uuid, .claim worker_id⟩, s => self.claim now uuid s worker_id
    | ⟨self, now, uuid, .claim_specific job_id worker_id⟩, s =>
      self.claim_specific now uuid s job_id worker_id
    | ⟨_, now, _, .assert_active lease⟩, s => (s.assert_active now lease, s)
    | ⟨_, now, uuid, .acknowledge_cancel job_id fence⟩, s =>
      s.acknowledge_cancel now uuid job_id fence
    | ⟨_, now, _, .abandon job_id fence⟩, s => s.abandon now job_id fence
    | ⟨self, now, _, .heartbeat job_id fence⟩, s => self.heartbeat now s job_id fence
    | ⟨self, now, uuid, .complete job_id fence result⟩, s =>
      self.complete now uuid s job_id fence result
    | ⟨self, now, uuid, .fail job_id fence error⟩, s => self.fail now uuid s job_id fence error
    | ⟨_, now, uuid, .request_cancel job_id⟩, s => s.request_cancel now uuid job_id

end Jobs

-- The outbox as its consumers see it.
namespace Jobs

namespace OutboxRow

-- ORDER BY created_at,event_id
def le (r r' : OutboxRow) : Bool :=
  r.created_at < r'.created_at || r.created_at = r'.created_at && r.event_id ≤ r'.event_id

def pending (r : OutboxRow) : Bool :=
  r.published_at.isNone

end OutboxRow

namespace State

variable (s : State)

def pending_outbox : List OutboxRow :=
  (s.outbox.filter (·.pending)).mergeSort OutboxRow.le

-- UPDATE job_outbox SET published_at WHERE event_id AND published_at IS NULL
def acknowledge_outbox (now : Time) (event_id : String) : State :=
  { s with
    outbox := s.outbox.map fun r =>
      if r.event_id = event_id && r.pending then { r with published_at := some now } else r }

-- The entries of one job that are pending, in the order they were recorded.
def pending_of (job_id : String) : List OutboxRow :=
  s.outbox.filter fun r => r.job_id = job_id && r.pending

-- All transitions of one job that were recorded.
def recorded (job_id : String) : List String :=
  (s.outbox.filter (·.job_id = job_id)).map (·.event_type)

def status (job_id : String) : Option Status :=
  (s.jobs.find job_id).map (·.status)

end State

-- What may happen to a queue: a call of one of its methods, or a consumer that acknowledges an
-- entry.
inductive Act
  | call (c : Call)
  | acknowledge (now : Time) (event_id : String)

def Act.apply (a : Act) (s : State) : State :=
  match a with
  | .call c                   => (store.perform c s).2
  | .acknowledge now event_id => s.acknowledge_outbox now event_id

-- The state after some acts on an empty queue.
def after (h : List Act) : State :=
  h.foldl (fun s a => a.apply s) .empty

-- The status a consumer has after one more entry.
def fold_status (st : Option Status) (event_type : String) : Option Status :=
  match event_type with
  | "queued"    => some .queued
  | "leased"    => some .leased
  | "completed" => some .completed
  | "failed"    => some .failed
  | "cancelled" => some .cancelled
  | _           => st

end Jobs
