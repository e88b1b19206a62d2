import Mathlib.Logic.Function.Basic
import Traceline.Jobs.Queue

namespace Jobs

structure Actor where
  workspace_id : String
  deriving DecidableEq, Repr

-- A row of `worker_dispatch_cursors`.
structure DispatchCursor where
  actor_digest : String
  cursor       : ℕ
  deriving DecidableEq, Repr

-- What one claim met and what it granted.
structure Poll where
  workspace_id : String
  now          : Time
  jobs         : String → State
  lease        : Option JobRecord

-- The jobs of each workspace and the durable cursor of each pool. The log only records.
structure Installation where
  jobs    : String → State
  cursors : String → Option DispatchCursor
  log     : List Poll

-- What goes on around one claim: the others act on the jobs before it, and the handler of a granted
-- job runs and settles it while they go on.
structure Turn where
  before   : (String → State) → String → State
  now      : Time
  uuid     : ℕ → String
  identity : String
  process  : JobRecord → (String → State) → Except Error JobRecord × (String → State)

structure WorkflowService where
  queue       : JobQueue
  is_postgres : Bool
  digest      : List String → String

namespace WorkflowService

variable (self : WorkflowService) (actors : List Actor) (worker_id : Option String)

-- `worker_id or default`
def or_default (default : String) : String :=
  (worker_id.filter (· ≠ "")).getD default

-- `WorkerService.run_once`, without a stop event.
def run_once (actor : Actor) (turn : Turn) (world : Installation) :
    Except Error (Option JobRecord) × Installation :=
  let jobs := turn.before world.jobs
  let worker := or_default worker_id ("worker:" ++ turn.identity)
  let claimed := self.queue.claim turn.now turn.uuid (jobs actor.workspace_id) worker
  let jobs' := Function.update jobs actor.workspace_id claimed.2
  let log lease := world.log ++ [⟨actor.workspace_id, turn.now, jobs, lease⟩]
  match claimed.1 with
  | .error e         => (.error e, { world with jobs := jobs', log := log none })
  | .ok none         => (.ok none, { world with jobs := jobs', log := log none })
  | .ok (some lease) =>
    let done := turn.process lease jobs'
    (done.1.map some, { world with jobs := done.2, log := log (some lease) })

def pool_id : String :=
  or_default worker_id "workflow-service"

-- `_fair_start`
def fair_start (cursor : ℕ) (cursors : String → Option DispatchCursor) :
    Except Error ℕ × (String → Option DispatchCursor) :=
  let n := actors.length
  let pool_id := pool_id worker_id
  let actor_digest := self.digest (actors.map (·.workspace_id))
  let reserve (start : ℕ) :=
    (.ok start, Function.update cursors pool_id <| some ⟨actor_digest, (start + 1) % n⟩)
  if !self.is_postgres then (.ok (cursor % n), cursors)
  else if ¬(1 ≤ pool_id.length ∧ pool_id.length ≤ 255) then
    (.error <| .value_error "worker pool identity must be a bounded string", cursors)
  else
    match cursors pool_id with
    | none     => reserve 0
    | some row => if row.actor_digest ≠ actor_digest then reserve 0 else reserve (row.cursor % n)

-- The loop over the offsets from `offset` on, of which `left` are left.
def poll_from (turns : ℕ → Turn) (h : 0 < actors.length) (start offset : ℕ) :
    (left : ℕ) → Installation → Except Error (Option JobRecord × ℕ) × Installation
  | 0,        world => (.ok (none, (start + 1) % actors.length), world)
  | left + 1, world =>
    let actor := actors.get ⟨(start + offset) % actors.length, Nat.mod_lt _ h⟩
    let polled := self.run_once worker_id actor (turns offset) world
    match polled.1 with
    | .error e       => (.error e, polled.2)
    | .ok (some job) => (.ok (some job, (start + offset + 1) % actors.length), polled.2)
    | .ok none       => poll_from turns h start (offset + 1) left polled.2

def run_fair_once (cursor : Int) (turns : ℕ → Turn) (world : Installation) :
    Except Error (Option JobRecord × ℕ) × Installation :=
  if h : 0 < actors.length then
    if cursor < 0 then
      (.error <| .value_error "cursor must be a nonnegative integer", world)
    else if actors.any (·.workspace_id = "") then
      (.error <| .value_error "actors must be valid workspace identities", world)
    else
      let reserved := self.fair_start actors worker_id cursor.toNat world.cursors
      let world := { world with cursors := reserved.2 }
      match reserved.1 with
      | .error e  => (.error e, world)
      | .ok start => self.poll_from actors worker_id turns h start 0 actors.length world
  else (.error <| .value_error "at least one workspace actor is required", world)

end WorkflowService

end Jobs
