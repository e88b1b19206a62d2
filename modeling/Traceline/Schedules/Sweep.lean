import Traceline.Jobs.Queue
import Traceline.Plans.Plan
import Mathlib.Data.List.Sort

-- Recurring runs. A sweep claims the due slots of a schedule and enqueues a job for each.
namespace Schedules

open Jobs (JobQueue JobRecord Time)
open Versions (Actor VersionRecord)

inductive DstPolicy
  | first
  | skip
  deriving DecidableEq, Repr

inductive ScheduleState
  | active
  | paused
  deriving DecidableEq, Repr

structure ScheduleRecord where
  schedule_id             : String
  plan_id                 : String
  plan_hash               : String
  authorization_id        : String
  timezone                : String
  local_time              : String
  state                   : ScheduleState
  dst_policy              : DstPolicy
  daily_request_limit     : ℕ
  daily_budget_usd_micros : ℕ
  deriving DecidableEq, Repr

inductive SlotState
  | claimed
  | queued
  | failed
  deriving DecidableEq, Repr

-- A schedule and the key of one of its slots.
abbrev Slot := String × String

structure ScheduleSlotRecord where
  schedule_id : String
  slot_key    : String
  slot_at     : String
  state       : SlotState
  owner       : String
  job_id      : Option String
  deriving DecidableEq, Repr

namespace ScheduleSlotRecord

def slot (r : ScheduleSlotRecord) : Slot :=
  (r.schedule_id, r.slot_key)

def settle (state : SlotState) (job_id : Option String) (r : ScheduleSlotRecord) :
    ScheduleSlotRecord :=
  { r with state, job_id }

@[simp]
theorem settle_slot {state : SlotState} {job_id : Option String} {r : ScheduleSlotRecord} :
    (r.settle state job_id).slot = r.slot := rfl

end ScheduleSlotRecord

def ScheduleRecord.set_state (state : ScheduleState) (r : ScheduleRecord) : ScheduleRecord :=
  { r with state }

@[simp]
theorem ScheduleRecord.set_state_schedule_id {state : ScheduleState} {r : ScheduleRecord} :
    (r.set_state state).schedule_id = r.schedule_id := rfl

structure CostSummary where
  run_id     : String
  usd_micros : Int
  deriving DecidableEq, Repr

-- The tables of one workspace.
structure State where
  schedules      : Table ScheduleRecord.schedule_id
  slots          : Table ScheduleSlotRecord.slot
  jobs           : Jobs.State
  cost_summaries : List CostSummary

-- A frozen plan, with the budget that its validation found to be a natural number.
structure RunPlan where
  content_digest    : String
  state             : Plans.PlanState
  version_refs      : Plans.Refs
  budget_usd_micros : ℕ
  deriving Repr

structure RunAuthorization where
  state      : String
  expires_at : Time
  deriving DecidableEq, Repr

inductive Error
  | version (e : Versions.Error)
  | plan (e : Plans.Error)
  | job (e : Jobs.Error)
  | not_found
  | key_error (message : String)
  | value_error (message : String)
  | overflow_error
  | raised (exception : String)
  deriving DecidableEq, Repr

-- What `datetime` and `zoneinfo` make of a zone, the ordinal of a date and a local time: the text
-- of the moment, and whether the same local time comes back from UTC.
structure Calendar where
  max        : ℕ
  known      : String → Bool
  isoformat  : String → ℕ → String → String
  roundtrips : String → ℕ → String → Bool
  strftime   : ℕ → String

section Calendar

variable (cal : Calendar) (local_time timezone : String) (dst_policy : DstPolicy)

def due_from : (current days : ℕ) → Except Error (List ℕ)
  | _,       0        => .ok []
  | current, days + 1 =>
    if cal.max ≤ current then .error .overflow_error
    else do
      let result ← due_from (current + 1) days
      if !cal.roundtrips timezone current local_time && dst_policy = .skip then return result
      else return current :: result

def due_daily_slots (start stop : ℕ) : Except Error (List ℕ) :=
  if stop < start then .ok []
  else if cal.known timezone then
    due_from cal local_time timezone dst_policy start (stop + 1 - start)
  else .error <| .raised "ZoneInfoNotFoundError"

end Calendar

def enqueue_key (sha256 : String → String) (schedule_id slot_at : String) : String :=
  sha256 s!"{schedule_id}:{slot_at}"

def idempotency_key (slot : Slot) : String :=
  s!"schedule:{slot.1}:{slot.2}"

def command (schedule : ScheduleRecord) (slot_key : String) : List (String × Json) := [
  ("kind",             .str "evaluation_run"),
  ("plan_id",          .str schedule.plan_id),
  ("plan_hash",        .str schedule.plan_hash),
  ("authorization_id", .str schedule.authorization_id),
  ("schedule_id",      .str schedule.schedule_id),
  ("schedule_slot",    .str slot_key)
]

-- `mapping.setdefault(key, default)`, followed by an update of the value.
def modify {β : Type} (default : β) (f : β → β) (key : String) :
    List (String × β) → List (String × β)
  | []         => [(key, f default)]
  | entry :: l => if entry.1 = key then (key, f entry.2) :: l else entry :: modify default f key l

structure Usage where
  actual_usd_micros   : Int
  reserved_usd_micros : Int
  unknown             : Bool
  deriving DecidableEq, Repr

def Usage.none : Usage where
  actual_usd_micros   := 0
  reserved_usd_micros := 0
  unknown             := false

-- `slot_at[:10]`
def day_of (slot_at : String) : String :=
  .ofList <| slot_at.toList.take 10

namespace State

variable (s : State)

-- ORDER BY slot_at, slot_key
def earlier (r r' : ScheduleSlotRecord) : Prop :=
  r.slot_at < r'.slot_at ∨ (r.slot_at = r'.slot_at ∧ r.slot_key ≤ r'.slot_key)

instance : DecidableRel earlier :=
  fun _ _ => inferInstanceAs (Decidable (_ ∨ _))

def list_schedule_slots (schedule_id : String) : List ScheduleSlotRecord :=
  List.insertionSort earlier <| s.slots.rows.filter (·.schedule_id = schedule_id)

-- The measured cost of the run that a completed job names.
def measured (j : JobRecord) : Option Int :=
  match j.result.bind (·.get? "run_id") with
  | some (.str run_id) =>
    let rows := s.cost_summaries.filter (·.run_id = run_id)
    if run_id = "" || rows.isEmpty then none else some (rows.map (·.usd_micros)).sum
  | _                  => none

def charge (reservation_usd_micros : ℕ) (slot : ScheduleSlotRecord) (bucket : Usage) : Usage :=
  match slot.job_id.bind s.jobs.jobs.find with
  | none     => { bucket with unknown := true }
  | some job =>
    match job.status with
    | .completed          =>
      match s.measured job with
      | none        => { bucket with unknown := true }
      | some actual => { bucket with actual_usd_micros := bucket.actual_usd_micros + actual }
    | .queued | .leased   =>
      { bucket with reserved_usd_micros := bucket.reserved_usd_micros + reservation_usd_micros }
    | .failed | .cancelled => { bucket with unknown := true }

def get_schedule_daily_cost_usage (schedule_id : String) (reservation_usd_micros : ℕ) :
    List (String × Usage) :=
  let rows := (s.list_schedule_slots schedule_id).filter (·.state ≠ .failed)
  rows.foldl (fun usage slot =>
    modify .none (s.charge reservation_usd_micros slot) (day_of slot.slot_at) usage) []

end State

inductive Call
  | get_schedule (schedule_id : String)
  | set_schedule_state (schedule_id : String) (state : ScheduleState)
  | list_schedule_slots (schedule_id : String)
  | get_schedule_daily_cost_usage (schedule_id : String) (reservation_usd_micros : ℕ)
  | claim_schedule_slot (slot : Slot) (slot_at owner : String)
  | enqueue (queue : JobQueue) (now : Time) (uuid : ℕ → String) (schedule : ScheduleRecord)
    (slot_key : String)
  | set_schedule_slot_job (slot : Slot) (state : SlotState) (job_id : Option String)

inductive Query
  | run_plan (plan_id : String)
  | run_authorization (authorization_id : String)
  | version (version_id : String)
  | now
  | uuid4
  | queue

abbrev sig : Sig where
  Call := Call
  Reply
    | .get_schedule _                    => Option ScheduleRecord
    | .set_schedule_state _ _            => Unit
    | .list_schedule_slots _             => List ScheduleSlotRecord
    | .get_schedule_daily_cost_usage _ _ => List (String × Usage)
    | .claim_schedule_slot _ _ _         => Bool
    | .enqueue _ _ _ _ _                 => JobRecord
    | .set_schedule_slot_job _ _ _       => ScheduleSlotRecord
  Query := Query
  Answer
    | .run_plan _          => Option RunPlan
    | .run_authorization _ => Option RunAuthorization
    | .version _           => Option VersionRecord
    | .now                 => Time
    | .uuid4               => ℕ → String
    | .queue               => Except Error JobQueue
  Error := Error

namespace State

variable (s : State)

def set_schedule_state (schedule_id : String) (state : ScheduleState) : Except Error Unit × State :=
  match s.schedules.find schedule_id with
  | none   => (.error <| .key_error "schedule not found", s)
  | some _ =>
    let schedules := s.schedules.update (·.schedule_id = schedule_id) (·.set_state state)
      fun _ => ScheduleRecord.set_state_schedule_id
    (.ok (), { s with schedules })

-- The claim is an INSERT that does nothing where the slot has a row.
def claim_schedule_slot (slot : Slot) (slot_at owner : String) : Except Error Bool × State :=
  let row : ScheduleSlotRecord := {
    schedule_id := slot.1
    slot_key    := slot.2
    slot_at
    state       := .claimed
    owner
    job_id      := none
  }
  match s.slots.insert row with
  | none       => (.ok false, s)
  | some slots => (.ok true, { s with slots })

def enqueue (queue : JobQueue) (now : Time) (uuid : ℕ → String) (schedule : ScheduleRecord)
    (slot_key : String) : Except Error JobRecord × State :=
  let reply := queue.enqueue now uuid s.jobs (command schedule slot_key)
    (idempotency_key (schedule.schedule_id, slot_key)) 3
  (reply.1.mapError .job, { s with jobs := reply.2 })

def set_schedule_slot_job (slot : Slot) (state : SlotState) (job_id : Option String) :
    Except Error ScheduleSlotRecord × State :=
  let slots := s.slots.update (·.slot = slot) (·.settle state job_id)
    fun _ => ScheduleSlotRecord.settle_slot
  match slots.find slot with
  | none   => (.error <| .key_error "schedule slot not found", { s with slots })
  | some r => (.ok r, { s with slots })

end State

abbrev store : Store sig where
  State := State
  perform
    | .get_schedule schedule_id, s             => (.ok (s.schedules.find schedule_id), s)
    | .set_schedule_state schedule_id state, s => s.set_schedule_state schedule_id state
    | .list_schedule_slots schedule_id, s      => (.ok (s.list_schedule_slots schedule_id), s)
    | .get_schedule_daily_cost_usage schedule_id reservation_usd_micros, s =>
      (.ok (s.get_schedule_daily_cost_usage schedule_id reservation_usd_micros), s)
    | .claim_schedule_slot slot slot_at owner, s => s.claim_schedule_slot slot slot_at owner
    | .enqueue queue now uuid schedule slot_key, s => s.enqueue queue now uuid schedule slot_key
    | .set_schedule_slot_job slot state job_id, s => s.set_schedule_slot_job slot state job_id

def call (c : Call) : Prog sig (sig.Reply c) :=
  Prog.perform (S := sig) c

def ask (q : Query) : Prog sig (sig.Answer q) :=
  Prog.query (S := sig) q

-- The arguments of a sweep.
structure Sweep where
  actor       : Actor
  schedule_id : String
  start       : ℕ
  stop        : ℕ
  owner       : String

-- What the loop of a sweep keeps.
structure Progress where
  daily_counts : List (String × ℕ)
  daily_usage  : List (String × Usage)
  queued       : List JobRecord

-- Whether the limits of the schedule leave no room for another slot of the day.
def Progress.full (p : Progress) (schedule : ScheduleRecord) (plan_budget : ℕ) (day : String) :
    Bool :=
  let usage := (p.daily_usage.lookup day).getD .none
  schedule.daily_request_limit ≤ (p.daily_counts.lookup day).getD 0 ||
    schedule.daily_budget_usd_micros ≠ 0 && (usage.unknown ||
      schedule.daily_budget_usd_micros <
        usage.actual_usd_micros + usage.reserved_usd_micros + plan_budget)

def Progress.add (p : Progress) (plan_budget : ℕ) (day : String) (job : JobRecord) : Progress where
  daily_counts := modify 0 (· + 1) day p.daily_counts
  daily_usage  := modify .none (fun usage => { usage with
    reserved_usd_micros := usage.reserved_usd_micros + plan_budget }) day p.daily_usage
  queued       := p.queued ++ [job]

def counts (existing : List ScheduleSlotRecord) : List (String × ℕ) :=
  (existing.filter (·.state ≠ .failed)).foldl (fun daily_counts slot =>
    modify 0 (· + 1) (day_of slot.slot_at) daily_counts) []

section Sweep

variable (cal : Calendar) (sha256 : String → String) (w : Plans.World)

def usable (schedule : ScheduleRecord) (plan : RunPlan) (authorization : Option RunAuthorization)
    (now : Time) : Bool :=
  plan.content_digest = schedule.plan_hash && plan.state = .validated &&
    authorization.any fun a => a.state = "authorized" && now < a.expires_at

-- Whether the verification of a target is stale, as it is for a target that is not found.
def target_stale (now : Time) : Option VersionRecord → Except Error Bool
  | none        => .ok true
  | some target => do
    let verification ← (Plans.dict <| Plans.or_empty <| target.content.lookup "verification").mapError
      .plan
    return verification.lookup "state" ≠ some (.str "verified") ||
      Plans.stale w now (verification.lookup "expires_at")

def stale (plan : RunPlan) : Prog sig Bool :=
  match (plan.version_refs.lookup "target_version_id").filter (· ≠ "") with
  | none                   => return false
  | some target_version_id => do
    let target ← ask (.version target_version_id)
    Prog.ofExcept <| target_stale w (← ask .now) target

def enqueue_slot (schedule : ScheduleRecord) (slot_key : String) : Prog sig JobRecord :=
  tryCatch (do
    let queue ← Prog.ofExcept (← ask .queue)
    let now ← ask .now
    call (.enqueue queue now (← ask .uuid4) schedule slot_key))
  fun e => do
    let _ ← call (.set_schedule_slot_job (schedule.schedule_id, slot_key) .failed none)
    throw e

-- The loop over the due slots. A slot that is claimed already is passed over.
def sweep_slots (schedule : ScheduleRecord) (plan_budget : ℕ) (owner : String) :
    List ℕ → Progress → Prog sig (List JobRecord)
  | [],            p => return p.queued
  | slot :: slots, p =>
    let day := cal.strftime slot
    if p.full schedule plan_budget day then sweep_slots schedule plan_budget owner slots p
    else do
      let slot_at := cal.isoformat schedule.timezone slot schedule.local_time
      let slot_key := enqueue_key sha256 schedule.schedule_id slot_at
      match ← call (.claim_schedule_slot (schedule.schedule_id, slot_key) slot_at owner) with
      | false => sweep_slots schedule plan_budget owner slots p
      | true  => do
        let job ← enqueue_slot schedule slot_key
        let _ ← call
          (.set_schedule_slot_job (schedule.schedule_id, slot_key) .queued (some job.job_id))
        sweep_slots schedule plan_budget owner slots (p.add plan_budget day job)

def sweep_due (schedule : ScheduleRecord) (plan : RunPlan) (r : Sweep) :
    Prog sig (List JobRecord) := do
  let slots ← Prog.ofExcept <|
    due_daily_slots cal schedule.local_time schedule.timezone schedule.dst_policy r.start r.stop
  let existing ← call (.list_schedule_slots schedule.schedule_id)
  let daily_usage ← call
    (.get_schedule_daily_cost_usage schedule.schedule_id plan.budget_usd_micros)
  sweep_slots cal sha256 schedule plan.budget_usd_micros r.owner slots
    ⟨counts existing, daily_usage, []⟩

def get_plan (plan_id : String) : Prog sig RunPlan := do
  match ← ask (.run_plan plan_id) with
  | none      => throw .not_found
  | some plan => return plan

def sweep_active (schedule : ScheduleRecord) (r : Sweep) : Prog sig (List JobRecord) := do
  let plan ← get_plan schedule.plan_id
  let authorization ← ask (.run_authorization schedule.authorization_id)
  if usable schedule plan authorization (← ask .now) then
    match ← stale w plan with
    | true  => do
      call (.set_schedule_state schedule.schedule_id .paused)
      return []
    | false => sweep_due cal sha256 schedule plan r
  else return []

def sweep (r : Sweep) : Prog sig (List JobRecord) := do
  Prog.ofExcept (r.actor.require_write.mapError .version)
  match ← call (.get_schedule r.schedule_id) with
  | none          => throw .not_found
  | some schedule =>
    match schedule.state with
    | .paused => return []
    | .active => sweep_active cal sha256 w schedule r

end Sweep

end Schedules
