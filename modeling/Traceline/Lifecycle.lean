import Mathlib.Data.String.Basic

namespace Lifecycle

inductive RunStatus
  | draft
  | queued
  | provisioning
  | running
  | aggregating
  | complete
  | failed
  | cancelled
  | incomplete
  deriving DecidableEq, Repr

inductive RunCaseStatus
  | queued
  | running
  | completed
  | failed
  | cancelled
  | skipped
  deriving DecidableEq, Repr

inductive AttemptStatus
  | queued
  | running
  | completed
  | timed_out
  | budget_exceeded
  | cancelled
  | orphaned
  | errored
  deriving DecidableEq, Repr

def RunStatus.toString : RunStatus → String
  | .draft        => "draft"
  | .queued       => "queued"
  | .provisioning => "provisioning"
  | .running      => "running"
  | .aggregating  => "aggregating"
  | .complete     => "complete"
  | .failed       => "failed"
  | .cancelled    => "cancelled"
  | .incomplete   => "incomplete"

def RunCaseStatus.toString : RunCaseStatus → String
  | .queued    => "queued"
  | .running   => "running"
  | .completed => "completed"
  | .failed    => "failed"
  | .cancelled => "cancelled"
  | .skipped   => "skipped"

def AttemptStatus.toString : AttemptStatus → String
  | .queued          => "queued"
  | .running         => "running"
  | .completed       => "completed"
  | .timed_out       => "timed_out"
  | .budget_exceeded => "budget_exceeded"
  | .cancelled       => "cancelled"
  | .orphaned        => "orphaned"
  | .errored         => "errored"

-- RUN_TRANSITIONS
def RunStatus.next : RunStatus → List RunStatus
  | .draft        => [.queued, .cancelled]
  | .queued       => [.provisioning, .cancelled]
  | .provisioning => [.running, .failed, .cancelled]
  | .running      => [.aggregating, .failed, .cancelled, .incomplete]
  | .aggregating  => [.complete, .failed, .incomplete]
  | .complete     => []
  | .failed       => []
  | .cancelled    => [.queued]
  | .incomplete   => [.queued, .cancelled]

-- RUN_CASE_TRANSITIONS
def RunCaseStatus.next : RunCaseStatus → List RunCaseStatus
  | .queued    => [.running, .cancelled, .skipped]
  | .running   => [.completed, .failed, .cancelled]
  | .completed => []
  | .failed    => [.queued]
  | .cancelled => [.queued]
  | .skipped   => []

-- ATTEMPT_TRANSITIONS
def AttemptStatus.next : AttemptStatus → List AttemptStatus
  | .queued  => [.running, .cancelled, .orphaned]
  | .running => [.completed, .timed_out, .budget_exceeded, .cancelled, .orphaned, .errored]
  | _        => []

structure IllegalTransition where
  current : String
  target  : String
  allowed : List String
  deriving DecidableEq, Repr

def IllegalTransition.message (e : IllegalTransition) : String :=
  "'" ++ e.current ++ "' -> '" ++ e.target ++ "' is not a legal transition; allowed from '" ++
    e.current ++ "': [" ++ ", ".intercalate (e.allowed.map fun s => "'" ++ s ++ "'") ++ "]"

-- Re-asserting the current status is a no-op. Any other target must be in the table.
def transition {σ : Type} [DecidableEq σ] (toString : σ → String) (table : σ → List σ)
    (current target : σ) : Except IllegalTransition σ :=
  if current = target ∨ target ∈ table current then .ok target
  else .error {
    current := toString current
    target  := toString target
    allowed := ((table current).map toString).mergeSort
  }

variable {σ : Type} [DecidableEq σ] {toString : σ → String} {table : σ → List σ}
variable {current target : σ}

theorem transition_ok (h : current = target ∨ target ∈ table current) :
    transition toString table current target = .ok target :=
  if_pos h

theorem transition_eq_ok_iff {s : σ} : transition toString table current target = .ok s ↔
    s = target ∧ (current = target ∨ target ∈ table current) := by
  unfold transition
  split
  case isTrue h  => simpa [h] using eq_comm
  case isFalse h => simp [h]

-- Every status keeps a way out except the ones that are final for good.
theorem RunStatus.next_eq_nil_iff {s : RunStatus} : s.next = [] ↔ s = .complete ∨ s = .failed := by
  cases s <;> simp [next]

theorem RunCaseStatus.next_eq_nil_iff {s : RunCaseStatus} :
    s.next = [] ↔ s = .completed ∨ s = .skipped := by
  cases s <;> simp [next]

end Lifecycle
