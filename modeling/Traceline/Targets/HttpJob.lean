import Traceline.Engine.Basic

-- The adapter of a target that runs remote jobs: it submits one, or resumes one that is there, and
-- polls it.
namespace HttpJob

open Storage
open Engine (AdapterResult Invocation Query TargetAnswer)

-- What the check of the manifest and of its URLs against the endpoint policy comes to.
inductive Admission
  | accepted
  | rejected
  | raised (message : String)
  deriving DecidableEq, Repr

-- What the POST comes to. A failure is an HTTPError or a ValueError.
inductive Submission
  | timeout
  | failed
  | refused
  | answered (payload : Json)
  deriving DecidableEq, Repr

-- What one round of the poll loop comes to.
inductive Poll
  | cancelled
  | timeout
  | failed
  | refused
  | answered (state : Json)
  | raised (message : String)
  deriving DecidableEq, Repr

-- What an invocation meets: the policy, the client, the endpoint, and the rounds up to the deadline.
structure Exchange where
  admission    : Admission
  connected    : Bool
  submission   : Submission
  polls        : List Poll
  proxy_events : Except String (List Events.TraceEvent)

-- A non-empty string under `key` of an object.
def name? (payload : Json) (key : String) : Option String :=
  (payload.get? key).bind Json.string? |>.filter (· ≠ "")

def result (outcome : String) (remote_job_id : Option String) (output : Json := .null) :
    Except String AdapterResult :=
  .ok { outcome, output, trace_events := [], remote_job_id }

-- The poll loop over one job.
def poll (job_id : String) : List Poll → Except String AdapterResult
  | []                      => result "timeout" (some job_id)
  | .cancelled :: _         => result "cancelled" (some job_id)
  | .timeout :: _           => result "timeout" (some job_id)
  | .failed :: _            => result "transport_error" (some job_id)
  | .refused :: _           => result "protocol_error" (some job_id)
  | .raised message :: _    => .error message
  | .answered state :: rest =>
    match state.get? "state" with
    | some (.str "completed") => result "ok" (some job_id) ((state.get? "output").getD .null)
    | some (.str "failed")    => result "failed" (some job_id)
    | some (.str "cancelled") => result "cancelled" (some job_id)
    | some (.arr _)           => .error "unhashable type: 'list'"
    | some (.obj _)           => .error "unhashable type: 'dict'"
    | _                       => poll job_id rest

-- `HttpJobAdapter.invoke`
def invoke (net : Exchange) (x : Invocation) : TargetAnswer :=
  match net.admission with
  | .raised message => answer [] (.error message)
  | .rejected       => answer [] (result "policy_rejected" none)
  | .accepted       =>
    if !net.connected then answer [] (result "transport_error" none) else
      match x.remote_job_id.filter (· ≠ "") with
      | some job_id => answer [] (poll job_id net.polls)
      | none        =>
        match net.submission with
        | .timeout          => answer [] (result "timeout" none)
        | .failed           => answer [] (result "transport_error" none)
        | .refused          => answer [] (result "protocol_error" none)
        | .answered payload =>
          match name? payload "id" with
          | none        => answer [] (result "protocol_error" none)
          | some job_id => answer [job_id] (poll job_id net.polls)
where
  answer (persisted : List String) (result : Except String AdapterResult) : TargetAnswer :=
    { persisted, result, proxy_events := net.proxy_events }

-- The answers of such a target.
def Answers : ∀ q : Query, q.Answer → Prop
  | .invoke_target _ x, r => ∃ net, r = invoke net x
  | _,                  _ => True

variable {net : Exchange} {x : Invocation} {r : AdapterResult} {job_id : String}

-- The outcomes of an invocation, none of which is a state that marks a job for adoption.
def outcomes : List String :=
  ["policy_rejected", "transport_error", "timeout", "protocol_error", "ok", "failed", "cancelled"]

theorem poll_outcome {rounds : List Poll} (h : poll job_id rounds = .ok r) :
    r.outcome ∈ outcomes ∧ r.remote_job_id = some job_id := by
  induction rounds with
  | nil               =>
    cases h
    simp [outcomes]
  | cons round rest ih =>
    cases round with
    | answered state =>
      rw [poll] at h
      split at h
      case h_4 | h_5 => cases h
      case h_6       => exact ih h
      all_goals
        cases h
        simp [outcomes]
    | raised message => cases h
    | _              =>
      cases h
      simp [outcomes]

theorem invoke_outcome (h : (invoke net x).result = .ok r) : r.outcome ∈ outcomes := by
  have hres : ∀ {outcome id}, outcome ∈ outcomes → result outcome id = .ok r →
      r.outcome ∈ outcomes := by
    intro outcome id ho hr
    cases hr
    exact ho
  unfold invoke at h
  split at h
  · cases h
  · exact hres (by simp [outcomes]) h
  · split at h
    · exact hres (by simp [outcomes]) h
    · split at h
      · exact (poll_outcome h).left
      · split at h
        case h_4 =>
          split at h
          · exact hres (by simp [outcomes]) h
          · exact (poll_outcome h).left
        all_goals exact hres (by simp [outcomes]) h

-- An invocation that is given a job polls it and submits none.
theorem invoke_resumed (hid : x.remote_job_id = some job_id) (hne : job_id ≠ "") :
    (invoke net x).persisted = [] ∧
      ((invoke net x).result = poll job_id net.polls ∨ ∀ r, (invoke net x).result = .ok r →
        r.remote_job_id = none) := by
  have hnone : ∀ {outcome r}, result outcome none = .ok r → r.remote_job_id = none := by
    intro outcome r hr
    cases hr
    rfl
  have hgiven : x.remote_job_id.filter (· ≠ "") = some job_id := by simp [hid, hne]
  unfold invoke
  rw [hgiven]
  split
  · exact ⟨rfl, .inr nofun⟩
  · exact ⟨rfl, .inr fun r => hnone⟩
  · split
    · exact ⟨rfl, .inr fun r => hnone⟩
    · exact ⟨rfl, .inl rfl⟩

end HttpJob
