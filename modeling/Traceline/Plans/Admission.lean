import Traceline.Plans.Plan
import Traceline.Spec

-- What the worker checks of a plan before the first case of its run.
namespace Plans

open Spec (EvaluationSpec)
open Versions (VersionRecord)

inductive Tier
  | quick
  | standard
  | full
  deriving DecidableEq, Repr

-- `value in RUN_TIERS`
def Tier.of : Json → Option Tier
  | .str "quick"    => some .quick
  | .str "standard" => some .standard
  | .str "full"     => some .full
  | _               => none

structure RunTiers where
  quick_max_cases    : ℕ := 20
  standard_min_cases : ℕ := 100
  standard_max_cases : ℕ := 200
  full_max_cases     : ℕ := 5000

def RunTiers.allows (t : RunTiers) (tier : Tier) (case_count : ℕ) : Bool :=
  match tier with
  | .quick    => case_count ≤ t.quick_max_cases
  | .standard => t.standard_min_cases ≤ case_count && case_count ≤ t.standard_max_cases
  | .full     => case_count ≤ t.full_max_cases

inductive Adapter
  | local_target
  | http_json
  | http_stream
  | http_job
  | http_session
  deriving DecidableEq, Repr

structure ResolvedTarget where
  adapter    : Adapter
  manifest   : Fields
  entrypoint : List Json

-- What the worker relies on besides the versions: the validators of a spec, with the tier it hints
-- at; the files of a source; the secrets of the workspace; and the numbers that a text denotes.
structure Host extends World where
  tiers         : RunTiers
  validate_spec : Fields → Except Error (EvaluationSpec × Option Tier)
  materialize   : String → Except Error Unit
  resolve       : Json → Except Error Unit
  float_text    : String → Bool

def conflict (message code : String) : Error :=
  .workflow_error message code 409

-- `fields[key] = value`
def assign (key : String) (value : Json) : Fields → Fields
  | []        => [(key, value)]
  | kv :: kvs => if kv.1 = key then (key, value) :: kvs else kv :: assign key value kvs

section

variable (h : Host)

def required_version (refs : Refs) (key : String) : Except Error VersionRecord :=
  match refs.lookup key with
  | some id => get_version h.toWorld id
  | none    => .error <| .raised "KeyError"

def frozen_spec (refs : Refs) : Except Error (EvaluationSpec × Option Tier) := do
  let evaluation ← required_version h refs "evaluation_version_id"
  let dataset    ← required_version h refs "dataset_version_id"
  check (evaluation.kind = "evaluation" ∧ dataset.kind = "dataset") <|
    conflict "run plan version kinds do not match" "run_plan_invalid"
  match evaluation.content.lookup "spec", dataset.content.lookup "cases" with
  | some (.obj spec_payload), some (.arr cases) =>
    let dataset_version := .str <| (refs.lookup "dataset_version_id").getD ""
    h.validate_spec <| assign "dataset_version" dataset_version <| assign "cases" (.arr cases) spec_payload
  | _,                        _                 =>
    .error <| conflict "evaluation or dataset version is not executable" "definition_not_ready"

def resolve_source (source : VersionRecord) : Except Error ResolvedTarget := do
  check (source.kind = "source" ∧ source.content.lookup "readiness" = some (.str "executable")) <|
    conflict "source runtime is not executable" "source_runtime_not_ready"
  let runtime    ← dict (or_empty (source.content.lookup "runtime"))
  let image      := (runtime.lookup "image_digest").getD .null
  let entrypoint := (runtime.lookup "entrypoint").getD .null
  check (image.truthy ∧ entrypoint.truthy) <|
    conflict "source runtime manifest is incomplete" "runtime_manifest_invalid"
  h.materialize source.version_id
  return {
    adapter    := .local_target
    manifest   := [
      ("image", image),
      ("entrypoint", entrypoint),
      ("timeout_seconds", (runtime.lookup "timeout_seconds").getD (.int 120)),
      ("egress", (runtime.lookup "egress").getD (.str "none"))
    ]
    entrypoint := ← items entrypoint
  }

-- The secret is resolved for the types of authentication that carry one.
def resolve_auth (target : VersionRecord) : Except Error Unit := do
  let auth ← dict (or_empty (target.content.lookup "auth"))
  if ← within (auth.lookup "type") ["bearer", "api_key"] then
    match auth.lookup "secret_ref" with
    | some secret_ref => h.resolve secret_ref
    | none            => .error <| .raised "KeyError"
  else return ()

-- The adapters by the kind of a target, and the one of every other kind.
def adapter_for : Json → Adapter
  | .str "http_stream"  => .http_stream
  | .str "http_job"     => .http_job
  | .str "http_session" => .http_session
  | _                   => .http_json

def resolve_connection (now : Int) (target : VersionRecord) : Except Error ResolvedTarget := do
  check (target.kind = "target") <|
    conflict "target version is invalid" "target_version_invalid"
  let verification ← dict (or_empty (target.content.lookup "verification"))
  check (verification.lookup "state" = some (.str "verified")) <|
    conflict "target verification is required" "target_verification_required"
  check (stale h.toWorld now (verification.lookup "expires_at") = false) <|
    conflict "target verification has expired" "target_verification_stale"
  resolve_auth h target
  let kind := (target.content.lookup "kind").getD .null
  hash kind
  return {
    adapter    := adapter_for kind
    manifest   := [("target", .obj target.content), ("retries", .int 0)]
    entrypoint := [.str "/bin/true"]
  }

-- `refs.get(key)`, where an empty reference counts as none.
def optional_ref (refs : Refs) (key : String) : Option String :=
  (refs.lookup key).filter (· ≠ "")

def _resolve_target (now : Int) (refs : Refs) : Except Error ResolvedTarget :=
  match optional_ref refs "source_version_id" with
  | some source => do resolve_source h (← get_version h.toWorld source)
  | none        =>
    match optional_ref refs "target_version_id" with
    | some target => do resolve_connection h now (← get_version h.toWorld target)
    | none        =>
      .error <| conflict "run plan has no executable target" "execution_target_required"

-- The value of an operand of `<`.
def operand? : Json → Option PyFloat
  | .bool b => some <| .finite b.toInt
  | value   => value.number?

def at_least (bound : Int) (value : Json) : Except Error Unit :=
  match operand? value with
  | some x => check (x.lt (.finite bound) = false) <| .raised "ValueError"
  | none   => .error <| .raised "TypeError"

-- `float(value)`
def float : Json → Except Error Unit
  | .bool _ | .float _ => .ok ()
  | .int n             => check (n.natAbs < Json.floatLimit) <| .raised "OverflowError"
  | .str s             => check (h.float_text s) <| .raised "ValueError"
  | _                  => .error <| .raised "TypeError"

-- An integer of a row has 64 bits.
def column : Json → Except Error Unit
  | .int n => check (-2 ^ 63 ≤ n ∧ n < 2 ^ 63) <| .raised "OverflowError"
  | _      => .ok ()

-- `limits.get("tier") or spec.run_tier or "quick"`
def run_tier (limits : Fields) (hint : Option Tier) : Option Tier :=
  match limits.lookup "tier" with
  | some tier => if tier.truthy then Tier.of tier else some (hint.getD .quick)
  | none      => some (hint.getD .quick)

def create_run (spec : EvaluationSpec) (hint : Option Tier) (limits : Fields) (entrypoint : List Json) :
    Except Error Unit := do
  check (spec.cases ≠ [])   <| .raised "ValueError"
  check (spec.metrics ≠ []) <| .raised "ValueError"
  at_least 1 <| (limits.lookup "repeats").getD (.int 1)
  at_least 0 <| (limits.lookup "retry_max").getD (.int 0)
  check (((limits.lookup "concurrency").getD (.int 1)).pyEq (.int 1)) <| .raised "ValueError"
  at_least 0 <| (limits.lookup "budget_usd_micros").getD (.int 0)
  check (entrypoint ≠ []) <| .raised "ValueError"
  match run_tier limits hint with
  | none      => .error <| .raised "ValueError"
  | some tier =>
    check (h.tiers.allows tier spec.cases.length) <| .raised "TierViolationError"
    float h <| (limits.lookup "timeout_seconds").getD (.int 120)
    column <| (limits.lookup "budget_usd_micros").getD (.int 0)

-- `execute`, up to the run it creates.
def execute (now : Int) (plan : RunPlan) : Except Error ResolvedTarget := do
  check (plan.state = .validated) <|
    conflict "run plan has readiness blockers" "run_plan_not_ready"
  let (spec, hint) ← frozen_spec h plan.version_refs
  let target       ← _resolve_target h now plan.version_refs
  let entrypoint   := if target.entrypoint = [] then [.str "/bin/true"] else target.entrypoint
  create_run h spec hint plan.limits entrypoint
  return target

end

end Plans
