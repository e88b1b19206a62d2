import Traceline.Versions.Store

-- Run plans, which freeze the versions and the limits of a run before it is authorised.
namespace Plans

open Versions (VersionRecord)

abbrev Fields := List (String × Json)

inductive Error
  | workflow_error (message code : String) (status : ℕ)
  | not_found
  | raised (exception : String)
  deriving DecidableEq, Repr

-- What a plan is made from: the versions, which never change, and the projects. An instant with no
-- time zone does not compare with the clock, so it is none like text that is no instant.
structure World where
  get           : String → Option VersionRecord
  project       : String → Bool
  fromisoformat : String → Option Int
  str           : Json → String

def validation_error (message : String) : Error :=
  .workflow_error message "validation_error" 422

def check (p : Prop) [Decidable p] (e : Error) : Except Error Unit :=
  if p then .ok () else .error e

-- `value.get`, for a value that may be no dict.
def dict : Json → Except Error Fields
  | .obj kvs => .ok kvs
  | _        => .error <| .raised "AttributeError"

-- `value or {}`
def or_empty : Option Json → Json
  | some v => if v.truthy then v else .obj []
  | none   => .obj []

def hash : Json → Except Error Unit
  | .arr _ | .obj _ => .error <| .raised "TypeError"
  | _               => .ok ()

-- `value in names`, for a set of names.
def within (value : Option Json) (names : List String) : Except Error Bool := do
  let value := value.getD .null
  hash value
  return value.string?.any (· ∈ names)

-- What a loop over a value sees.
def items : Json → Except Error (List Json)
  | .arr xs  => .ok xs
  | .obj kvs => .ok <| kvs.map fun kv => .str kv.1
  | .str s   => .ok <| s.toList.map fun c => .str (String.singleton c)
  | _        => .error <| .raised "TypeError"

def version_ref_keys : List String := [
  "project_id", "source_version_id", "knowledge_version_id", "evaluation_version_id",
  "dataset_version_id", "target_version_id", "connection_version_id", "dashboard_version_id",
  "world_version_id", "model_selection_version_id"
]

def tiers : List String :=
  ["quick", "standard", "full"]

abbrev Refs := List (String × String)

def normalize : Fields → Except Error Refs
  | []               => .ok []
  | (key, v) :: refs =>
    let bounded := validation_error s!"{key} must be a bounded non-empty version identifier"
    match v with
    | .str value => do
      check (value ≠ "" ∧ value.length ≤ 255) bounded
      return (key, value) :: (← normalize refs)
    | _          => .error bounded

def required_blockers (refs : Refs) : List String :=
  (if (refs.lookup "evaluation_version_id").isNone then ["evaluation_version_required"] else []) ++
  (if (refs.lookup "dataset_version_id").isNone then ["dataset_version_required"] else []) ++
  (if (refs.lookup "project_id").isNone then ["project_required"] else [])

section Readiness

variable (w : World) (now : Int)

-- `datetime.fromisoformat(expires_at) <= now`, or whether it raises
def stale (expires_at : Option Json) : Bool :=
  match expires_at with
  | some (.str s) => (w.fromisoformat s).all (· ≤ now)
  | _             => true

def source_blockers (v : VersionRecord) : List String :=
  if v.content.lookup "readiness" = some (.str "executable") then [] else ["source_runtime_not_ready"]

def target_blockers (v : VersionRecord) : Except Error (List String) := do
  let verification ← dict (or_empty (v.content.lookup "verification"))
  let kind := if v.kind = "target" then [] else ["target_version_invalid"]
  if verification.lookup "state" ≠ some (.str "verified") then
    return kind ++ ["target_verification_required"]
  else if stale w now (verification.lookup "expires_at") then
    return kind ++ ["target_verification_stale"]
  else return kind

def ref_blockers (key value : String) : Except Error (List String) :=
  if key = "project_id" then
    if w.project value then .ok [] else .error .not_found
  else
    match w.get value with
    | none   => .error <| .workflow_error s!"{key} was not found in this workspace"
        "version_not_found" 404
    | some v =>
      if key = "source_version_id" then .ok <| source_blockers v
      else if key = "target_version_id" then target_blockers w now v
      else .ok []

def version_blockers : Refs → Except Error (List String)
  | []                   => .ok []
  | (key, value) :: refs => do
    let blockers ← ref_blockers w now key value
    return blockers ++ (← version_blockers refs)

end Readiness

section Evaluation

variable (w : World)

-- `_TARGET_CAPABILITY_BY_METRIC_TARGET`
def capability_of : String → Option String
  | "final_response" | "model_output"                    => some "final_output"
  | "tool_invocation" | "tool_arguments" | "tool_output" => some "tool_execution"
  | "retrieval"                                          => some "retrieval"
  | _                                                    => none

def _metric_capability (metric : Json) : Except Error (Option String) :=
  match metric.get? "target" with
  | some (.obj target) => do
    let type := (target.lookup "type").getD .null
    hash type
    return type.string?.bind capability_of
  | _ => return none

def metric_blockers (capabilities : Json) (metric : Json) : Except Error (List String) := do
  match ← _metric_capability metric with
  | none            => return []
  | some capability =>
    if ← within ((← dict capabilities).lookup capability) ["observed", "declared"] then return []
    let metric_id := w.str <| (metric.get? "metric_id").getD (.str "unknown")
    return [s!"target_capability_required:{metric_id}:{capability}"]

def capability_blockers (target evaluation : VersionRecord) : Except Error (List String) := do
  let verification ← dict (or_empty (target.content.lookup "verification"))
  let capabilities := or_empty (verification.lookup "capabilities")
  let spec := (evaluation.content.lookup "spec").getD (.obj evaluation.content)
  match (spec.get? "metrics").getD (.arr []) with
  | .arr metrics => return (← metrics.mapM (metric_blockers w capabilities)).flatten
  | _            => return []

-- The metrics of the spec that are objects.
def spec_metrics (evaluation : VersionRecord) : Except Error (List Fields) :=
  match (evaluation.content.lookup "spec").getD (.obj []) with
  | .obj spec => do
    let metrics ← items <| (spec.lookup "metrics").getD (.arr [])
    return metrics.filterMap Json.fields?
  | _         => .ok []

-- Either the blocker of a binding, or the version it resolves to.
def binding (refs : Refs) (metrics : List Fields) (metric_id : String) (value : Json) :
    Except Error (String ⊕ String) :=
  if metrics.all fun m => m.lookup "metric_id" ≠ some (.str metric_id) then
    .ok <| .inl s!"custom_evaluator_metric_invalid:{metric_id}"
  else
    match value with
    | .str id =>
      if id = "" then .ok <| .inl s!"custom_evaluator_version_invalid:{metric_id}"
      else
        match w.get id with
        | none   => .ok <| .inl s!"custom_evaluator_version_missing:{metric_id}"
        | some v =>
          if v.kind ≠ "evaluator" then
            .ok <| .inl s!"custom_evaluator_version_invalid:{metric_id}"
          else if some v.parent_id ≠ refs.lookup "project_id" then
            .ok <| .inl s!"custom_evaluator_project_mismatch:{metric_id}"
          else do
            let review ← dict (or_empty (v.content.lookup "review"))
            if review.lookup "state" ≠ some (.str "approved") then
              return .inl s!"custom_evaluator_approval_required:{metric_id}"
            else
              let metric := metrics.find? fun m => m.lookup "metric_id" = some (.str metric_id)
              let scoring ← dict <| ((metric.getD []).lookup "scoring").getD (.obj [])
              match (scoring.lookup "range").getD .null with
              | .arr range =>
                if (Json.arr range).pyEq ((v.content.lookup "score_range").getD .null) then
                  return .inr id
                else return .inl s!"custom_evaluator_score_range_mismatch:{metric_id}"
              | _          => return .inl s!"custom_evaluator_score_range_mismatch:{metric_id}"
    | _       => .ok <| .inl s!"custom_evaluator_version_invalid:{metric_id}"

-- The blockers of the bindings, and the versions that the others resolve to.
def evaluator_bindings (refs : Refs) (evaluation : VersionRecord) :
    Except Error (List String × Refs) :=
  let bindings := (evaluation.content.lookup "custom_evaluators").getD .null
  match if bindings = .null then .obj [] else bindings with
  | .obj bindings => do
    let metrics ← spec_metrics evaluation
    metrics.forM fun m => hash <| (m.lookup "metric_id").getD .null
    let results ← bindings.mapM fun kv => do
      return (kv.1, ← binding w refs metrics kv.1 kv.2)
    return (results.filterMap (·.2.getLeft?), results.filterMap fun r => r.2.getRight?.map (r.1, ·))
  | _             => .ok (["custom_evaluator_bindings_invalid"], [])

end Evaluation

-- The blockers of the limits.
def limit_blockers (limits : Fields) : Except Error (List String) := do
  let tier := (limits.lookup "tier").getD .null
  let unsupported := ! (← within (some tier) tiers) && tier ≠ .null
  let repeats :=
    match (limits.lookup "repeats").getD (.int 1) with
    | .int n => decide (1 ≤ n ∧ n ≤ 5)
    | _      => false
  let budget :=
    match (limits.lookup "budget_usd_micros").getD (.int 0) with
    | .int n => decide (0 ≤ n)
    | _      => false
  return (if unsupported then ["unsupported_tier"] else []) ++
    (if repeats then [] else ["repeats_out_of_range"]) ++
    (if budget then [] else ["budget_invalid"])

-- The tier hint of the spec is looked up where the limits name none.
def tier_for_estimate (limits : Fields) (evaluation : Option VersionRecord) : Except Error String := do
  if ← within (limits.lookup "tier") tiers then
    return ((limits.lookup "tier").bind Json.string?).getD "quick"
  let spec := (evaluation.map fun v => (v.content.lookup "spec").getD (.obj v.content)).getD (.obj [])
  let run_tier := spec.get? "run_tier"
  return if ← within run_tier tiers then (run_tier.bind Json.string?).getD "quick" else "quick"

inductive PlanState
  | validated
  | blocked
  deriving DecidableEq, Repr

structure RunPlan where
  version_refs       : Refs
  limits             : Fields
  evaluator_versions : Refs
  tier               : String
  blockers           : List String

def RunPlan.state (p : RunPlan) : PlanState :=
  if p.blockers = [] then .validated else .blocked

-- `self.versions.get`
def get_version (w : World) (id : String) : Except Error VersionRecord :=
  match w.get id with
  | some v => .ok v
  | none   => .error .not_found

def evidence_blockers (w : World) (refs : Refs) : Except Error (List String) :=
  match refs.lookup "target_version_id", refs.lookup "evaluation_version_id" with
  | some target, some evaluation => do
    capability_blockers w (← get_version w target) (← get_version w evaluation)
  | _,           _               => .ok []

def evaluator_versions (w : World) (refs : Refs) : Except Error (List String × Refs) :=
  match refs.lookup "evaluation_version_id" with
  | some evaluation => do evaluator_bindings w refs (← get_version w evaluation)
  | none            => .ok ([], [])

def plan_run (w : World) (now : Int) (version_refs limits : Fields) : Except Error RunPlan := do
  check (∀ kv ∈ version_refs, kv.1 ∈ version_ref_keys) <|
    validation_error "Unknown run-plan version reference"
  let refs       ← normalize version_refs
  let versions   ← version_blockers w now refs
  let evidence   ← evidence_blockers w refs
  let evaluators ← evaluator_versions w refs
  check (Json.obj limits).finiteFloats <|
    validation_error "Run plan content must be finite JSON"
  let limited    ← limit_blockers limits
  let tier       ← tier_for_estimate limits ((refs.lookup "evaluation_version_id").bind w.get)
  return {
    version_refs       := refs
    limits
    evaluator_versions := evaluators.2
    tier
    blockers           := required_blockers refs ++ versions ++ evidence ++ evaluators.1 ++ limited
  }

end Plans
