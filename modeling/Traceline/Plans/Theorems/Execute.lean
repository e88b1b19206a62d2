import Traceline.Plans.Theorems.Readiness

namespace Plans

open Except (bind_eq_ok_iff)
open Spec (EvaluationSpec)
open Versions (VersionRecord)

variable {w : World} {h : Host} {now planned : Int} {refs : Refs} {limits version_refs : Fields}
variable {key value : String} {p : RunPlan} {v : VersionRecord} {spec : EvaluationSpec}
variable {hint : Option Tier} {target : ResolvedTarget}

-- The version a plan refers to under a key.
def RunPlan.version (p : RunPlan) (w : World) (key : String) : Option VersionRecord :=
  (p.version_refs.lookup key).bind w.get

-- What readiness leaves open about the limits of a run.
structure LimitsFit (h : Host) (limits : Fields) : Prop where
  retry_max       : ∃ x, operand? ((limits.lookup "retry_max").getD (.int 0)) = some x ∧
    x.lt (.finite 0) = false
  concurrency     : ((limits.lookup "concurrency").getD (.int 1)).pyEq (.int 1)
  timeout_seconds : float h ((limits.lookup "timeout_seconds").getD (.int 120)) = .ok ()
  budget          : ∀ n, limits.lookup "budget_usd_micros" = some (.int n) → n < 2 ^ 63

-- The tier of a run, for limits whose tier is a known one.
def requested_tier (limits : Fields) (hint : Option Tier) : Tier :=
  (run_tier limits hint).getD .quick

-- The versions of the evaluation and of the dataset make up a spec that a run of its tier can take.
inductive Defined (h : Host) (p : RunPlan) : Prop
  | intro {evaluation dataset : VersionRecord} {payload : Fields} {cases : List Json}
      {spec : EvaluationSpec} {hint : Option Tier} {id : String}
    (evaluation_version : p.version h.toWorld "evaluation_version_id" = some evaluation)
    (dataset_ref        : p.version_refs.lookup "dataset_version_id" = some id)
    (dataset_version    : h.get id = some dataset)
    (evaluation_kind    : evaluation.kind = "evaluation")
    (dataset_kind       : dataset.kind = "dataset")
    (spec_payload       : evaluation.content.lookup "spec" = some (.obj payload))
    (dataset_cases      : dataset.content.lookup "cases" = some (.arr cases))
    (valid              : h.validate_spec (assign "dataset_version" (.str id)
      (assign "cases" (.arr cases) payload)) = .ok (spec, hint))
    (some_case          : spec.cases ≠ [])
    (some_metric        : spec.metrics ≠ [])
    (tier_cap           : h.tiers.allows (requested_tier p.limits hint) spec.cases.length)

-- The authentication of a target names a secret of the workspace or needs none.
inductive Authenticated (h : Host) (target : VersionRecord) : Prop
  | plain {auth : Fields}
    (fields : or_empty (target.content.lookup "auth") = .obj auth)
    (type   : within (auth.lookup "type") ["bearer", "api_key"] = .ok false)
  | secret {auth : Fields} {secret_ref : Json}
    (fields   : or_empty (target.content.lookup "auth") = .obj auth)
    (type     : within (auth.lookup "type") ["bearer", "api_key"] = .ok true)
    (named    : auth.lookup "secret_ref" = some secret_ref)
    (resolves : h.resolve secret_ref = .ok ())

-- The plan names a source with a complete runtime or else a target.
inductive Targeted (h : Host) (p : RunPlan) : Prop
  | source {source : VersionRecord} {runtime : Fields} {parts : List Json}
    (version    : p.version h.toWorld "source_version_id" = some source)
    (kind       : source.kind = "source")
    (fields     : or_empty (source.content.lookup "runtime") = .obj runtime)
    (image      : ((runtime.lookup "image_digest").getD .null).truthy)
    (entrypoint : ((runtime.lookup "entrypoint").getD .null).truthy)
    (iterable   : items ((runtime.lookup "entrypoint").getD .null) = .ok parts)
    (files      : h.materialize source.version_id = .ok ())
  | connection {target : VersionRecord}
    (no_source : p.version_refs.lookup "source_version_id" = none)
    (version   : p.version h.toWorld "target_version_id" = some target)
    (auth      : Authenticated h target)
    (kind      : hash ((target.content.lookup "kind").getD .null) = .ok ())

structure Executable (h : Host) (p : RunPlan) : Prop where
  defined  : Defined h p
  targeted : Targeted h p
  limits   : LimitsFit h p.limits

-- The verification of the target of a plan has not expired.
def Unexpired (w : World) (now : Int) (p : RunPlan) : Prop :=
  ∀ v verification, p.version w "target_version_id" = some v →
    or_empty (v.content.lookup "verification") = .obj verification →
    stale w now (verification.lookup "expires_at") = false

theorem at_least_eq_ok_iff {bound : Int} {j : Json} {u : Unit} :
    at_least bound j = .ok u ↔ ∃ x, operand? j = some x ∧ x.lt (.finite bound) = false := by
  unfold at_least
  cases operand? j <;> simp [check_eq_ok_iff]

theorem at_least_int {bound n : Int} (hn : bound ≤ n) : at_least bound (.int n) = .ok () :=
  at_least_eq_ok_iff.mpr ⟨.finite n, rfl, by simpa [PyFloat.lt] using hn⟩

theorem within_eq_ok_true_iff {j : Option Json} {names : List String} :
    within j names = .ok true ↔ ∃ s ∈ names, j = some (.str s) := by
  rcases j with _ | j
  case none   => simp [within, hash, Json.string?, bind, Except.bind, pure, Except.pure]
  case some   => cases j <;> simp [within, hash, Json.string?, bind, Except.bind, pure, Except.pure]

namespace Ready

variable (hr : Ready w planned p)

include hr

theorem tier_known : (p.limits.lookup "tier").getD .null = .null ∨
    within (some ((p.limits.lookup "tier").getD .null)) tiers = .ok true := by
  have hl := hr.limits
  simp only [limit_blockers, bind_eq_ok_iff, pure_eq_ok_iff, List.append_eq_nil_iff] at hl
  obtain ⟨known, hk, ⟨ht, -⟩, -⟩ := hl
  cases known <;> simp_all

theorem repeats : ∃ n, (p.limits.lookup "repeats").getD (.int 1) = .int n ∧ 1 ≤ n := by
  have hl := hr.limits
  simp only [limit_blockers, bind_eq_ok_iff, pure_eq_ok_iff, List.append_eq_nil_iff] at hl
  obtain ⟨-, -, ⟨-, h⟩, -⟩ := hl
  grind

theorem budget : ∃ n, (p.limits.lookup "budget_usd_micros").getD (.int 0) = .int n ∧ 0 ≤ n := by
  have hl := hr.limits
  simp only [limit_blockers, bind_eq_ok_iff, pure_eq_ok_iff, List.append_eq_nil_iff] at hl
  obtain ⟨-, -, -, h⟩ := hl
  grind

theorem run_tier_eq : run_tier p.limits hint = some (requested_tier p.limits hint) := by
  suffices h : (run_tier p.limits hint).isSome by
    unfold requested_tier
    cases hr : run_tier p.limits hint
    case none   => simp [hr] at h
    case some _ => rfl
  unfold run_tier
  cases hl : p.limits.lookup "tier" with
  | none      => rfl
  | some tier =>
    rcases hr.tier_known with ht | ht
    case inl =>
      rw [hl] at ht
      cases (ht : tier = .null)
      rfl
    case inr =>
      have ⟨s, hs, hj⟩ := within_eq_ok_true_iff.mp ht
      rw [hl] at hj
      cases hj
      simp only [tiers, List.mem_cons, List.not_mem_nil, or_false] at hs
      rcases hs with rfl | rfl | rfl <;> rfl

end Ready

-- The limits of a plan without a blocker are taken where readiness left nothing open.
theorem create_run_eq_ok_iff (hr : Ready w planned p) {parts : List Json} (hp : parts ≠ []) {u : Unit} :
    create_run h spec hint p.limits parts = .ok u ↔
      spec.cases ≠ [] ∧ spec.metrics ≠ [] ∧ LimitsFit h p.limits ∧
        h.tiers.allows (requested_tier p.limits hint) spec.cases.length := by
  have ⟨n, hn, hn'⟩ := hr.repeats
  have ⟨m, hm, hm'⟩ := hr.budget
  have hb : column ((p.limits.lookup "budget_usd_micros").getD (.int 0)) = .ok () ↔
      ∀ n, p.limits.lookup "budget_usd_micros" = some (.int n) → n < 2 ^ 63 := by
    rw [hm, column, check_eq_ok_iff]
    cases hl : p.limits.lookup "budget_usd_micros" with
    | none   =>
      rw [hl] at hm
      cases hm
      exact iff_of_true (by decide) nofun
    | some j =>
      rw [hl] at hm
      cases (hm : j = _)
      refine ⟨fun ⟨_, hlt⟩ k hk => ?_, fun hlt => ⟨by omega, hlt m rfl⟩⟩
      cases hk
      exact hlt
  simp only [create_run, hr.run_tier_eq, bind_eq_ok_iff, check_eq_ok_iff, hn, at_least_int hn',
    exists_const, true_and]
  constructor
  case mp =>
    rintro ⟨hc, hs, _, hretry, hconcurrency, _, _, _, hcap, _, htime, hbudget⟩
    exact ⟨hc, hs, ⟨at_least_eq_ok_iff.mp hretry, hconcurrency, htime, hb.mp hbudget⟩, hcap⟩
  case mpr =>
    rintro ⟨hc, hs, hl, hcap⟩
    have hbudget : at_least 0 ((p.limits.lookup "budget_usd_micros").getD (.int 0)) = .ok () :=
      hm ▸ at_least_int hm'
    exact ⟨hc, hs, (), at_least_eq_ok_iff.mpr hl.retry_max, hl.concurrency, (), hbudget, hp, hcap, (),
      hl.timeout_seconds, hb.mpr hl.budget⟩

theorem required_version_eq_ok_iff :
    required_version h refs key = .ok v ↔ (refs.lookup key).bind h.get = some v := by
  unfold required_version
  cases refs.lookup key <;> simp [get_version_eq_ok_iff]

theorem optional_ref_eq (hr : Ready w planned p) :
    optional_ref p.version_refs key = p.version_refs.lookup key := by
  unfold optional_ref
  cases hk : p.version_refs.lookup key with
  | none       => rfl
  | some value => simpa using hr.nonempty key value hk

theorem resolve_auth_eq_ok_iff {u : Unit} : resolve_auth h v = .ok u ↔ Authenticated h v := by
  simp only [resolve_auth, bind_eq_ok_iff, dict_eq_ok_iff]
  constructor
  case mp =>
    rintro ⟨auth, ha, secret, hs, hr⟩
    cases secret
    case false => exact .plain ha hs
    case true  =>
      cases hn : auth.lookup "secret_ref" with
      | none            => simp [hn] at hr
      | some secret_ref =>
        simp only [hn, if_true] at hr
        exact .secret ha hs hn hr
  case mpr =>
    rintro (⟨ha, hs⟩ | ⟨ha, hs, hn, hr⟩)
    case plain  => exact ⟨_, ha, false, hs, rfl⟩
    case secret => exact ⟨_, ha, true, hs, by simpa [hn] using hr⟩

theorem resolve_source_ok_iff : (∃ t, resolve_source h v = .ok t) ↔
    (v.kind = "source" ∧ v.content.lookup "readiness" = some (.str "executable")) ∧
    ∃ runtime, or_empty (v.content.lookup "runtime") = .obj runtime ∧
      (((runtime.lookup "image_digest").getD .null).truthy ∧
        ((runtime.lookup "entrypoint").getD .null).truthy) ∧
      h.materialize v.version_id = .ok () ∧
      ∃ parts, items ((runtime.lookup "entrypoint").getD .null) = .ok parts := by
  simp only [resolve_source, bind_eq_ok_iff, check_eq_ok_iff, dict_eq_ok_iff, pure_eq_ok_iff,
    exists_const]
  constructor
  case mp =>
    rintro ⟨_, hk, runtime, hr, hm, _, hf, parts, hp, _⟩
    exact ⟨hk, runtime, hr, hm, hf, parts, hp⟩
  case mpr =>
    rintro ⟨hk, runtime, hr, hm, hf, parts, hp⟩
    exact ⟨_, hk, runtime, hr, hm, (), hf, parts, hp, rfl⟩

theorem resolve_connection_ok_iff : (∃ t, resolve_connection h now v = .ok t) ↔
    v.kind = "target" ∧
    ∃ verification, or_empty (v.content.lookup "verification") = .obj verification ∧
      verification.lookup "state" = some (.str "verified") ∧
      stale h.toWorld now (verification.lookup "expires_at") = false ∧
      Authenticated h v ∧ hash ((v.content.lookup "kind").getD .null) = .ok () := by
  simp only [resolve_connection, bind_eq_ok_iff, check_eq_ok_iff, dict_eq_ok_iff, pure_eq_ok_iff,
    resolve_auth_eq_ok_iff, exists_const]
  constructor
  case mp =>
    rintro ⟨_, hk, verification, hv, hs, hf, ha, _, hh, _⟩
    exact ⟨hk, verification, hv, hs, hf, ha, hh⟩
  case mpr =>
    rintro ⟨hk, verification, hv, hs, hf, ha, hh⟩
    exact ⟨_, hk, verification, hv, hs, hf, ha, (), hh, rfl⟩

theorem get_version_bind_ok_iff {α : Type} {id : String} {f : VersionRecord → Except Error α}
    (hv : w.get id = some v) : (∃ t, (get_version w id >>= f) = .ok t) ↔ ∃ t, f v = .ok t := by
  simp [get_version, hv, bind, Except.bind]

-- What readiness leaves open about the target of a plan is what the worker has yet to check of it.
theorem _resolve_target_ok_iff (hr : Ready h.toWorld planned p) (hu : Unexpired h.toWorld now p) :
    (∃ t, _resolve_target h now p.version_refs = .ok t) ↔ Targeted h p := by
  unfold _resolve_target
  rw [optional_ref_eq hr, optional_ref_eq hr]
  cases hs : p.version_refs.lookup "source_version_id" with
  | some id =>
    have ⟨source, hv⟩ := hr.get_of_lookup hs (by decide)
    have hpv : p.version h.toWorld "source_version_id" = some source := by simp [RunPlan.version, hs, hv]
    refine (get_version_bind_ok_iff hv).trans <| resolve_source_ok_iff.trans ⟨?_, ?_⟩
    · rintro ⟨hk, runtime, hf, hm, hfiles, parts, hparts⟩
      exact .source hpv hk.left hf hm.left hm.right hparts hfiles
    · rintro (⟨hpv', hk, hf, hi, he, hparts, hfiles⟩ | ⟨hn, -, -, -⟩)
      case source =>
        cases hpv.symm.trans hpv'
        exact ⟨⟨hk, hr.source_readiness hs hv⟩, _, hf, ⟨hi, he⟩, hfiles, _, hparts⟩
      case connection => cases hs.symm.trans hn
  | none =>
    cases ht : p.version_refs.lookup "target_version_id" with
    | none    =>
      refine iff_of_false (nofun) ?_
      rintro (⟨hpv, -, -, -, -, -, -⟩ | ⟨-, hpv, -, -⟩)
      case source     => simp [RunPlan.version, hs] at hpv
      case connection => simp [RunPlan.version, ht] at hpv
    | some id =>
      have ⟨target, hv⟩ := hr.get_of_lookup ht (by decide)
      have hpv : p.version h.toWorld "target_version_id" = some target := by
        simp [RunPlan.version, ht, hv]
      refine (get_version_bind_ok_iff hv).trans <| resolve_connection_ok_iff.trans ⟨?_, ?_⟩
      · rintro ⟨_, _, _, _, _, ha, hh⟩
        exact .connection hs hpv ha hh
      · rintro (⟨hpv', -, -, -, -, -, -⟩ | ⟨-, hpv', ha, hh⟩)
        case source     => simp [RunPlan.version, hs] at hpv'
        case connection =>
          cases hpv.symm.trans hpv'
          have ⟨hk, verification, hf, hverified⟩ := hr.target_verified ht hv
          exact ⟨hk, verification, hf, hverified, hu _ _ hpv hf, ha, hh⟩

-- The spec of a plan, and the limits of its run with it.
theorem frozen_spec_eq_ok_iff {run : EvaluationSpec × Option Tier} :
    frozen_spec h refs = .ok run ↔ ∃ evaluation dataset payload cases,
      (refs.lookup "evaluation_version_id").bind h.get = some evaluation ∧
      (refs.lookup "dataset_version_id").bind h.get = some dataset ∧
      (evaluation.kind = "evaluation" ∧ dataset.kind = "dataset") ∧
      evaluation.content.lookup "spec" = some (.obj payload) ∧
      dataset.content.lookup "cases" = some (.arr cases) ∧
      h.validate_spec (assign "dataset_version" (.str <| (refs.lookup "dataset_version_id").getD "")
        (assign "cases" (.arr cases) payload)) = .ok run := by
  simp only [frozen_spec, bind_eq_ok_iff, check_eq_ok_iff, required_version_eq_ok_iff, exists_const]
  constructor
  case mp =>
    rintro ⟨evaluation, he, dataset, hd, hk, hv⟩
    split at hv
    case h_1 hp hc => exact ⟨evaluation, dataset, _, _, he, hd, hk, hp, hc, hv⟩
    case h_2       => cases hv
  case mpr =>
    rintro ⟨evaluation, dataset, payload, cases, he, hd, hk, hp, hc, hv⟩
    exact ⟨evaluation, he, dataset, hd, hk, by simpa [hp, hc] using hv⟩

-- The limits are checked with the entrypoint of the target, which is never empty.
theorem execute_eq_ok_iff (hr : Ready w planned p) (hv : p.state = .validated) :
    execute h now p = .ok target ↔ ∃ spec hint,
      frozen_spec h p.version_refs = .ok (spec, hint) ∧
      _resolve_target h now p.version_refs = .ok target ∧
      spec.cases ≠ [] ∧ spec.metrics ≠ [] ∧ LimitsFit h p.limits ∧
      h.tiers.allows (requested_tier p.limits hint) spec.cases.length := by
  have he : (if target.entrypoint = [] then [.str "/bin/true"] else target.entrypoint) ≠ [] := by
    split
    case isTrue    => simp
    case isFalse h => exact h
  simp only [execute, bind_eq_ok_iff, check_eq_ok_iff, hv, pure_eq_ok_iff, exists_const, true_and]
  constructor
  case mp =>
    rintro ⟨⟨spec, hint⟩, hs, target', ht, _, hc, heq⟩
    cases heq
    exact ⟨spec, hint, hs, ht, (create_run_eq_ok_iff hr he).mp hc⟩
  case mpr =>
    rintro ⟨spec, hint, hs, ht, hc⟩
    exact ⟨(spec, hint), hs, target, ht, (), (create_run_eq_ok_iff hr he).mpr hc, rfl⟩

namespace Untargeted

theorem final_response_no_tool :
    Spec.TargetType.final_response.toolScoped → (none : Option String).isSome :=
  nofun

theorem on_missing_given :
    Spec.TargetType.final_response ≠ .run → (some Spec.OnMissing.fail).isSome :=
  fun _ => rfl

theorem range_given (type : Spec.ScoringType) :
    type = .binary ∨ type = .numeric → (some (PyFloat.finite 0, PyFloat.finite 1)).isSome :=
  fun _ => rfl

theorem binary_no_categories :
    Spec.ScoringType.binary = .categorical → (none : Option (List String)).isSome :=
  nofun

def evaluator : Spec.Evaluator where
  type                := .exact_match
  expected            := .str "yes"
  config_matches_type := rfl

theorem no_condition : Spec.ScoringType.binary = .binary → evaluator.numeric_producing →
    Spec.nonempty none :=
  nofun

theorem no_selector : ∀ s ∈ (none : Option String), s.startsWith "$" :=
  nofun

theorem unit_range_ordered :
    ∀ r ∈ some (PyFloat.finite 0, PyFloat.finite 1), r.2.lt r.1 = false := by
  simp [PyFloat.lt]

theorem no_judge : Spec.MetricType.scalar = .judge → (none : Option Spec.JudgeBinding).isSome ∧
    evaluator.type = .llm_judge :=
  nofun

-- The agent's answer has to be "yes".
def metric : Spec.Metric where
  metric_id     := "answer"
  name          := "answer"
  type          := .scalar
  target        := {
    type       := .final_response
    tool       := none
    selector   := none
    occurrence := none
    on_missing := some .fail
    selector_shape             := no_selector
    tool_for_tool_scoped_types := final_response_no_tool
    on_missing_required        := on_missing_given }
  evaluator
  scoring       := {
    type                := .binary
    range               := some (.finite 0, .finite 1)
    categories          := none
    condition           := none
    range_required      := range_given .binary
    range_ordered       := unit_range_ordered
    categories_required := binary_no_categories }
  aggregation   := ⟨.pass_rate, .fail⟩
  gate          := none
  judge_binding := none
  provisional   := false
  judge_requires_binding     := no_judge
  scoring_condition_required := no_condition

theorem one_case : ([⟨"c1", [], []⟩] : List Spec.TestCase).map (·.case_id) |>.Nodup :=
  List.nodup_singleton _

theorem one_metric : ([metric].map (·.metric_id)).Nodup :=
  List.nodup_singleton _

def sample : EvaluationSpec where
  name    := "sample"
  cases   := [⟨"c1", [], []⟩]
  metrics := [metric]
  unique_cases   := one_case
  unique_metrics := one_metric

def metrics : Json :=
  .arr [.obj [
    ("metric_id", .str "answer"),
    ("name", .str "answer"),
    ("type", .str "scalar"),
    ("target", .obj [("type", .str "final_response"), ("on_missing", .str "fail")]),
    ("evaluator", .obj [("type", .str "exact_match"), ("expected", .str "yes")]),
    ("scoring", .obj [("type", .str "binary"), ("range", .arr [.float (.finite 0), .float (.finite 1)])]),
    ("aggregation", .obj [("method", .str "pass_rate"), ("on_error", .str "fail")])
  ]]

def payload : Fields :=
  [("spec_version", .str "1"), ("name", .str "sample"), ("metrics", metrics)]

def cases : Json :=
  .arr [.obj [("case_id", .str "c1"), ("name", .str "first"), ("input", .obj [])]]

def version (version_id kind : String) (content : Fields) : VersionRecord where
  version_id
  workspace_id         := "w1"
  kind
  parent_id            := "p1"
  previous_version_id  := none
  content_digest       := version_id
  revision             := 1
  actor_id             := "u1"
  created_at           := "2026-01-01T00:00:00+00:00"
  content
  authoring_provenance := []

def versions : List VersionRecord := [
  version "e1" "evaluation" [("spec", .obj payload)],
  version "d1" "dataset" [("cases", cases)],
  version "t1" "target" [
    ("kind", .str "http_json"),
    ("verification", .obj [
      ("state", .str "verified"),
      ("expires_at", .str "2026-01-02T00:00:00+00:00"),
      ("capabilities", .obj [("final_output", .str "observed")])])]
]

def host : Host where
  get id               := versions.find? (·.version_id = id)
  project id           := id = "p1"
  fromisoformat text   := if text = "2026-01-02T00:00:00+00:00" then some 86400 else none
  str _                := ""
  tiers                := {}
  validate_spec fields :=
    if fields = payload ++ [("cases", cases), ("dataset_version", .str "d1")] then .ok (sample, none)
    else .error <| .raised "SpecValidationError"
  materialize _        := .error .not_found
  resolve _            := .error .not_found
  float_text _         := false

def project_refs : Fields :=
  [("project_id", .str "p1"), ("evaluation_version_id", .str "e1"), ("dataset_version_id", .str "d1")]

def target_ref : Fields :=
  [("target_version_id", .str "t1")]

def plan (version_refs : Fields) : RunPlan where
  version_refs       := version_refs.map fun ref => (ref.1, (ref.2.string?).getD "")
  limits             := []
  evaluator_versions := []
  tier               := "quick"
  blockers           := []

end Untargeted

open Untargeted

theorem unexpired_targeted : Unexpired host.toWorld 20 (plan <| project_refs ++ target_ref) := by
  intro v verification hv hf
  cases hv
  cases hf
  rfl

theorem executes_targeted : ∃ t, execute host 20 (plan <| project_refs ++ target_ref) = .ok t := by
  have h : (execute host 20 (plan <| project_refs ++ target_ref)).toOption.isSome := by decide +kernel
  cases he : execute host 20 (plan <| project_refs ++ target_ref) with
  | error _ => simp [he, Except.toOption] at h
  | ok t    => exact ⟨t, rfl⟩

end Plans
