import Traceline.Evaluators.Schema

namespace Evaluators

open Events
open Predicates (Version Language Predicate Error)
open TraceRules (Node MAX_DEPTH validate_trace_rule_body)

variable {py : Python} {iso : String → Option Timestamp} {e : CelPredicate}

namespace Given

def event : TraceEvent where
  event_id          := "e"
  run_id            := "r"
  workspace_id      := "w"
  case_id           := "c"
  attempt_id        := "a"
  type              := .llm_call
  timestamp         := ⟨0, some 0⟩
  tool_typed_column := llm_call_untyped

-- A rule whose events are filtered by a predicate.
def clause_rule (clause : String) : Node :=
  [("op", .str "exists"),
    ("match", .obj [("event", .str "llm_call"), ("where", .str clause)])]

end Given

open Given

-- In CEL a predicate is validated with whatever the runtime makes of it.
theorem validate_cel {cel : String → Except Error (TraceEvent → Bool)} {truth : TraceEvent → Bool}
    (hv : e.language_version.getD .cel = .cel) (hp : Spec.nonempty e.predicate)
    (hb : ¬ (e.predicate.getD "").toList.all py.isspace) (hc : cel (e.predicate.getD "") = .ok truth) :
    e.validate ⟨py, iso, cel⟩ = .ok fun event => .ok (truth event) := by
  refine validate_eq_ok_iff.mpr ⟨hp, ?_⟩
  rw [Language.compile, if_neg hb, hv]
  dsimp only [Option.getD_some]
  rw [hc]
  rfl

-- What scoring says of an event does not depend on the CEL runtime.
theorem passed_cel (cel cel' : String → Except Error (TraceEvent → Bool)) (sel : List TraceEvent) :
    e.passed ⟨py, iso, cel⟩ sel = e.passed ⟨py, iso, cel'⟩ sel :=
  rfl

theorem validated_not_blank {cel : String → Except Error (TraceEvent → Bool)} {p : Predicate}
    (h : e.validate ⟨py, iso, cel⟩ = .ok p) :
    ¬ (e.predicate.getD "").toList.all py.isspace := by
  intro hb
  have ⟨_, hc⟩ := validate_eq_ok_iff.mp h
  rw [Language.compile, if_pos hb] at hc
  cases hc

theorem passed_of_prototype {cel : String → Except Error (TraceEvent → Bool)} {p : Predicate}
    (hv : e.language_version = some .prototype) (h : e.validate ⟨py, iso, cel⟩ = .ok p)
    (sel : List TraceEvent) : e.passed ⟨py, iso, cel⟩ sel = CelPredicate.passes p sel := by
  have ⟨_, hc⟩ := validate_eq_ok_iff.mp h
  have hs : e.scored ⟨py, iso, cel⟩ = .ok p := by
    rw [CelPredicate.scored, Except.mapError_eq_ok_iff, ← hc, hv]
    rfl
  rw [CelPredicate.passed, hs]
  rfl

-- Some runtime differs from what scoring says of an event.
theorem runtime_differs (iso : String → Option Timestamp)
    (hv : e.language_version.getD .cel = .cel) (hp : Spec.nonempty e.predicate)
    (hb : ¬ (e.predicate.getD "").toList.all py.isspace) :
    ∃ cel p, e.validate ⟨py, iso, cel⟩ = .ok p ∧
      e.passed ⟨py, iso, cel⟩ [event] ≠ CelPredicate.passes p [event] := by
  let scored := e.passed ⟨py, iso, fun _ => .error (.semantic "")⟩ [event]
  let truth : TraceEvent → Bool := fun _ => scored ≠ .ok true
  refine ⟨fun _ => .ok truth, _, validate_cel hv hp hb rfl, ?_⟩
  rw [passes_singleton, passed_cel _ fun _ => .error (.semantic "")]
  change scored ≠ .ok (decide (scored ≠ .ok true))
  intro h
  by_cases ht : scored = .ok true
  · rw [decide_eq_false (not_not.mpr ht), ht] at h
    cases h
  · rw [decide_eq_true ht] at h
    exact ht h

theorem clause_rule_accepted (clause : String) :
    validate_trace_rule_body py MAX_DEPTH true (.obj (clause_rule clause)) = .ok () := by
  rfl

namespace Sized

-- A runtime that can size a list.
def lang : Language where
  py              := .ascii
  fromisoformat _ := none
  cel _           := .ok fun _ => true

def sized (version : Option Version) : CelPredicate :=
  ⟨some "size(payload.items) > 0", version⟩

def present : CelPredicate :=
  ⟨some "payload.items != null", some .prototype⟩

theorem present_validated : ∃ cel p, present.validate ⟨.ascii, fun _ => none, cel⟩ = .ok p := by
  have h : (present.validate lang).toOption.isSome := by decide +kernel
  have ⟨p, hp⟩ := Option.isSome_iff_exists.mp h
  refine ⟨lang.cel, p, ?_⟩
  cases hv : present.validate lang with
  | error _ =>
    rw [hv] at hp
    cases hp
  | ok p'   =>
    rw [hv] at hp
    cases hp
    exact hv

end Sized

end Evaluators
