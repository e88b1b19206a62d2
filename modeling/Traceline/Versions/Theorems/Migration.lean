import Traceline.Versions.Theorems.Legacy

-- When the migration of the legacy definitions of a workspace is total and idempotent.
namespace Versions

open Loads (Fields)

variable {h : LegacyHost} {actor : Actor} {s s' t : LegacyState} {s₀ : State} {acts : List Act}

-- What the migration is to do: it returns with one outcome for each definition, and does nothing
-- when it is run again.
def MigratesAll (h : LegacyHost) (actor : Actor) (s : LegacyState) : Prop :=
  ∃ results t, migrate_legacy h actor s = (.ok results, t) ∧
    Migrated h actor (s.definitions actor.workspace_id) s t ∧
    results = t.listed actor.workspace_id ∧
    ∀ answers, migrate_legacy { h with answers } actor t = (.ok results, t)

section Rerun

theorem definitions_congr (hs : t.custom_evals = s.custom_evals) (workspace_id : String) :
    t.definitions workspace_id = s.definitions workspace_id := by
  rw [LegacyState.definitions, LegacyState.definitions, hs]

-- What a migration has gone through is recorded, and left alone by the next one.
theorem Migrated.rerun (x : Migrated h actor (s.definitions actor.workspace_id) s t)
    (hwrite : actor.require_write = .ok ()) (answers : ℕ → Answers) :
    migrate_legacy { h with answers } actor t = (.ok <| t.listed actor.workspace_id, t) := by
  refine migrate_legacy_eq_ok hwrite <| migrate_all_of_recorded fun d hd => ?_
  have hmem := List.fst_mem_of_mem_zipIdx hd
  rw [definitions_congr x.custom_evals] at hmem
  obtain ⟨m, hm, -⟩ := x.recorded d.1 hmem
  exact Option.isSome_of_eq_some hm

end Rerun

section States

-- The versions are those of any calls on them, and the evaluations are objects that have versions.
theorem sound_of_run (hinit : (calls h.content_digest).init s₀)
    (hrun : (calls h.content_digest).Run s₀ acts s.versions)
    (hparents : ∀ row ∈ s.custom_evals,
      ⟨.custom_evals, row.workspace_id, row.eval_id⟩ ∈ s.versions.parents) : Sound s :=
  ⟨(consistent_run hinit hrun).linear, hparents⟩

end States

namespace LegacySample

def editor : Actor :=
  ⟨"a", "w", .editor⟩

def spec (cases : List Json) : Json :=
  .obj [("spec_version", .str "1"), ("name", .str "n"), ("dataset_version", .str "v"),
    ("cases", .arr cases), ("metrics", .arr [])]

def dashboard : Json :=
  .obj [("version", .int 3), ("name", .str "n"), ("blocks", .arr [])]

-- A case whose input is no JSON that every reader takes.
def nan_case : Json :=
  .obj [("case_id", .str "c"), ("name", .str "n"), ("input", .obj [("x", .float .nan)])]

def validate_spec (content : Json) : Option String :=
  if content = spec [] ∨ content = spec [nan_case] then none else some "SpecValidationError"

def validate_definition (content : Json) : Option String :=
  if content = dashboard then none else some "DefinitionValidationError"

theorem spec_known {cases : List Json} {fields : Fields} (hspec : .obj fields = spec cases) :
    ∀ kv ∈ fields, kv.1 ∈ spec_fields := by
  cases hspec
  have hnames : ∀ name ∈ ["spec_version", "name", "dataset_version", "cases", "metrics"],
      name ∈ spec_fields := by decide
  exact fun kv hkv => hnames kv.1 <| List.mem_map_of_mem hkv

theorem eq_dashboard {content : Json} (hvalid : validate_definition content = none) :
    content = dashboard := by
  rw [validate_definition] at hvalid
  split at hvalid
  case isTrue h  => exact h
  case isFalse h => cases hvalid

theorem eq_spec {content : Json} (hvalid : validate_spec content = none) :
    content = spec [] ∨ content = spec [nan_case] := by
  rw [validate_spec] at hvalid
  split at hvalid
  case isTrue h  => exact h
  case isFalse h => cases hvalid

def host : LegacyHost where
  validate_spec       := validate_spec
  validate_definition := validate_definition
  content_digest      := fun _ => "digest"
  source_digest       := id
  answers i           := ⟨String.ofList <| List.replicate i 'v', "now", "now"⟩
  spec_known          := fun hvalid => (eq_spec hvalid).elim spec_known spec_known
  definition_known    := fun hvalid => by
    cases eq_dashboard hvalid
    decide
  definition_blocks   := fun hvalid => by
    cases eq_dashboard hvalid
    exact ⟨[], rfl, List.forall_mem_nil _⟩

def versions : State where
  parents    := [⟨.custom_evals, "w", "e"⟩]
  artifacts  := []
  heads      := .empty
  versions   := .empty
  references := .empty

-- One evaluation of a workspace.
def state (spec_json : String) : LegacyState where
  custom_evals := {
    rows  := [{
      workspace_id   := "w"
      eval_id        := "e"
      dashboard_json := "\x7b\"version\":3,\"name\":\"n\",\"blocks\":[]\x7d"
      spec_json
    }]
    nodup := List.nodup_singleton _
  }
  versions     := versions
  migrations   := .empty

def valid : String :=
  "\x7b\"spec_version\":\"1\",\"name\":\"n\",\"dataset_version\":\"v\"," ++
    "\"cases\":[],\"metrics\":[]\x7d"

def not_finite : String :=
  "\x7b\"spec_version\":\"1\",\"name\":\"n\",\"dataset_version\":\"v\"," ++
    "\"cases\":[\x7b\"case_id\":\"c\",\"name\":\"n\",\"input\":\x7b\"x\":NaN\x7d\x7d]," ++
    "\"metrics\":[]\x7d"

theorem loads_valid : loads valid.toList = some (spec []) := by
  decide +kernel

theorem injective_uuid4 : Function.Injective fun i => (host.answers i).uuid4 := by
  intro i j hij
  simpa using congrArg List.length <| String.ofList_injective hij

theorem convertible {d : CustomEval × LegacyKind} (hd : d ∈ (state valid).definitions "w") :
    Convertible host editor d (state valid) := by
  intro _ _ content hvalid
  rcases List.mem_cons.mp hd with rfl | hd
  · cases loads_valid.symm.trans hvalid.left
    exact ⟨⟨_, rfl⟩, rfl⟩
  · cases List.mem_singleton.mp hd
    cases eq_dashboard hvalid.right
    exact ⟨⟨_, rfl⟩, rfl⟩

end LegacySample

end Versions
