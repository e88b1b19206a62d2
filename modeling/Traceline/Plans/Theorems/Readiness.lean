import Traceline.Library.Except
import Traceline.Plans.Admission

namespace Plans

open Except (bind_eq_ok_iff)
open Versions (VersionRecord)

variable {w : World} {now : Int} {refs : Refs} {limits version_refs : Fields} {key value : String}
variable {p : RunPlan} {v : VersionRecord}

theorem pure_eq_ok_iff {α : Type} {a b : α} : (pure a : Except Error α) = .ok b ↔ a = b :=
  ⟨Except.ok.inj, congrArg _⟩

theorem check_eq_ok_iff {c : Prop} [Decidable c] {e : Error} {u : Unit} : check c e = .ok u ↔ c := by
  unfold check
  split <;> simp_all

theorem get_version_eq_ok_iff {id : String} : get_version w id = .ok v ↔ w.get id = some v := by
  unfold get_version
  split <;> simp_all

theorem dict_eq_ok_iff {j : Json} {fields : Fields} : dict j = .ok fields ↔ j = .obj fields := by
  cases j <;> simp [dict]

-- A normalized reference is the one it was given as.
theorem ne_empty_of_normalize {fields : Fields} (h : normalize fields = .ok refs)
    (hk : refs.lookup key = some value) : value ≠ "" := by
  induction fields generalizing refs with
  | nil             =>
    cases h
    cases hk
  | cons field fields ih =>
    obtain ⟨name, v⟩ := field
    cases v <;> try cases h
    case str id =>
      simp only [normalize, bind_eq_ok_iff, pure_eq_ok_iff, check_eq_ok_iff] at h
      obtain ⟨-, hb, rest, hr, rfl⟩ := h
      rw [List.lookup_cons] at hk
      split at hk
      case h_1 => exact Option.some.inj hk ▸ hb.left
      case h_2 => exact ih hr hk

-- Where no reference has a blocker, each one was looked at and has none.
theorem ref_blockers_of_version_blockers (h : version_blockers w now refs = .ok [])
    (hk : refs.lookup key = some value) : ref_blockers w now key value = .ok [] := by
  induction refs with
  | nil              => cases hk
  | cons ref refs ih =>
    simp only [version_blockers, bind_eq_ok_iff, pure_eq_ok_iff, List.append_eq_nil_iff] at h
    obtain ⟨blockers, hb, rest, hr, rfl, rfl⟩ := h
    rw [List.lookup_cons] at hk
    split at hk
    case h_1 he =>
      cases Option.some.inj hk
      exact (beq_iff_eq.mp he).symm ▸ hb
    case h_2 => exact ih hr hk

-- What is known of a plan that was stored without a blocker.
structure Ready (w : World) (now : Int) (p : RunPlan) : Prop where
  nonempty   : ∀ key value, p.version_refs.lookup key = some value → value ≠ ""
  evaluation : (p.version_refs.lookup "evaluation_version_id").isSome
  dataset    : (p.version_refs.lookup "dataset_version_id").isSome
  versions   : ∀ key value, p.version_refs.lookup key = some value → ref_blockers w now key value = .ok []
  limits     : limit_blockers p.limits = .ok []

theorem blockers_eq_nil (h : p.state = .validated) : p.blockers = [] := by
  unfold RunPlan.state at h
  split at h <;> first | assumption | cases h

theorem plan_run_ready (h : plan_run w now version_refs limits = .ok p) (hp : p.state = .validated) :
    Ready w now p := by
  simp only [plan_run, bind_eq_ok_iff, pure_eq_ok_iff] at h
  obtain ⟨-, -, refs, hr, versions, hv, evidence, -, evaluators, -, -, -, limited, hl, tier, -, rfl⟩ := h
  have hn := blockers_eq_nil hp
  simp only [List.append_eq_nil_iff] at hn
  obtain ⟨⟨⟨⟨hq, rfl⟩, -⟩, -⟩, rfl⟩ := hn
  simp only [required_blockers, List.append_eq_nil_iff] at hq
  obtain ⟨⟨he, hd⟩, -⟩ := hq
  exact {
    nonempty   := fun _ _ => ne_empty_of_normalize hr
    evaluation := by simpa [Option.isSome_iff_ne_none] using he
    dataset    := by simpa [Option.isSome_iff_ne_none] using hd
    versions   := fun _ _ => ref_blockers_of_version_blockers hv
    limits     := hl
  }

namespace Ready

variable (h : Ready w now p)

include h in
theorem get_of_lookup (hk : p.version_refs.lookup key = some value) (hp : key ≠ "project_id") :
    ∃ v, w.get value = some v := by
  have hb := h.versions key value hk
  unfold ref_blockers at hb
  cases hv : w.get value
  case none   => simp [hp, hv] at hb
  case some v => exact ⟨v, rfl⟩

include h in
theorem source_readiness (hk : p.version_refs.lookup "source_version_id" = some value)
    (hv : w.get value = some v) : v.content.lookup "readiness" = some (.str "executable") := by
  have hb := h.versions _ value hk
  simp only [ref_blockers, hv, source_blockers] at hb
  simpa using hb

include h in
theorem target_verified (hk : p.version_refs.lookup "target_version_id" = some value)
    (hv : w.get value = some v) :
    v.kind = "target" ∧ ∃ verification, or_empty (v.content.lookup "verification") = .obj verification ∧
      verification.lookup "state" = some (.str "verified") := by
  have hb := h.versions _ value hk
  simp only [ref_blockers, hv, target_blockers] at hb
  obtain ⟨verification, hd, hb⟩ := bind_eq_ok_iff.mp hb
  rw [dict_eq_ok_iff] at hd
  have hs : verification.lookup "state" = some (.str "verified") := by
    by_contra hs
    simp [hs, pure_eq_ok_iff] at hb
  have hkind : v.kind = "target" := by
    by_contra hkind
    simp only [hs, hkind, ne_eq, not_true, if_false] at hb
    split at hb <;> simp [pure_eq_ok_iff] at hb
  exact ⟨hkind, verification, hd, hs⟩

end Ready

end Plans
