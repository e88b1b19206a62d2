import Traceline.Engine.Run
import Traceline.Library.Forall2

namespace Engine

open Lifecycle Evaluators List

-- The second attempt has the scores of the first one, which are not all skipped, and skipped ones.
structure Padded (o o' : AttemptResult) : Prop where
  attempt : o'.attempt = o.attempt
  status  : o'.status = o.status
  scored  : ∃ s ∈ o.scores, s.status ≠ .SKIPPED
  scores  : ∃ skipped, o'.scores ~ o.scores ++ skipped ∧ ∀ s ∈ skipped, s.status = .SKIPPED

def Unpadded (o o' : AttemptResult) : Prop :=
  o'.scores.length = o.scores.length

-- All metrics pass.
def Passing (o : AttemptResult) : Prop :=
  o.status = .completed ∧ ∀ s ∈ o.scores, s.status = .PASS

variable {o o' : AttemptResult} {os os' : List AttemptResult}

namespace Padded

theorem ne_nil (h : Padded o o') : o.scores ≠ [] := by
  obtain ⟨s, hs, _⟩ := h.scored
  exact ne_nil_of_mem hs

theorem any_eq {st : CaseStatus} (h : Padded o o') (hst : st ≠ .SKIPPED) :
    o'.scores.any (·.status = st) = o.scores.any (·.status = st) := by
  obtain ⟨skipped, hperm, hskipped⟩ := h.scores
  have hnone : skipped.any (·.status = st) = false := by
    refine any_eq_false.mpr fun s hs => ?_
    simp [hskipped s hs, hst.symm]
  rw [hperm.any_eq, any_append, hnone, Bool.or_false]

theorem ne_nil' (h : Padded o o') : o'.scores ≠ [] := by
  obtain ⟨skipped, hperm, _⟩ := h.scores
  intro hnil
  rw [hnil] at hperm
  exact h.ne_nil (append_eq_nil_iff.mp hperm.nil_eq.symm).left

-- Skipped scores keep an attempt from passing.
theorem passing_iff (h : Padded o o') : Passing o' ↔ Passing o ∧ Unpadded o o' := by
  obtain ⟨skipped, hperm, hskipped⟩ := h.scores
  have hlength : Unpadded o o' ↔ skipped = [] := by
    rw [Unpadded, hperm.length_eq, length_append, Nat.add_eq_left, length_eq_zero_iff]
  rw [hlength, Passing, Passing, h.status]
  constructor
  case mp =>
    rintro ⟨hstatus, hpass⟩
    refine ⟨⟨hstatus, fun s hs => hpass s ?_⟩, eq_nil_iff_forall_not_mem.mpr fun s hs => ?_⟩
    · exact hperm.mem_iff.mpr <| mem_append_left _ hs
    · have := hpass s <| hperm.mem_iff.mpr <| mem_append_right _ hs
      rw [hskipped s hs] at this
      cases this
  case mpr =>
    rintro ⟨⟨hstatus, hpass⟩, rfl⟩
    refine ⟨hstatus, fun s hs => hpass s ?_⟩
    simpa using hperm.mem_iff.mp hs

end Padded

theorem all_pass_iff (h : o.scores ≠ []) : all_pass o = true ↔ Passing o := by
  simp [all_pass, Passing, h]

-- The samples that the classification of a case counts as passes.
def passes (os : List AttemptResult) : ℕ :=
  (((os.filter (·.attempt = 0)).filter (·.status = .completed)).filter fun o =>
    o.scores ≠ [] && !o.scores.any (·.status = .ERROR)).countP fun o =>
      !o.scores.any (·.status = .FAIL) && o.scores.all (·.status = .PASS)

theorem passes_pos_iff :
    0 < passes os ↔ ∃ o ∈ os, o.attempt = 0 ∧ o.scores ≠ [] ∧ Passing o := by
  have hpass : ∀ s : CaseScore, s.status = .PASS → s.status ≠ .ERROR ∧ s.status ≠ .FAIL := by
    intro s hs
    rw [hs]
    decide
  rw [passes, countP_pos_iff]
  constructor
  case mp =>
    rintro ⟨o, ho, hp⟩
    simp only [mem_filter, decide_eq_true_eq, Bool.and_eq_true, all_eq_true] at ho hp
    exact ⟨o, ho.left.left.left, ho.left.left.right, ho.right.left, ho.left.right, hp.right⟩
  case mpr =>
    rintro ⟨o, ho, hattempt, hne, hstatus, hp⟩
    refine ⟨o, ?_, ?_⟩
    · simp only [mem_filter, decide_eq_true_eq, Bool.and_eq_true, Bool.not_eq_true',
        any_eq_false]
      exact ⟨⟨⟨ho, hattempt⟩, hstatus⟩, hne, fun s hs => (hpass s (hp s hs)).left⟩
    · simp only [decide_eq_true_eq, Bool.and_eq_true, Bool.not_eq_true', any_eq_false, all_eq_true]
      exact ⟨fun s hs => (hpass s (hp s hs)).right, hp⟩

-- The samples that it counts as failures, and what it says of those that are neither.
def failures (os : List AttemptResult) : ℕ :=
  (((os.filter (·.attempt = 0)).filter (·.status = .completed)).filter fun o =>
    o.scores ≠ [] && !o.scores.any (·.status = .ERROR)).countP fun o =>
      o.scores.any (·.status = .FAIL)

def categories (os : List AttemptResult) : List String :=
  (os.filter (·.attempt = 0)).filterMap fun o =>
    if o.status ≠ .completed then
      some <| if o.status = .timed_out ∨ o.status = .orphaned ∨ o.status = .budget_exceeded then
        "infra" else "agent"
    else if o.scores = [] then some "agent"
    else if o.scores.any (·.status = .ERROR) then some "evaluator"
    else none

theorem classify_case_eq : classify_case os =
    (if passes os + failures os = 0 then if categories os = [] then none else some "ERRORED"
      else if failures os = 0 then some "PASSING"
      else if passes os = 0 then some "FAILING"
      else some "FLAKY",
      ["infra", "agent", "evaluator"].find? (· ∈ categories os)) :=
  rfl

theorem failures_padded (h : Forall₂ Padded os os') : failures os' = failures os := by
  simp only [failures, countP_filter]
  refine (h.countP_eq fun o o' ho => ?_).symm
  have hne : (o'.scores ≠ []) = (o.scores ≠ []) := propext <| iff_of_true ho.ne_nil' ho.ne_nil
  simp only [@Padded.any_eq o o' .FAIL ho (by decide), @Padded.any_eq o o' .ERROR ho (by decide), ho.status,
    ho.attempt, hne]

theorem categories_padded (h : Forall₂ Padded os os') : categories os' = categories os := by
  simp only [categories, filterMap_filter]
  refine (h.filterMap_eq fun o o' ho => ?_).symm
  simp only [@Padded.any_eq o o' .ERROR ho (by decide), ho.status, ho.attempt, ho.ne_nil, ho.ne_nil']

-- The counts of two classifications with the same failures may differ as long as the passes are
-- none for both or for neither.
theorem classify_case_eq_iff (hf : failures os' = failures os)
    (hc : categories os' = categories os) :
    classify_case os' = classify_case os ↔ (0 < passes os' ↔ 0 < passes os) := by
  rw [classify_case_eq, classify_case_eq, hf, hc, Prod.mk.injEq, eq_self, and_true]
  generalize passes os = p
  generalize passes os' = p'
  generalize failures os = f
  rcases Nat.eq_zero_or_pos p with rfl | hp <;> rcases Nat.eq_zero_or_pos p' with rfl | hp' <;>
    rcases Nat.eq_zero_or_pos f with rfl | hf <;> split_ifs <;> simp_all

theorem classify_case_padded_iff (h : Forall₂ Padded os os') :
    classify_case os' = classify_case os ↔
      ((∃ o ∈ os, o.attempt = 0 ∧ Passing o) →
        ∃ p ∈ os.zip os', p.1.attempt = 0 ∧ Passing p.1 ∧ Unpadded p.1 p.2) := by
  rw [classify_case_eq_iff (failures_padded h) (categories_padded h)]
  have hbefore : 0 < passes os ↔ ∃ o ∈ os, o.attempt = 0 ∧ Passing o := by
    refine passes_pos_iff.trans <| exists_congr fun o => and_congr_right fun ho => ?_
    obtain ⟨o', ho'⟩ := h.exists_mem_zip_of_mem_left ho
    exact and_congr_right fun _ => and_iff_right (h.of_mem_zip ho').ne_nil
  have hafter : 0 < passes os' ↔
      ∃ p ∈ os.zip os', p.1.attempt = 0 ∧ Passing p.1 ∧ Unpadded p.1 p.2 := by
    rw [passes_pos_iff]
    constructor
    case mp =>
      rintro ⟨o', ho', hattempt, _, hp⟩
      obtain ⟨o, hzip⟩ := h.exists_mem_zip_of_mem_right ho'
      have ho := h.of_mem_zip hzip
      exact ⟨_, hzip, ho.attempt ▸ hattempt, ho.passing_iff.mp hp⟩
    case mpr =>
      rintro ⟨⟨o, o'⟩, hzip, hattempt, hp⟩
      have ho := h.of_mem_zip hzip
      exact ⟨o', (of_mem_zip hzip).right, ho.attempt.trans hattempt, ho.ne_nil',
        ho.passing_iff.mpr hp⟩
  rw [hbefore, hafter]
  constructor
  case mp => exact fun h => h.mpr
  case mpr =>
    refine fun hkeep => ⟨?_, hkeep⟩
    rintro ⟨p, hp, hattempt, hpass, _⟩
    exact ⟨p.1, (of_mem_zip hp).left, hattempt, hpass⟩

theorem all_pass_padded_iff (h : Padded o o') :
    all_pass o' = all_pass o ↔ (Passing o → Unpadded o o') := by
  rw [Bool.eq_iff_iff, all_pass_iff h.ne_nil, all_pass_iff h.ne_nil', h.passing_iff]
  tauto

theorem retried_padded (h : Padded o o') : retried o' = retried o := by
  rw [retried, retried, h.status, h.any_eq (by decide)]

-- Skipped scores change what becomes of a sample where it passes: it does not pass with them. A
-- case is classified as before as long as one of its passes is left.
theorem skipped_neutral (h : Forall₂ Padded os os') :
    (classify_case os' = classify_case os ↔
      ((∃ o ∈ os, o.attempt = 0 ∧ Passing o) →
        ∃ p ∈ os.zip os', p.1.attempt = 0 ∧ Passing p.1 ∧ Unpadded p.1 p.2)) ∧
    ∀ o o', (o, o') ∈ os.zip os' →
      retried o' = retried o ∧
      (all_pass o' = all_pass o ↔ (Passing o → Unpadded o o')) ∧
      (classify_case [o'] = classify_case [o] ↔ (o.attempt = 0 ∧ Passing o → Unpadded o o')) := by
  refine ⟨classify_case_padded_iff h, fun o o' hzip => ?_⟩
  have ho := h.of_mem_zip hzip
  refine ⟨retried_padded ho, all_pass_padded_iff ho, ?_⟩
  rw [classify_case_padded_iff (.cons ho .nil)]
  simp only [mem_singleton, exists_eq_left, zip_cons_cons, zip_nil_right]
  tauto

namespace Samples

def score (metric_id : String) (status : CaseStatus) : CaseScore where
  metric_id
  case_id            := "case"
  score              := none
  passed             := status = .PASS
  evidence_event_ids := []
  status
  message            := ""
  attempt            := 0
  on_retry_override  := false
  provisional        := false
  raw_value          := .null
  evaluator_version  := none

def sample (scores : List CaseScore) : AttemptResult where
  attempt_id      := "attempt"
  repeat_index    := 0
  attempt         := 0
  status          := .completed
  exit_code       := some 0
  event_count     := 1
  trace_truncated := false
  error           := .null
  scores
  result_payload  := .null

def passed : AttemptResult :=
  sample [score "accuracy" .PASS]

-- The metric of a tool that was never called is skipped.
def with_skipped : AttemptResult :=
  sample [score "accuracy" .PASS, score "tool" .SKIPPED]

theorem padded : Padded passed with_skipped where
  attempt := rfl
  status  := rfl
  scored  := ⟨_, .head _, by decide⟩
  scores  := ⟨[score "tool" .SKIPPED], .refl _, by decide⟩

end Samples

theorem skipped_neutral_passed :
    ¬(classify_case [Samples.with_skipped] = classify_case [Samples.passed]) := by
  have h := (skipped_neutral (.cons Samples.padded .nil)).left
  rw [h]
  intro hkeep
  have hpassing : Passing Samples.passed := ⟨rfl, by decide⟩
  obtain ⟨p, hp, _, _, hlength⟩ := hkeep ⟨_, .head _, rfl, hpassing⟩
  cases List.mem_singleton.mp hp
  cases hlength

theorem not_skipped_neutral :
    ¬∀ o o', Padded o o' → classify_case [o'] = classify_case [o] ∧ all_pass o' = all_pass o := by
  intro h
  have hclass := (h _ _ Samples.padded).left
  revert hclass
  decide

end Engine
