import Traceline.Engine.Theorems.Loop

open Lifecycle Spec Events Evaluators Storage

namespace Engine

variable {E : Engine} {run : Run} {p : Redaction.Patterns} {c : Prog.Spec (store run p)}
variable {s t u : Storage.State} {case : TestCase} {σ : Session} {cases done : List TestCase}

theorem Looping.with_run_results (h : Looping E run p s t) (rows : Table RunMetricResult.key) :
    Looping E run p s { t with run_results := rows } :=
  ⟨h.status, h.keeps, fun id => h.progress id |>.mono .refl ⟨rfl, rfl, fun _ _ => rfl⟩⟩

theorem Looped.with_run_results (h : Looped E run p s done σ t)
    (rows : Table RunMetricResult.key) : Looped E run p s done σ { t with run_results := rows } :=
  h.mono rfl .refl fun _ => ⟨rfl, rfl, fun _ _ => rfl⟩

variable (E run p) in
-- The state of a run that a cancellation ended, and what the session returns.
structure Cancelled (s : Storage.State) (r : RunResult) (t : Storage.State) : Prop where
  looping       : ∃ u, Looping E run p s u ∧ t = u.write_run_status .cancelled
  result_status : r.status = .cancelled
  left          : ∀ id, unsettled s id = false → Untouched id s t
  ended         : ∀ case ∈ run.spec.cases, unsettled s case.case_id →
    t.case_status case.case_id = some .cancelled ∨
    ∃ result ∈ r.case_results, ∃ new, Finished E run p case new s result t

-- The cases that the session starts from are all there.
def Covers (run : Run) (s : Storage.State) : Prop :=
  ∀ id, (s.get_case id).isSome ↔ ∃ case ∈ run.spec.cases, case.case_id = id

theorem Covers.mono (h : Covers run s) (hs : ∀ id, (t.get_case id).isSome = (s.get_case id).isSome) :
    Covers run t := by
  intro id
  rw [hs]
  exact h id

theorem Progress.isSome {id : String} (h : Progress E run p s t id) :
    (t.get_case id).isSome = (s.get_case id).isSome := by
  have hsome : ∀ v : Storage.State, (v.get_case id).isSome = (v.case_status id).isSome :=
    fun v => by simp [State.case_status]
  rw [hsome, hsome]
  cases h with
  | untouched h      => rw [h.case_status]
  | begun _ hs hst _ =>
    rcases status_of_unsettled hs with h | h <;> rcases hst with h' | h' | h' <;> simp [h, h']
  | finished case new result _ hid hs h =>
    subst hid
    rcases status_of_unsettled hs with h' | h' <;> simp [h', h.own]

-- What a cancellation leaves of the cases that were passed and of those that were not.
theorem Looped.cancelling (h : Looped E run p s done σ t)
    (hdone : ∀ case ∈ done, case ∈ run.spec.cases) {r : RunResult} (hr : r.status = .cancelled)
    (hrc : r.case_results = σ.executed) (hc : Cancelling t u)
    (hset : ∀ case ∈ run.spec.cases, unsettled u case.case_id = false)
    (rows : Table RunMetricResult.key) :
    Cancelled E run p s r { u with status := .cancelled, run_results := rows } := by
  have hloop := h.looping hdone |>.cancelling hc |>.with_run_results rows
  have hlast : ∀ id, Untouched id u { u with status := .cancelled, run_results := rows } :=
    fun _ => ⟨rfl, rfl, fun _ _ => rfl⟩
  have hkeeps : Keeps u { u with status := .cancelled, run_results := rows } := .refl
  refine ⟨⟨_, hloop, rfl⟩, hr, fun id hid => ?_, fun case hcase hs => ?_⟩
  · have hu := h.untouched id fun hs => by simp [hid] at hs
    have hsett := hc.settled <| (unsettled_congr hu.get_case).trans hid
    exact hu.trans (hc.untouched hsett) |>.trans (hlast id)
  · by_cases hd : ∃ c ∈ done, c.case_id = case.case_id
    · obtain ⟨c, hcd, hid⟩ := hd
      obtain rfl := EvaluationSpec.eq_of_case_id_eq (hdone c hcd) hcase hid
      have ⟨result, hmem, new, hf⟩ := h.executed.exists_of_mem_left <|
        List.mem_filter.mpr ⟨hcd, hs⟩
      refine .inr ⟨result, hrc ▸ hmem, new, ?_⟩
      exact hf.mono hc.keeps (hc.untouched <| hc.settled hf.settled) |>.mono hkeeps (hlast _)
    · rcases hc.cases case.case_id with hsame | ⟨_, hcan⟩
      · push Not at hd
        have hu := h.untouched case.case_id fun _ => hd
        have := hset case hcase
        rw [unsettled_congr hsame, unsettled_congr hu.get_case, hs] at this
        cases this
      · exact .inl hcan

section Specs

variable (hs : s.status = .running ∨ s.status = .aggregating) (hcov : Covers run s)
variable (hinv : ∀ u, Looping E run p s u → c.inv u)
variable (hcan : ∀ u, s.status = .running → Looping E run p s u →
  c.inv (u.write_run_status .cancelled))
variable (herr : ∀ e u, External e ∨ s.status = .aggregating → Looping E run p s u → c.error e u)

include hs hcov hinv hcan herr

theorem wp_cancel_run {Q : RunResult → Storage.State → Prop} (h : Looped E run p s done σ t)
    (hdone : ∀ case ∈ done, case ∈ run.spec.cases)
    (hq : ∀ r u, s.status = .running → Cancelled E run p s r u → Q r u) :
    (E.cancel_run run σ).wp c Q t := by
  have hloop := h.looping hdone
  rw [cancel_run, Prog.wp_bind]
  refine wp_cancel_cases ?_ (fun u hu => hinv u <| hloop.cancelling hu) fun u hu hset => ?_
  · intro case hcase
    rw [(hloop.progress case.case_id).isSome]
    exact (hcov _).mpr ⟨case, hcase, rfl⟩
  have hloop' := hloop.cancelling hu
  rw [Prog.wp_bind]
  refine wp_upsert_aggregates (fun rows => hinv _ <| hloop'.with_run_results rows)
    (fun e rows he => herr e _ (.inl he) <| hloop'.with_run_results rows) fun rows => ?_
  have hlast := hloop'.with_run_results rows
  rw [Prog.wp_bind]
  rcases hs with hrun | hagg
  · have hst : u.status = .running := hloop'.status.trans hrun
    rw [wp_set_run_status (by simp [hst, RunStatus.next])]
    have hi := hcan _ hrun hlast
    simp only [Prog.wp_bind, wp_get_run_metric_results, Prog.wp_pure]
    exact ⟨hi, hi, hq _ _ hrun <| h.cancelling hdone rfl rfl hu hset rows⟩
  · -- An aggregating run has no way to cancelled.
    have hst : u.status = .aggregating := hloop'.status.trans hagg
    exact wp_set_run_status_illegal (by simp [hst, RunStatus.next]) (hinv _ hlast)
      fun e => herr _ _ (.inr hagg) hlast

theorem wp_run_cases {Q : Session ⊕ RunResult → Storage.State → Prop}
    (h : Looped E run p s done σ t) (hall : done ++ cases = run.spec.cases)
    (hq : ∀ σ u, Looped E run p s run.spec.cases σ u →
      (∀ case ∈ cases, c.allow (.should_cancel case.case_id) false) →
      (∀ r ∈ σ.executed, r.status ≠ .cancelled) → Q (.inl σ) u)
    (hq' : ∀ r u, s.status = .running → Cancelled E run p s r u → Q (.inr r) u)
    (hcomp : ∀ r ∈ σ.executed, r.status ≠ .cancelled) :
    (E.run_cases run cases σ).wp c Q t := by
  induction cases generalizing done σ t Q with
  | nil             =>
    rw [List.append_nil] at hall
    exact hq σ t (hall ▸ h) nofun hcomp
  | cons case cases ih =>
    have hall' : done ++ [case] ++ cases = run.spec.cases := by simpa using hall
    have hdone : ∀ c ∈ done, c ∈ run.spec.cases := fun c hc => hall ▸ List.mem_append_left _ hc
    have hdone' : ∀ c ∈ done ++ [case], c ∈ run.spec.cases :=
      fun c hc => hall' ▸ List.mem_append_left _ hc
    have hcase : case ∈ run.spec.cases := hdone' case (by simp)
    have hloop := h.looping hdone
    rw [run_cases, Prog.wp_bind, wp_ask]
    intro b hb
    split
    case isTrue =>
      rw [Prog.wp_bind]
      exact wp_cancel_run hs hcov hinv hcan herr h hdone hq'
    case isFalse hbf =>
      have hallow : c.allow (.should_cancel case.case_id) false := by
        cases b with
        | true  => exact absurd rfl hbf
        | false => exact hb
      have ⟨r, hr⟩ : ∃ r, t.get_case case.case_id = some r := by
        rw [← Option.isSome_iff_exists, (hloop.progress case.case_id).isSome]
        exact (hcov _).mpr ⟨case, hcase, rfl⟩
      have hid : r.case_id = case.case_id := Table.key_of_find hr
      -- No case that was passed has the id of this one.
      have hd : ∀ c ∈ done, c.case_id ≠ case.case_id := by
        have hn := run.spec.unique_cases
        rw [← hall, List.map_append, List.nodup_append] at hn
        exact fun c hc he => hn.right.right c.case_id (List.mem_map_of_mem hc) case.case_id
          (by simp) he
      have hunt := h.untouched case.case_id fun _ => hd
      rw [Prog.wp_bind, wp_get_case]
      refine ⟨hinv t hloop, ?_⟩
      simp only [hr]
      split
      case isTrue hset =>
        have hus : unsettled s case.case_id = false := by
          rw [← unsettled_congr hunt.get_case]
          simp [unsettled, State.case_status, hr, hset]
        exact ih (h.skip hus) hall' (fun σ u hu hal => hq σ u hu <|
          List.forall_mem_cons.mpr ⟨hallow, hal⟩) hq' hcomp
      case isFalse hset =>
        have hut : unsettled t case.case_id := by
          simpa [unsettled, State.case_status, hr] using hset
        have hus : unsettled s case.case_id := unsettled_congr hunt.get_case ▸ hut
        rw [Prog.wp_bind, hid]
        refine wp_run_case_inner hcase (status_of_unsettled hut)
          (fun u hu => hinv u <| h.working hus hd hdone hu)
          (fun result new u hu => hinv u <| (h.finish hus hd hu).looping hdone')
          (fun e u he hu => herr e u (.inl he) <| h.working hus hd hdone hu)
          fun result new u hu => ?_
        have hfin := h.finish hus hd hu
        rw [Prog.wp_bind]
        refine wp_upsert_aggregates
          (fun rows => hinv _ <| (hfin.looping hdone').with_run_results rows)
          (fun e rows he => herr e _ (.inl he) <| (hfin.looping hdone').with_run_results rows)
          fun rows => ?_
        have hfin' := hfin.with_run_results rows
        split
        case isTrue =>
          rw [Prog.wp_bind]
          exact wp_cancel_run hs hcov hinv hcan herr hfin' hdone' hq'
        case isFalse hnc =>
          refine ih hfin' hall' (fun σ u hu hal => hq σ u hu <|
            List.forall_mem_cons.mpr ⟨hallow, hal⟩) hq' ?_
          intro r' hr'
          rcases List.mem_append.mp hr' with hr' | hr'
          · exact hcomp r' hr'
          · rw [List.mem_singleton.mp hr', hu.result_status, if_neg hnc]
            split <;> simp

end Specs

end Engine
