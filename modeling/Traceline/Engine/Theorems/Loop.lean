import Traceline.Engine.Theorems.Case

open Lifecycle Spec Events Evaluators Storage

namespace Engine

variable {E : Engine} {run : Run} {p : Redaction.Patterns} {c : Prog.Spec (store run p)}
variable {s t u : Storage.State} {case : TestCase} {case_id id : String}
variable {new new' : List AttemptRecord} {o : AttemptResult} {result : CaseRunResult}
variable {cases : List TestCase} {σ : Session}

-- A case that the run loop takes up.
def unsettled (s : Storage.State) (case_id : String) : Bool :=
  (s.case_status case_id).any (!settled ·)

theorem status_of_unsettled (h : unsettled s case_id) :
    s.case_status case_id = some .queued ∨ s.case_status case_id = some .running := by
  unfold unsettled at h
  cases hst : s.case_status case_id with
  | none    => simp [hst] at h
  | some st => cases st <;> simp_all [settled]

theorem unsettled_congr (h : t.get_case case_id = s.get_case case_id) :
    unsettled t case_id = unsettled s case_id := by
  simp [unsettled, State.case_status, h]

theorem Adds.case_rows (h : Adds case_id new s t) :
    t.case_rows case_id = s.case_rows case_id ++ new := by
  rw [State.case_rows, h.attempts, List.filter_append, State.case_rows]
  congr
  exact List.filter_eq_self.mpr fun a ha => by simpa using h.owned a ha

theorem Adds.other_rows (h : Adds case_id new s t) (hid : id ≠ case_id) :
    t.case_rows id = s.case_rows id := by
  rw [State.case_rows, h.attempts, List.filter_append, State.case_rows]
  have hn : new.filter (·.case_id = id) = [] :=
    List.filter_eq_nil_iff.mpr fun a ha => by simpa [h.owned a ha] using hid.symm
  simp [hn]

theorem mem_list_attempts_case_iff {a : AttemptRecord} :
    a ∈ s.list_attempts (some case_id) ↔ a ∈ s.case_rows case_id := by
  simp [State.mem_list_attempts_iff, State.mem_case_rows_iff]

-- The offset of an execution depends on the rows of the case alone.
theorem repeat_offset_congr (h : t.case_rows case_id = s.case_rows case_id) :
    repeat_offset (t.list_attempts (some case_id)) =
      repeat_offset (s.list_attempts (some case_id)) := by
  refine eq_of_forall_ge_iff fun n => ?_
  simp only [repeat_offset_le_iff, mem_list_attempts_case_iff, h]

-- Nothing that has been recorded of an attempt changes.
def Keeps (s t : Storage.State) : Prop :=
  ∀ a ∈ s.attempts, a ∈ t.attempts ∧ ∀ w, t.evidence w a = s.evidence w a

theorem Keeps.refl : Keeps s s :=
  fun _ ha => ⟨ha, fun _ => rfl⟩

theorem Keeps.trans (h : Keeps s t) (h' : Keeps t u) : Keeps s u := by
  intro a ha
  have ⟨ht, he⟩ := h a ha
  have ⟨hu, he'⟩ := h' a ht
  exact ⟨hu, fun w => (he' w).trans (he w)⟩

theorem Adds.keeps (h : Adds case_id new s t) : Keeps s t :=
  fun a ha => ⟨h.mem ha, h.evidence a ha⟩

-- What work on other cases leaves alone.
structure Untouched (case_id : String) (s t : Storage.State) : Prop where
  get_case  : t.get_case case_id = s.get_case case_id
  case_rows : t.case_rows case_id = s.case_rows case_id
  scores    : ∀ metric_id revision,
    t.case_results.find (case_id, metric_id, revision) =
      s.case_results.find (case_id, metric_id, revision)

namespace Untouched

theorem refl : Untouched case_id s s :=
  ⟨rfl, rfl, fun _ _ => rfl⟩

theorem trans (h : Untouched case_id s t) (h' : Untouched case_id t u) : Untouched case_id s u :=
  ⟨h'.get_case.trans h.get_case, h'.case_rows.trans h.case_rows,
    fun m r => (h'.scores m r).trans <| h.scores m r⟩

theorem case_status (h : Untouched case_id s t) : t.case_status case_id = s.case_status case_id := by
  rw [State.case_status, h.get_case, State.case_status]

end Untouched

theorem Adds.untouched (h : Adds case_id new s t) (hid : id ≠ case_id) : Untouched id s t :=
  ⟨h.others id hid, h.other_rows hid, h.scores id hid⟩

variable (E run p case) in
-- A case that was executed to its end somewhere between two states.
structure Finished (new : List AttemptRecord) (s : Storage.State) (result : CaseRunResult)
    (t : Storage.State) : Prop where
  executed : ∃ u v, Untouched case.case_id s u ∧ Executed E run p case new u result v ∧
    Keeps v t ∧ Untouched case.case_id v t

namespace Finished

theorem intro (h : Executed E run p case new s result t) : Finished E run p case new s result t :=
  ⟨s, t, .refl, h, .refl, .refl⟩

theorem mono (h : Finished E run p case new s result t) (hk : Keeps t u)
    (hu : Untouched case.case_id t u) : Finished E run p case new s result u :=
  have ⟨v, w, hv, he, hwk, hw⟩ := h.executed
  ⟨v, w, hv, he, hwk.trans hk, hw.trans hu⟩

theorem of_untouched {s' : Storage.State} (h : Finished E run p case new s result t)
    (hu : Untouched case.case_id s' s) : Finished E run p case new s' result t :=
  have ⟨v, w, hv, he, hwk, hw⟩ := h.executed
  ⟨v, w, hu.trans hv, he, hwk, hw⟩

theorem result_case_id (h : Finished E run p case new s result t) :
    result.case_id = case.case_id :=
  have ⟨_, _, _, he, _⟩ := h.executed
  he.case_id

theorem own (h : Finished E run p case new s result t) :
    t.case_status case.case_id = some result.status :=
  have ⟨_, _, _, he, _, hw⟩ := h.executed
  hw.case_status.trans he.own

theorem result_status (h : Finished E run p case new s result t) :
    result.status =
      if any_cancelled result.repeat_outcomes then .cancelled
      else if result.repeat_outcomes.any (·.status = .completed) then .completed
      else .failed :=
  have ⟨_, _, _, he, _⟩ := h.executed
  he.result_status

theorem case_rows (h : Finished E run p case new s result t) :
    t.case_rows case.case_id = s.case_rows case.case_id ++ new := by
  have ⟨_, _, hv, he, _, hw⟩ := h.executed
  rw [hw.case_rows, he.toAdds.case_rows, hv.case_rows]

theorem rows (h : Finished E run p case new s result t) :
    (new.filter (·.is_first_attempt)).map row_sample = result.repeat_outcomes.map outcome_sample :=
  have ⟨_, _, _, he, _⟩ := h.executed
  he.rows

theorem sampled (h : Finished E run p case new s result t) :
    ∀ o ∈ result.repeat_outcomes, Sampled E run p case o t := by
  have ⟨_, _, _, he, hk, _⟩ := h.executed
  exact fun o ho => he.sampled o ho |>.mono hk

theorem range (h : Finished E run p case new s result t) :
    ∀ a ∈ new, repeat_offset (s.list_attempts (some case.case_id)) ≤ a.repeat_index ∧
      a.repeat_index < repeat_offset (s.list_attempts (some case.case_id)) + run.repeats := by
  have ⟨_, _, hv, he, _⟩ := h.executed
  exact repeat_offset_congr hv.case_rows ▸ he.range

theorem indices (h : Finished E run p case new s result t) :
    result.repeat_outcomes.map (·.repeat_index) =
    List.range' (repeat_offset (s.list_attempts (some case.case_id))) run.repeats := by
  have ⟨_, _, hv, he, _⟩ := h.executed
  exact repeat_offset_congr hv.case_rows ▸ he.indices

theorem settled (h : Finished E run p case new s result t) : unsettled t case.case_id = false := by
  rw [unsettled, h.own, h.result_status]
  split
  · rfl
  · split <;> rfl

end Finished

variable (E run p) in
-- Where a session has brought a case since its run loop began.
inductive Progress (s t : Storage.State) (case_id : String) : Prop
  | untouched : Untouched case_id s t → Progress s t case_id
  | begun (new : List AttemptRecord) :
    unsettled s case_id →
    (t.case_status case_id = s.case_status case_id ∨ t.case_status case_id = some .running ∨
      t.case_status case_id = some .cancelled) →
    t.case_rows case_id = s.case_rows case_id ++ new → Progress s t case_id
  | finished (case : TestCase) (new : List AttemptRecord) (result : CaseRunResult) :
    case ∈ run.spec.cases → case.case_id = case_id → unsettled s case_id →
    Finished E run p case new s result t → Progress s t case_id

theorem Progress.mono (h : Progress E run p s t case_id) (hk : Keeps t u)
    (hu : Untouched case_id t u) : Progress E run p s u case_id := by
  cases h with
  | untouched h           => exact .untouched <| h.trans hu
  | begun new hs hst hr   => exact .begun new hs (hu.case_status ▸ hst) (hu.case_rows ▸ hr)
  | finished case new result hc hid hs h =>
    subst hid
    exact .finished case new result hc rfl hs <| h.mono hk hu

variable (E run p) in
-- Any state of the run loop.
structure Looping (s t : Storage.State) : Prop where
  status   : t.status = s.status
  keeps    : Keeps s t
  progress : ∀ case_id, Progress E run p s t case_id

variable (E run p) in
-- The state between two cases, of which `done` have been passed.
structure Looped (s : Storage.State) (done : List TestCase) (σ : Session) (t : Storage.State) :
    Prop where
  status    : t.status = s.status
  keeps     : Keeps s t
  untouched : ∀ id, (unsettled s id → ∀ case ∈ done, case.case_id ≠ id) → Untouched id s t
  executed  : List.Forall₂ (fun case result => ∃ new, Finished E run p case new s result t)
    (done.filter fun case => unsettled s case.case_id) σ.executed
  landed    : σ.landed = σ.executed.flatMap fun r => r.repeat_outcomes.flatMap (·.scores)

namespace Looped

variable {done : List TestCase}

theorem refl : Looped E run p s [] {} s :=
  ⟨rfl, .refl, fun _ _ => .refl, .nil, rfl⟩

-- Cases that are found settled are passed over.
theorem skip (h : Looped E run p s done σ t) (hu : unsettled s case.case_id = false) :
    Looped E run p s (done ++ [case]) σ t where
  status    := h.status
  keeps     := h.keeps
  untouched := fun id hid => h.untouched id fun hs case' hc => hid hs case' <| by simp [hc]
  executed  := by simpa [hu] using h.executed
  landed    := h.landed

theorem looping (h : Looped E run p s done σ t) (hd : ∀ case ∈ done, case ∈ run.spec.cases) :
    Looping E run p s t where
  status   := h.status
  keeps    := h.keeps
  progress := by
    intro id
    by_cases hid : unsettled s id → ∀ case ∈ done, case.case_id ≠ id
    · exact .untouched <| h.untouched id hid
    · push Not at hid
      obtain ⟨hs, case, hc, rfl⟩ := hid
      have ⟨result, _, new, hf⟩ := List.Forall₂.exists_of_mem_left h.executed <|
        List.mem_filter.mpr ⟨hc, hs⟩
      exact .finished case new result (hd case hc) rfl hs hf

theorem mono (h : Looped E run p s done σ t) (hs : u.status = t.status) (hk : Keeps t u)
    (hu : ∀ id, Untouched id t u) : Looped E run p s done σ u where
  status    := hs.trans h.status
  keeps     := h.keeps.trans hk
  untouched := fun id hid => h.untouched id hid |>.trans <| hu id
  executed  := h.executed.imp fun case _ ⟨new, hf⟩ => ⟨new, hf.mono hk <| hu case.case_id⟩
  landed    := h.landed

variable (hu : unsettled s case.case_id) (hd : ∀ c ∈ done, c.case_id ≠ case.case_id)

include hu hd

theorem finish (h : Looped E run p s done σ t) (he : Executed E run p case new t result u) :
    Looped E run p s (done ++ [case]) (σ.add result) u where
  status    := he.status.trans h.status
  keeps     := h.keeps.trans he.toAdds.keeps
  untouched := by
    intro id hid
    have hne : id ≠ case.case_id := by
      rintro rfl
      exact hid hu case (by simp) rfl
    exact h.untouched id (fun hs c hc => hid hs c <| by simp [hc]) |>.trans <|
      he.toAdds.untouched hne
  executed  := by
    have hcase : Untouched case.case_id s t := h.untouched _ fun _ => hd
    have hold := (List.forall₂_and_left _ _).mpr
      ⟨fun c hc => hd c (List.mem_of_mem_filter hc), h.executed⟩
    simp only [List.filter_append, List.filter_cons, hu, if_true, List.filter_nil, Session.add]
    refine List.Forall₂.snoc (hold.imp ?_) ⟨new, .of_untouched (.intro he) hcase⟩
    exact fun c _ ⟨hne, new, hf⟩ => ⟨new, hf.mono he.toAdds.keeps <| he.toAdds.untouched hne⟩
  landed    := by simp [Session.add, h.landed]

theorem working (h : Looped E run p s done σ t) (hdone : ∀ c ∈ done, c ∈ run.spec.cases)
    (hw : Working case.case_id t u) : Looping E run p s u := by
  have ⟨new, ha⟩ := hw.adds
  refine ⟨ha.status.trans h.status, h.keeps.trans ha.keeps, fun id => ?_⟩
  by_cases hid : id = case.case_id
  · subst hid
    have hcase : Untouched case.case_id s t := h.untouched _ fun _ => hd
    refine .begun new hu ?_ (hcase.case_rows ▸ ha.case_rows)
    exact hw.own.imp (·.trans hcase.case_status) .inl
  · exact (h.looping hdone).progress id |>.mono ha.keeps <| ha.untouched hid

end Looped

-- Nothing but the aggregates changed.
theorem wp_upsert_aggregates {b : Bool} {metrics : List Metric} {Q : Unit → Storage.State → Prop}
    (hinv : ∀ rows, c.inv { t with run_results := rows })
    (herr : ∀ e rows, External e → c.error e { t with run_results := rows })
    (hq : ∀ rows, Q () { t with run_results := rows }) :
    (E.upsert_aggregates run σ b metrics).wp c Q t := by
  induction metrics generalizing t with
  | nil                  => exact hq t.run_results
  | cons metric metrics ih =>
    rw [upsert_aggregates, Prog.wp_bind, wp_lift]
    split
    case h_2 e _ => exact herr (.evaluator e) t.run_results trivial
    case h_1 aggregate _ =>
      rw [Prog.wp_bind, wp_upsert_run_metric_result]
      exact ⟨hinv _, ih hinv herr hq⟩

-- Cases that were not finished become cancelled.
structure Cancelling (t u : Storage.State) : Prop where
  frame : ∃ cases, u = { t with cases }
  cases : ∀ id, u.get_case id = t.get_case id ∨
    unsettled t id ∧ u.case_status id = some .cancelled

namespace Cancelling

theorem refl : Cancelling t t :=
  ⟨⟨t.cases, rfl⟩, fun _ => .inl rfl⟩

theorem settled (h : Cancelling t u) (hs : unsettled t id = false) : u.get_case id = t.get_case id :=
  h.cases id |>.resolve_right fun ⟨hu, _⟩ => by simp [hs] at hu

theorem trans {v : Storage.State} (h : Cancelling t u) (h' : Cancelling u v) : Cancelling t v := by
  refine ⟨?_, fun id => ?_⟩
  · obtain ⟨cases, rfl⟩ := h.frame
    obtain ⟨cases', rfl⟩ := h'.frame
    exact ⟨cases', rfl⟩
  · rcases h.cases id with hid | ⟨hs, hid⟩
    · rw [← unsettled_congr hid, ← hid]
      exact h'.cases id
    · have hset : unsettled u id = false := by simp [unsettled, hid, Engine.settled]
      have hsame := h'.settled hset
      exact .inr ⟨hs, by rw [State.case_status, hsame]; exact hid⟩

theorem status (h : Cancelling t u) : u.status = t.status := by
  obtain ⟨cases, rfl⟩ := h.frame
  rfl

theorem keeps (h : Cancelling t u) : Keeps t u := by
  obtain ⟨cases, rfl⟩ := h.frame
  exact .refl

theorem untouched (h : Cancelling t u) (hid : u.get_case id = t.get_case id) :
    Untouched id t u := by
  obtain ⟨cases, rfl⟩ := h.frame
  exact ⟨hid, rfl, fun _ _ => rfl⟩

theorem case_rows (h : Cancelling t u) : u.case_rows id = t.case_rows id := by
  obtain ⟨cases, rfl⟩ := h.frame
  rfl

theorem write (hs : unsettled t id) : Cancelling t (t.write_case_status id .cancelled) := by
  refine ⟨⟨_, rfl⟩, fun id' => ?_⟩
  by_cases hid : id' = id
  · subst hid
    have ⟨st, hst⟩ : ∃ st, t.case_status id' = some st := by
      rcases status_of_unsettled hs with h | h <;> exact ⟨_, h⟩
    exact .inr ⟨hs, by simp [hst]⟩
  · exact .inl <| by simp [State.get_case_write_case_status, hid]

end Cancelling

theorem Looping.cancelling (h : Looping E run p s t) (hc : Cancelling t u) :
    Looping E run p s u := by
  refine ⟨hc.status.trans h.status, h.keeps.trans hc.keeps, fun id => ?_⟩
  rcases hc.cases id with hid | ⟨hs, hid⟩
  · exact h.progress id |>.mono hc.keeps <| hc.untouched hid
  · cases h.progress id with
    | untouched hu =>
      exact .begun [] (unsettled_congr hu.get_case ▸ hs) (.inr <| .inr hid) <| by
        rw [hc.case_rows, hu.case_rows, List.append_nil]
    | begun new hs' _ hr => exact .begun new hs' (.inr <| .inr hid) <| hc.case_rows.trans hr
    | finished case new result _ hcid _ hf =>
      subst hcid
      simp [hf.settled] at hs

theorem wp_cancel_cases {Q : Unit → Storage.State → Prop}
    (hrow : ∀ case ∈ cases, (t.get_case case.case_id).isSome)
    (hinv : ∀ u, Cancelling t u → c.inv u)
    (hq : ∀ u, Cancelling t u → (∀ case ∈ cases, unsettled u case.case_id = false) → Q () u) :
    (cancel_cases cases).wp c Q t := by
  induction cases generalizing t with
  | nil             => exact hq t .refl nofun
  | cons case cases ih =>
    have ⟨r, hr⟩ := Option.isSome_iff_exists.mp <| hrow case <| .head _
    rw [cancel_cases, Prog.wp_bind, wp_get_case]
    refine ⟨hinv t .refl, ?_⟩
    simp only [hr]
    split
    case isTrue hs =>
      have hset : unsettled t case.case_id = false := by
        simp [unsettled, State.case_status, hr, hs]
      refine ih (fun c hc => hrow c <| .tail _ hc) hinv fun u hu hcs => hq u hu ?_
      rw [List.forall_mem_cons]
      exact ⟨(unsettled_congr <| hu.settled hset).trans hset, hcs⟩
    case isFalse hs =>
      have huns : unsettled t case.case_id := by
        simpa [unsettled, State.case_status, hr] using hs
      have hlegal : .cancelled ∈ r.status.next := by
        cases hst : r.status <;> simp [hst, Engine.settled, RunCaseStatus.next] at hs ⊢
      have hw := Cancelling.write huns
      have hset : unsettled (t.write_case_status case.case_id .cancelled) case.case_id = false := by
        simp [unsettled, State.case_status, State.get_case_write_case_status, hr, Engine.settled]
      rw [Prog.wp_bind, wp_set_case_status hr (.inr hlegal)]
      refine ⟨hinv _ hw, ih ?_ (fun u hu => hinv u <| hw.trans hu) fun u hu hcs => ?_⟩
      · intro c hc
        rw [State.get_case_write_case_status, Option.isSome_map]
        exact hrow c <| .tail _ hc
      · refine hq u (hw.trans hu) ?_
        rw [List.forall_mem_cons]
        exact ⟨(unsettled_congr <| hu.settled hset).trans hset, hcs⟩

end Engine
