import Traceline.Engine.Theorems.Returning
import Traceline.Execution

open Lifecycle Storage

namespace Execution

variable {E : Engine} {run : Run} {p : Redaction.Patterns} {s t : Option Storage.State}
variable {u v : Storage.State}

-- Nobody cancels the job or its run.
def uncancelled : ∀ q : Query, q.Answer → Prop
  | .around _, _ => True
  | .engine q, r => Engine.uncancelled q r

variable (E run p) in
-- The executions of one job, one after the other, each labelled with what it took up. Any of them
-- may die after any call, or meet an exception of the code around it.
def executions : Machine (Option Storage.State) (Option Storage.State) where
  init s           := s = none
  step s started t := started = s ∧ ∃ o, Prog.Exec (store run p) uncancelled (execute E) s t o

-- A row for each case of the run and for no other, and every case executed to its end.
def Full (run : Run) (s : Option Storage.State) : Prop :=
  ∃ u, s = some u ∧ Engine.Covers run u ∧
    ∀ case ∈ run.spec.cases, ∃ st, u.case_status case.case_id = some st ∧
      Engine.executed_to_end st

variable (E run p) in
-- The executions from `s` converge: one of them may return, and all that do have executed all.
structure Converges (s : Option Storage.State) : Prop where
  returns  : ∃ status t, Prog.Exec (store run p) uncancelled (execute E) s t (.ok status)
  executed : ∀ status t, Prog.Exec (store run p) uncancelled (execute E) s t (.ok status) →
    Full run t

variable (E run) in
-- A run that an execution can take up.
structure Resumable (u : Storage.State) : Prop where
  present  : ∀ case ∈ run.spec.cases, (u.get_case case.case_id).isSome
  recalled : u.status ≠ .incomplete → ∀ id, u.case_status id ≠ some .cancelled
  scorable : u.status ≠ .complete → Engine.Rescorable E run u

-- The row of a run without its cases.
structure Bare (u : Storage.State) : Prop where
  cases  : ∀ id, u.get_case id = none
  status : u.status ≠ .complete

-- A run with its cases.
structure Kept (run : Run) (u : Storage.State) : Prop where
  covers  : Engine.Covers run u
  settled : u.status = .complete → ∀ id st, u.case_status id = some st → Engine.settled st

def Sane (run : Run) : Option Storage.State → Prop
  | none   => True
  | some u => Engine.Alive u ∧ (Bare u ∨ Kept run u)

variable (E run p) in
-- A session that completed the run.
def Completed (u v : Storage.State) : Prop :=
  u.status ≠ .complete ∧ Kept run u ∧
    ∃ w σ x samples, Engine.Completes E run p Engine.uncancelled u w σ x samples v

section Session

theorem serves : Prog.Serves engine_calls (Engine.store run p) (store run p) some :=
  fun _ _ => ⟨rfl, rfl⟩

theorem seen : Prog.Seen engine_calls uncancelled = Engine.uncancelled := by
  funext q r
  simp [Prog.Seen, engine_calls, uncancelled]

variable {o : Prog.Outcome Storage.Error Engine.RunResult}

theorem bare_iff : Bare u ↔ (∀ id, u.case_status id = none) ∧ u.status ≠ .complete := by
  simp only [State.case_status, Option.map_eq_none_iff]
  exact ⟨fun h => ⟨h.cases, h.status⟩, fun h => ⟨h.left, h.right⟩⟩

-- The run loop misses the first case.
theorem Bare.wp_execute (h : Bare u) (hs : u.status = .running ∨ u.status = .aggregating) :
    (E.execute run).wp (M := Engine.store run p) ⟨Engine.uncancelled, Bare, fun _ => Bare⟩
      (fun _ _ => False) u := by
  obtain ⟨case, cases, hc⟩ := List.exists_cons_of_ne_nil run.cases_nonempty
  rw [Engine.execute, Prog.wp_bind, hc]
  refine Engine.wp_mark_incomplete ?_
  rw [Engine.run_cases, Prog.wp_bind, Engine.wp_ask]
  rintro b rfl
  have hw : Bare (u.write_run_status .incomplete) := ⟨h.cases, by simp [State.write_run_status]⟩
  simp only [Bool.false_eq_true, if_false, Prog.wp_bind, Engine.wp_get_case, h.cases]
  refine ⟨h, .inr ?_, hw, hw⟩
  rcases hs with hs | hs <;> simp [hs, RunStatus.next]

-- No session goes on without the cases.
theorem Bare.session (h : Bare u) (ha : Engine.Alive u)
    (e : Prog.Exec (Engine.store run p) Engine.uncancelled E.run u v o) :
    Bare v ∧ ∀ r, o ≠ .ok r := by
  rcases e.bind_inv with ⟨rfl, e₁⟩ | ⟨_, _, e₁⟩ | ⟨record, w, e₁, e₂⟩
  · rw [(Engine.get_run_inv e₁).left]
    exact ⟨h, by simp⟩
  · obtain ⟨-, he⟩ := Engine.get_run_inv e₁
    simp at he
  · obtain ⟨rfl, he⟩ := Engine.get_run_inv e₁
    obtain rfl : record = some ⟨run, w.status⟩ := by simpa using he
    dsimp only at e₂
    rw [if_neg (by simp [h.status, ha.right])] at e₂
    have hs : w.status ≠ .complete ∧ w.status ≠ .failed := ⟨h.status, ha.right⟩
    rcases Prog.Exec.bind_inv e₂ with ⟨rfl, e₃⟩ | ⟨_, _, e₃⟩ | ⟨_, x, e₃, e₄⟩
    · have hv := (Engine.prepare_inv hs e₃).left
      refine ⟨bare_iff.mpr ⟨fun id => ?_, ?_⟩, by simp⟩
      · have hid := (bare_iff.mp h).left id
        rcases hv.cases id with hv | ⟨hv, -⟩
        · rw [hv, hid]
        · simp [hid] at hv
      · rcases hv.status with hv | hv | hv | hv <;> simp [hv, h.status]
    · obtain ⟨-, he⟩ := Engine.prepare_inv hs e₃
      simp at he
    · obtain ⟨-, he⟩ := Engine.prepare_inv hs e₃
      have hx : Engine.Prepared w x := by simpa using he
      have hb : Bare x := by
        refine bare_iff.mpr ⟨fun id => ?_, ?_⟩
        · rw [hx.cases, (bare_iff.mp h).left id]
          rfl
        · rcases hx.active with hx | hx <;> simp [hx]
      let c : Prog.Spec (Engine.store run p) := ⟨Engine.uncancelled, Bare, fun _ => Bare⟩
      obtain ⟨hv, hm⟩ := Prog.wp_sound (c := c) e₄ hb (hb.wp_execute hx.active)
      refine ⟨hv, ?_⟩
      rintro r rfl
      exact hm

theorem Kept.session (h : Kept run u) (ha : Engine.Alive u)
    (e : Prog.Exec (Engine.store run p) Engine.uncancelled E.run u v o) :
    Kept run v ∧ ∀ r, o = .ok r → r.status = .complete ∧ Completed E run p u v := by
  have hstage := Engine.run_inv h.covers e
  have hcov : Engine.Covers run v := h.covers.of_case_status fun _ => hstage.isSome
  obtain ⟨hv, hret⟩ := Engine.run_uncancelled ha e
  refine ⟨⟨hcov, fun hc id st hst => ?_⟩, ?_⟩
  · by_cases hu : u.status = .complete
    · rw [hstage.of_complete hu] at hst
      exact h.settled hu id st hst
    · obtain ⟨w, σ, x, samples, hw⟩ := hstage.to_complete hu hc
      exact hw.all_settled h.covers hst
  · rintro r rfl
    obtain ⟨hu, hc⟩ : u.status ≠ .complete ∧ v.status = .complete := by
      cases hstage with
      | cancelled w _ _ hw _ hc              =>
        obtain ⟨_, _, rfl⟩ := hc.looping
        exact absurd rfl hv.left
      | raised _ _ _ _ _ _ _ _ _ ho         => simp at ho
      | completed _ _ _ _ _ _ hw _ _ _ _ hf => exact ⟨hw.stored.left, hf.status⟩
    exact ⟨hret r rfl, hu, h, hstage.to_complete hu hc⟩

end Session

section Execute

theorem wp_around {c : Prog.Spec (store run p)} {step : Step} {Q : Unit → Option Storage.State → Prop}
    (hq : Q () s) (he : ∀ m, c.error (.raised m) s) : (around step).wp c Q s := by
  rw [around, Prog.wp_bind]
  intro answer _
  cases answer with
  | ok _    => exact hq
  | error m => exact he m

variable {J : Option Storage.State → Prop} {R : Engine.RunResult → Storage.State → Prop}

variable (run p) in
-- All that is asked is that an invariant is kept.
def keeping (J : Option Storage.State → Prop) : Prog.Spec (store run p) where
  allow := uncancelled
  inv   := J
  error := fun _ => J

variable (E run p) in
-- What the sessions from `u` on keep, and what they return with.
def Sessions (J : Option Storage.State → Prop) (R : Engine.RunResult → Storage.State → Prop)
    (u : Storage.State) : Prop :=
  ∀ v o, Prog.Exec (Engine.store run p) Engine.uncancelled E.run u v o →
    J (some v) ∧ ∀ r, o = .ok r → R r v

theorem wp_session (h : Sessions E run p J R u) :
    (session E).wp (keeping run p J) (fun r t => ∃ v, t = some v ∧ J t ∧ R r v) (some u) := by
  have hrun : (E.run.embed engine_calls).wp (keeping run p J)
      (fun r t => ∃ v, t = some v ∧ J t ∧ R r v) (some u) := by
    refine Prog.wp_of_exec fun t o he => ?_
    obtain ⟨v, o, rfl, rfl, e⟩ := he.embed_inv serves
    change Prog.Exec (Engine.store run p) (Prog.Seen engine_calls uncancelled) E.run u v o at e
    rw [seen] at e
    obtain ⟨hj, hr⟩ := h v o e
    refine ⟨hj, ?_⟩
    cases o with
    | ok r    => exact ⟨v, rfl, hj, hr r rfl⟩
    | error _ => exact hj
    | crash   => trivial
  rw [session, Prog.wp_bind, Prog.wp_tryCatch]
  refine Prog.wp_weaken (c := keeping run p J) (fun _ _ ha => ha) (fun _ ht => ht) ?_ <|
    Prog.wp_mono ?_ hrun
  · intro e t ht
    dsimp only
    rw [Prog.wp_bind]
    exact wp_around ht fun _ => ht
  · rintro r t ⟨v, rfl, hj, hr⟩
    rw [Prog.wp_bind]
    exact wp_around ⟨v, rfl, hj, hr⟩ fun _ => hj

theorem wp_drive (hj : J (some u)) (h : Sessions E run p J R u) :
    (drive E).wp (keeping run p J) (fun status t => ∃ r v, status = r.status ∧ t = some v ∧ R r v)
      (some u) := by
  rw [drive, Prog.wp_bind]
  refine wp_around ?_ fun _ => hj
  rw [Prog.wp_bind]
  refine wp_around ?_ fun _ => hj
  rw [Prog.wp_bind]
  refine Prog.wp_mono ?_ (wp_session h)
  rintro r t ⟨v, rfl, -, hr⟩
  exact ⟨r, v, rfl, rfl, hr⟩

theorem wp_take_up (hj : J (some u)) (h : Sessions E run p J R u) :
    (execute E).wp (keeping run p J) (fun status t =>
      finished u.status ∧ status = u.status ∧ t = some u ∨
        ∃ r v, status = r.status ∧ t = some v ∧ R r v) (some u) := by
  rw [execute, Prog.wp_bind]
  refine wp_around ?_ fun _ => hj
  rw [Prog.wp_bind]
  refine wp_around ?_ fun _ => hj
  rw [Prog.wp_bind, call, Prog.wp_perform]
  refine ⟨hj, ?_⟩
  change Prog.wp (keeping run p J) (if finished u.status then _ else _) _ (some u)
  split
  case isTrue hf =>
    rw [Prog.wp_bind]
    exact wp_around (.inl ⟨hf, rfl, rfl⟩) fun _ => hj
  case isFalse =>
    rw [Prog.wp_bind]
    refine wp_around ?_ fun _ => hj
    exact Prog.wp_mono (fun _ _ hr => .inr hr) (wp_drive hj h)

theorem wp_create (hn : J none) (hd : J (some .draft)) (hj : J (some (Engine.created run)))
    (h : Sessions E run p J R (Engine.created run)) :
    (execute E).wp (keeping run p J)
      (fun status t => ∃ r v, status = r.status ∧ t = some v ∧ R r v) none := by
  rw [execute, Prog.wp_bind]
  refine wp_around ?_ fun _ => hn
  rw [Prog.wp_bind]
  refine wp_around ?_ fun _ => hn
  rw [Prog.wp_bind, call, Prog.wp_perform]
  refine ⟨hn, ?_⟩
  change Prog.wp (keeping run p J) (around .assemble_engine >>= _) _ _
  rw [Prog.wp_bind]
  refine wp_around ?_ fun _ => hn
  rw [Prog.wp_bind, create_run, Prog.wp_bind]
  refine wp_around ?_ fun _ => hn
  rw [Prog.wp_bind, call, Prog.wp_perform]
  refine ⟨hd, ?_⟩
  change Prog.wp (keeping run p J) (call .insert_cases) _ (some .draft)
  rw [call, Prog.wp_perform]
  exact ⟨hj, wp_drive hj h⟩

variable (E run p) in
-- What an execution that returns comes to.
inductive Ended : Option Storage.State → RunStatus → Option Storage.State → Prop
  | found {u : Storage.State} : finished u.status → Ended (some u) u.status (some u)
  | resumed {u v : Storage.State} : Completed E run p u v → Ended (some u) .complete (some v)
  | created {v : Storage.State} :
    Completed E run p (Engine.created run) v → Ended none .complete (some v)

theorem alive_created : Engine.Alive (Engine.created run) := by
  simp [Engine.Alive, Engine.created, State.insert_cases, State.draft]

theorem kept_created : Kept run (Engine.created run) :=
  ⟨Engine.covers_created, by simp [Engine.created, State.insert_cases, State.draft]⟩

theorem bare_draft : Bare .draft :=
  ⟨fun _ => rfl, by simp [State.draft]⟩

theorem sessions_sane (h : Sane run (some u)) :
    Sessions E run p (Sane run) (fun r v => r.status = .complete ∧ Completed E run p u v) u := by
  intro v o e
  obtain ⟨ha, hb | hk⟩ := h
  · obtain ⟨hv, hn⟩ := hb.session ha e
    exact ⟨⟨(Engine.run_uncancelled ha e).left, .inl hv⟩, fun r hr => absurd hr (hn r)⟩
  · obtain ⟨hv, hr⟩ := hk.session ha e
    exact ⟨⟨(Engine.run_uncancelled ha e).left, .inr hv⟩, hr⟩

theorem wp_execute (h : Sane run s) :
    (execute E).wp (keeping run p (Sane run)) (fun status t => Ended E run p s status t) s := by
  cases s with
  | none   =>
    have hc : Sane run (some (Engine.created run)) := ⟨alive_created, .inr kept_created⟩
    have hd : Sane run (some .draft) := ⟨by simp [Engine.Alive, State.draft], .inl bare_draft⟩
    refine Prog.wp_mono ?_ (wp_create h hd hc (sessions_sane hc))
    rintro _ _ ⟨r, v, rfl, rfl, hr, hv⟩
    rw [hr]
    exact .created hv
  | some u =>
    refine Prog.wp_mono ?_ (wp_take_up h (sessions_sane h))
    rintro _ _ (⟨hf, rfl, rfl⟩ | ⟨r, v, rfl, rfl, hr, hv⟩)
    · exact .found hf
    · rw [hr]
      exact .resumed hv

-- A row without its cases stays without them, and no execution of it returns.
theorem Bare.execute {o : Prog.Outcome Storage.Error RunStatus} (h : Bare u) (ha : Engine.Alive u)
    (e : Prog.Exec (store run p) uncancelled (execute E) (some u) t o) :
    (∃ v, t = some v ∧ Bare v ∧ Engine.Alive v) ∧ ∀ status, o ≠ .ok status := by
  let J : Option Storage.State → Prop := fun t => ∃ v, t = some v ∧ Bare v ∧ Engine.Alive v
  have hsessions : Sessions E run p J (fun _ _ => False) u := by
    intro v o e
    obtain ⟨hv, hn⟩ := h.session ha e
    exact ⟨⟨v, rfl, hv, (Engine.run_uncancelled ha e).left⟩, hn⟩
  have hj : J (some u) := ⟨u, rfl, h, ha⟩
  obtain ⟨ht, hm⟩ := Prog.wp_sound (c := keeping run p J) e hj (wp_take_up hj hsessions)
  refine ⟨ht, ?_⟩
  rintro status rfl
  obtain ⟨hf, -⟩ | ⟨_, _, _, _, hfalse⟩ := hm
  · simp [finished, ha.left, ha.right, h.status] at hf
  · exact hfalse

end Execute

section Returns

theorem around_may {step : Step} {Q : Unit → Option Storage.State → Prop} (hq : Q () s) :
    (around step).may (store run p) uncancelled Q s := by
  rw [around, Prog.may_bind]
  exact ⟨.ok (), trivial, hq⟩

theorem drive_may (hs : u.status ≠ .complete ∧ u.status ≠ .failed) (hc : Engine.Covers run u)
    (hr : Engine.Rescorable E run u) :
    (drive E).may (store run p) uncancelled (fun _ _ => True) (some u) := by
  have hrun : E.run.may (Engine.store run p) (Prog.Seen engine_calls uncancelled) (fun _ _ => True) u := by
    rw [seen]
    exact Prog.may_weaken (fun _ _ => Engine.failing_uncancelled) (Engine.run_may hs hc hr)
  rw [drive, Prog.may_bind]
  refine around_may ?_
  rw [Prog.may_bind]
  refine around_may ?_
  rw [Prog.may_bind, session, Prog.may_bind]
  refine Prog.may_tryCatch <| Prog.may_mono ?_ <| Prog.may_embed serves hrun
  intro r t _
  rw [Prog.may_bind]
  exact around_may trivial

theorem rescorable_created : Engine.Rescorable E run (Engine.created run) := by
  intro case _ _ a ha
  rw [Engine.mem_first_attempts_iff, State.mem_case_rows_iff] at ha
  cases ha.left.left

theorem execute_may (h : ∀ u, s = some u → finished u.status = false →
    Engine.Covers run u ∧ Engine.Rescorable E run u) :
    (execute E).may (store run p) uncancelled (fun _ _ => True) s := by
  rw [execute, Prog.may_bind]
  refine around_may ?_
  rw [Prog.may_bind]
  refine around_may ?_
  rw [Prog.may_bind, call, Prog.may_perform (M := store run p) rfl]
  cases s with
  | none   =>
    change Prog.may (store run p) uncancelled (around .assemble_engine >>= _) _ _
    rw [Prog.may_bind]
    refine around_may ?_
    rw [Prog.may_bind, create_run, Prog.may_bind]
    refine around_may ?_
    rw [Prog.may_bind, call, Prog.may_perform (M := store run p) rfl]
    rw [call, Prog.may_perform (M := store run p) rfl]
    exact drive_may (u := Engine.created run)
      (by simp [Engine.created, State.insert_cases, State.draft]) Engine.covers_created
      rescorable_created
  | some u =>
    change Prog.may (store run p) uncancelled (if finished u.status then _ else _) _ (some u)
    split
    case isTrue =>
      rw [Prog.may_bind]
      exact around_may trivial
    case isFalse hf =>
      have hf : finished u.status = false := by simpa using hf
      obtain ⟨hc, hr⟩ := h u rfl hf
      rw [Prog.may_bind]
      refine around_may ?_
      refine drive_may ?_ hc hr
      simp only [finished, Bool.or_eq_false_iff, decide_eq_false_iff_not] at hf
      exact hf.left

end Returns

theorem reachable_sane (r : (executions E run p).Reachable s) : Sane run s := by
  refine r.preserves ?_ ?_
  · rintro s rfl
    trivial
  · rintro s _ t hs ⟨rfl, o, e⟩
    exact Prog.wp_sound (c := keeping run p (Sane run)) e hs (wp_execute hs) |>.left

section Converges

theorem Kept.not_stranded_iff (hs : u.status ≠ .complete) (ha : Engine.Alive u) :
    ¬Engine.Stranded u ↔
      (u.status ≠ .incomplete → ∀ id, u.case_status id ≠ some .cancelled) := by
  rw [Engine.stranded_iff ⟨hs, ha.right⟩]
  have hre : Engine.reopened u.status = false ↔ u.status ≠ .incomplete := by
    simp [Engine.reopened, ha.left]
  rw [hre]
  push Not
  rfl

-- What a session that completed a run from `u` on leaves is full where no case was stranded.
theorem Completed.full_iff (ha : Engine.Alive u) (h : Completed E run p u v) :
    Full run (some v) ↔ ¬Engine.Stranded u := by
  obtain ⟨hs, hk, w, σ, x, samples, hc⟩ := h
  rw [← hc.executed_iff hk.covers]
  have hcov : Engine.Covers run v := by
    refine hk.covers.of_case_status fun id => ?_
    rw [← hc.prepared.isSome, ← (hc.looped.looping fun _ h => h).isSome,
      ← Engine.case_status_of_cases hc.finalized.cases]
  constructor
  · rintro ⟨_, hv, -, hall⟩ id st hst
    obtain rfl := Option.some_inj.mp hv
    obtain ⟨case, hcase, rfl⟩ := (hcov id).mp <| by
      simpa [State.case_status] using Option.isSome_of_eq_some hst
    obtain ⟨st', hst', he⟩ := hall case hcase
    obtain rfl := Option.some_inj.mp <| hst.symm.trans hst'
    exact he
  · intro hall
    refine ⟨v, rfl, hcov, fun case hcase => ?_⟩
    obtain ⟨st, hst⟩ : ∃ st, v.case_status case.case_id = some st := by
      rw [← Option.isSome_iff_exists]
      simpa [State.case_status] using (hcov _).mpr ⟨case, hcase, rfl⟩
    exact ⟨st, hst, hall _ _ hst⟩

theorem Completed.rescorable (h : Completed E run p u v) : Engine.Rescorable E run u := by
  obtain ⟨hs, hk, w, σ, x, samples, hc⟩ := h
  intro case hcase hleft
  refine (Engine.rescorable_left_iff hc.prepared hc.looped hleft).mp fun a ha => ?_
  have hn : case.case_id ∉ σ.executed.map (·.case_id) := fun hm => by
    rw [hc.looped.executed_iff hc.prepared hcase, hleft] at hm
    cases hm
  have hmem : a ∈ samples.map Prod.fst := by
    rw [hc.resampled.attempts, List.mem_flatMap]
    exact ⟨case, List.mem_filter.mpr ⟨hcase, by simpa using hn⟩, ha⟩
  obtain ⟨sample, hsample, rfl⟩ := List.mem_map.mp hmem
  exact ⟨sample.2, hc.resampled.rescored sample hsample⟩

theorem executed_of_settled {st : RunCaseStatus} (h : Engine.settled st) (hc : st ≠ .cancelled) :
    Engine.executed_to_end st := by
  cases st <;> simp_all [Engine.settled, Engine.executed_to_end]

theorem complete_of_finished (h : finished u.status) (ha : Engine.Alive u) :
    u.status = .complete := by
  simpa [finished, ha.left, ha.right] using h

-- A complete run is full where none of its cases was cancelled.
theorem Kept.full_iff (h : Kept run u) (hs : u.status = .complete) :
    Full run (some u) ↔ ∀ id, u.case_status id ≠ some .cancelled := by
  constructor
  · rintro ⟨_, hu, -, hall⟩ id hid
    obtain rfl := Option.some_inj.mp hu
    obtain ⟨case, hcase, rfl⟩ := (h.covers id).mp <| by
      simpa [State.case_status] using Option.isSome_of_eq_some hid
    obtain ⟨st, hst, he⟩ := hall case hcase
    obtain rfl := Option.some_inj.mp <| hid.symm.trans hst
    cases he
  · intro hn
    refine ⟨u, rfl, h.covers, fun case hcase => ?_⟩
    obtain ⟨st, hst⟩ : ∃ st, u.case_status case.case_id = some st := by
      rw [← Option.isSome_iff_exists]
      simpa [State.case_status] using (h.covers _).mpr ⟨case, hcase, rfl⟩
    refine ⟨st, hst, executed_of_settled (h.settled hs _ _ hst) ?_⟩
    rintro rfl
    exact hn _ hst

theorem Bare.not_resumable (h : Bare u) : ¬Resumable E run u := by
  intro hr
  obtain ⟨case, hcase⟩ := List.exists_mem_of_ne_nil _ run.cases_nonempty
  have := hr.present case hcase
  simp [h.cases] at this

theorem execute_ended (r : (executions E run p).Reachable s) {status : RunStatus}
    (e : Prog.Exec (store run p) uncancelled (execute E) s t (.ok status)) :
    Ended E run p s status t :=
  have hs := reachable_sane r
  Prog.wp_sound (c := keeping run p (Sane run)) e hs (wp_execute hs) |>.right

theorem converges_none : Converges E run p none := by
  refine ⟨?_, fun status t e => ?_⟩
  · have hmay : (execute E).may (store run p) uncancelled (fun _ _ => True) none :=
      execute_may (by simp)
    obtain ⟨status, t, e, -⟩ := Prog.may_sound hmay
    exact ⟨status, t, e⟩
  · cases execute_ended (.init rfl) e with
    | created h =>
      refine (h.full_iff alive_created).mpr ?_
      rintro ⟨-, id, hid⟩
      rw [Engine.created, State.case_status_insert_cases] at hid
      simp [State.case_status, State.get_case, State.draft] at hid

theorem Kept.converges_iff (h : Kept run u) (ha : Engine.Alive u)
    (r : (executions E run p).Reachable (some u)) :
    Converges E run p (some u) ↔ Resumable E run u := by
  have hpresent : ∀ case ∈ run.spec.cases, (u.get_case case.case_id).isSome :=
    fun case hcase => (h.covers _).mpr ⟨case, hcase, rfl⟩
  constructor
  · rintro ⟨⟨status, t, e⟩, hall⟩
    have hfull := hall status t e
    cases execute_ended r e with
    | found hf   =>
      have hs := complete_of_finished hf ha
      exact ⟨hpresent, fun _ => (h.full_iff hs).mp hfull, fun hn => absurd hs hn⟩
    | resumed hc =>
      exact ⟨hpresent, (Kept.not_stranded_iff hc.left ha).mp <| (hc.full_iff ha).mp hfull,
        fun _ => hc.rescorable⟩
  · intro hr
    refine ⟨?_, fun status t e => ?_⟩
    · have hmay : ∀ v, some u = some v → finished v.status = false →
          Engine.Covers run v ∧ Engine.Rescorable E run v := by
        rintro v hv hf
        obtain rfl := Option.some_inj.mp hv
        refine ⟨h.covers, hr.scorable ?_⟩
        intro hs
        simp [finished, hs] at hf
      obtain ⟨status, t, e, -⟩ := Prog.may_sound (execute_may (E := E) (p := p) hmay)
      exact ⟨status, t, e⟩
    · cases execute_ended r e with
      | found hf   =>
        have hs := complete_of_finished hf ha
        exact (h.full_iff hs).mpr <| hr.recalled (by simp [hs])
      | resumed hc =>
        exact (hc.full_iff ha).mpr <| (Kept.not_stranded_iff hc.left ha).mpr hr.recalled

theorem Bare.not_converges (h : Bare u) (ha : Engine.Alive u) : ¬Converges E run p (some u) :=
  fun ⟨⟨status, _, e⟩, _⟩ => (h.execute ha e).right status rfl

end Converges

namespace Cut

open Engine.OneCase

-- Nothing around the execution fails.
def answers : ∀ q : Query, q.Answer
  | .around _ => .ok ()
  | .engine q => Engine.OneCase.answers false ⟨.completed, some 0, [], .null, .null⟩ q

theorem answers_uncancelled (q : Query) : uncancelled q (answers q) := by
  cases q with
  | around step => trivial
  | engine q    =>
    cases q with
    | should_cancel _   => rfl
    | uuid4             => trivial
    | set_order _       => trivial
    | invoke_agent _    =>
      rintro result ⟨⟩
      simp
    | invoke_target _ _ => rintro result ⟨⟩

-- The first execution dies once it has written the row of the run.
def cut : Option Storage.State :=
  ((execute engine).run (store frozen redactors) answers 2 none).1

theorem cut_eq : cut = some .draft :=
  rfl

theorem cut_reachable : (executions engine frozen redactors).Reachable cut :=
  .step (.init rfl) ⟨rfl, _, Prog.run_exec answers_uncancelled _ _ _⟩

end Cut

end Execution
