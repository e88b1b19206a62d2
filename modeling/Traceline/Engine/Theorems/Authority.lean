import Traceline.Engine.Theorems.Containment
import Traceline.Evaluators.Identity

open Lifecycle Spec Events Evaluators Storage

namespace Engine

variable {E : Engine} {run : Run} {p : Redaction.Patterns} {s t u : Storage.State}
variable {case : TestCase} {x : Invocation} {r k n : ℕ} {world : Invocation → Supply}

-- The number of an attempt reaches the score of a metric: it is passed along, or every event of the
-- attempt carries it.
def told (E : Engine) (events : List TraceEvent) (output : Option (List (String × Json)))
    (status : InvocationStatus) (k : ℕ) (metric : Metric) : Prop :=
  if (E.custom_evaluators.lookup metric.metric_id).isSome then True
  else if output.isSome ∧ output_scored metric status then metric.type ≠ .trace_rule
  else events ≠ [] ∧ ∀ e ∈ events, e.attempt = k

theorem decide_natCast_pos : decide (0 < k) = decide (0 < (k : Int)) := by
  simp

theorem score_metric_numbered {active : Option JudgmentContext} {case_id : String}
    {events : List TraceEvent} {output : Option (List (String × Json))} {status : InvocationStatus}
    {metric : Metric} {score : CaseScore}
    (h : E.score_metric active run case_id events output status k metric = .ok score)
    (ht : k = 0 ∨ told E events output status k metric) : Numbered metric k score := by
  unfold score_metric at h
  unfold told at ht
  have hevents : ∀ {judge}, (k = 0 ∨ events ≠ [] ∧ ∀ e ∈ events, e.attempt = k) →
      score_metric.on_events E run case_id events k metric judge = .ok score →
      Numbered metric k score := by
    intro judge ht hs
    unfold score_metric.on_events at hs
    split at hs
    case isTrue hk =>
      obtain ⟨hn, ha⟩ := ht.resolve_left hk.ne'
      have hid := score_attempt_identity hs
      rw [attempt_of_eq hn ha] at hid
      exact hid
    case isFalse hk =>
      have hk : k = 0 := by omega
      rw [hk]
      exact evaluate_case_identity hs
  split at h
  case h_1 custom hc =>
    rw [decide_natCast_pos] at h
    exact score_custom_numbered h
  case h_2 hc =>
    simp only [hc, Option.isSome_none, Bool.false_eq_true, if_false] at ht
    obtain ⟨judge, _, h⟩ := Except.bind_eq_ok_iff.mp h
    split at h
    case h_2 => exact hevents (by simpa using ht) h
    case h_1 fields =>
      split at h
      case isFalse ho => exact hevents (by simpa [ho] using ht) h
      case isTrue ho  =>
        rw [decide_natCast_pos] at h
        obtain rfl | ht := ht
        · exact (score_output_identity h).elim id id
        · simp only [Option.isSome_some, ho, and_self, if_true] at ht
          have hn : status = .completed ∧ non_event_target metric.target.type = true := by
            simpa [output_scored] using ho
          exact score_output_numbered ht hn.right h

-- In any case a score is of its metric and of some attempt.
theorem score_metric_identity {active : Option JudgmentContext} {case_id : String}
    {events : List TraceEvent} {output : Option (List (String × Json))} {status : InvocationStatus}
    {metric : Metric} {score : CaseScore}
    (h : E.score_metric active run case_id events output status k metric = .ok score) :
    ∃ j, Numbered metric j score := by
  have hevents : ∀ {judge},
      score_metric.on_events E run case_id events k metric judge = .ok score →
      ∃ j, Numbered metric j score := by
    intro judge hs
    unfold score_metric.on_events at hs
    split at hs
    · exact ⟨_, score_attempt_identity hs⟩
    · exact ⟨0, evaluate_case_identity hs⟩
  unfold score_metric at h
  split at h
  · rw [decide_natCast_pos] at h
    exact ⟨_, score_custom_numbered h⟩
  · obtain ⟨judge, _, h⟩ := Except.bind_eq_ok_iff.mp h
    split at h
    · split at h
      · rw [decide_natCast_pos] at h
        exact (score_output_identity h).elim (⟨_, ·⟩) (⟨_, ·⟩)
      · exact hevents h
    · exact hevents h

-- Every call but one leaves the stored scores alone.
def keeps_scores : Storage.Call → Bool
  | .upsert_case_metric_results _ _ _ => false
  | _                                 => true

theorem perform_case_results {d : Storage.Call} (hd : keeps_scores d) :
    (Storage.perform run p d s).2.case_results = s.case_results := by
  cases d with
  | upsert_case_metric_results => cases hd
  | set_run_status => 
    simp only [Storage.perform, State.set_run_status]
    split <;> rfl
  | set_case_status =>
    simp only [Storage.perform, State.set_case_status]
    split
    · rfl
    · split <;> rfl
  | create_attempt =>
    simp only [Storage.perform, State.create_attempt]
    split
    · rfl
    · split <;> rfl
  | set_attempt_status =>
    simp only [Storage.perform, State.set_attempt_status]
    split
    · rfl
    · split
      · rfl
      · split <;> rfl
  | insert_trace_events =>
    simp only [Storage.perform, State.insert_trace_events]
    split
    · rfl
    · split
      · rfl
      · split <;> rfl
  | save_attempt_output =>
    simp only [Storage.perform, State.save_attempt_output]
    split <;> rfl
  | set_remote_job_state =>
    simp only [Storage.perform, State.set_remote_job_state]
    split <;> rfl
  | _ => rfl

-- A world that answers every attempt from a supply of its own.
def supplied (E : Engine) (world : Invocation → Supply) : ∀ q : Query, q.Answer → Prop
  | .invoke_agent x,    result => result = (world x).invoked E
  | .invoke_target _ x, answer => answer = (world { x with remote_job_id := none }).answer
  | _,                  _      => True

theorem supplied_supplies (h : x.remote_job_id = none) :
    Supplies (supplied E world) E x (world x) := by
  refine ⟨fun _ h => h, fun _ job r hr => ?_⟩
  have hx : { x with remote_job_id := none } = x := by
    rw [← h]
  exact hx ▸ hr

-- All that is asked of a run is what it ends with where it returns.
def returning (E : Engine) (run : Run) (p : Redaction.Patterns) (world : Invocation → Supply) :
    Prog.Spec (store run p) where
  allow := supplied E world
  inv   := fun _ => True
  error := fun _ _ => True

theorem wp_call_keeps {d : Storage.Call} {Q : d.Reply → Storage.State → Prop} (hd : keeps_scores d)
    (hq : ∀ r u, u.case_results = s.case_results → Q r u) :
    (call d).wp (returning E run p world) Q s := by
  have hkeeps : (Storage.perform run p d s).2.case_results = s.case_results :=
    perform_case_results hd
  refine wp_call_of ?_ fun _ _ _ => ⟨trivial, trivial⟩
  intro r u hu
  rw [hu] at hkeeps
  exact ⟨trivial, hq r u hkeeps⟩

-- What running an attempt does to the scores that are stored.
structure Upserted (E : Engine) (run : Run) (world : Invocation → Supply) (case : TestCase)
    (o : AttemptResult) (s t : Storage.State) : Prop where
  unscored : o.status ≠ .completed → o.scores = [] ∧ t.case_results = s.case_results
  scored   : o.status = .completed → ∃ result rows,
    invocation E run (world ⟨case, o.attempt_id, o.repeat_index, o.attempt, none⟩) = .ok result ∧
    E.score_attempt_metrics
      (some ⟨E.candidate_output result, E.kept_events result.trace_events⟩) run case.case_id
      (E.kept_events result.trace_events) (E.candidate_output result) result.status o.attempt =
      .ok o.scores ∧
    o.scores.mapM (State.case_metric_result run.spec.metrics case.case_id 1) = .ok rows ∧
    t.case_results = rows.foldl .upsert s.case_results

-- An attempt that was made for an invocation.
structure Made (E : Engine) (run : Run) (world : Invocation → Supply) (x : Invocation)
    (s : Storage.State) (o : AttemptResult) (t : Storage.State) : Prop
    extends Upserted E run world x.case o s t where
  attempt_id   : o.attempt_id = x.attempt_id
  repeat_index : o.repeat_index = x.repeat_index
  attempt      : o.attempt = x.attempt

theorem Made.unscored' {o : AttemptResult} (hs : o.status ≠ .completed) (hn : o.scores = [])
    (ht : t.case_results = s.case_results) (hid : o.attempt_id = x.attempt_id)
    (hr : o.repeat_index = x.repeat_index) (hk : o.attempt = x.attempt) :
    Made E run world x s o t :=
  ⟨⟨fun _ => ⟨hn, ht⟩, fun h => absurd h hs⟩, hid, hr, hk⟩

theorem wp_refused_attempt_made {result : InvocationResult} {m : String}
    (h : t.case_results = s.case_results) :
    (refused_attempt x result m).wp (returning E run p world) (Made E run world x s) t := by
  rw [refused_attempt, Prog.wp_bind]
  exact wp_call_keeps rfl fun _ u hu => .unscored' (by simp [attempt_result]) rfl (hu.trans h) rfl rfl rfl

theorem wp_try_ingest_keeps {events : List TraceEvent}
    {Q : Except String (List TraceEvent × Bool) → Storage.State → Prop}
    (hrefused : ∀ m, Q (.error m) s)
    (hq : ∀ b u, u.case_results = s.case_results → Q (.ok (E.kept_events events, b)) u) :
    (catch_engine_error (E.ingest_events run x events)).wp (returning E run p world) Q s :=
  wp_try_ingest_cases (fun _ => trivial) (fun m _ => hrefused m) (fun _ _ _ _ => trivial)
    fun b _ _ => hq b _ rfl

theorem wp_failed_attempt_made {result : InvocationResult} {st : AttemptStatus}
    (hst : st ≠ .completed) (h : t.case_results = s.case_results) :
    (E.failed_attempt run x result st).wp (returning E run p world) (Made E run world x s) t := by
  have hkept : ∀ kept truncated u, u.case_results = s.case_results →
      Prog.wp (returning E run p world) (do
        call (.set_attempt_status x.attempt_id st {
          exit_code       := result.exit_code
          error           := result.error
          event_count     := some kept
          trace_truncated := some truncated
        })
        return attempt_result x st result kept truncated result.error) (Made E run world x s) u := by
    intro kept truncated u hu
    rw [Prog.wp_bind]
    exact wp_call_keeps rfl fun _ v hv => .unscored' hst rfl (hv.trans hu) rfl rfl rfl
  unfold failed_attempt
  dsimp only
  split
  case isTrue =>
    rw [Prog.wp_bind]
    exact hkept 0 false t h
  case isFalse =>
    rw [Prog.wp_bind]
    exact wp_try_ingest_keeps (fun _ => wp_refused_attempt_made h)
      fun b u hu => hkept _ b u (hu.trans h)

theorem wp_completed_attempt_made {result : InvocationResult} (hx : x.remote_job_id = none)
    (hi : invocation E run (world x) = .ok result) (h : t.case_results = s.case_results) :
    (E.completed_attempt run x result).wp (returning E run p world) (Made E run world x s) t := by
  have hx' : (⟨x.case, x.attempt_id, x.repeat_index, x.attempt, none⟩ : Invocation) = x := by
    rw [← hx]
  rw [completed_attempt, Prog.wp_bind]
  refine wp_try_ingest_keeps (fun _ => wp_refused_attempt_made h) fun b u hu => ?_
  simp only [Prog.wp_bind]
  refine wp_call_keeps rfl fun _ v hv => ?_
  refine wp_call_keeps rfl fun _ w hw => ?_
  rw [wp_lift]
  split
  case h_2 => trivial
  case h_1 scores hsc =>
    refine wp_call_of (d := .upsert_case_metric_results x.case.case_id scores 1) ?_
      fun _ _ _ => ⟨trivial, trivial⟩
    intro _ y hy
    change w.upsert_case_metric_results _ _ _ _ = _ at hy
    unfold State.upsert_case_metric_results at hy
    split at hy
    case h_1 => cases hy
    case h_2 rows hrows =>
      cases hy
      refine ⟨trivial, ⟨fun hs => absurd rfl hs, fun _ => ⟨result, rows, ?_, hsc, hrows, ?_⟩⟩, rfl,
        rfl, rfl⟩
      · exact hx'.symm ▸ hi
      · rw [hw, hv, hu, h]

theorem wp_run_attempt_made :
    (E.run_attempt run case r k).wp (returning E run p world) (fun (o, _) t =>
      Upserted E run world case o s t ∧ o.repeat_index = r ∧ o.attempt = k) s := by
  have hmade : ∀ {id o t}, Made E run world ⟨case, id, r, k, none⟩ s o t →
      Upserted E run world case o s t ∧ o.repeat_index = r ∧ o.attempt = k :=
    fun h => ⟨h.toUpserted, h.repeat_index, h.attempt⟩
  rw [run_attempt, Prog.wp_bind, wp_ask]
  intro id _
  rw [Prog.wp_bind]
  refine wp_call_keeps rfl fun a t ht => ?_
  simp only [Prog.wp_bind]
  refine wp_call_keeps rfl fun _ u hu => ?_
  set x : Invocation := ⟨case, a.attempt_id, r, k, none⟩
  rw [guarded_invoke, Prog.wp_tryCatch]
  refine wp_invoke_supplied (d := world x) (R := fun v => v.case_results = s.case_results)
    (fun _ _ hv => hv) (hu.trans ht) (supplied_supplies rfl) (fun _ => trivial) ?_ ?_
  · intro m e v _ _
    dsimp only
    rw [Prog.wp_bind]
    exact wp_call_of (fun _ _ _ => ⟨trivial, trivial⟩) fun _ _ _ => ⟨trivial, trivial⟩
  intro result v hi hv
  split
  case h_1 | h_2 | h_3 | h_4 =>
    rw [Prog.wp_bind]
    exact Prog.wp_mono (fun _ _ h => hmade h) <| wp_failed_attempt_made (by simp) hv
  case h_5 | h_6 =>
    rw [Prog.wp_bind]
    exact Prog.wp_mono (fun _ _ h => hmade h) <| wp_completed_attempt_made rfl hi hv

-- Attempts of a case that were made one after the other.
inductive Upserts (E : Engine) (run : Run) (world : Invocation → Supply) (case : TestCase) :
    List AttemptResult → Storage.State → Storage.State → Prop
  | nil {s t : Storage.State} :
    t.case_results = s.case_results → Upserts E run world case [] s t
  | cons {s t u : Storage.State} :
    Upserted E run world case o s t → Upserts E run world case os t u →
    Upserts E run world case (o :: os) s u

variable {o : AttemptResult} {os os' : List AttemptResult} {s' t' : Storage.State}

theorem Upserted.of_eq (h : Upserted E run world case o s t) (hs : s'.case_results = s.case_results)
    (ht : t'.case_results = t.case_results) : Upserted E run world case o s' t' := by
  refine ⟨fun hne => ?_, fun hc => ?_⟩
  · obtain ⟨hn, he⟩ := h.unscored hne
    exact ⟨hn, by rw [ht, he, hs]⟩
  · obtain ⟨result, rows, hi, hsc, hrows, he⟩ := h.scored hc
    exact ⟨result, rows, hi, hsc, hrows, by rw [ht, he, hs]⟩

namespace Upserts

theorem of_eq (h : Upserts E run world case os s t) (hs : s'.case_results = s.case_results)
    (ht : t'.case_results = t.case_results) : Upserts E run world case os s' t' := by
  induction h generalizing s' with
  | nil he         => exact .nil (by rw [ht, he, hs])
  | cons ho _ ih => exact .cons (ho.of_eq hs rfl) (ih rfl ht)

theorem append (h : Upserts E run world case os s t) (h' : Upserts E run world case os' t u) :
    Upserts E run world case (os ++ os') s u := by
  induction h with
  | nil he         => exact h'.of_eq he.symm rfl
  | cons ho _ ih => exact .cons ho (ih h')

-- Attempts that do not complete store no score.
theorem case_results_eq (h : Upserts E run world case os s t)
    (hne : ∀ o ∈ os, o.status ≠ .completed) : t.case_results = s.case_results := by
  induction h with
  | nil he                 => exact he
  | @cons o _ _ _ _ ho _ ih =>
    have ho' := ho.unscored (hne o (.head _)) |>.right
    exact (ih fun o' ho' => hne o' (.tail _ ho')).trans ho'

theorem inv_append (h : Upserts E run world case (os ++ o :: os') s t) :
    ∃ u v, Upserted E run world case o u v ∧ Upserts E run world case os' v t := by
  induction os generalizing s with
  | nil          =>
    cases h with
    | cons ho h => exact ⟨_, _, ho, h⟩
  | cons _ os ih =>
    cases h with
    | cons _ h => exact ih h

end Upserts

-- Where an attempt stands among those of its case.
def index (o : AttemptResult) : ℕ ×ₗ ℕ :=
  toLex (o.repeat_index, o.attempt)

theorem index_lt_of_repeat_lt {o o' : AttemptResult} (h : o.repeat_index < o'.repeat_index) :
    index o < index o' :=
  Prod.Lex.toLex_lt_toLex.mpr <| .inl h

theorem index_lt_of_attempt_lt {o o' : AttemptResult} (h : o.repeat_index = o'.repeat_index)
    (h' : o.attempt < o'.attempt) : index o < index o' :=
  Prod.Lex.toLex_lt_toLex.mpr <| .inr ⟨h, h'⟩

-- Consecutive attempts of a case at growing indices.
structure Series (E : Engine) (run : Run) (world : Invocation → Supply) (case : TestCase)
    (os : List AttemptResult) (s t : Storage.State) : Prop where
  upserts : Upserts E run world case os s t
  sorted   : os.Pairwise (index · < index ·)

theorem Series.append (h : Series E run world case os s t) (h' : Series E run world case os' t u)
    (hlt : ∀ o ∈ os, ∀ o' ∈ os', index o < index o') :
    Series E run world case (os ++ os') s u :=
  ⟨h.upserts.append h'.upserts, List.pairwise_append.mpr ⟨h.sorted, h'.sorted, hlt⟩⟩

theorem Series.single (h : Upserted E run world case o s t) : Series E run world case [o] s t :=
  ⟨.cons h (.nil rfl), List.pairwise_singleton _ _⟩

theorem wp_run_retries_series :
    (E.run_retries run case r n k).wp (returning E run p world) (fun (os, _) t =>
      Series E run world case os s t ∧ ∀ o ∈ os, o.repeat_index = r ∧ k ≤ o.attempt) s := by
  induction n generalizing k s with
  | zero      => exact ⟨⟨.nil rfl, .nil⟩, nofun⟩
  | succ n ih =>
    rw [run_retries, Prog.wp_bind]
    refine Prog.wp_mono ?_ wp_run_attempt_made
    rintro ⟨o, w⟩ t ⟨ho, hr, hk⟩
    have hone : ∀ o' ∈ [o], o'.repeat_index = r ∧ k ≤ o'.attempt := by
      intro o' ho'
      rw [List.mem_singleton.mp ho']
      exact ⟨hr, hk.ge⟩
    dsimp only
    split
    case isTrue  => exact ⟨.single ho, hone⟩
    case isFalse =>
      rw [Prog.wp_bind]
      refine Prog.wp_mono ?_ ih
      rintro ⟨os, w'⟩ u ⟨hs, hos⟩
      refine ⟨Series.append (.single ho) hs ?_, ?_⟩
      · intro o' ho' o'' ho''
        have h' := hos o'' ho''
        rw [List.mem_singleton.mp ho']
        exact index_lt_of_attempt_lt (hr.trans h'.left.symm) (by omega)
      · intro o' ho'
        obtain ho' | ho' := List.mem_append (s := [o]).mp ho'
        · exact hone o' ho'
        · have h' := hos o' ho'
          exact ⟨h'.left, by omega⟩

-- The first attempts and the retries of an execution, as one series.
structure Sequenced (E : Engine) (run : Run) (world : Invocation → Supply) (case : TestCase)
    (firsts retries : List AttemptResult) (s t : Storage.State) : Prop where
  series  : ∃ os, Series E run world case os s t ∧ ∀ o, o ∈ os ↔ o ∈ firsts ++ retries
  firsts  : ∀ o ∈ firsts, o.attempt = 0
  retries : ∀ o ∈ retries, 0 < o.attempt

theorem wp_run_repeats_sequenced :
    (E.run_repeats run case n r).wp (returning E run p world) (fun made t =>
      Sequenced E run world case made.1 made.2.1 s t ∧
        ∀ o ∈ made.1 ++ made.2.1, r ≤ o.repeat_index) s := by
  induction n generalizing r s with
  | zero      =>
    exact ⟨⟨⟨[], ⟨.nil rfl, .nil⟩, fun _ => Iff.rfl⟩, by simp, by simp⟩, by simp⟩
  | succ n ih =>
    rw [run_repeats, Prog.wp_bind]
    refine Prog.wp_mono ?_ wp_run_attempt_made
    rintro ⟨o, w⟩ t ⟨ho, hr, hk⟩
    have hrest : ∀ retries w' u, Series E run world case retries t u →
        (∀ o' ∈ retries, o'.repeat_index = r ∧ 1 ≤ o'.attempt) →
        Prog.wp (returning E run p world) (do
          let rest ← E.run_repeats run case n (r + 1)
          return (o :: rest.1, retries ++ rest.2.1, w ++ w' ++ rest.2.2)) (fun made v =>
            Sequenced E run world case made.1 made.2.1 s v ∧
              ∀ o ∈ made.1 ++ made.2.1, r ≤ o.repeat_index) u := by
      intro retries w' u hser hret
      rw [Prog.wp_bind]
      refine Prog.wp_mono ?_ ih
      rintro ⟨firsts, others, rest⟩ v ⟨⟨⟨os, hos, hmem⟩, hfirsts, hothers⟩, hrange⟩
      have hlow : ∀ o' ∈ [o] ++ retries, o'.repeat_index = r := by
        intro o' ho'
        obtain ho' | ho' := List.mem_append.mp ho'
        · rw [List.mem_singleton.mp ho', hr]
        · exact hret o' ho' |>.left
      have hown : Series E run world case ([o] ++ retries) s u := by
        refine Series.append (.single ho) hser fun o' ho' o'' ho'' => ?_
        have h' := hret o'' ho''
        rw [List.mem_singleton.mp ho']
        exact index_lt_of_attempt_lt (hr.trans h'.left.symm) (by omega)
      have hall : Series E run world case ([o] ++ retries ++ os) s v := by
        refine hown.append hos fun o' ho' o'' ho'' => index_lt_of_repeat_lt ?_
        have h' := hrange o'' <| (hmem o'').mp ho''
        have h'' := hlow o' ho'
        omega
      refine ⟨⟨⟨_, hall, fun o' => ?_⟩, ?_, ?_⟩, ?_⟩
      · simp only [List.mem_append, List.mem_cons, hmem]
        tauto
      · intro o' ho'
        cases ho' with
        | head        => exact hk
        | tail _ ho' => exact hfirsts o' ho'
      · intro o' ho'
        obtain ho' | ho' := List.mem_append.mp ho'
        · exact hret o' ho' |>.right
        · exact hothers o' ho'
      · intro o' ho'
        simp only [List.mem_append, List.mem_cons] at ho'
        obtain (rfl | ho') | ho' | ho' := ho'
        · exact hr.ge
        · exact (r.le_succ).trans <| hrange o' <| List.mem_append_left _ ho'
        · exact (hret o' ho').left.ge
        · exact (r.le_succ).trans <| hrange o' <| List.mem_append_right _ ho'
    dsimp only
    split
    case isTrue =>
      rw [Prog.wp_bind]
      refine Prog.wp_mono ?_ wp_run_retries_series
      rintro ⟨retries, w'⟩ u ⟨hu, hret⟩
      exact hrest retries w' u hu hret
    case isFalse =>
      rw [Prog.wp_bind]
      exact hrest [] [] t ⟨.nil rfl, .nil⟩ (by simp)

theorem Sequenced.of_eq {firsts retries : List AttemptResult}
    (h : Sequenced E run world case firsts retries s t) (hs : s'.case_results = s.case_results)
    (ht : t'.case_results = t.case_results) : Sequenced E run world case firsts retries s' t' := by
  obtain ⟨⟨os, hos, hmem⟩, hf, hr⟩ := h
  exact ⟨⟨os, ⟨hos.upserts.of_eq hs ht, hos.sorted⟩, hmem⟩, hf, hr⟩

theorem wp_run_case_inner_sequenced (hcase : case ∈ run.spec.cases) :
    (E.run_case_inner run case.case_id).wp (returning E run p world) (fun result t =>
      Sequenced E run world case result.repeat_outcomes result.retry_outcomes s t) s := by
  rw [run_case_inner, EvaluationSpec.find_case hcase]
  simp only [Prog.wp_bind]
  refine wp_call_keeps rfl fun _ t ht => ?_
  refine wp_call_keeps rfl fun prior u hu => ?_
  refine Prog.wp_mono ?_ wp_run_repeats_sequenced
  rintro ⟨firsts, retries, w⟩ v ⟨hv, -⟩
  dsimp only
  split
  case isTrue =>
    rw [Prog.wp_bind]
    exact wp_call_keeps rfl fun _ y hy => hv.of_eq (hu.trans ht).symm hy
  case isFalse =>
    unfold close_case
    obtain ⟨cl, cat⟩ := classify_case firsts
    simp only [Prog.wp_bind]
    refine wp_call_keeps rfl fun _ y hy => ?_
    refine wp_call_keeps rfl fun _ z hz => ?_
    refine wp_call_keeps rfl fun record z' hz' => ?_
    cases record with
    | none   => trivial
    | some _ => exact hv.of_eq (hu.trans ht).symm (hz'.trans <| hz.trans hy)

def CaseRunResult.outcomes (result : CaseRunResult) : List AttemptResult :=
  result.repeat_outcomes ++ result.retry_outcomes

-- The last attempt of an execution that was scored.
structure Latest (result : CaseRunResult) (o : AttemptResult) : Prop where
  mem       : o ∈ result.outcomes
  completed : o.status = .completed
  last      : ∀ o' ∈ result.outcomes, o'.status = .completed → index o' ≤ index o

-- Whether the number of an attempt reaches its scores under a metric.
def Told (E : Engine) (run : Run) (world : Invocation → Supply) (case : TestCase)
    (o : AttemptResult) (metric : Metric) : Prop :=
  ∀ result, invocation E run (world ⟨case, o.attempt_id, o.repeat_index, o.attempt, none⟩) =
      .ok result →
    told E (E.kept_events result.trace_events) (E.candidate_output result) result.status o.attempt
      metric

theorem Upserted.numbered (h : Upserted E run world case o s t) :
    ∀ score ∈ o.scores, ∃ metric ∈ run.spec.metrics, score.metric_id = metric.metric_id ∧
      (o.attempt = 0 ∨ Told E run world case o metric → Numbered metric o.attempt score) := by
  intro score hscore
  by_cases hc : o.status = .completed
  case neg =>
    rw [h.unscored hc |>.left] at hscore
    cases hscore
  obtain ⟨result, rows, hi, hsc, -, -⟩ := h.scored hc
  obtain ⟨metric, hmetric, hm⟩ := Except.mapM_eq_ok_iff.mp hsc |>.exists_of_mem_right hscore
  refine ⟨metric, hmetric, ?_, fun ht => ?_⟩
  · obtain ⟨_, hn⟩ := score_metric_identity hm
    exact hn.left
  · exact score_metric_numbered hm <| ht.imp_right fun ht => ht result hi

-- The scores of an attempt that completed are the rows of its metrics, until another one completes.
theorem Upserted.rows (h : Upserted E run world case o s t) (hc : o.status = .completed)
    {metric : Metric} (hm : metric ∈ run.spec.metrics) :
    ∃ score ∈ o.scores, score.metric_id = metric.metric_id ∧ ∃ row,
      State.case_metric_result run.spec.metrics case.case_id 1 score = .ok row ∧
      t.case_results.find (case.case_id, metric.metric_id, 1) = some row := by
  obtain ⟨result, rows, -, hsc, hrows, ht⟩ := h.scored hc
  have hscores := Except.mapM_eq_ok_iff.mp hsc
  have hrows := Except.mapM_eq_ok_iff.mp hrows
  have hid : ∀ {metric score}, E.score_metric
      (some ⟨E.candidate_output result, E.kept_events result.trace_events⟩) run case.case_id
      (E.kept_events result.trace_events) (E.candidate_output result) result.status o.attempt
      metric = .ok score → score.metric_id = metric.metric_id := by
    intro metric score hs
    obtain ⟨_, hn⟩ := score_metric_identity hs
    exact hn.left
  have hkey : ∀ {score row}, State.case_metric_result run.spec.metrics case.case_id 1 score =
      .ok row → row.key = (case.case_id, score.metric_id, 1) := by
    intro score row hr
    obtain ⟨_, _, hr⟩ := Except.bind_eq_ok_iff.mp hr
    cases hr
    rfl
  obtain ⟨score, hscore, hs⟩ := hscores.exists_of_mem_left hm
  obtain ⟨row, hrow, hr⟩ := hrows.exists_of_mem_left hscore
  have hnodup : (rows.map CaseMetricResult.key).Nodup := by
    have hids : run.spec.metrics.map (·.metric_id) = o.scores.map (·.metric_id) :=
      hscores.map_eq fun _ _ h => (hid h).symm
    have hkeys : (o.scores.map (·.metric_id)).map (fun id => (case.case_id, id, 1)) =
        rows.map CaseMetricResult.key := by
      rw [List.map_map]
      exact hrows.map_eq fun _ _ h => (hkey h).symm
    have hinj : Function.Injective fun id : String => (case.case_id, id, 1) := by
      intro id id' h
      simpa using h
    rw [← hkeys, ← hids]
    exact run.spec.unique_metrics.map hinj
  refine ⟨score, hscore, hid hs, row, hr, ?_⟩
  have hf := Table.find_foldl_upsert_of_mem (t := s.case_results) hrow hnodup
  rw [hkey hr, hid hs] at hf
  rw [ht]
  exact hf

theorem Series.latest (h : Series E run world case os s t) (ho : o ∈ os)
    (hlast : ∀ o' ∈ os, o'.status = .completed → index o' ≤ index o) :
    ∃ u v, Upserted E run world case o u v ∧ t.case_results = v.case_results := by
  obtain ⟨before, after, rfl⟩ := List.append_of_mem ho
  obtain ⟨u, v, hup, hrest⟩ := h.upserts.inv_append
  refine ⟨u, v, hup, hrest.case_results_eq fun o' ho' hc' => ?_⟩
  have hlt : index o < index o' :=
    List.pairwise_cons.mp (List.pairwise_append.mp h.sorted).right.left |>.left o' ho'
  have hmem : o' ∈ before ++ o :: after := List.mem_append_right before (.tail o ho')
  exact (hlast o' hmem hc').not_gt hlt

theorem Upserts.landed (h : Upserts E run world case os s t) (ho : o ∈ os) :
    ∃ u v, Upserted E run world case o u v := by
  obtain ⟨before, after, rfl⟩ := List.append_of_mem ho
  obtain ⟨u, v, hup, -⟩ := h.inv_append
  exact ⟨u, v, hup⟩

-- After an execution of a case, the stored row of a metric is that of the last attempt that
-- completed. The scores of a first attempt are authoritative, and those of a retry are flagged with
-- its number where the number is passed along or is that of its events.
theorem last_attempt_wins (E : Engine) (run : Run) (p : Redaction.Patterns)
    (world : Invocation → Supply) (case : TestCase) (hcase : case ∈ run.spec.cases)
    (s t : Storage.State) (result : CaseRunResult)
    (e : Prog.Exec (store run p) (supplied E world) (E.run_case_inner run case.case_id) s t
      (.ok result)) :
    (∀ o ∈ result.outcomes, ∀ score ∈ o.scores, ∃ metric ∈ run.spec.metrics,
      score.metric_id = metric.metric_id ∧
      (o.attempt = 0 ∨ Told E run world case o metric → Numbered metric o.attempt score)) ∧
    (∀ o, Latest result o → ∀ metric ∈ run.spec.metrics, ∃ score ∈ o.scores,
      score.metric_id = metric.metric_id ∧ ∃ row,
      State.case_metric_result run.spec.metrics case.case_id 1 score = .ok row ∧
      t.case_results.find (case.case_id, metric.metric_id, 1) = some row) := by
  have hwp : (E.run_case_inner run case.case_id).wp (returning E run p world) (fun result t =>
      Sequenced E run world case result.repeat_outcomes result.retry_outcomes s t) s :=
    wp_run_case_inner_sequenced hcase
  have hmeets := Prog.wp_sound e trivial hwp |>.right
  obtain ⟨⟨os, hser, hmem⟩, -, -⟩ : Sequenced E run world case result.repeat_outcomes
    result.retry_outcomes s t := hmeets
  constructor
  · intro o ho
    obtain ⟨u, v, hup⟩ := hser.upserts.landed <| (hmem o).mpr ho
    exact hup.numbered
  · intro o ho metric hm
    obtain ⟨u, v, hup, ht⟩ := hser.latest ((hmem o).mpr ho.mem)
      fun o' ho' => ho.last o' <| (hmem o').mp ho'
    obtain ⟨score, hscore, hid, row, hrow, hf⟩ := hup.rows ho.completed hm
    exact ⟨score, hscore, hid, row, hrow, ht ▸ hf⟩

namespace Retrying

open OneCase

def retrying : Run :=
  { frozen with retry_max := 1 }

def event (x : Invocation) : TraceEvent :=
  { Collision.event x.attempt_id x.repeat_index with
    event_id := x.attempt_id ++ "-e"
    attempt  := x.attempt }

-- An agent that gets it right at the second attempt.
def learning (x : Invocation) : Supply where
  attempt_id      := x.attempt_id
  result_path     := "output/result.json"
  timeout_seconds := "60"
  process         :=
    .exited 0 (.payload (.obj [("status", .str "completed"),
      ("final_response", .str (if x.attempt = 0 then "no" else "yes"))]))
      (.opened 1 [.event (event x)] .eof)
  answer          := ⟨[], .error "no adapter", .ok []⟩

def reply (i : ℕ) : ∀ q : Query, q.Answer
  | .should_cancel _   => false
  | .uuid4             => s!"a{i}"
  | .invoke_agent x    => (learning x).invoked engine
  | .invoke_target _ x => (learning { x with remote_job_id := none }).answer
  | .set_order ids     => ⟨ids, .refl ids⟩

theorem reply_supplied (i : ℕ) (q : Query) : supplied engine learning q (reply i q) := by
  cases q <;> trivial

def execution : Storage.State × Prog.Outcome Storage.Error CaseRunResult :=
  (engine.run_case_inner retrying "c1").play (store retrying redactors) reply 40 0
    (created retrying)

theorem execution_exec :
    Prog.Exec (store retrying redactors) (supplied engine learning)
      (engine.run_case_inner retrying "c1") (created retrying) execution.1 execution.2 :=
  Prog.play_exec reply_supplied _ _ _ _

theorem execution_ok : ∃ result, execution.2 = .ok result ∧
    ∃ o ∈ result.repeat_outcomes, ∃ score ∈ o.scores, score.metric_id = "answer" := by
  have hany : execution.2.ok?.any (fun result => result.repeat_outcomes.any fun o =>
      o.scores.any (·.metric_id = "answer")) = true := by
    decide +kernel
  obtain ⟨result, hr, hs⟩ := Option.any_eq_true _ _ |>.mp hany
  refine ⟨result, Prog.Outcome.ok?_eq_some_iff.mp hr, ?_⟩
  simpa using hs

-- The first attempt was scored, and its row is the retry's.
theorem retry_replaces :
    ∃ result t row, Prog.Exec (store retrying redactors) (supplied engine learning)
        (engine.run_case_inner retrying "c1") (created retrying) t (.ok result) ∧
      (∃ o ∈ result.repeat_outcomes, ∃ score ∈ o.scores, score.metric_id = "answer") ∧
      t.case_results.find ("c1", "answer", 1) = some row ∧ row.is_authoritative = false := by
  obtain ⟨result, hr, hs⟩ := execution_ok
  have hrow : (execution.1.case_results.find ("c1", "answer", 1)).any (!·.is_authoritative) =
      true := by
    decide +kernel
  obtain ⟨row, hf, ha⟩ := Option.any_eq_true _ _ |>.mp hrow
  exact ⟨result, execution.1, row, hr ▸ execution_exec, hs, hf, by simpa using ha⟩

theorem last_attempt_wins_retried :
    ∃ result, execution.2 = .ok result ∧
      (∀ o ∈ result.outcomes, ∀ score ∈ o.scores, ∃ metric ∈ retrying.spec.metrics,
        score.metric_id = metric.metric_id ∧
        (o.attempt = 0 ∨ Told engine retrying learning ⟨"c1", [], []⟩ o metric →
          Numbered metric o.attempt score)) ∧
      (∀ o, Latest result o → ∀ metric ∈ retrying.spec.metrics, ∃ score ∈ o.scores,
        score.metric_id = metric.metric_id ∧ ∃ row,
        State.case_metric_result retrying.spec.metrics "c1" 1 score = .ok row ∧
        execution.1.case_results.find ("c1", metric.metric_id, 1) = some row) := by
  obtain ⟨result, hr, _⟩ := execution_ok
  exact ⟨result, hr, last_attempt_wins engine retrying redactors learning ⟨"c1", [], []⟩ (.head _)
    (created retrying) execution.1 result (hr ▸ execution_exec)⟩

end Retrying

end Engine
