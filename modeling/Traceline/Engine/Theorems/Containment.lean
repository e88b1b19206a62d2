import Traceline.Engine.Theorems.Ingestion
import Traceline.Runner

open Lifecycle Spec Events Evaluators Storage

namespace Runner

variable {ending : TraceEnd} {lines : List TraceLine} {events : List TraceEvent} {lineno : ℕ}
variable {trace : TraceFile} {K : List TraceEvent → Prop} {payload : List (String × Json)}
variable {repr : Option Json → String} {exit_code : Int}

def TraceLine.event? : TraceLine → Option TraceEvent
  | .event e => some e
  | _        => none

-- No line is refused by the event parser.
def Parsed (lines : List TraceLine) : Prop :=
  ∀ m, .invalid m ∉ lines

-- The trace is told to be unusable, or its bytes decode and its events are fit.
def trace_fits (K : List TraceEvent → Prop) : TraceFile → Prop
  | .missing                  => K []
  | .unreadable _             => True
  | .opened size lines ending =>
    if size = 0 then K []
    else if size > MAX_TRACE_FILE_BYTES then True
    else
      Parsed lines →
        match ending with
        | .eof            => K (lines.filterMap (·.event?))
        | .os_error _     => True
        | .decode_error _ => False

theorem read_lines_parsed (h : Parsed lines) :
    read_lines ending lineno events lines =
      match ending with
      | .eof                  => .ok (.ok (events ++ lines.filterMap (·.event?)))
      | .os_error message     => .ok <| .error s!"trace file unreadable: {message}"
      | .decode_error message => .error message := by
  induction lines generalizing lineno events with
  | nil             => cases ending <;> simp [read_lines]
  | cons line lines ih =>
    have hl : Parsed lines := fun m hm => h m (.tail _ hm)
    cases line with
    | blank     => simp [read_lines, ih hl, TraceLine.event?]
    | event e   => simp [read_lines, ih hl, TraceLine.event?]
    | invalid m => exact absurd (.head _) (h m)

theorem read_lines_unparsed (h : ¬Parsed lines) :
    ∃ message, read_lines ending lineno events lines = .ok (.error message) := by
  induction lines generalizing lineno events with
  | nil                => exact absurd (by simp [Parsed]) h
  | cons line lines ih =>
    have hl : (∀ m, line ≠ .invalid m) → ¬Parsed lines := by
      intro hne hp
      refine h fun m hm => ?_
      obtain hm | hm := List.mem_cons.mp hm
      · exact hne m hm.symm
      · exact hp m hm
    cases line with
    | blank     => exact ih <| hl nofun
    | event e   => exact ih <| hl nofun
    | invalid m => exact ⟨_, rfl⟩

theorem read_trace_fits_iff :
    trace_fits K trace ↔ ∃ r, read_trace trace = .ok r ∧ ∀ events, r = .ok events → K events := by
  cases trace with
  | missing      => simp [trace_fits, read_trace]
  | unreadable _ => simp [trace_fits, read_trace]
  | opened size lines ending =>
    simp only [trace_fits, read_trace]
    by_cases h0 : size = 0
    · simp [h0]
    by_cases hm : size > MAX_TRACE_FILE_BYTES
    · simp [h0, hm]
    simp only [h0, hm, if_false]
    by_cases hp : Parsed lines
    · rw [read_lines_parsed hp]
      cases ending <;> simp [hp]
    · obtain ⟨m, hr⟩ : ∃ m, read_lines ending 1 [] lines = .ok (.error m) :=
        read_lines_unparsed hp
      simp [hp, hr]

end Runner

namespace Storage.State

variable {s : State} {payload : Option (List (String × Json))} {scores : List CaseScore}
variable {metrics : List Metric} {attempt_id case_id : String} {revision : ℕ}

theorem save_attempt_output_of_finite (h : ∀ kvs ∈ payload, (Json.obj kvs).finiteFloats) :
    s.save_attempt_output attempt_id case_id payload =
      (.ok (), { s with outputs := s.outputs.upsert ⟨attempt_id, case_id, payload⟩ }) := by
  cases payload with
  | none     => rfl
  | some kvs =>
    have hd : dumps (.obj kvs) = .ok (.obj kvs) := if_pos (h kvs rfl)
    simp [save_attempt_output, hd]

theorem save_attempt_output_of_not_finite (h : ¬∀ kvs ∈ payload, (Json.obj kvs).finiteFloats) :
    ∃ e, s.save_attempt_output attempt_id case_id payload = (.error e, s) := by
  cases payload with
  | none     => exact absurd (by simp) h
  | some kvs =>
    have hf : ¬(Json.obj kvs).finiteFloats := fun hf => h fun _ hk => Option.some.inj hk ▸ hf
    have hd : ∃ e, dumps (.obj kvs) = .error e := ⟨_, if_neg hf⟩
    obtain ⟨e, hd⟩ := hd
    exact ⟨e, by simp [save_attempt_output, hd]⟩

theorem case_metric_result_ok_iff {score : CaseScore} :
    (∃ row, case_metric_result metrics case_id revision score = .ok row) ↔
      score.raw_value.finiteFloats := by
  by_cases h : score.raw_value.finiteFloats
  · have hd : dumps score.raw_value = .ok score.raw_value := if_pos h
    exact iff_of_true ⟨_, by rw [case_metric_result, hd]; rfl⟩ h
  · have hd : dumps score.raw_value = .error _ := if_neg h
    refine iff_of_false ?_ h
    rintro ⟨row, hr⟩
    rw [case_metric_result, hd] at hr
    cases hr

-- Scores go in together exactly where none of them holds a float that JSON does not know.
theorem upsert_case_metric_results_ok_iff :
    (∃ u, s.upsert_case_metric_results metrics case_id scores revision = (.ok (), u)) ↔
      ∀ score ∈ scores, score.raw_value.finiteFloats := by
  have hiff : (∃ rows, scores.mapM (case_metric_result metrics case_id revision) = .ok rows) ↔
      ∀ score ∈ scores, score.raw_value.finiteFloats := by
    rw [Except.exists_mapM_eq_ok_iff]
    exact forall₂_congr fun score _ => case_metric_result_ok_iff
  rw [← hiff]
  unfold upsert_case_metric_results
  cases scores.mapM (case_metric_result metrics case_id revision) <;> simp

end Storage.State

namespace Engine

variable {E : Engine} {run : Run} {p : Redaction.Patterns} {c : Prog.Spec (store run p)}
variable {s t : Storage.State} {x : Invocation} {st : AttemptStatus}

-- What the world supplies to one attempt: its id, and what its process or its adapter did.
structure Supply where
  attempt_id      : String
  result_path     : String
  timeout_seconds : String
  process         : Runner.Process
  answer          : TargetAnswer

variable {d : Supply}

def Supply.invoked (d : Supply) (E : Engine) : Except String InvocationResult :=
  Runner.invoke_agent E.L.repr d.result_path d.timeout_seconds d.process

-- The answers of a world that supplies nothing else.
def Supply.allows (d : Supply) (E : Engine) : ∀ q : Query, q.Answer → Prop
  | .uuid4,             id     => id = d.attempt_id
  | .invoke_agent _,    result => result = d.invoked E
  | .invoke_target _ _, answer => answer = d.answer
  | _,                  _      => True

def adapter_result (E : Engine) (result : AdapterResult) (proxy_events : List TraceEvent) :
    InvocationResult :=
  let status := outcome_status result.outcome
  let success := status = .completed ∨ status = .no_trace
  {
    status
    exit_code      := if success then some 0 else none
    trace_events   := result.trace_events ++ proxy_events
    result_payload := object_or_null (E.safe_content result.output)
    error          := if success then .null else .str result.outcome
  }

-- What the invocation of the attempt comes to.
def invocation (E : Engine) (run : Run) (d : Supply) : Except String InvocationResult :=
  if E.has_target_adapter then
    match run.invocation_manifest with
    | none   =>
      .ok {
        status    := .invocation_failed
        exit_code := none
        error     := .str "run has no worker-owned invocation manifest"
      }
    | some _ =>
      match d.answer.result, d.answer.proxy_events with
      | .error message, _                => .error message
      | .ok _,          .error message   => .error message
      | .ok result,     .ok proxy_events => .ok (adapter_result E result proxy_events)
  else d.invoked E

-- The evidence of an attempt that came to an end is refused, or storage takes all of it.
def evidence_fits (E : Engine) (run : Run) (x : Invocation) (status : InvocationStatus)
    (events : List TraceEvent) (payload : Json) : Prop :=
  ¬Accepts E run x events ∨
    let kept := E.kept_events events
    let output := (E.safe_content payload).fields?
    State.Storable kept ∧
      (∀ kvs ∈ output, (Json.obj kvs).finiteFloats) ∧
      ∀ scores, E.score_attempt_metrics (some ⟨output, kept⟩) run x.case.case_id kept output status
        x.attempt = .ok scores → ∀ score ∈ scores, score.raw_value.finiteFloats

-- What is kept of an attempt that failed is refused, or storage takes it with the error.
def failure_fits (E : Engine) (run : Run) (x : Invocation) (events : List TraceEvent)
    (error : Json) : Prop :=
  let proxy_evidence := events.filter (·.source = .proxy)
  ¬Accepts E run x proxy_evidence ∨
    State.Storable (E.kept_events proxy_evidence) ∧ State.bind_parameter error = .ok ()

def result_fits (E : Engine) (run : Run) (x : Invocation) (result : InvocationResult) : Prop :=
  if result.status = .completed ∨ result.status = .no_trace then
    evidence_fits E run x result.status result.trace_events result.result_payload
  else failure_fits E run x result.trace_events result.error

-- A world that answers the questions about an attempt from its supply.
structure Supplies (allow : ∀ q : Query, q.Answer → Prop) (E : Engine) (x : Invocation)
    (d : Supply) : Prop where
  agent  : ∀ r, allow (.invoke_agent x) r → r = d.invoked E
  target : ∀ manifest job r,
    allow (.invoke_target manifest { x with remote_job_id := job }) r → r = d.answer

theorem Supply.supplies : Supplies (d.allows E) E x d :=
  ⟨fun _ h => h, fun _ _ _ h => h⟩

theorem wp_invoke_supplied {R : Storage.State → Prop} {Q : InvocationResult → Storage.State → Prop}
    (hR : ∀ u job, R u → R (u.save_remote_job job)) (h : R t) (ha : Supplies c.allow E x d)
    (hinv : ∀ u, c.inv u)
    (herr : ∀ m e u, invocation E run d = .error m → R u → c.error e u)
    (hq : ∀ r u, invocation E run d = .ok r → R u → Q r u) :
    (E.invoke run x).wp c Q t := by
  unfold invoke
  split
  case isFalse ht =>
    have hi : invocation E run d = d.invoked E := if_neg ht
    rw [Prog.wp_bind]
    intro answer hans
    obtain rfl := ha.agent answer hans
    cases hr : d.invoked E with
    | ok r    => exact hq r t (hi.trans hr) h
    | error m => exact herr m _ t (hi.trans hr) h
  case isTrue ht =>
    unfold invoke_target
    split
    case h_1 hm => exact hq _ t (by simp [invocation, ht, hm]) h
    case h_2 manifest hm =>
      rw [Prog.wp_bind]
      refine wp_remote_job (hinv t) fun job => ?_
      rw [Prog.wp_bind]
      intro answer hans
      obtain rfl := ha.target manifest _ answer hans
      change (E.target_result x d.answer).wp c Q t
      rw [target_result, Prog.wp_bind]
      refine wp_persist_remote_jobs hR h (fun u _ => hinv u) fun u hu => ?_
      split
      case h_1 m hr => exact herr m _ u (by simp [invocation, ht, hm, hr]) hu
      case h_2 result hr =>
        split
        case h_1 m hp => exact herr m _ u (by simp [invocation, ht, hm, hr, hp]) hu
        case h_2 proxy_events hp =>
          have hi : invocation E run d = .ok (adapter_result E result proxy_events) := by
            simp [invocation, ht, hm, hr, hp]
          split
          case h_1 id _ =>
            simp only [save_remote_job, Prog.wp_bind, wp_save_remote_job]
            exact ⟨hinv _, hq _ _ hi (hR _ _ hu)⟩
          case h_2 => exact hq _ u hi hu

theorem wp_guarded_invoke_supplied {Q : InvocationResult → Storage.State → Prop}
    (h : Trying x .running s t) (ha : Supplies c.allow E x d) (hinv : ∀ u, c.inv u)
    (herr : ∀ m e u, invocation E run d = .error m → c.error e u)
    (hq : ∀ r u, invocation E run d = .ok r → Trying x .running s u → Q r u) :
    (E.guarded_invoke run x).wp c Q t := by
  rw [guarded_invoke, Prog.wp_tryCatch]
  refine wp_invoke_supplied (d := d) (fun _ job hu => hu.save_remote_job job) h ha hinv ?_ hq
  intro m e u hi hu
  simp only
  rw [Prog.wp_bind]
  exact wp_set_own_status hu (by simp [AttemptStatus.next]) (fun v _ => hinv v)
    fun v _ _ _ => herr m e v hi

-- The attempt came to an end, and is stored so.
def Settled (x : Invocation) (s : Storage.State) (o : AttemptResult) (t : Storage.State) : Prop :=
  Tried x s o t ∧ live o.status = false

theorem wp_refused_attempt_settled {result : InvocationResult} {m : String}
    {Q : AttemptResult → Storage.State → Prop} (h : Trying x .running s t) (hinv : ∀ u, c.inv u)
    (hq : ∀ o u, Settled x s o u → Q o u) : (refused_attempt x result m).wp c Q t :=
  wp_refused_attempt h (fun _ u _ => hinv u) fun o u ho hst _ => hq o u ⟨ho, by simp [live, hst]⟩

-- Everything that ingesting comes to where a refusal is caught.
theorem wp_try_ingest_cases {events : List TraceEvent}
    {Q : Except String (List TraceEvent × Bool) → Storage.State → Prop} (hinv : ∀ u, c.inv u)
    (hrefused : ∀ m, ¬Accepts E run x events → Q (.error m) t)
    (hraised : Accepts E run x events → ¬State.Storable (E.kept_events events) →
      ∀ e u, c.error e u)
    (hkept : ∀ b, Accepts E run x events → State.Storable (E.kept_events events) →
      Q (.ok (E.kept_events events, b)) (ingested p (E.kept_events events) t)) :
    (catch_engine_error (E.ingest_events run x events)).wp c Q t := by
  rw [wp_catch_engine_error]
  refine wp_ingest_events_cases hrefused ?_ fun b ha hs => ⟨hinv _, hkept b ha hs⟩
  intro e hne ha hs
  refine ⟨hinv _, ?_⟩
  cases e with
  | engine_error m => exact absurd rfl (hne m)
  | _              => exact hraised ha hs _ _

theorem Trying.ingested {events : List TraceEvent} (h : Trying x st s t)
    (ha : Accepts E run x events) : Trying x st s (ingested p (E.kept_events events) t) := by
  refine h.insert_events fun e he => ?_
  obtain ⟨e', he', rfl⟩ := List.mem_map.mp he
  exact kept_attempt_id ha e' he' |>.right

theorem wp_failed_attempt_fits {result : InvocationResult} {Q : AttemptResult → Storage.State → Prop}
    (hl : st ∈ AttemptStatus.running.next) (hs : live st = false) (h : Trying x .running s t)
    (hinv : ∀ u, c.inv u)
    (herr : ¬failure_fits E run x result.trace_events result.error → ∀ e u, c.error e u)
    (hq : failure_fits E run x result.trace_events result.error →
      ∀ o u, Settled x s o u → Q o u) :
    (E.failed_attempt run x result st).wp c Q t := by
  set proxy_evidence := result.trace_events.filter (·.source = .proxy) with hproxy
  have hkept : ∀ kept truncated u, Trying x .running s u →
      State.Storable (E.kept_events proxy_evidence) → Accepts E run x proxy_evidence →
      Prog.wp c (do
        call (.set_attempt_status x.attempt_id st {
          exit_code       := result.exit_code
          error           := result.error
          event_count     := some kept
          trace_truncated := some truncated
        })
        return attempt_result x st result kept truncated result.error) Q u := by
    intro kept truncated u hu hsto hacc
    rw [Prog.wp_bind]
    cases hb : State.bind_parameter result.error with
    | ok _    =>
      exact wp_set_own_status hu hl (fun v _ => hinv v)
        (fun v hv _ _ => hq (.inr ⟨hsto, hb⟩) _ v ⟨⟨hv, rfl, rfl, rfl⟩, hs⟩) hb
    | error e =>
      refine wp_set_own_status_unbound hu hl hb (hinv u) <| herr ?_ e u
      rintro (hn | ⟨-, hn⟩)
      · exact hn hacc
      · cases hb.symm.trans hn
  unfold failed_attempt
  dsimp only
  split
  case isTrue he =>
    have he : proxy_evidence = [] := he
    rw [Prog.wp_bind]
    refine hkept 0 false t h ?_ ?_
    · rw [he]
      exact ⟨by simp [kept_events], by simp [kept_events]⟩
    · rw [he]
      rfl
  case isFalse =>
    rw [Prog.wp_bind]
    refine wp_try_ingest_cases hinv ?_ ?_ ?_
    · intro m hn
      exact wp_refused_attempt_settled h hinv <| hq <| .inl hn
    · intro hacc hn
      refine herr ?_
      rintro (hr | ⟨hsto, -⟩)
      · exact hr hacc
      · exact hn hsto
    · intro b hacc hsto
      exact hkept _ b _ (h.ingested hacc) hsto hacc

theorem wp_completed_attempt_fits {result : InvocationResult}
    {Q : AttemptResult → Storage.State → Prop} (h : Trying x .running s t) (hinv : ∀ u, c.inv u)
    (hscored : ∃ scores, E.score_attempt_metrics
      (some ⟨E.candidate_output result, E.kept_events result.trace_events⟩) run x.case.case_id
      (E.kept_events result.trace_events) (E.candidate_output result) result.status x.attempt =
      .ok scores)
    (herr : ¬evidence_fits E run x result.status result.trace_events result.result_payload →
      ∀ e u, c.error e u)
    (hq : evidence_fits E run x result.status result.trace_events result.result_payload →
      ∀ o u, Settled x s o u → Q o u) :
    (E.completed_attempt run x result).wp c Q t := by
  obtain ⟨scores, hsc⟩ := hscored
  have hfits : evidence_fits E run x result.status result.trace_events result.result_payload ↔
      ¬Accepts E run x result.trace_events ∨
        State.Storable (E.kept_events result.trace_events) ∧
        (∀ kvs ∈ E.candidate_output result, (Json.obj kvs).finiteFloats) ∧
        ∀ score ∈ scores, score.raw_value.finiteFloats := by
    refine or_congr_right <| and_congr_right fun _ => and_congr_right fun _ => ?_
    exact ⟨fun hf => hf scores hsc, fun hf _ hs => Except.ok.inj (hsc.symm.trans hs) ▸ hf⟩
  rw [hfits] at herr hq
  rw [completed_attempt, Prog.wp_bind]
  refine wp_try_ingest_cases hinv ?_ ?_ ?_
  · intro m hn
    exact wp_refused_attempt_settled h hinv <| hq <| .inl hn
  · intro hacc hn
    refine herr ?_
    rintro (hr | ⟨hsto, -⟩)
    · exact hr hacc
    · exact hn hsto
  intro b hacc hsto
  simp only [Prog.wp_bind]
  refine wp_set_own_status (h.ingested hacc) (by simp [AttemptStatus.next]) (fun v _ => hinv v) ?_
  intro v hv _ _
  by_cases hout : ∀ kvs ∈ E.candidate_output result, (Json.obj kvs).finiteFloats
  case neg =>
    obtain ⟨e, he⟩ : ∃ e, v.save_attempt_output x.attempt_id x.case.case_id
        (E.candidate_output result) = (.error e, v) :=
      State.save_attempt_output_of_not_finite hout
    refine wp_call_of (d := .save_attempt_output _ _ (E.candidate_output result)) ?_ ?_
    · intro _ w hw
      cases he.symm.trans hw
    · intro e' w _
      refine ⟨hinv w, herr ?_ e' w⟩
      rintro (hr | ⟨-, ho, -⟩)
      · exact hr hacc
      · exact hout ho
  refine (wp_call_ok (d := .save_attempt_output _ _ (E.candidate_output result))
    (State.save_attempt_output_of_finite hout)).mpr ⟨hinv _, ?_⟩
  have hw := hv.save_output (E.candidate_output result)
  rw [wp_lift, hsc]
  set w : Storage.State := { v with
    outputs := v.outputs.upsert ⟨x.attempt_id, x.case.case_id, E.candidate_output result⟩ }
  have hiff : (∃ u, w.upsert_case_metric_results run.spec.metrics x.case.case_id scores 1 =
      (.ok (), u)) ↔ ∀ score ∈ scores, score.raw_value.finiteFloats :=
    State.upsert_case_metric_results_ok_iff
  refine wp_call_of (d := .upsert_case_metric_results _ scores 1) ?_ ?_
  · intro _ u hu
    have hy := hw.upsert_case_metric_results hu |>.left
    exact ⟨hinv u, hq (.inr ⟨hsto, hout, hiff.mp ⟨u, hu⟩⟩) _ u ⟨⟨hy, rfl, rfl, rfl⟩, rfl⟩⟩
  · intro e u hu
    refine ⟨hinv u, herr ?_ e u⟩
    rintro (hr | ⟨-, -, hf⟩)
    · exact hr hacc
    · obtain ⟨u', hu'⟩ := hiff.mpr hf
      cases hu'.symm.trans hu

-- What an attempt is given does not get in its way.
def supply_fits (E : Engine) (run : Run) (d : Supply) (x : Invocation) : Prop :=
  ∃ result, invocation E run d = .ok result ∧ result_fits E run x result

-- The attempt of the case that the supply is for.
def Supply.attempt (d : Supply) (case : TestCase) (r k : ℕ) : Invocation where
  case
  attempt_id   := d.attempt_id
  repeat_index := r
  attempt      := k

-- The metrics of the attempt can be scored, whatever its invocation comes to.
def Scorable (E : Engine) (run : Run) (d : Supply) (x : Invocation) : Prop :=
  ∀ result, invocation E run d = .ok result → ∃ scores, E.score_attempt_metrics
    (some ⟨E.candidate_output result, E.kept_events result.trace_events⟩) run x.case.case_id
    (E.kept_events result.trace_events) (E.candidate_output result) result.status x.attempt =
    .ok scores

theorem wp_run_attempt_fits {case : TestCase} {r k : ℕ}
    {Q : AttemptResult × List String → Storage.State → Prop} (ha : c.allow = d.allows E)
    (hf : Free case.case_id r k s) (hid : s.attempts.find d.attempt_id = none)
    (hscored : Scorable E run d (d.attempt case r k)) (hinv : ∀ u, c.inv u)
    (herr : ¬supply_fits E run d (d.attempt case r k) → ∀ e u, c.error e u)
    (hq : supply_fits E run d (d.attempt case r k) →
      ∀ o w u, Settled (d.attempt case r k) s o u → Q (o, w) u) :
    (E.run_attempt run case r k).wp c Q s := by
  set x := d.attempt case r k with hx
  have herror : ∀ {result}, invocation E run d = .ok result → ¬result_fits E run x result →
      ∀ e u, c.error e u := by
    intro result hi hn
    refine herr ?_
    rintro ⟨result', hi', hfits⟩
    obtain rfl := Except.ok.inj <| hi.symm.trans hi'
    exact hn hfits
  rw [run_attempt, Prog.wp_bind, wp_ask]
  intro id hans
  rw [ha] at hans
  obtain rfl : id = d.attempt_id := hans
  rw [Prog.wp_bind]
  obtain ⟨_, _, _, b, hb⟩ | ⟨a, t, he, haid, ht, -⟩ := create_attempt_cases d.attempt_id hf
  · cases hid.symm.trans hb
  refine (wp_call_ok (d := .create_attempt d.attempt_id case.case_id r k) he).mpr ⟨hinv t, ?_⟩
  rw [haid]
  change Trying x .queued s t at ht
  simp only [Prog.wp_bind]
  refine wp_set_own_status ht (by simp [AttemptStatus.next]) (fun u _ => hinv u) fun u hu _ _ => ?_
  refine wp_guarded_invoke_supplied (d := d) hu (ha ▸ d.supplies) hinv ?_ fun result v hi hv => ?_
  · intro m e v hi
    refine herr ?_ e v
    rintro ⟨result, hi', -⟩
    cases hi.symm.trans hi'
  have hfailed : ∀ {st}, ¬(result.status = .completed ∨ result.status = .no_trace) →
      st ∈ AttemptStatus.running.next → live st = false →
      (E.failed_attempt run x result st).wp c (fun o u => Q (o, []) u) v := by
    intro st hne hl hs
    have hiff : result_fits E run x result ↔
        failure_fits E run x result.trace_events result.error := by
      rw [result_fits, if_neg hne]
    refine wp_failed_attempt_fits hl hs hv hinv ?_ ?_
    · exact fun hn => herror hi (mt hiff.mp hn)
    · exact fun hfit o u ho => hq ⟨result, hi, hiff.mpr hfit⟩ o [] u ho
  have hcompleted : ∀ w : AttemptResult → List String,
      result.status = .completed ∨ result.status = .no_trace →
      (E.completed_attempt run x result).wp c (fun o u => Q (o, w o) u) v := by
    intro w heq
    have hiff : result_fits E run x result ↔ evidence_fits E run x result.status
        result.trace_events result.result_payload := by
      rw [result_fits, if_pos heq]
    refine wp_completed_attempt_fits hv hinv (hscored result hi) ?_ ?_
    · exact fun hn => herror hi (mt hiff.mp hn)
    · exact fun hfit o u ho => hq ⟨result, hi, hiff.mpr hfit⟩ o (w o) u ho
  split
  case h_1 hst | h_2 hst | h_3 hst | h_4 hst =>
    rw [Prog.wp_bind]
    exact hfailed (by simp [hst]) (by simp [AttemptStatus.next]) rfl
  case h_5 hst =>
    rw [Prog.wp_bind]
    exact hcompleted (fun _ => []) (.inl hst)
  case h_6 hst =>
    rw [Prog.wp_bind]
    exact hcompleted
      (fun o => if o.status = .completed then [E.no_trace_warning x] else []) (.inr hst)

-- The attempt is returned, and stored with the terminal status that is returned.
def Contained (t : Storage.State) :
    Prog.Outcome Storage.Error (AttemptResult × List String) → Prop
  | .ok (a, _) => live a.status = false ∧
      ∃ row, t.attempts.find a.attempt_id = some row ∧ row.status = a.status
  | .error _   => False
  | .crash     => False

theorem Settled.contained {o : AttemptResult} {w : List String} (h : Settled x s o t) :
    Contained t (.ok (o, w)) := by
  obtain ⟨row, hrow, hst⟩ := h.left.trying.find
  exact ⟨h.right, row, h.left.attempt_id ▸ hrow, hst⟩

-- The error that a result reports is an object, or is none, and its message is one that storage
-- takes.
def report_fits (payload : List (String × Json)) : Prop :=
  ∃ block, Runner.error_block payload = .ok block ∧
    ∀ message ∈ block.lookup "message", message.truthy → State.bind_parameter message = .ok ()

def trace_events_fit (E : Engine) (run : Run) (x : Invocation) (payload : List (String × Json))
    (events : List TraceEvent) : Prop :=
  evidence_fits E run x (if events = [] then .no_trace else .completed) events (.obj payload)

def payload_fits (E : Engine) (run : Run) (x : Invocation) (payload : List (String × Json))
    (trace : Runner.TraceFile) : Prop :=
  let status := (payload.lookup "status").getD .null
  if status = .str "error" then report_fits payload
  else if status = .str "completed" then
    Runner.trace_fits (trace_events_fit E run x payload) trace
  else True

-- What a process did and left behind does not get in the way of its attempt.
def process_fits (E : Engine) (run : Run) (x : Invocation) : Runner.Process → Prop
  | .no_command                    => True
  | .not_spawned _                 => True
  | .timed_out exit_code           => exit_code.isOk
  | .exited exit_code result trace =>
    exit_code ≠ 0 ∨
      match result with
      | .missing                => True
      | .unreadable _           => True
      | .raised _               => False
      | .payload (.obj payload) => payload_fits E run x payload trace
      | .payload _              => True

-- What an attempt is given, as the agent and its adapter give it, does not get in its way.
def data_fits (E : Engine) (run : Run) (x : Invocation) (d : Supply) : Prop :=
  if E.has_target_adapter then
    run.invocation_manifest = none ∨
    ∃ result proxy_events, d.answer.result = .ok result ∧
      d.answer.proxy_events = .ok proxy_events ∧
      result_fits E run x (adapter_result E result proxy_events)
  else process_fits E run x d.process

theorem result_fits_of_failed {result : InvocationResult}
    (hs : ¬(result.status = .completed ∨ result.status = .no_trace))
    (he : result.trace_events = []) :
    result_fits E run x result ↔ State.bind_parameter result.error = .ok () := by
  have hacc : Accepts E run x [] := rfl
  have hsto : State.Storable (E.kept_events []) := ⟨by simp [kept_events], by simp [kept_events]⟩
  simp [result_fits, hs, failure_fits, he, hacc, hsto]

theorem failed_fits {exit_code : Option Int} {message : String}
    {payload : Option (List (String × Json))} :
    result_fits E run x (Runner.failed exit_code (.str message) payload) := by
  have hiff : result_fits E run x (Runner.failed exit_code (.str message) payload) ↔
      State.bind_parameter (.str message) = .ok () :=
    result_fits_of_failed (by simp [Runner.failed]) rfl
  exact hiff.mpr rfl

theorem message_or_fits_iff {block : List (String × Json)} {default : String} :
    State.bind_parameter (Runner.message_or block default) = .ok () ↔
      ∀ message ∈ block.lookup "message", message.truthy →
        State.bind_parameter message = .ok () := by
  unfold Runner.message_or
  cases block.lookup "message" with
  | none   => simp [State.bind_parameter]
  | some m =>
    by_cases hm : m.truthy
    · simp [Option.filter, hm]
    · simp [Option.filter, hm, State.bind_parameter]

theorem reported_fits_iff {repr : Option Json → String} {exit_code : Int}
    {payload : List (String × Json)} :
    report_fits payload ↔ ∃ result, Runner.reported repr exit_code payload = .ok result ∧
      result_fits E run x result := by
  unfold report_fits Runner.reported
  cases Runner.error_block payload with
  | error m  =>
    refine iff_of_false (by simp) ?_
    rintro ⟨_, ⟨⟩, _⟩
  | ok block =>
    have hfits : ∀ {result : InvocationResult} {default : String},
        ¬(result.status = .completed ∨ result.status = .no_trace) → result.trace_events = [] →
        result.error = Runner.message_or block default →
        (result_fits E run x result ↔ ∀ message ∈ block.lookup "message", message.truthy →
          State.bind_parameter message = .ok ()) := by
      intro result default hs he herr
      rw [result_fits_of_failed hs he, herr, message_or_fits_iff]
    by_cases ht : block.lookup "type" = some (.str "provider_unreachable")
    · simp only [ht, bind, Except.bind, pure, Except.pure, if_true, Except.ok.injEq,
        exists_eq_left']
      exact (hfits (by simp) rfl rfl).symm
    · simp only [ht, bind, Except.bind, pure, Except.pure, if_false, Except.ok.injEq,
        exists_eq_left']
      exact (hfits (by simp [Runner.failed]) rfl rfl).symm

theorem completed_fits_iff {exit_code : Int} {payload : List (String × Json)}
    {trace : Runner.TraceFile} :
    Runner.trace_fits (trace_events_fit E run x payload) trace ↔
      ∃ result, Runner.completed exit_code payload trace = .ok result ∧
        result_fits E run x result := by
  rw [Runner.read_trace_fits_iff]
  unfold Runner.completed
  cases Runner.read_trace trace with
  | error m =>
    refine iff_of_false (by simp) ?_
    rintro ⟨_, ⟨⟩, _⟩
  | ok r =>
    cases r with
    | error m   => simp [bind, Except.bind, pure, Except.pure, failed_fits]
    | ok events =>
      cases events with
      | nil           =>
        simp [bind, Except.bind, pure, Except.pure, trace_events_fit, result_fits]
      | cons e events =>
        simp [bind, Except.bind, pure, Except.pure, trace_events_fit, result_fits]

theorem process_fits_iff {repr : Option Json → String} {result_path timeout_seconds : String}
    {process : Runner.Process} :
    process_fits E run x process ↔
      ∃ result, Runner.invoke_agent repr result_path timeout_seconds process = .ok result ∧
        result_fits E run x result := by
  cases process with
  | no_command         => simp [process_fits, Runner.invoke_agent, failed_fits]
  | not_spawned m      => simp [process_fits, Runner.invoke_agent, failed_fits]
  | timed_out exit_code =>
    cases exit_code with
    | error m => simp [process_fits, Runner.invoke_agent, Except.isOk, Except.toBool, bind, Except.bind]
    | ok n    =>
      refine iff_of_true rfl ⟨_, rfl, ?_⟩
      exact (result_fits_of_failed (by simp) rfl).mpr rfl
  | exited exit_code result trace =>
    unfold process_fits Runner.invoke_agent
    by_cases hx : exit_code = 0
    case neg => simp [hx, failed_fits]
    simp only [hx, ne_eq, not_true, if_false, false_or]
    cases result with
    | missing       =>
      simp [Runner.read_result_json, bind, Except.bind, pure, Except.pure, failed_fits]
    | unreadable m  =>
      simp [Runner.read_result_json, bind, Except.bind, pure, Except.pure, failed_fits]
    | raised m      => simp [Runner.read_result_json, bind, Except.bind]
    | payload value =>
      cases value with
      | obj payload =>
        simp only [payload_fits, Runner.read_result_json, bind, Except.bind]
        by_cases he : (payload.lookup "status").getD .null = .str "error"
        · simp only [he, if_true]
          exact reported_fits_iff
        by_cases hc : (payload.lookup "status").getD .null = .str "completed"
        · simp only [hc, Json.str.injEq, String.reduceEq, not_true, if_false, if_true]
          exact completed_fits_iff
        · simp [he, hc, pure, Except.pure, failed_fits]
      | _           =>
        simp [Runner.read_result_json, bind, Except.bind, pure, Except.pure, failed_fits]

theorem data_fits_iff : data_fits E run x d ↔ supply_fits E run d x := by
  unfold data_fits supply_fits invocation
  split
  case isFalse => exact process_fits_iff
  case isTrue  =>
    cases run.invocation_manifest with
    | none   =>
      refine iff_of_true (.inl rfl) ⟨_, rfl, ?_⟩
      exact (result_fits_of_failed (by simp) rfl).mpr rfl
    | some _ => cases d.answer.result <;> cases d.answer.proxy_events <;> simp

namespace Hostile

open OneCase

-- An agent that completes without a trace and leaves a result with one more field.
def supply (field : String × Json) : Supply where
  attempt_id      := "a1"
  result_path     := "output/result.json"
  timeout_seconds := "60"
  process         := .exited 0 (.payload (.obj [("status", .str "completed"), field])) .missing
  answer          := ⟨[], .error "no adapter", .ok []⟩

def world (d : Supply) : ∀ q : Query, q.Answer
  | .should_cancel _   => false
  | .uuid4             => d.attempt_id
  | .invoke_agent _    => d.invoked engine
  | .invoke_target _ _ => d.answer
  | .set_order ids     => ⟨ids, .refl ids⟩

theorem world_allowed (d : Supply) (q : Query) : d.allows engine q (world d q) := by
  cases q <;> trivial

def attempted (field : String × Json) :
    Storage.State × Prog.Outcome Storage.Error (AttemptResult × List String) :=
  (engine.run_attempt frozen ⟨"c1", [], []⟩ 0 0).run (store frozen redactors)
    (world (supply field)) 9 (created frozen)

theorem attempted_exec (field : String × Json) :
    Prog.Exec (store frozen redactors) ((supply field).allows engine)
      (engine.run_attempt frozen ⟨"c1", [], []⟩ 0 0) (created frozen) (attempted field).1
      (attempted field).2 :=
  Prog.run_exec (world_allowed _) _ _ _

theorem created_free : Free "c1" 0 0 (created frozen) :=
  nofun

def scores_of (field : String × Json) (result : InvocationResult) : Except Exc (List CaseScore) :=
  engine.score_attempt_metrics
    (some ⟨engine.candidate_output result, engine.kept_events result.trace_events⟩) frozen "c1"
    (engine.kept_events result.trace_events) (engine.candidate_output result) result.status
    ((supply field).attempt ⟨"c1", [], []⟩ 0 0).attempt

theorem scorable_of_isOk {field : String × Json}
    (h : ∀ result, invocation engine frozen (supply field) = .ok result →
      (scores_of field result).isOk) :
    Scorable engine frozen (supply field) ((supply field).attempt ⟨"c1", [], []⟩ 0 0) := by
  intro result hi
  have hok := h result hi
  change ∃ scores, scores_of field result = .ok scores
  cases hs : scores_of field result with
  | ok scores => exact ⟨scores, rfl⟩
  | error _   => simp [hs, Except.isOk, Except.toBool] at hok

theorem nan_scorable : Scorable engine frozen (supply ("cost", .float .nan))
    ((supply ("cost", .float .nan)).attempt ⟨"c1", [], []⟩ 0 0) := by
  refine scorable_of_isOk fun result hi => ?_
  obtain rfl := Except.ok.inj hi
  decide

end Hostile

end Engine
