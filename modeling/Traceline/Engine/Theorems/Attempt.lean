import Traceline.Engine.Theorems.Calls
import Traceline.Library.Except

open Lifecycle Spec Events Evaluators Storage

namespace Engine

variable {E : Engine} {run : Run} {p : Redaction.Patterns} {c : Prog.Spec (store run p)}
variable {s t u : Storage.State} {x : Invocation} {st : AttemptStatus}

-- The exceptions that the code around the engine raises, or the values it produces.
def External : Storage.Error → Prop
  | .evaluator _ | .raised _ | .engine_error _ | .value_error _ | .overflow_error _ => True
  | .integrity_error constraint => constraint = "run_case_attempts.attempt_id"
  | .key_error _ | .run_already_terminal _ | .illegal_transition _ => False

-- The row of the attempt that an invocation belongs to.
structure Own (x : Invocation) (st : AttemptStatus) (a : AttemptRecord) : Prop where
  attempt_id       : a.attempt_id = x.attempt_id
  case_id          : a.case_id = x.case.case_id
  repeat_index     : a.repeat_index = x.repeat_index
  attempt          : a.attempt = x.attempt
  is_first_attempt : a.is_first_attempt = decide (x.attempt = 0)
  status           : a.status = st

-- What work on one case leaves alone.
structure Apart (case_id : String) (s t : Storage.State) : Prop where
  status      : t.status = s.status
  others      : ∀ id, id ≠ case_id → t.get_case id = s.get_case id
  run_results : t.run_results = s.run_results
  evidence    : ∀ a ∈ s.attempts, ∀ w, t.evidence w a = s.evidence w a
  scores      : ∀ id, id ≠ case_id → ∀ metric_id revision,
    t.case_results.find (id, metric_id, revision) = s.case_results.find (id, metric_id, revision)

-- From `s` on, only the one attempt was worked on.
structure Trying (x : Invocation) (st : AttemptStatus) (s t : Storage.State) : Prop
    extends Apart x.case.case_id s t where
  cases    : t.cases = s.cases
  attempts : ∃ a, t.attempts.rows = s.attempts.rows ++ [a] ∧ Own x st a

namespace Trying

theorem find (h : Trying x st s t) : ∃ a, t.attempts.find x.attempt_id = some a ∧ a.status = st := by
  have ⟨a, ha, ho⟩ := h.attempts
  exact ⟨a, Table.find_eq_some_iff.mpr ⟨by simp [Table.mem_rows, ha], ho.attempt_id⟩, ho.status⟩

-- The attempts that were there before are other ones.
theorem fresh (h : Trying x st s t) {a : AttemptRecord} (ha : a ∈ s.attempts) :
    a.attempt_id ≠ x.attempt_id := by
  have ⟨b, hb, ho⟩ := h.attempts
  have hn := t.attempts.nodup
  rw [hb, List.map_append, List.nodup_append] at hn
  intro hid
  exact hn.right.right a.attempt_id (List.mem_map_of_mem ha) b.attempt_id (by simp)
    (hid.trans ho.attempt_id.symm)

theorem write_attempt (h : Trying x st s t) (st' : AttemptStatus) (up : State.AttemptUpdate) :
    Trying x st' s (t.write_attempt x.attempt_id st' up) := by
  have ⟨a, ha, ho⟩ := h.attempts
  have hs : s.attempts.rows.map (fun b =>
      if decide (b.attempt_id = x.attempt_id) then up.apply st' b else b) = s.attempts.rows := by
    conv_rhs => rw [← List.map_id s.attempts.rows]
    refine List.map_congr_left fun b hb => ?_
    simp [h.fresh hb]
  refine ⟨⟨h.status, h.others, h.run_results, h.evidence, h.scores⟩, h.cases, up.apply st' a, ?_, ?_⟩
  · simp only [State.write_attempt, Table.update, ha, List.map_append, hs]
    simp [ho.attempt_id]
  · exact ⟨ho.attempt_id, ho.case_id, ho.repeat_index, ho.attempt, ho.is_first_attempt, rfl⟩

theorem save_remote_job (h : Trying x st s t) (job : RemoteJob) :
    Trying x st s (t.save_remote_job job) :=
  ⟨⟨h.status, h.others, h.run_results, h.evidence, h.scores⟩, h.cases, h.attempts⟩

end Trying

-- The attempts of one case that were added.
structure Adds (case_id : String) (new : List AttemptRecord) (s t : Storage.State) : Prop
    extends Apart case_id s t where
  attempts : t.attempts.rows = s.attempts.rows ++ new
  owned    : ∀ a ∈ new, a.case_id = case_id

namespace Adds

variable {case_id : String} {new new' : List AttemptRecord}

theorem refl : Adds case_id [] s s :=
  ⟨⟨rfl, fun _ _ => rfl, rfl, fun _ _ _ => rfl, fun _ _ _ _ => rfl⟩, by simp, nofun⟩

theorem mem (h : Adds case_id new s t) {a : AttemptRecord} (ha : a ∈ s.attempts) :
    a ∈ t.attempts :=
  Table.mem_rows.mpr <| h.attempts ▸ List.mem_append_left new ha

theorem mem_new (h : Adds case_id new s t) {a : AttemptRecord} (ha : a ∈ new) : a ∈ t.attempts :=
  Table.mem_rows.mpr <| h.attempts ▸ List.mem_append_right _ ha

theorem trans (h : Adds case_id new s t) (h' : Adds case_id new' t u) :
    Adds case_id (new ++ new') s u where
  status      := h'.status.trans h.status
  others      := fun id hid => (h'.others id hid).trans <| h.others id hid
  run_results := h'.run_results.trans h.run_results
  evidence    := fun a ha w => (h'.evidence a (h.mem ha) w).trans <| h.evidence a ha w
  scores      := fun id hid m r => (h'.scores id hid m r).trans <| h.scores id hid m r
  attempts    := by rw [h'.attempts, h.attempts, List.append_assoc]
  owned       := fun a ha => (List.mem_append.mp ha).elim (h.owned a) (h'.owned a)

end Adds

-- From `s` on, only attempts of one case were worked on.
def Grows (case_id : String) (s t : Storage.State) : Prop :=
  t.cases = s.cases ∧ ∃ new, Adds case_id new s t

namespace Grows

variable {case_id : String}

theorem refl : Grows case_id s s :=
  ⟨rfl, [], .refl⟩

theorem trans (h : Grows case_id s t) (h' : Grows case_id t u) : Grows case_id s u :=
  have ⟨hc, _, ha⟩ := h
  have ⟨hc', _, ha'⟩ := h'
  ⟨hc'.trans hc, _, ha.trans ha'⟩

end Grows

theorem Trying.adds (h : Trying x st s t) : ∃ a, Own x st a ∧ Adds x.case.case_id [a] s t := by
  have ⟨a, ha, ho⟩ := h.attempts
  exact ⟨a, ho, h.toApart, ha, fun b hb => List.mem_singleton.mp hb ▸ ho.case_id⟩

theorem Trying.grows (h : Trying x st s t) : Grows x.case.case_id s t :=
  have ⟨_, _, ha⟩ := h.adds
  ⟨h.cases, _, ha⟩

section Steps

variable {R : Storage.State → Prop}

theorem wp_set_own_status {st' : AttemptStatus} {up : State.AttemptUpdate}
    {Q : Unit → Storage.State → Prop} (h : Trying x st s t) (hl : st' ∈ st.next)
    (hinv : ∀ u, Trying x st' s u → c.inv u)
    (hq : ∀ u, Trying x st' s u → u.events = t.events → u.outputs = t.outputs → Q () u)
    (hb : State.bind_parameter up.error = .ok () := by rfl) :
    Prog.wp (α := Unit) c (call (.set_attempt_status x.attempt_id st' up)) Q t := by
  have ⟨a, ha, hst⟩ := h.find
  rw [wp_set_attempt_status ha (.inr <| hst ▸ hl) hb]
  exact ⟨hinv _ <| h.write_attempt st' up, hq _ (h.write_attempt st' up) rfl rfl⟩

-- An error that SQLite does not take is not written.
theorem wp_set_own_status_unbound {st' : AttemptStatus} {up : State.AttemptUpdate}
    {err : Storage.Error} {Q : Unit → Storage.State → Prop} (h : Trying x st s t)
    (hl : st' ∈ st.next) (hb : State.bind_parameter up.error = .error err) (hi : c.inv t)
    (he : c.error err t) :
    Prog.wp (α := Unit) c (call (.set_attempt_status x.attempt_id st' up)) Q t := by
  have ⟨a, ha, hst⟩ := h.find
  have hstep := State.set_attempt_status_unbound ha (.inr <| hst ▸ hl) hb
  refine wp_call_of (d := .set_attempt_status x.attempt_id st' up) ?_ ?_
  · intro _ u hu
    cases hstep.symm.trans hu
  · intro _ u hu
    cases hstep.symm.trans hu
    exact ⟨hi, he⟩

theorem external_of_bind_parameter {value : Json} {err : Storage.Error}
    (h : State.bind_parameter value = .error err) : External err := by
  unfold State.bind_parameter at h
  split at h
  case h_1 | h_2 =>
    cases h
    trivial
  case h_3 =>
    split at h <;> cases h
    trivial
  case h_4 => cases h

theorem external_of_event_row {e : TraceEvent} {err : Storage.Error}
    (h : State.event_row e = .error err) : External err := by
  unfold State.event_row at h
  dsimp only at h
  split at h
  · cases h
    trivial
  · split at h
    · cases h
      trivial
    · split at h <;> cases h
      trivial

-- Events of the attempt itself leave the evidence of the others alone.
theorem Trying.insert_events {events : List TraceEvent} (h : Trying x st s t)
    (hown : ∀ e ∈ events, e.attempt_id = x.attempt_id) :
    Trying x st s { t with events := State.insert_events t.events events } := by
  refine ⟨⟨h.status, h.others, h.run_results, fun a ha w => ?_, h.scores⟩, h.cases,
    h.attempts⟩
  have hn : ∀ e ∈ events, e.attempt_id ≠ a.attempt_id := fun e he hid =>
    h.fresh ha <| hid.symm.trans <| hown e he
  rw [← h.evidence a ha w]
  exact congrArg (·, t.get_attempt_output a.attempt_id) <| State.get_trace_events_insert_events hn

-- A call that works on the attempt alone, and raises only because of what it was given.
theorem wp_own {d : Storage.Call} {Q : d.Reply → Storage.State → Prop}
    (hok : ∀ r u, Storage.perform run p d t = (.ok r, u) → Trying x st s u ∧ R u)
    (hraise : ∀ e u, Storage.perform run p d t = (.error e, u) → Trying x st s u ∧ External e)
    (hinv : ∀ u, Trying x st s u → c.inv u)
    (herr : ∀ e u, External e → Trying x st s u → c.error e u)
    (hq : ∀ r u, Trying x st s u → R u → Q r u) : (call d).wp c Q t := by
  refine wp_call_of ?_ ?_
  · intro r u he
    have ⟨hu, hr⟩ := hok r u he
    exact ⟨hinv u hu, hq r u hu hr⟩
  · intro e u he
    have ⟨hu, hx⟩ := hraise e u he
    exact ⟨hinv u hu, herr e u hx hu⟩

theorem wp_insert_own_events {events : List TraceEvent} {Q : Unit → Storage.State → Prop}
    (h : Trying x st s t) (hown : ∀ e ∈ events, e.attempt_id = x.attempt_id)
    (hinv : ∀ u, Trying x st s u → c.inv u)
    (herr : ∀ e u, External e → Trying x st s u → c.error e u)
    (hq : ∀ u, Trying x st s u →
      u.events = State.insert_events t.events (events.map (·.redacted p)) → Q () u) :
    Prog.wp (α := Unit) c (call (.insert_trace_events events)) Q t := by
  refine wp_own (d := .insert_trace_events events) ?_ ?_ hinv herr fun _ => hq
  · intro _ u he
    change t.insert_trace_events p events = _ at he
    unfold State.insert_trace_events at he
    split at he
    · cases he
      exact ⟨h, rfl⟩
    · split at he
      · cases he
      · split at he <;> cases he
        refine ⟨h.insert_events fun e he => ?_, rfl⟩
        obtain ⟨e', he', rfl⟩ := List.mem_map.mp he
        exact hown e' he'
  · intro e u he
    change t.insert_trace_events p events = _ at he
    unfold State.insert_trace_events at he
    split at he
    · cases he
    · split at he
      · cases he
        exact ⟨h, trivial⟩
      · split at he
        case h_1 hrow =>
          cases he
          have ⟨_, _, hrow⟩ := Except.forM_eq_error hrow
          exact ⟨h, external_of_event_row hrow⟩
        case h_2 => cases he

theorem external_of_dumps {value : Json} {err : Storage.Error}
    (h : State.dumps value = .error err) : External err := by
  unfold State.dumps at h
  split at h <;> cases h
  trivial

theorem Trying.save_output (h : Trying x st s t) (payload : Option (List (String × Json))) :
    Trying x st s
      { t with outputs := t.outputs.upsert ⟨x.attempt_id, x.case.case_id, payload⟩ } := by
  refine ⟨⟨h.status, h.others, h.run_results, fun a ha w => ?_, h.scores⟩, h.cases,
    h.attempts⟩
  rw [← h.evidence a ha w]
  have hf : (t.outputs.upsert ⟨x.attempt_id, x.case.case_id, payload⟩).find a.attempt_id =
      t.outputs.find a.attempt_id := by
    rw [Table.find_upsert]
    exact if_neg (h.fresh ha).symm
  simp only [State.evidence, State.get_attempt_output, hf]
  rfl

theorem wp_save_own_output {payload : Option (List (String × Json))}
    {Q : Unit → Storage.State → Prop} (h : Trying x st s t)
    (hinv : ∀ u, Trying x st s u → c.inv u)
    (herr : ∀ e u, External e → Trying x st s u → c.error e u)
    (hq : ∀ u, Trying x st s u → u.events = t.events →
      u.get_attempt_output x.attempt_id = payload → Q () u) :
    Prog.wp (α := Unit) c
      (call (.save_attempt_output x.attempt_id x.case.case_id payload)) Q t := by
  refine wp_own (d := .save_attempt_output _ _ payload)
    (R := fun u => u.events = t.events ∧ u.get_attempt_output x.attempt_id = payload)
    ?_ ?_ hinv herr fun _ u hu hr => hq u hu hr.left hr.right
  · intro _ u he
    change t.save_attempt_output x.attempt_id x.case.case_id payload = _ at he
    unfold State.save_attempt_output at he
    split at he <;> cases he
    refine ⟨h.save_output payload, rfl, ?_⟩
    rw [State.get_attempt_output, Table.find_upsert, if_pos rfl]
    rfl
  · intro e u he
    change t.save_attempt_output x.attempt_id x.case.case_id payload = _ at he
    unfold State.save_attempt_output at he
    split at he
    case h_2 => cases he
    case h_1 hd =>
      cases he
      refine ⟨h, ?_⟩
      cases payload with
      | none     => cases hd
      | some kvs =>
        change (some <$> State.dumps (.obj kvs)) = .error e at hd
        cases hv : State.dumps (.obj kvs) with
        | ok v     => simp [hv] at hd
        | error e' =>
          simp only [hv, Except.map_error, Except.error.injEq] at hd
          exact hd ▸ external_of_dumps hv

theorem Trying.upsert_case_metric_results {scores : List CaseScore} {revision : ℕ}
    (h : Trying x st s t) (he : t.upsert_case_metric_results run.spec.metrics x.case.case_id scores
      revision = (.ok (), u)) :
    Trying x st s u ∧ u.events = t.events ∧ u.outputs = t.outputs := by
  unfold State.upsert_case_metric_results at he
  split at he
  case h_1 => cases he
  case h_2 rows hm =>
    cases he
    refine ⟨⟨⟨h.status, h.others, h.run_results, h.evidence, ?_⟩, h.cases, h.attempts⟩, rfl, rfl⟩
    intro id hid metric_id revision
    refine (Table.find_foldl_upsert fun row hrow => ?_).trans <|
      h.scores id hid metric_id revision
    have ⟨score, _, hs⟩ := Except.exists_of_mapM_eq_ok hm hrow
    have ⟨_, _, hrow⟩ := Except.bind_eq_ok_iff.mp hs
    cases hrow
    exact fun hk => hid (Prod.mk.inj hk).left.symm

theorem wp_save_own_scores {scores : List CaseScore} {revision : ℕ}
    {Q : Unit → Storage.State → Prop} (h : Trying x st s t)
    (hinv : ∀ u, Trying x st s u → c.inv u)
    (herr : ∀ e u, External e → Trying x st s u → c.error e u)
    (hq : ∀ u, Trying x st s u → u.events = t.events → u.outputs = t.outputs → Q () u) :
    Prog.wp (α := Unit) c
      (call (.upsert_case_metric_results x.case.case_id scores revision)) Q t := by
  refine wp_own (d := .upsert_case_metric_results _ scores revision)
    (R := fun u => u.events = t.events ∧ u.outputs = t.outputs)
    ?_ ?_ hinv herr fun _ u hu hr => hq u hu hr.left hr.right
  · exact fun _ _ he => h.upsert_case_metric_results he
  · intro e u he
    change t.upsert_case_metric_results _ _ _ _ = _ at he
    unfold State.upsert_case_metric_results at he
    split at he
    case h_2 => cases he
    case h_1 hm =>
      cases he
      refine ⟨h, ?_⟩
      have ⟨score, _, hs⟩ := Except.mapM_eq_error hm
      rcases Except.bind_eq_error_iff.mp hs with hd | ⟨_, _, hd⟩
      · exact external_of_dumps hd
      · cases hd

end Steps

section Outcome

theorem findSome?_refuse {events : List TraceEvent}
    (h : events.findSome? (E.refuse run x) = none) :
    ∀ e ∈ E.kept_events events, e.attempt_id = x.attempt_id := by
  intro e he
  obtain ⟨e', he', rfl⟩ := List.mem_map.mp <| List.mem_of_mem_take he
  have hn := List.findSome?_eq_none_iff.mp h e' he'
  unfold refuse at hn
  dsimp only at hn
  split at hn
  · cases hn
  · split at hn
    case isTrue  => cases hn
    case isFalse h' =>
      have ⟨_, _, hid⟩ : e'.run_id = run.run_id ∧ e'.case_id = x.case.case_id ∧
          e'.attempt_id = x.attempt_id := by
        simpa [not_or] using h'
      exact hid

-- What `ingest_events` leaves of the events it accepts.
theorem wp_ingest_events {events : List TraceEvent} {Q : List TraceEvent × Bool → _ → Prop}
    (h : Trying x st s t) (hinv : ∀ u, Trying x st s u → c.inv u)
    (herr : ∀ e u, External e → Trying x st s u → c.error e u)
    (hq : ∀ b u, Trying x st s u → events.findSome? (E.refuse run x) = none →
      u.events = State.insert_events t.events ((E.kept_events events).map (·.redacted p)) →
      Q (E.kept_events events, b) u) :
    (E.ingest_events run x events).wp c Q t := by
  unfold ingest_events
  split
  case h_1 message _ => exact herr (.engine_error message) t trivial h
  case h_2 hn        =>
    rw [Prog.wp_bind]
    exact wp_insert_own_events h (findSome?_refuse hn) hinv herr fun u hu he => hq _ u hu hn he

-- Its refusals are caught, and everything else goes on.
theorem wp_try_ingest_events {events : List TraceEvent}
    {Q : Except String (List TraceEvent × Bool) → Storage.State → Prop}
    (h : Trying x st s t) (hinv : ∀ u, Trying x st s u → c.inv u)
    (herr : ∀ e u, External e → Trying x st s u → c.error e u)
    (hrefuse : ∀ m u, Trying x st s u → Q (.error m) u)
    (hq : ∀ b u, Trying x st s u → events.findSome? (E.refuse run x) = none →
      u.events = State.insert_events t.events ((E.kept_events events).map (·.redacted p)) →
      Q (.ok (E.kept_events events, b)) u) :
    (catch_engine_error (E.ingest_events run x events)).wp c Q t := by
  rw [wp_catch_engine_error]
  refine wp_ingest_events h hinv ?_ hq
  intro e u he hu
  cases e with
  | engine_error m => exact hrefuse m u hu
  | _              => exact herr _ u he hu

theorem wp_persist_remote_jobs {R : Storage.State → Prop} {ids : List String}
    {Q : Unit → Storage.State → Prop} (hR : ∀ u job, R u → R (u.save_remote_job job)) (h : R t)
    (hinv : ∀ u, R u → c.inv u) (hq : ∀ u, R u → Q () u) :
    (persist_remote_jobs x ids).wp c Q t := by
  induction ids generalizing t with
  | nil           => exact hq t h
  | cons id ids ih =>
    have h' := hR t ⟨x.attempt_id, x.case.case_id, id, "submitted"⟩ h
    simp only [persist_remote_jobs, save_remote_job, Prog.wp_bind, wp_save_remote_job]
    exact ⟨hinv _ h', ih h'⟩

theorem wp_target_result {answer : TargetAnswer} {Q : InvocationResult → Storage.State → Prop}
    (h : Trying x st s t) (hinv : ∀ u, Trying x st s u → c.inv u)
    (herr : ∀ e u, External e → Trying x st s u → c.error e u)
    (hq : ∀ r u, Trying x st s u → u.events = t.events → Q r u) :
    (E.target_result x answer).wp c Q t := by
  rw [target_result, Prog.wp_bind]
  refine wp_persist_remote_jobs (R := fun u => Trying x st s u ∧ u.events = t.events)
    (fun _ job hu => ⟨hu.left.save_remote_job job, hu.right⟩) ⟨h, rfl⟩ (fun u hu => hinv u hu.left)
    fun u ⟨hu, he⟩ => ?_
  split
  case h_1 m _ => exact herr (.raised m) u trivial hu
  case h_2 result _ =>
    split
    case h_1 m _ => exact herr (.engine_error m) u trivial hu
    case h_2 =>
      split
      case h_1 id _ =>
        have hu' := hu.save_remote_job ⟨x.attempt_id, x.case.case_id, id,
          if result.outcome = "ok" then "completed" else result.outcome⟩
        simp only [save_remote_job, Prog.wp_bind, wp_save_remote_job]
        exact ⟨hinv _ hu', hq _ _ hu' he⟩
      case h_2 => exact hq _ u hu he

theorem wp_remote_job {Q : Option RemoteJob → Storage.State → Prop} (hinv : c.inv t)
    (hq : ∀ job, Q job t) : (remote_job x).wp c Q t := by
  simp only [remote_job, Prog.wp_bind, wp_get_remote_job]
  refine ⟨hinv, ?_⟩
  split
  case h_1 => exact hq _
  case h_2 =>
    rw [wp_get_resumable_remote_job]
    exact ⟨hinv, hq _⟩

theorem wp_invoke {Q : InvocationResult → Storage.State → Prop} (h : Trying x st s t)
    (hinv : ∀ u, Trying x st s u → c.inv u)
    (herr : ∀ e u, External e → Trying x st s u → c.error e u)
    (hq : ∀ r u, Trying x st s u → u.events = t.events → Q r u) :
    (E.invoke run x).wp c Q t := by
  unfold invoke
  split
  case isFalse =>
    rw [Prog.wp_bind]
    intro answer _
    cases answer with
    | ok r    => exact hq r t h rfl
    | error m => exact herr (.raised m) t trivial h
  case isTrue =>
    unfold invoke_target
    split
    case h_1 => exact hq _ t h rfl
    case h_2 =>
      rw [Prog.wp_bind]
      refine wp_remote_job (hinv t h) fun job => ?_
      rw [Prog.wp_bind]
      exact fun answer _ => wp_target_result h hinv herr hq

theorem wp_guarded_invoke {Q : InvocationResult → Storage.State → Prop}
    (h : Trying x .running s t) (hinv : ∀ st u, Trying x st s u → c.inv u)
    (herr : ∀ e st u, External e → Trying x st s u → c.error e u)
    (hq : ∀ r u, Trying x .running s u → u.events = t.events → Q r u) :
    (E.guarded_invoke run x).wp c Q t := by
  rw [guarded_invoke, Prog.wp_tryCatch]
  refine wp_invoke h (hinv _) ?_ hq
  intro e u he hu
  simp only
  rw [Prog.wp_bind]
  exact wp_set_own_status hu (by simp [AttemptStatus.next]) (hinv _)
    fun v hv _ _ => herr e _ v he hv

-- What an attempt came to, and its row.
structure Tried (x : Invocation) (s : Storage.State) (o : AttemptResult) (t : Storage.State) :
    Prop where
  trying       : Trying x o.status s t
  attempt_id   : o.attempt_id = x.attempt_id
  repeat_index : o.repeat_index = x.repeat_index
  attempt      : o.attempt = x.attempt

theorem wp_refused_attempt {result : InvocationResult} {m : String}
    {Q : AttemptResult → Storage.State → Prop} (h : Trying x .running s t)
    (hinv : ∀ st u, Trying x st s u → c.inv u)
    (hq : ∀ o u, Tried x s o u → o.status = .errored → o.scores = [] → Q o u) :
    (refused_attempt x result m).wp c Q t := by
  rw [refused_attempt, Prog.wp_bind]
  exact wp_set_own_status h (by simp [AttemptStatus.next]) (hinv _)
    fun u hu _ _ => hq _ u ⟨hu, rfl, rfl, rfl⟩ rfl rfl

theorem wp_failed_attempt {result : InvocationResult} {Q : AttemptResult → Storage.State → Prop}
    (hs : st ∈ [AttemptStatus.timed_out, .cancelled, .errored]) (h : Trying x .running s t)
    (hinv : ∀ st u, Trying x st s u → c.inv u)
    (herr : ∀ e st u, External e → Trying x st s u → c.error e u)
    (hq : ∀ o u, Tried x s o u → o.status = st ∨ o.status = .errored → o.scores = [] → Q o u) :
    (E.failed_attempt run x result st).wp c Q t := by
  have hl : st ∈ AttemptStatus.running.next := by
    simp only [List.mem_cons, List.not_mem_nil, or_false] at hs
    rcases hs with rfl | rfl | rfl <;> simp [AttemptStatus.next]
  have hrefused : ∀ m u, Trying x .running s u →
      (refused_attempt x result m).wp c Q u := fun m u hu =>
    wp_refused_attempt hu hinv fun o v ho hst hn => hq o v ho (.inr hst) hn
  have hkept : ∀ kept truncated u, Trying x .running s u → Prog.wp c (do
      call (.set_attempt_status x.attempt_id st {
        exit_code       := result.exit_code
        error           := result.error
        event_count     := some kept
        trace_truncated := some truncated
      })
      return attempt_result x st result kept truncated result.error) Q u := by
    intro kept truncated u hu
    rw [Prog.wp_bind]
    cases hb : State.bind_parameter result.error with
    | ok _    =>
      exact wp_set_own_status hu hl (hinv _)
        (fun v hv _ _ => hq _ v ⟨hv, rfl, rfl, rfl⟩ (.inl rfl) rfl) hb
    | error e =>
      exact wp_set_own_status_unbound hu hl hb (hinv _ u hu)
        (herr e _ u (external_of_bind_parameter hb) hu)
  unfold failed_attempt
  dsimp only
  split
  case isTrue =>
    rw [Prog.wp_bind]
    exact hkept 0 false t h
  case isFalse =>
    rw [Prog.wp_bind]
    exact wp_try_ingest_events h (hinv _) (fun e u => herr e _ u) hrefused
      fun b u hu _ _ => hkept _ b u hu

variable (E run p s x) in
-- How an attempt that completed was scored, and what storage keeps of it.
structure Scored (o : AttemptResult) (t : Storage.State) (result : InvocationResult) : Prop where
  accepted : result.trace_events.findSome? (E.refuse run x) = none
  scores   : E.score_attempt_metrics
    (some ⟨E.candidate_output result, E.kept_events result.trace_events⟩) run x.case.case_id
    (E.kept_events result.trace_events) (E.candidate_output result) result.status x.attempt =
    .ok o.scores
  events   : t.events =
    State.insert_events s.events ((E.kept_events result.trace_events).map (·.redacted p))
  output   : t.get_attempt_output x.attempt_id = E.candidate_output result

theorem wp_completed_attempt {result : InvocationResult}
    {Q : AttemptResult → Storage.State → Prop} (h : Trying x .running s t)
    (ht : t.events = s.events) (hinv : ∀ st u, Trying x st s u → c.inv u)
    (herr : ∀ e st u, External e → Trying x st s u → c.error e u)
    (herrored : ∀ o u, Tried x s o u → o.status = .errored → o.scores = [] → Q o u)
    (hq : ∀ o u, Tried x s o u → o.status = .completed → Scored E run p s x o u result → Q o u) :
    (E.completed_attempt run x result).wp c Q t := by
  rw [completed_attempt, Prog.wp_bind]
  refine wp_try_ingest_events h (hinv _) (fun e u => herr e _ u)
    (fun m u hu => wp_refused_attempt hu hinv herrored) ?_
  intro b u hu hn hev
  simp only [Prog.wp_bind]
  refine wp_set_own_status hu (by simp [AttemptStatus.next]) (hinv _) fun v hv hve hvo => ?_
  refine wp_save_own_output hv (hinv _) (fun e u => herr e _ u) fun w hw hwe hwo => ?_
  rw [wp_lift]
  split
  case h_2 e _    => exact herr (.evaluator e) _ w trivial hw
  case h_1 scores hsc =>
    refine wp_save_own_scores hw (hinv _) (fun e u => herr e _ u) fun y hy hye hyo => ?_
    refine hq _ y ⟨hy, rfl, rfl, rfl⟩ rfl ⟨hn, hsc, ?_, ?_⟩
    · rw [hye, hwe, hve, hev, ht]
    · rw [State.get_attempt_output, hyo]
      exact hwo

-- No attempt of the case is at the repeat and attempt index, or comes after it.
def Free (case_id : String) (repeat_index attempt : ℕ) (s : Storage.State) : Prop :=
  ∀ a ∈ s.attempts, a.case_id = case_id →
    a.repeat_index < repeat_index ∨ a.repeat_index = repeat_index ∧ a.attempt < attempt

-- A new attempt collides with an old one in its id at most.
theorem create_attempt_cases {case : TestCase} {r k : ℕ} (id : String)
    (hf : Free case.case_id r k s) :
    (∃ e, External e ∧ s.create_attempt id case.case_id r k = (.error e, s) ∧
      ∃ a, s.attempts.find id = some a) ∨
    ∃ a u, s.create_attempt id case.case_id r k = (.ok a, u) ∧ a.attempt_id = id ∧
      Trying ⟨case, id, r, k, none⟩ .queued s u ∧ u.events = s.events := by
  have hslot : s.attempts.rows.any (fun b =>
      b.case_id = case.case_id && b.repeat_index = r && b.attempt = k) = false := by
    rw [List.any_eq_false]
    intro a ha
    have := hf a ha
    grind
  unfold State.create_attempt
  simp only [hslot, Bool.false_eq_true, if_false]
  split
  case h_1 hi =>
    have hx : External (.integrity_error "run_case_attempts.attempt_id") := rfl
    exact .inl ⟨_, hx, rfl, Table.insert_eq_none_iff.mp hi⟩
  case h_2 attempts hi =>
    obtain ⟨_, hr⟩ := Table.insert_eq_some_iff.mp hi
    refine .inr ⟨_, _, rfl, rfl, ⟨⟨rfl, fun _ _ => rfl, rfl, fun _ _ _ => rfl, fun _ _ _ _ => rfl⟩,
      rfl, _, hr, ?_⟩, rfl⟩
    exact ⟨rfl, rfl, rfl, rfl, rfl, rfl⟩

theorem wp_create_attempt {case : TestCase} {id : String} {r k : ℕ}
    {Q : AttemptRecord → Storage.State → Prop} (hf : Free case.case_id r k s)
    (hinv : ∀ u, Grows case.case_id s u → c.inv u)
    (herr : ∀ e u, External e → Grows case.case_id s u → c.error e u)
    (hq : ∀ a u, a.attempt_id = id → Trying ⟨case, id, r, k, none⟩ .queued s u →
      u.events = s.events → Q a u) :
    Prog.wp (α := AttemptRecord) c (call (.create_attempt id case.case_id r k)) Q s := by
  obtain ⟨e, hx, he, _⟩ | ⟨a, u, he, hid, ht, hev⟩ := create_attempt_cases id hf
  · refine wp_call_of (d := .create_attempt id case.case_id r k) ?_ ?_
    · intro _ u hu
      cases he.symm.trans hu
    · intro _ u hu
      cases he.symm.trans hu
      exact ⟨hinv _ .refl, herr e _ hx .refl⟩
  · exact (wp_call_ok (d := .create_attempt id case.case_id r k) he).mpr
      ⟨hinv u ht.grows, hq a u hid ht hev⟩

-- What running an attempt of a case comes to.
structure Ran (E : Engine) (run : Run) (p : Redaction.Patterns) (case : TestCase) (r k : ℕ)
    (s : Storage.State) (o : AttemptResult) (t : Storage.State) : Prop where
  tried     : Tried ⟨case, o.attempt_id, r, k, none⟩ s o t
  ended     : live o.status = false
  unscored  : o.status ≠ .completed → o.scores = []
  scored    : o.status = .completed →
    ∃ result, Scored E run p s ⟨case, o.attempt_id, r, k, none⟩ o t result

theorem wp_run_attempt {case : TestCase} {r k : ℕ}
    {Q : AttemptResult × List String → Storage.State → Prop} (hf : Free case.case_id r k s)
    (hinv : ∀ u, Grows case.case_id s u → c.inv u)
    (herr : ∀ e u, External e → Grows case.case_id s u → c.error e u)
    (hq : ∀ o w u, Ran E run p case r k s o u → Q (o, w) u) :
    (E.run_attempt run case r k).wp c Q s := by
  rw [run_attempt, Prog.wp_bind, wp_ask]
  intro id _
  rw [Prog.wp_bind]
  refine wp_create_attempt hf hinv herr fun a t hid ht hev => ?_
  rw [hid]
  set x : Invocation := ⟨case, id, r, k, none⟩ with hx
  have hinv' : ∀ st u, Trying x st s u → c.inv u := fun _ u hu => hinv u hu.grows
  have herr' : ∀ e st u, External e → Trying x st s u → c.error e u :=
    fun e _ u he hu => herr e u he hu.grows
  have hfailed : ∀ o w u, Tried x s o u → live o.status = false → o.status ≠ .completed →
      o.scores = [] → Q (o, w) u := by
    intro o w u ho hl hne hn
    refine hq o w u ⟨?_, hl, fun _ => hn, fun h => absurd h hne⟩
    rw [ho.attempt_id]
    exact ho
  have hcompleted : ∀ o w u result, Tried x s o u → o.status = .completed →
      Scored E run p s x o u result → Q (o, w) u := by
    intro o w u result ho hst hsc
    refine hq o w u ⟨?_, by simp [live, hst], fun h => absurd hst h, fun _ => ⟨result, ?_⟩⟩
    · rw [ho.attempt_id]
      exact ho
    · rw [ho.attempt_id]
      exact hsc
  simp only [Prog.wp_bind]
  refine wp_set_own_status ht (by simp [AttemptStatus.next]) (hinv' _) fun u hu hue _ => ?_
  refine wp_guarded_invoke hu hinv' herr' fun result v hv hve => ?_
  have hve' : v.events = s.events := hve.trans <| hue.trans hev
  have herrored : ∀ o w u, Tried x s o u → o.status = .errored → o.scores = [] → Q (o, w) u :=
    fun o w u ho hst hn => hfailed o w u ho (by simp [live, hst]) (by simp [hst]) hn
  split
  case h_1 | h_2 | h_3 | h_4 =>
    rw [Prog.wp_bind]
    refine wp_failed_attempt (by simp) hv hinv' herr' fun o u ho hst hn => ?_
    rcases hst with hst | hst <;>
      exact hfailed o [] u ho (by simp [live, hst]) (by simp [hst]) hn
  case h_5 =>
    rw [Prog.wp_bind]
    exact wp_completed_attempt hv hve' hinv' herr' (herrored · []) (hcompleted · [] · result)
  case h_6 =>
    rw [Prog.wp_bind]
    exact wp_completed_attempt hv hve' hinv' herr' (herrored · _) (hcompleted · _ · result)

end Outcome

end Engine
