import Traceline.Engine.Theorems.Finalize
import Traceline.Engine.Theorems.Prepare
import Traceline.Library.Pool

open Lifecycle Spec Events Evaluators Storage

namespace Engine

variable {E : Engine} {run : Run} {p : Redaction.Patterns} {s t u v : Storage.State}
variable {allow : ∀ q : Query, q.Answer → Prop}

-- What never changes in the row of an attempt.
def AttemptRecord.core (a : AttemptRecord) : String × String × ℕ × ℕ × Bool :=
  (a.attempt_id, a.case_id, a.repeat_index, a.attempt, a.is_first_attempt)

-- What a session leaves alone before its run loop.
structure Framed (s t : Storage.State) : Prop where
  attempts     : t.attempts.rows.map AttemptRecord.core = s.attempts.rows.map AttemptRecord.core
  events       : t.events = s.events
  outputs      : t.outputs = s.outputs
  case_results : t.case_results = s.case_results
  run_results  : t.run_results = s.run_results
  cases        : ∀ id, t.case_status id = s.case_status id ∨
    (s.case_status id).isSome ∧
      (t.case_status id = some .queued ∨ t.case_status id = some .cancelled)

-- The calls that keep to that frame.
def Framing : Storage.Call → Prop
  | .get_run | .set_run_status _ | .list_cases | .list_attempts _ | .set_attempt_status _ _ _
  | .set_remote_job_state _ _    => True
  | .set_case_status _ target    => target = .queued ∨ target = .cancelled
  | _                            => False

namespace Framed

theorem refl : Framed s s :=
  ⟨rfl, rfl, rfl, rfl, rfl, fun _ => .inl rfl⟩

theorem trans (h : Framed s t) (h' : Framed t u) : Framed s u := by
  refine ⟨h'.attempts.trans h.attempts, h'.events.trans h.events, h'.outputs.trans h.outputs,
    h'.case_results.trans h.case_results, h'.run_results.trans h.run_results, fun id => ?_⟩
  rcases h'.cases id with hu | ⟨hi, hu⟩
  · rw [hu]
    exact h.cases id
  · refine .inr ⟨?_, hu⟩
    rcases h.cases id with ht | ⟨hi', _⟩
    · exact ht ▸ hi
    · exact hi'

theorem of_call {d : Storage.Call} (hd : Framing d) :
    Framed s (Storage.perform run p d s).2 := by
  cases d with
  | get_run | list_cases | list_attempts => exact .refl
  | set_run_status target =>
    change Framed s (s.set_run_status target).2
    unfold State.set_run_status
    split
    · exact ⟨rfl, rfl, rfl, rfl, rfl, fun _ => .inl rfl⟩
    · exact .refl
  | set_attempt_status id target up =>
    change Framed s (s.set_attempt_status id target up).2
    unfold State.set_attempt_status
    split
    · exact .refl
    · split
      · exact .refl
      · split
        · exact .refl
        · refine ⟨?_, rfl, rfl, rfl, rfl, fun _ => .inl rfl⟩
          simp only [State.write_attempt, Table.update, List.map_map, List.map_inj_left]
          intro a _
          simp only [Function.comp]
          split <;> rfl
  | set_remote_job_state id state =>
    change Framed s (s.set_remote_job_state id state)
    unfold State.set_remote_job_state
    split
    · exact .refl
    · exact ⟨rfl, rfl, rfl, rfl, rfl, fun _ => .inl rfl⟩
  | set_case_status id target =>
    change Framed s (s.set_case_status id target).2
    unfold State.set_case_status
    split
    · exact .refl
    · split
      · exact .refl
      case h_2 hr _ st ht =>
        obtain ⟨rfl, _⟩ := transition_eq_ok_iff.mp ht
        refine ⟨rfl, rfl, rfl, rfl, rfl, fun id' => ?_⟩
        rw [State.case_status_write_case_status]
        split
        case isFalse => exact .inl rfl
        case isTrue hid =>
          have hs : s.case_status id' = some _ := State.case_status_eq_some_iff.mpr ⟨_, hid ▸ hr, rfl⟩
          refine .inr ⟨by simp [hs], ?_⟩
          rw [hs]
          exact hd.imp (congrArg some) (congrArg some)
  | _ => exact hd.elim

end Framed

section Calls

variable {D : Storage.Call → Prop}

theorem set_cases_calls {target : RunCaseStatus} {ids : List String}
    (h : ∀ id, D (.set_case_status id target)) :
    (set_cases target ids).Calls (store run p) allow D := by
  induction ids with
  | nil           => exact .of_pure ()
  | cons id ids ih =>
    exact .bind (Prog.Calls.of_perform.mpr <| h id) fun _ => ih

theorem orphan_attempts_calls {attempts : List AttemptRecord} (h : ∀ d, Framing d →
    d ≠ .set_run_status .complete → D d) :
    (orphan_attempts attempts).Calls (store run p) allow D := by
  induction attempts with
  | nil               => exact .of_pure ()
  | cons a attempts ih =>
    unfold orphan_attempts
    split
    · exact .bind (Prog.Calls.of_perform.mpr <| h _ trivial (by simp)) fun _ =>
        .bind (Prog.Calls.of_perform.mpr <| h _ trivial (by simp)) fun _ => ih
    · exact ih

-- What a session does before its run loop keeps to that frame, and does not complete the run.
theorem prepare_calls {status : RunStatus} (h : ∀ d, Framing d →
    d ≠ .set_run_status .complete → D d) :
    (prepare status).Calls (store run p) allow D := by
  have hcall : ∀ d, Framing d → d ≠ .set_run_status .complete →
      (call d).Calls (store run p) allow D :=
    fun d hd hc => Prog.Calls.of_perform.mpr <| h d hd hc
  have hstart : ∀ st, (start st).Calls (store run p) allow D := by
    intro st
    unfold start
    split
    · exact .bind (hcall _ trivial nofun) fun _ => .bind (hcall _ trivial nofun) fun _ =>
        hcall _ trivial nofun
    · exact .bind (hcall _ trivial nofun) fun _ => hcall _ trivial nofun
    · exact hcall _ trivial nofun
    · exact .of_pure ()
  have hset : ∀ target ids, target = .queued ∨ target = .cancelled →
      (set_cases target ids).Calls (store run p) allow D :=
    fun target _ ht => set_cases_calls fun _ => h _ ht nofun
  have hreconcile : reconcile_stale.Calls (store run p) allow D :=
    .bind (hcall _ trivial nofun) fun _ => .bind (orphan_attempts_calls h) fun _ =>
      .bind (hcall _ trivial nofun) fun _ => .bind (hset _ _ <| .inr rfl) fun _ => .of_pure _
  have hfailed : (failed_cases (resumed status)).Calls (store run p) allow D := by
    unfold failed_cases
    split
    · exact .bind (hcall _ trivial nofun) fun _ => .of_pure _
    · exact .of_pure _
  have hrequeue : (requeue status).Calls (store run p) allow D :=
    .bind hreconcile fun _ => .bind hfailed fun _ =>
      .bind (Prog.Calls.of_query _) fun _ => hset _ _ <| .inl rfl
  unfold prepare
  split
  · exact .bind (.bind (hcall _ trivial nofun) fun _ => .bind (hcall _ trivial nofun) fun _ =>
      hset _ _ <| .inl rfl) fun _ => .bind (hstart _) fun _ => hrequeue
  · exact .bind (hstart _) fun _ => hrequeue

end Calls

-- Any state before the run loop.
structure Preparing (s t : Storage.State) : Prop extends Framed s t where
  status : Starting s t

theorem prepare_inv (hs : s.status ≠ .complete ∧ s.status ≠ .failed)
    {o : Prog.Outcome Storage.Error Unit}
    (e : Prog.Exec (store run p) allow (prepare s.status) s t o) :
    Preparing s t ∧ (o = .crash ∨ o = .ok () ∧ Prepared s t) := by
  have hframed : Framed s t :=
    Prog.Calls.exec (I := Framed s) (fun _ _ hd hf => hf.trans <| .of_call hd) e
      (prepare_calls fun _ hd _ => hd) .refl
  let c : Prog.Spec (store run p) := ⟨allow, Starting s, fun _ _ => False⟩
  have hwp : (prepare s.status).wp c (fun _ u => Prepared s u) s :=
    wp_prepare hs (fun _ hu => hu) fun _ hu => hu
  have ⟨hst, hm⟩ := Prog.wp_sound (c := c) e (.inl rfl) hwp
  refine ⟨⟨hframed, hst⟩, ?_⟩
  cases o with
  | ok _    => exact .inr ⟨rfl, hm⟩
  | error _ => exact hm.elim
  | crash   => exact .inl rfl

theorem Prepared.active (h : Prepared s t) : t.status = .running ∨ t.status = .aggregating := by
  rw [h.status]
  split
  · exact .inr rfl
  · exact .inl rfl

theorem Covers.of_case_status (h : Covers run s)
    (hs : ∀ id, (t.case_status id).isSome = (s.case_status id).isSome) : Covers run t :=
  h.mono fun id => by simpa [State.case_status] using hs id

theorem Prepared.covers (h : Prepared s t) (hc : Covers run s) : Covers run t :=
  hc.of_case_status fun id => by rw [h.cases, Option.isSome_map]

variable (E run p allow) in
-- How far a session got from `s`, and how it ended.
inductive Stage (s : Storage.State) :
    (t : Storage.State) → Prog.Outcome Storage.Error RunResult → Prop
  | refused (message : String) : s.status = .complete ∨ s.status = .failed →
    Stage s s (.error (.run_already_terminal message))
  | preparing (t : Storage.State) : Preparing s t →
    (s.status = .complete ∨ s.status = .failed → t = s) → Stage s t .crash
  | executing (u v t : Storage.State) :
    Prepared s u → Looping E run p u v → Finalizing v t → Stage s t .crash
  | cancelling (u v : Storage.State) :
    Prepared s u → u.status = .running → Looping E run p u v →
    Stage s (v.write_run_status .cancelled) .crash
  | cancelled (u t : Storage.State) (r : RunResult) :
    Prepared s u → u.status = .running → Cancelled E run p u r t → Stage s t (.ok r)
  | raised (u v t : Storage.State) (e : Storage.Error)
      (o : Prog.Outcome Storage.Error RunResult) :
    Prepared s u → Looping E run p u v → Finalizing v t →
    External e ∨ u.status = .aggregating → o = .crash ∨ o = .error e →
    Stage s (t.write_run_status .incomplete) o
  | completed (u v t : Storage.State) (σ : Session)
      (samples : List (AttemptRecord × List CaseScore))
      (o : Prog.Outcome Storage.Error RunResult) :
    Prepared s u → Looped E run p u run.spec.cases σ v →
    (∀ r ∈ σ.executed, r.status ≠ .cancelled) →
    (∀ case ∈ run.spec.cases, allow (.should_cancel case.case_id) false) →
    Resampled E run v (σ.executed.map (·.case_id)) run.spec.cases samples →
    Finalized E run (σ.landed ++ samples.flatMap Prod.snd) v t →
    o = .crash ∨ (∃ r, o = .ok r) → Stage s t o

theorem Finalizing.refl : Finalizing t t :=
  ⟨.inl rfl, rfl, rfl, rfl, rfl, rfl⟩

theorem Finalizing.active (h : Finalizing v t) (hv : v.status = .running ∨ v.status = .aggregating) :
    t.status = .running ∨ t.status = .aggregating := by
  rcases h.status with h | h
  · exact h ▸ hv
  · exact .inr h

theorem wp_execute (hp : Prepared s u) (hc : Covers run u) :
    (E.execute run).wp (M := store run p)
      ⟨allow, fun t => Stage E run p allow s t .crash, fun e t => Stage E run p allow s t (.error e)⟩
      (fun r t => Stage E run p allow s t (.ok r)) u := by
  -- An exception leaves the run incomplete, which is legal while it is running or aggregating.
  have hraise : ∀ {e v t}, Looping E run p u v → Finalizing v t →
      External e ∨ u.status = .aggregating →
      (t.status = .incomplete ∨ RunStatus.incomplete ∈ t.status.next) ∧
        Stage E run p allow s (t.write_run_status .incomplete) .crash ∧
        Stage E run p allow s (t.write_run_status .incomplete) (.error e) := by
    intro e v t hv ht he
    have hact := ht.active (hv.status ▸ hp.active)
    refine ⟨.inr ?_, Stage.raised _ _ _ e _ hp hv ht he (.inl rfl), Stage.raised _ _ _ _ _ hp hv ht he (.inr rfl)⟩
    rcases hact with h | h <;> simp [h, RunStatus.next]
  rw [execute, Prog.wp_bind]
  refine wp_mark_incomplete ?_
  refine wp_run_cases hp.active hc (fun v hv => Stage.executing _ _ _ hp hv .refl)
    (fun v hrun hv => Stage.cancelling _ _ hp hrun hv) (fun e v he hv => hraise hv .refl he) .refl rfl
    (fun σ v hv hal hcomp => ?_) (fun r v hrun hv => Stage.cancelled _ _ _ hp hrun hv) (by simp)
  have hloop := hv.looping fun _ h => h
  refine wp_mark_incomplete ?_
  exact wp_finalize (hv.status ▸ hp.active) (fun w hw => Stage.executing _ _ _ hp hloop hw)
    (fun e w he hw => hraise hloop hw (.inl he))
    (fun samples w hs hw => Stage.completed _ _ _ _ samples _ hp hv hcomp hal hs hw (.inl rfl))
    fun r samples w hs hw => Stage.completed _ _ _ _ samples _ hp hv hcomp hal hs hw (.inr ⟨r, rfl⟩)

theorem get_run_inv {o : Prog.Outcome Storage.Error (Option RunRecord)}
    (e : Prog.Exec (store run p) allow (call .get_run) s t o) :
    t = s ∧ (o = .crash ∨ o = .ok (some ⟨run, s.status⟩)) := by
  let c : Prog.Spec (store run p) := ⟨allow, fun t => t = s, fun _ _ => False⟩
  have hw : Prog.wp (α := Option RunRecord) c (call .get_run)
      (fun r _ => r = some ⟨run, s.status⟩) s := wp_get_run.mpr ⟨rfl, rfl⟩
  have ⟨ht, hm⟩ := Prog.wp_sound (c := c) e rfl hw
  cases o with
  | ok _    => exact ⟨ht, .inr <| congrArg _ hm⟩
  | error _ => exact hm.elim
  | crash   => exact ⟨ht, .inl rfl⟩

-- Everything a session can do.
theorem run_inv {o : Prog.Outcome Storage.Error RunResult} (hc : Covers run s)
    (e : Prog.Exec (store run p) allow E.run s t o) : Stage E run p allow s t o := by
  have hsame : Preparing s s := ⟨.refl, .inl rfl⟩
  rcases e.bind_inv with ⟨ho, e₁⟩ | ⟨_, _, e₁⟩ | ⟨record, u, e₁, e₂⟩
  · rw [ho, (get_run_inv e₁).left]
    exact .preparing _ hsame fun _ => rfl
  · have ⟨_, h⟩ := get_run_inv e₁
    simp at h
  · obtain ⟨rfl, h⟩ := get_run_inv e₁
    obtain rfl : record = some ⟨run, u.status⟩ := by simpa using h
    dsimp only at e₂
    split at e₂
    case isTrue hterm =>
      cases e₂ with
      | throw => exact .refused _ hterm
      | crash => exact .preparing _ hsame fun _ => rfl
    case isFalse hterm =>
      rw [not_or] at hterm
      rcases Prog.Exec.bind_inv e₂ with ⟨ho, e₃⟩ | ⟨_, _, e₃⟩ | ⟨_, v, e₃, e₄⟩
      · rw [ho]
        exact .preparing _ (prepare_inv hterm e₃).left fun h => absurd h <| not_or.mpr hterm
      · have ⟨_, h⟩ := prepare_inv hterm e₃
        simp at h
      · have ⟨hpre, h⟩ := prepare_inv hterm e₃
        have hprep : Prepared u v := by simpa using h
        have hw : (E.execute run).wp (M := store run p) ⟨allow, fun t => Stage E run p allow u t .crash,
            fun e t => Stage E run p allow u t (.error e)⟩ _ v :=
          wp_execute hprep (hprep.covers hc)
        have hloop : Looping E run p v v := ⟨rfl, .refl, fun _ => .untouched .refl⟩
        have ⟨hi, hm⟩ := Prog.wp_sound e₄ (Stage.executing _ _ _ hprep hloop .refl) hw
        cases o with
        | ok _    => exact hm
        | error _ => exact hm
        | crash   => exact hi

end Engine
