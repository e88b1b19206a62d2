import Mathlib.Data.List.Dedup
import Traceline.Engine.Theorems.Calls

open Lifecycle Storage

namespace Engine

variable {run : Run} {p : Redaction.Patterns} {c : Prog.Spec (store run p)}
variable {s t : Storage.State}

theorem wp_set_cases {ids : List String} {target : RunCaseStatus}
    {Q : Unit → Storage.State → Prop}
    (hids : ∀ id ∈ ids, ∃ st, s.case_status id = some st ∧ (st = target ∨ target ∈ st.next))
    (hinv : ∀ ids, c.inv (s.write_cases ids target)) (hq : Q () (s.write_cases ids target)) :
    (set_cases target ids).wp c Q s := by
  induction ids generalizing s with
  | nil            => exact hq
  | cons id ids ih =>
    have ⟨st, hst, hl⟩ := hids id <| .head _
    obtain ⟨r, hr, rfl⟩ := State.case_status_eq_some_iff.mp hst
    rw [set_cases, Prog.wp_bind, wp_set_case_status hr hl]
    refine ⟨hinv [id], ih ?_ (fun ids => hinv (id :: ids)) hq⟩
    intro id' hid'
    have ⟨st', hst', hl'⟩ := hids id' <| .tail _ hid'
    rw [State.case_status_write_case_status]
    split
    · exact ⟨target, by simp [hst'], .inl rfl⟩
    · exact ⟨st', hst', hl'⟩

-- The row of an attempt that was found live.
def orphan (a : AttemptRecord) : AttemptRecord :=
  State.AttemptUpdate.apply { error := .str orphan_message } .orphaned a

def Orphaned (a b : AttemptRecord) : Prop :=
  b = a ∨ live a.status ∧ b = orphan a

namespace Orphaned

variable {a b : AttemptRecord}

theorem attempt_id (h : Orphaned a b) : b.attempt_id = a.attempt_id := by
  rcases h with rfl | ⟨_, rfl⟩ <;> rfl

theorem case_id (h : Orphaned a b) : b.case_id = a.case_id := by
  rcases h with rfl | ⟨_, rfl⟩ <;> rfl

theorem repeat_index (h : Orphaned a b) : b.repeat_index = a.repeat_index := by
  rcases h with rfl | ⟨_, rfl⟩ <;> rfl

theorem is_first_attempt (h : Orphaned a b) : b.is_first_attempt = a.is_first_attempt := by
  rcases h with rfl | ⟨_, rfl⟩ <;> rfl

-- An attempt that came to an end keeps its row.
theorem eq_of_not_live (h : Orphaned a b) (hl : live a.status = false) : b = a := by
  rcases h with rfl | ⟨ha, _⟩
  · rfl
  · simp [hl] at ha

end Orphaned

-- What the reconciler leaves of the attempts, and that it touches no other evidence.
structure Reconciled (s t : Storage.State) : Prop where
  attempts     : ∃ g, t.attempts.rows = s.attempts.rows.map g ∧ ∀ a ∈ s.attempts, Orphaned a (g a)
  events       : t.events = s.events
  outputs      : t.outputs = s.outputs
  case_results : t.case_results = s.case_results
  run_results  : t.run_results = s.run_results

namespace Reconciled

theorem refl : Reconciled s s :=
  ⟨⟨id, by simp, fun _ _ => .inl rfl⟩, rfl, rfl, rfl, rfl⟩

theorem of_eq {t' : Storage.State} (h : Reconciled s t) (ha : t'.attempts = t.attempts)
    (he : t'.events = t.events) (ho : t'.outputs = t.outputs)
    (hc : t'.case_results = t.case_results) (hr : t'.run_results = t.run_results) :
    Reconciled s t' :=
  ⟨ha ▸ h.attempts, he ▸ h.events, ho ▸ h.outputs, hc ▸ h.case_results, hr ▸ h.run_results⟩

-- The row of a live attempt, orphaned or not yet.
theorem find (h : Reconciled s t) {a : AttemptRecord} (ha : a ∈ s.attempts) :
    ∃ b, t.attempts.find a.attempt_id = some b ∧ Orphaned a b := by
  have ⟨g, hg, ho⟩ := h.attempts
  have hb := ho a ha
  refine ⟨g a, Table.find_eq_some_iff.mpr ⟨?_, hb.attempt_id⟩, hb⟩
  rw [Table.mem_rows, hg]
  exact List.mem_map_of_mem ha

theorem write_attempt (h : Reconciled s t) {a : AttemptRecord} (ha : a ∈ s.attempts)
    (hl : live a.status) :
    Reconciled s
      (t.write_attempt a.attempt_id .orphaned { error := .str orphan_message }) := by
  have ⟨g, hg, ho⟩ := h.attempts
  refine ⟨⟨fun b => if b.attempt_id = a.attempt_id then orphan b else g b, ?_, ?_⟩, h.events,
    h.outputs, h.case_results, h.run_results⟩
  · simp only [State.write_attempt, Table.update, hg, List.map_map, List.map_inj_left]
    intro b hb
    have hob := ho b hb
    simp only [Function.comp, hob.attempt_id, decide_eq_true_eq]
    split
    · rcases hob with hgb | ⟨_, hgb⟩ <;> rw [hgb] <;> rfl
    · rfl
  · intro b hb
    by_cases hid : b.attempt_id = a.attempt_id
    · obtain rfl := s.attempts.eq_of_key_eq hb ha hid
      simpa using .inr ⟨hl, rfl⟩
    · simpa [hid] using ho b hb

end Reconciled

theorem live_next {st : AttemptStatus} (h : live st) : .orphaned ∈ st.next := by
  cases st <;> simp [live, AttemptStatus.next] at h ⊢

theorem wp_orphan_attempts {as : List AttemptRecord} {Q : Unit → Storage.State → Prop}
    (has : ∀ a ∈ as, a ∈ s.attempts) (ht : Reconciled s t)
    (hinv : ∀ u, u.status = t.status → c.inv u)
    (hq : ∀ u, u.status = t.status → u.cases = t.cases → Reconciled s u → Q () u) :
    (orphan_attempts as).wp c Q t := by
  induction as generalizing t with
  | nil          => exact hq t rfl rfl ht
  | cons a as ih =>
    have ha := has a <| .head _
    have has' := fun b hb => has b <| .tail _ hb
    rw [orphan_attempts]
    split
    case isFalse => exact ih has' ht hinv hq
    case isTrue hl =>
      have ⟨b, hb, ho⟩ := ht.find ha
      have hlegal : b.status = .orphaned ∨ .orphaned ∈ b.status.next := by
        rcases ho with rfl | ⟨_, rfl⟩
        · exact .inr <| live_next hl
        · exact .inl rfl
      have ht' := ht.write_attempt ha hl
      have hj : ∀ u : Storage.State, ∃ jobs,
          u.set_remote_job_state a.attempt_id "orphaned" = { u with remote_jobs := jobs } := by
        intro u
        unfold State.set_remote_job_state
        split
        · exact ⟨u.remote_jobs, rfl⟩
        · exact ⟨_, rfl⟩
      have ⟨jobs, hjobs⟩ :=
        hj (t.write_attempt a.attempt_id .orphaned { error := .str orphan_message })
      simp only [Prog.wp_bind, wp_set_remote_job_state, hjobs,
        wp_set_attempt_status (u := { error := .str orphan_message }) hb hlegal rfl]
      refine ⟨hinv _ rfl, hinv _ rfl, ?_⟩
      exact ih has' (ht'.of_eq rfl rfl rfl rfl rfl) hinv hq

theorem mem_ids_with_iff {st : RunCaseStatus} {id : String} :
    id ∈ ids_with st s.list_cases ↔ s.case_status id = some st := by
  simp only [ids_with, List.mem_map, List.mem_filter, decide_eq_true_eq]
  constructor
  · intro ⟨r, ⟨hr, hst⟩, hid⟩
    exact hid ▸ hst ▸ State.case_status_of_mem hr
  · intro h
    have ⟨r, hr, hst⟩ := State.case_status_eq_some_iff.mp h
    have ⟨hm, hid⟩ := Table.find_eq_some_iff.mp hr
    exact ⟨r, ⟨hm, hst⟩, hid⟩

-- Where a session's writes leave the run row before its run loop.
def Starting (s t : Storage.State) : Prop :=
  t.status = s.status ∨ t.status = .queued ∨ t.status = .provisioning ∨ t.status = .running

def started (status : RunStatus) : RunStatus :=
  if status = .draft ∨ status = .queued ∨ status = .provisioning then .running else status

theorem wp_start {Q : Unit → Storage.State → Prop}
    (hinv : ∀ st ∈ [RunStatus.queued, .provisioning, .running], c.inv (s.write_run_status st))
    (hq : Q () (s.write_run_status (started s.status))) : (start s.status).wp c Q s := by
  have hq' : ∀ st, s.status = st → Q () (s.write_run_status (started st)) := fun _ h => h ▸ hq
  have hn : ∀ st, (s.write_run_status st).status = st := fun _ => rfl
  have hw : s.write_run_status s.status = s := rfl
  unfold start
  split
  case h_1 h =>
    simp only [Prog.wp_bind]
    rw [wp_set_run_status (by simp [h, RunStatus.next])]
    rw [wp_set_run_status (by simp [hn, RunStatus.next])]
    rw [wp_set_run_status (by simp [State.write_run_status, RunStatus.next])]
    exact ⟨hinv _ (by simp), hinv _ (by simp), hinv _ (by simp), hq' _ h⟩
  case h_2 h =>
    simp only [Prog.wp_bind]
    rw [wp_set_run_status (by simp [h, RunStatus.next])]
    rw [wp_set_run_status (by simp [hn, RunStatus.next])]
    exact ⟨hinv _ (by simp), hinv _ (by simp), hq' _ h⟩
  case h_3 h =>
    rw [wp_set_run_status (by simp [h, RunStatus.next])]
    exact ⟨hinv _ (by simp), hq' _ h⟩
  case h_4 h₁ h₂ h₃ =>
    have hs : started s.status = s.status := if_neg fun h => h.elim h₁ (·.elim h₂ h₃)
    rw [hs, hw] at hq
    exact hq

theorem status_write_cases {ids : List String} {st : RunCaseStatus} :
    (s.write_cases ids st).status = s.status := by
  obtain ⟨_, h⟩ : ∃ cases, s.write_cases ids st = { s with cases } := State.write_cases_eq
  rw [h]

theorem Reconciled.write_cases (h : Reconciled s t) {ids : List String} {st : RunCaseStatus} :
    Reconciled s (t.write_cases ids st) := by
  have ⟨_, hw⟩ : ∃ cases, t.write_cases ids st = { t with cases } := State.write_cases_eq
  exact hw ▸ h.of_eq rfl rfl rfl rfl rfl

-- What becomes of a case that was found with a status, under a write to those in one status.
theorem case_status_write_ids {st target : RunCaseStatus} {id : String} {l : List CaseRecord}
    (hl : l = t.list_cases) :
    (t.write_cases (ids_with st l) target).case_status id =
      (t.case_status id).map fun st' => if st' = st then target else st' := by
  subst hl
  rw [State.case_status_write_cases]
  simp only [mem_ids_with_iff]
  cases h : t.case_status id with
  | none     => simp
  | some st' => by_cases hst : st' = st <;> simp [hst]

theorem Reconciled.write_run_status {st : RunStatus} : Reconciled s (s.write_run_status st) :=
  Reconciled.refl.of_eq rfl rfl rfl rfl rfl

theorem wp_reopen (hs : reopened s.status) {Q : Unit → Storage.State → Prop}
    (hinv : ∀ u, u.status = .queued → c.inv u)
    (hq : ∀ u, u.status = .queued → Reconciled s u →
      (∀ id, u.case_status id =
        (s.case_status id).map fun st => if st = .cancelled then .queued else st) → Q () u) :
    reopen.wp c Q s := by
  have hl : s.status = .queued ∨ .queued ∈ s.status.next := by
    cases h : s.status <;> simp [reopened, h, RunStatus.next] at hs ⊢
  simp only [reopen, Prog.wp_bind, wp_list_cases]
  rw [wp_set_run_status hl]
  refine ⟨hinv _ rfl, hinv _ rfl, wp_set_cases ?_ ?_ ?_⟩
  · intro id hid
    exact ⟨.cancelled, mem_ids_with_iff.mp hid, by simp [RunCaseStatus.next]⟩
  · exact fun ids => hinv _ status_write_cases
  · refine hq _ status_write_cases (Reconciled.write_run_status.write_cases) fun id => ?_
    rw [case_status_write_ids rfl, State.case_status_write_run_status]

theorem wp_reconcile_stale {Q : List String → Storage.State → Prop}
    (hinv : ∀ u, u.status = s.status → c.inv u)
    (hq : ∀ u, u.status = s.status → Reconciled s u →
      (∀ id, u.case_status id =
        (s.case_status id).map fun st => if st = .running then .cancelled else st) →
      Q (ids_with .running s.list_cases) u) :
    reconcile_stale.wp c Q s := by
  simp only [reconcile_stale, Prog.wp_bind, wp_list_attempts]
  refine ⟨hinv _ rfl, wp_orphan_attempts ?_ .refl hinv ?_⟩
  · exact fun a ha => State.mem_list_attempts_iff.mp ha |>.left
  · intro u hu hc hr
    have hl : u.list_cases = s.list_cases := congrArg Table.rows hc
    have hcs : ∀ id, u.case_status id = s.case_status id := fun id => by
      rw [State.case_status, State.get_case, hc]
      rfl
    simp only [wp_list_cases, Prog.wp_pure, hl]
    refine ⟨hinv _ hu, wp_set_cases ?_ ?_ ?_⟩
    · intro id hid
      exact ⟨.running, hcs id ▸ mem_ids_with_iff.mp hid, by simp [RunCaseStatus.next]⟩
    · exact fun ids => hinv _ <| status_write_cases.trans hu
    · refine hq _ (status_write_cases.trans hu) hr.write_cases fun id => ?_
      rw [case_status_write_ids hl.symm, hcs]

theorem Reconciled.trans {u : Storage.State} (h : Reconciled s t) (h' : Reconciled t u) :
    Reconciled s u := by
  have ⟨g, hg, ho⟩ := h.attempts
  have ⟨g', hg', ho'⟩ := h'.attempts
  refine ⟨⟨g' ∘ g, by simp [hg', hg], fun a ha => ?_⟩, h'.events.trans h.events,
    h'.outputs.trans h.outputs, h'.case_results.trans h.case_results,
    h'.run_results.trans h.run_results⟩
  have hga : g a ∈ t.attempts := by
    rw [Table.mem_rows, hg]
    exact List.mem_map_of_mem ha
  rcases ho a ha, ho' (g a) hga with ⟨h₁ | ⟨hl, h₁⟩, h₂ | ⟨hl', h₂⟩⟩
  · exact .inl <| h₂.trans h₁
  · exact .inr ⟨h₁ ▸ hl', h₂.trans <| congrArg orphan h₁⟩
  · exact .inr ⟨hl, h₂.trans h₁⟩
  · simp [h₁, orphan, State.AttemptUpdate.apply, live] at hl'

-- What a case that an earlier session left behind goes on as.
def prepared_status (stored : RunStatus) : RunCaseStatus → RunCaseStatus
  | .running   => .queued
  | .failed    => if resumed stored then .queued else .failed
  | .cancelled => if reopened stored then .queued else .cancelled
  | st         => st

-- The state in which a session enters its run loop.
structure Prepared (s t : Storage.State) : Prop extends Reconciled s t where
  stored : s.status ≠ .complete ∧ s.status ≠ .failed
  status : t.status = if s.status = .aggregating then .aggregating else .running
  cases  : ∀ id, t.case_status id = (s.case_status id).map (prepared_status s.status)

-- From the reconciler on, where `stored` is the status the session found.
theorem wp_requeue {stored : RunStatus} {Q : Unit → Storage.State → Prop}
    (hc : reopened stored → ∀ id, s.case_status id ≠ some .cancelled)
    (hinv : ∀ u, u.status = s.status → c.inv u)
    (hq : ∀ u, u.status = s.status → Reconciled s u →
      (∀ id, u.case_status id = (s.case_status id).map (prepared_status stored)) → Q () u) :
    (requeue stored).wp c Q s := by
  simp only [requeue, Prog.wp_bind]
  refine wp_reconcile_stale hinv fun u hu hr hcs => ?_
  have hfailed : (failed_cases (resumed stored)).wp c (fun failed v => v = u ∧
      ∀ id, id ∈ failed ↔ resumed stored ∧ s.case_status id = some .failed) u := by
    unfold failed_cases
    split
    case isTrue h =>
      simp only [Prog.wp_bind, wp_list_cases, Prog.wp_pure]
      refine ⟨hinv _ hu, trivial, fun id => ?_⟩
      rw [mem_ids_with_iff, hcs, and_iff_right h]
      cases s.case_status id with
      | none    => simp
      | some st => by_cases hst : st = .running <;> simp [hst]
    case isFalse h => exact ⟨rfl, by simp [h]⟩
  refine Prog.wp_mono ?_ hfailed
  rintro failed v ⟨rfl, hf⟩ order -
  have hmem : ∀ id, id ∈ order.val ↔
      s.case_status id = some .running ∨ resumed stored ∧ s.case_status id = some .failed := by
    intro id
    rw [order.property.mem_iff, List.mem_dedup, List.mem_append, mem_ids_with_iff, hf]
  refine wp_set_cases ?_ ?_ ?_
  · intro id hid
    rcases hmem id |>.mp hid with h | ⟨-, h⟩
    · exact ⟨.cancelled, by simp [hcs, h], by simp [RunCaseStatus.next]⟩
    · exact ⟨.failed, by simp [hcs, h], by simp [RunCaseStatus.next]⟩
  · exact fun ids => hinv _ <| status_write_cases.trans hu
  · refine hq _ (status_write_cases.trans hu) hr.write_cases fun id => ?_
    rw [State.case_status_write_cases, hcs]
    simp only [hmem]
    cases h : s.case_status id with
    | none    => simp
    | some st =>
      have hc' := fun hre => hc hre id
      cases st <;> cases hre : reopened stored <;> cases hrs : resumed stored <;>
        simp_all [prepared_status]

theorem wp_prepare {Q : Unit → Storage.State → Prop}
    (hs : s.status ≠ .complete ∧ s.status ≠ .failed) (hinv : ∀ u, Starting s u → c.inv u)
    (hq : ∀ u, Prepared s u → Q () u) : (prepare s.status).wp c Q s := by
  have hrun : ∀ u : Storage.State, u.status = started s.status → Starting s u := by
    intro u hu
    unfold started at hu
    split at hu
    · exact .inr <| .inr <| .inr hu
    · exact .inl hu
  unfold prepare
  by_cases hre : reopened s.status
  · simp only [hre, if_true]
    rw [Prog.wp_bind]
    refine wp_reopen hre (fun u hu => hinv u <| .inr <| .inl hu) fun u hu hr hcs => ?_
    rw [Prog.wp_bind, ← hu]
    refine wp_start ?_ (wp_requeue ?_ ?_ ?_)
    · exact fun st hst => hinv _ <| .inr <| by simpa [State.write_run_status] using hst
    · intro _ id
      rw [State.case_status_write_run_status, hcs]
      cases s.case_status id with
      | none    => simp
      | some st => by_cases hst : st = .cancelled <;> simp [hst]
    · intro v hv
      exact hinv v <| .inr <| .inr <| .inr <| by simpa [State.write_run_status, started, hu] using hv
    · intro v hv hr' hcs'
      refine hq v ⟨hr.trans <| Reconciled.write_run_status.trans hr', hs, ?_, fun id => ?_⟩
      · have hna : s.status ≠ .aggregating := by
          intro h
          simp [reopened, h] at hre
        simp [hna, hv, State.write_run_status, started, hu]
      · rw [hcs', State.case_status_write_run_status, hcs]
        have hrs : resumed s.status := by simp [resumed, hre]
        cases s.case_status id with
        | none    => simp
        | some st => cases st <;> simp [prepared_status, hre, hrs]
  · simp only [hre, Bool.false_eq_true, if_false]
    rw [Prog.wp_bind]
    refine wp_start ?_ (wp_requeue ?_ ?_ ?_)
    · exact fun st hst => hinv _ <| .inr <| by simpa [State.write_run_status] using hst
    · exact fun h => absurd h hre
    · exact fun v hv => hinv v <| hrun v hv
    · intro v hv hr hcs
      refine hq v ⟨Reconciled.write_run_status.trans hr, hs, ?_, hcs⟩
      have ⟨hnc, hnf⟩ := hs
      rw [hv]
      cases h : s.status <;> simp_all [State.write_run_status, started, reopened]

end Engine
