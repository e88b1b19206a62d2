import Traceline.Engine.Theorems.Attempt

open Lifecycle Spec Events Evaluators Storage

namespace Engine

variable {E : Engine} {run : Run} {p : Redaction.Patterns} {c : Prog.Spec (store run p)}
variable {s t u : Storage.State} {case : TestCase} {case_id : String} {r k n : ℕ}
variable {new new' : List AttemptRecord} {o : AttemptResult}

-- An attempt as its row and as its result shows it.
def row_sample (a : AttemptRecord) : String × ℕ × AttemptStatus :=
  (a.attempt_id, a.repeat_index, a.status)

def outcome_sample (o : AttemptResult) : String × ℕ × AttemptStatus :=
  (o.attempt_id, o.repeat_index, o.status)

theorem Ran.adds (h : Ran E run p case r k s o t) :
    ∃ a, Own ⟨case, o.attempt_id, r, k, none⟩ o.status a ∧ Adds case.case_id [a] s t ∧
      t.cases = s.cases := by
  have ⟨a, ho, ha⟩ := h.tried.trying.adds
  exact ⟨a, ho, ha, h.tried.trying.cases⟩

theorem Free.next (h : Free case_id r k s) {a : AttemptRecord} (ha : Adds case_id [a] s t)
    (hr : a.repeat_index = r) (hk : a.attempt = k) : Free case_id r (k + 1) t := by
  intro b hb hc
  rw [Table.mem_rows, ha.attempts, List.mem_append, List.mem_singleton] at hb
  rcases hb with hb | rfl
  · have := h b hb hc
    omega
  · omega

theorem Free.next_repeat (h : Free case_id r k s) (ha : Adds case_id new s t)
    (hn : ∀ a ∈ new, a.repeat_index = r) : Free case_id (r + 1) 0 t := by
  intro b hb hc
  rw [Table.mem_rows, ha.attempts, List.mem_append] at hb
  rcases hb with hb | hb
  · have := h b hb hc
    omega
  · have := hn b hb
    omega

-- What the retries of a repeat add.
structure Retried (case_id : String) (r : ℕ) (new : List AttemptRecord) (s t : Storage.State) :
    Prop extends Adds case_id new s t where
  cases   : t.cases = s.cases
  retries : ∀ a ∈ new, a.repeat_index = r ∧ a.is_first_attempt = false

theorem Retried.refl : Retried case_id r [] s s :=
  ⟨.refl, rfl, nofun⟩

theorem wp_run_retries {Q : List AttemptResult × List String → Storage.State → Prop}
    (hk : 0 < k) (hf : Free case.case_id r k s) (hinv : ∀ u, Grows case.case_id s u → c.inv u)
    (herr : ∀ e u, External e → Grows case.case_id s u → c.error e u)
    (hq : ∀ os w new u, Retried case.case_id r new s u → Q (os, w) u) :
    (E.run_retries run case r n k).wp c Q s := by
  induction n generalizing k s Q with
  | zero      => exact hq [] [] [] s .refl
  | succ n ih =>
    rw [run_retries, Prog.wp_bind]
    refine wp_run_attempt hf hinv herr fun o w u ho => ?_
    have ⟨a, hown, ha, hc⟩ := ho.adds
    have hone : ∀ b ∈ [a], b.repeat_index = r ∧ b.is_first_attempt = false := by
      intro b hb
      rw [List.mem_singleton.mp hb, hown.is_first_attempt, hown.repeat_index]
      simp [Nat.ne_of_gt hk]
    have hgrows : Grows case.case_id s u := ⟨hc, [a], ha⟩
    dsimp only
    split
    case isTrue  => exact hq _ _ [a] u ⟨ha, hc, hone⟩
    case isFalse =>
      rw [Prog.wp_bind]
      refine ih k.succ_pos (hf.next ha hown.repeat_index hown.attempt)
        (fun v hv => hinv v <| hgrows.trans hv) (fun e v he hv => herr e v he <| hgrows.trans hv)
        fun os w' new v hv => ?_
      refine hq _ _ ([a] ++ new) v ⟨ha.trans hv.toAdds, hv.cases.trans hc, fun b hb => ?_⟩
      exact (List.mem_append.mp hb).elim (hone b) (hv.retries b)

variable (E run p case) in
-- A first attempt that ran to an end, and where it completed, what it was scored on.
structure Sampled (o : AttemptResult) (t : Storage.State) : Prop where
  ended    : live o.status = false
  attempt  : o.attempt = 0
  unscored : o.status ≠ .completed → o.scores = []
  scored   : o.status = .completed → ∃ s u result a,
    Scored E run p s ⟨case, o.attempt_id, o.repeat_index, 0, none⟩ o u result ∧
    a ∈ t.attempts ∧ a.attempt_id = o.attempt_id ∧ a.case_id = case.case_id ∧
    ∀ w, t.evidence w a = u.evidence w a

-- What was sampled stays so while other evidence is added.
theorem Sampled.mono (h : Sampled E run p case o t)
    (ha : ∀ a ∈ t.attempts, a ∈ u.attempts ∧ ∀ w, u.evidence w a = t.evidence w a) :
    Sampled E run p case o u where
  ended    := h.ended
  attempt  := h.attempt
  unscored := h.unscored
  scored   := by
    intro hs
    have ⟨s, v, result, a, hsc, hm, hid, hc, he⟩ := h.scored hs
    exact ⟨s, v, result, a, hsc, (ha a hm).left, hid, hc, fun w => (ha a hm).right w |>.trans (he w)⟩

theorem Sampled.adds (h : Sampled E run p case o t) (ha : Adds case_id new t u) :
    Sampled E run p case o u :=
  h.mono fun a hm => ⟨ha.mem hm, ha.evidence a hm⟩

theorem Ran.sampled (h : Ran E run p case r 0 s o t) : Sampled E run p case o t where
  ended    := h.ended
  attempt  := h.tried.attempt
  unscored := h.unscored
  scored   := by
    intro hs
    have ⟨result, hsc⟩ := h.scored hs
    have ⟨a, hown, ha, _⟩ := h.adds
    rw [← show o.repeat_index = r from h.tried.repeat_index] at hsc
    exact ⟨s, t, result, a, hsc, ha.mem_new (.head _), hown.attempt_id, hown.case_id, fun _ => rfl⟩

variable (E run p case) in
-- What the repeats of a case add: first attempts at the indices from `r` on, and retries.
structure Repeated (r n : ℕ) (new : List AttemptRecord) (s : Storage.State)
    (firsts : List AttemptResult) (t : Storage.State) : Prop
    extends Adds case.case_id new s t where
  range   : ∀ a ∈ new, r ≤ a.repeat_index ∧ a.repeat_index < r + n
  rows    : (new.filter (·.is_first_attempt)).map row_sample = firsts.map outcome_sample
  indices : firsts.map (·.repeat_index) = List.range' r n
  sampled : ∀ o ∈ firsts, Sampled E run p case o t

theorem Repeated.cons {retries : List AttemptRecord} {firsts : List AttemptResult}
    {v : Storage.State} (ho : Ran E run p case r 0 s o t) (hr : Retried case.case_id r retries t u)
    (h : Repeated E run p case (r + 1) n new u firsts v) :
    ∃ a, Repeated E run p case r (n + 1) ([a] ++ retries ++ new) s (o :: firsts) v := by
  have ⟨a, hown, ha, _⟩ := ho.adds
  refine ⟨a, (ha.trans hr.toAdds).trans h.toAdds, fun b hb => ?_, ?_, ?_, fun o' ho' => ?_⟩
  · rcases List.mem_append.mp hb with hb | hb
    · rcases List.mem_append.mp hb with hb | hb
      · have := hown.repeat_index
        rw [List.mem_singleton.mp hb]
        dsimp only at this
        omega
      · have := hr.retries b hb |>.left
        omega
    · have := h.range b hb
      omega
  · have hretries : retries.filter (·.is_first_attempt) = [] :=
      List.filter_eq_nil_iff.mpr fun b hb => by simp [hr.retries b hb]
    have hrow : row_sample a = outcome_sample o := by
      have hi : o.repeat_index = r := ho.tried.repeat_index
      simp [row_sample, outcome_sample, hown.attempt_id, hown.repeat_index, hown.status, hi]
    rw [List.filter_append, List.filter_append, hretries, List.append_nil, List.map_append, h.rows]
    simp [hown.is_first_attempt, hrow]
  · have hi : o.repeat_index = r := ho.tried.repeat_index
    rw [List.map_cons, h.indices, hi, List.range'_succ]
  · cases ho' with
    | head        => exact ho.sampled.adds hr.toAdds |>.adds h.toAdds
    | tail _ ho' => exact h.sampled o' ho'

theorem wp_run_repeats
    {Q : List AttemptResult × List AttemptResult × List String → Storage.State → Prop}
    (hf : Free case.case_id r 0 s) (hinv : ∀ u, Grows case.case_id s u → c.inv u)
    (herr : ∀ e u, External e → Grows case.case_id s u → c.error e u)
    (hq : ∀ firsts others w new u, Repeated E run p case r n new s firsts u → u.cases = s.cases →
      Q (firsts, others, w) u) :
    (E.run_repeats run case n r).wp c Q s := by
  induction n generalizing r s Q with
  | zero      => exact hq [] [] [] [] s ⟨.refl, by simp, rfl, rfl, by simp⟩ rfl
  | succ n ih =>
    rw [run_repeats, Prog.wp_bind]
    refine wp_run_attempt hf hinv herr fun o w u ho => ?_
    obtain ⟨a, hown, ha, hc⟩ := ho.adds
    have hu : Grows case.case_id s u := ⟨hc, [a], ha⟩
    have hrest : ∀ os w' retries v, Retried case.case_id r retries u v → Prog.wp c (do
        let rest ← E.run_repeats run case n (r + 1)
        return (o :: rest.1, os ++ rest.2.1, w ++ w' ++ rest.2.2)) Q v := by
      intro os w' retries v hv
      have hgrows := hu.trans ⟨hv.cases, retries, hv.toAdds⟩
      have hfree := hf.next ha hown.repeat_index hown.attempt |>.next_repeat hv.toAdds
        fun b hb => hv.retries b hb |>.left
      rw [Prog.wp_bind]
      refine ih hfree (fun y hy => hinv y <| hgrows.trans hy)
        (fun e y he hy => herr e y he <| hgrows.trans hy) fun firsts others rest new y hy hyc => ?_
      obtain ⟨_, h⟩ := Repeated.cons ho hv hy
      exact hq _ _ _ _ y h <| hyc.trans <| hv.cases.trans hc
    dsimp only
    split
    case isTrue =>
      rw [Prog.wp_bind]
      refine wp_run_retries Nat.one_pos (hf.next ha hown.repeat_index hown.attempt)
        (fun v hv => hinv v <| hu.trans hv) (fun e v he hv => herr e v he <| hu.trans hv) ?_
      exact fun os w' retries v hv => hrest os w' retries v hv
    case isFalse =>
      rw [Prog.wp_bind]
      exact hrest [] [] [] u .refl

theorem foldl_max_le_iff {l : List ℕ} {m n : ℕ} :
    l.foldl max m ≤ n ↔ m ≤ n ∧ ∀ i ∈ l, i ≤ n := by
  induction l generalizing m with
  | nil          => simp
  | cons i l ih => rw [List.foldl_cons, ih, max_le_iff, List.forall_mem_cons, and_assoc]

theorem repeat_offset_le_iff {prior : List AttemptRecord} :
    repeat_offset prior ≤ n ↔ ∀ a ∈ prior, a.repeat_index < n := by
  rw [repeat_offset, foldl_max_le_iff, List.forall_mem_map, and_iff_right n.zero_le]
  exact Iff.rfl

-- The repeats of an execution start where no attempt of the case is yet.
theorem free_offset : Free case_id (repeat_offset (s.list_attempts (some case_id))) 0 s :=
  fun a ha hc => .inl <| repeat_offset_le_iff.mp le_rfl a <|
    State.mem_list_attempts_iff.mpr ⟨ha, by simpa using hc⟩

-- Writes to the row of the case itself.
theorem Adds.of_case_row (h : Adds case_id new s t) (hr : u.status = t.status)
    (hres : u.run_results = t.run_results) (ha : u.attempts = t.attempts)
    (he : u.events = t.events) (ho : u.outputs = t.outputs)
    (hc : u.case_results = t.case_results)
    (hrow : ∀ id, id ≠ case_id → u.get_case id = t.get_case id) : Adds case_id new s u where
  status      := hr.trans h.status
  others      := fun id hid => (hrow id hid).trans <| h.others id hid
  run_results := hres.trans h.run_results
  evidence    := fun a hm w => by
    rw [← h.evidence a hm w]
    simp [State.evidence, State.get_trace_events, State.get_attempt_output, he, ho]
  scores      := fun id hid m r => hc ▸ h.scores id hid m r
  attempts    := ha ▸ h.attempts
  owned       := h.owned

theorem Adds.write_case_status (h : Adds case_id new s t) (st : RunCaseStatus) :
    Adds case_id new s (t.write_case_status case_id st) :=
  h.of_case_row rfl rfl rfl rfl rfl rfl fun id hid => by
    simp [State.get_case_write_case_status, hid]

theorem Adds.set_case_classification (h : Adds case_id new s t) (cl cat : Option String) :
    Adds case_id new s (t.set_case_classification case_id cl cat) :=
  h.of_case_row rfl rfl rfl rfl rfl rfl fun id hid => by
    simp [State.get_case_set_case_classification, hid]

-- While the attempts of a case run.
structure Working (case_id : String) (s t : Storage.State) : Prop where
  adds : ∃ new, Adds case_id new s t
  own  : t.case_status case_id = s.case_status case_id ∨ t.case_status case_id = some .running

variable (E run p case) in
-- What an execution of a case that came to an end leaves.
structure Executed (new : List AttemptRecord) (s : Storage.State) (result : CaseRunResult)
    (t : Storage.State) : Prop
    extends Repeated E run p case (repeat_offset (s.list_attempts (some case.case_id)))
      run.repeats new s result.repeat_outcomes t where
  case_id       : result.case_id = case.case_id
  own           : t.case_status case.case_id = some result.status
  result_status : result.status =
    if any_cancelled result.repeat_outcomes then .cancelled
    else if result.repeat_outcomes.any (·.status = .completed) then .completed
    else .failed

theorem Repeated.of_adds {firsts : List AttemptResult} {s' t' : Storage.State}
    (h : Repeated E run p case r n new s firsts t) (ha : Adds case.case_id new s' t')
    (hat : t'.attempts = t.attempts) (hev : t'.events = t.events) (hou : t'.outputs = t.outputs) :
    Repeated E run p case r n new s' firsts t' where
  toAdds  := ha
  range   := h.range
  rows    := h.rows
  indices := h.indices
  sampled := fun o ho => h.sampled o ho |>.mono fun a hm => ⟨hat ▸ hm, fun w => by
    simp [State.evidence, State.get_trace_events, State.get_attempt_output, hev, hou]⟩

theorem wp_close_case {firsts others : List AttemptResult} {w : List String}
    {Q : CaseRunResult → Storage.State → Prop} {s₁ : Storage.State}
    (h : Repeated E run p case (repeat_offset (s.list_attempts (some case.case_id))) run.repeats
      new s₁ firsts t) (ha : Adds case.case_id new s t) (hcan : ¬any_cancelled firsts)
    (hst : t.case_status case.case_id = some .running)
    (hinv : ∀ u, Adds case.case_id new s u → u.case_status case.case_id = some .running → c.inv u)
    (hdone : ∀ result new u, Executed E run p case new s result u → c.inv u)
    (hq : ∀ result new u, Executed E run p case new s result u → Q result u) :
    (close_case case.case_id firsts others w).wp c Q t := by
  unfold close_case
  rcases hclass : classify_case firsts with ⟨cl, cat⟩
  set st : RunCaseStatus := if firsts.any (·.status = .completed) then .completed else .failed
    with hstatus
  set t₁ := t.set_case_classification case.case_id cl cat
  have ha₁ : Adds case.case_id new s t₁ := ha.set_case_classification cl cat
  have hst₁ : t₁.case_status case.case_id = some .running := by simp [t₁, hst]
  obtain ⟨r, hr, hrs⟩ := State.case_status_eq_some_iff.mp hst₁
  have hlegal : st ∈ RunCaseStatus.running.next := by
    rw [hstatus]
    split <;> simp [RunCaseStatus.next]
  set t₂ := t₁.write_case_status case.case_id st
  have ha₂ : Adds case.case_id new s t₂ := ha₁.write_case_status st
  have hst₂ : t₂.case_status case.case_id = some st := by simp [t₂, hst₁]
  obtain ⟨r', hr', hrs'⟩ := State.case_status_eq_some_iff.mp hst₂
  have hex : Executed E run p case new s
      ⟨case.case_id, r'.status, cl, cat, firsts, others, w⟩ t₂ :=
    ⟨h.of_adds ha₂ rfl rfl rfl, rfl, hrs'.symm ▸ hst₂, by simp [hcan, hrs', hstatus]⟩
  simp only [Prog.wp_bind, wp_set_case_classification]
  rw [wp_set_case_status hr (.inr <| hrs ▸ hlegal), wp_get_case, hr']
  exact ⟨hinv t₁ ha₁ hst₁, hdone _ _ _ hex, hdone _ _ _ hex, hq _ _ _ hex⟩

theorem wp_run_case_inner {Q : CaseRunResult → Storage.State → Prop}
    (hcase : case ∈ run.spec.cases)
    (hst : s.case_status case.case_id = some .queued ∨ s.case_status case.case_id = some .running)
    (hinv : ∀ u, Working case.case_id s u → c.inv u)
    (hdone : ∀ result new u, Executed E run p case new s result u → c.inv u)
    (herr : ∀ e u, External e → Working case.case_id s u → c.error e u)
    (hq : ∀ result new u, Executed E run p case new s result u → Q result u) :
    (E.run_case_inner run case.case_id).wp c Q s := by
  rw [run_case_inner, EvaluationSpec.find_case hcase]
  obtain ⟨record, hrec, hlegal⟩ : ∃ r, s.get_case case.case_id = some r ∧
      (r.status = .running ∨ .running ∈ r.status.next) := by
    obtain h | h := hst
    all_goals
      obtain ⟨r, hr, hs⟩ := State.case_status_eq_some_iff.mp h
      exact ⟨r, hr, by simp [hs, RunCaseStatus.next]⟩
  simp only [Prog.wp_bind, wp_list_attempts]
  rw [wp_set_case_status hrec hlegal]
  set s₁ := s.write_case_status case.case_id .running
  have hown : s₁.case_status case.case_id = some .running := by
    obtain ⟨st, hs⟩ : ∃ st, s.case_status case.case_id = some st := hst.elim (⟨_, ·⟩) (⟨_, ·⟩)
    simp [s₁, hs]
  have hs₁ : Adds case.case_id [] s s₁ := Adds.refl.write_case_status .running
  have hworking : ∀ u, Grows case.case_id s₁ u → Working case.case_id s u := by
    rintro u ⟨hc, new, ha⟩
    refine ⟨⟨_, hs₁.trans ha⟩, .inr ?_⟩
    rw [State.case_status, State.get_case, hc]
    exact hown
  refine ⟨hinv _ (hworking _ .refl), hinv _ (hworking _ .refl), ?_⟩
  refine wp_run_repeats free_offset (fun u hu => hinv u <| hworking u hu)
    (fun e u he hu => herr e u he <| hworking u hu) fun firsts others w new u hu hc => ?_
  have hadds : Adds case.case_id new s u := hs₁.trans hu.toAdds
  have hrunning : u.case_status case.case_id = some .running := by
    rw [State.case_status, State.get_case, hc]
    exact hown
  obtain ⟨r, hr, hrs⟩ := State.case_status_eq_some_iff.mp hrunning
  dsimp only
  split
  case isTrue hcan =>
    have hdone' : Executed E run p case new s ⟨case.case_id, .cancelled, none, some "infra",
        firsts, others, w⟩ (u.write_case_status case.case_id .cancelled) :=
      ⟨hu.of_adds (hadds.write_case_status _) rfl rfl rfl, rfl, by simp [hrunning], by simp [hcan]⟩
    rw [Prog.wp_bind, wp_set_case_status hr (by simp [hrs, RunCaseStatus.next])]
    exact ⟨hdone _ _ _ hdone', hq _ _ _ hdone'⟩
  case isFalse hcan =>
    exact wp_close_case (s := s) hu hadds hcan hrunning
      (fun u ha hcs => hinv u ⟨⟨_, ha⟩, .inr hcs⟩) hdone hq

end Engine
