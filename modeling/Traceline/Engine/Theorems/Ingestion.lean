import Traceline.Engine.Theorems.Completion

open Lifecycle Spec Events Evaluators Storage

namespace Storage.State

variable {s : State} {p : Redaction.Patterns} {events : List TraceEvent}

-- A batch that storage takes: events of one workspace whose columns convert.
def Storable (events : List TraceEvent) : Prop :=
  (∀ e ∈ events, ∀ first ∈ events.head?, e.workspace_id = first.workspace_id) ∧
    ∀ e ∈ events, event_row e = .ok ()

theorem forM_event_row_ok_iff :
    events.forM event_row = .ok () ↔ ∀ e ∈ events, event_row e = .ok () := by
  induction events with
  | nil            => simp [pure, Except.pure]
  | cons e events ih =>
    rw [List.forall_mem_cons, ← ih]
    change (event_row e >>= fun _ => events.forM event_row) = .ok () ↔ _
    rw [Except.bind_eq_ok_iff]
    exact ⟨fun ⟨_, he, hr⟩ => ⟨he, hr⟩, fun ⟨he, hr⟩ => ⟨(), he, hr⟩⟩

-- A batch goes in as a whole or is refused as a whole.
theorem insert_trace_events_of_storable (h : Storable events) :
    s.insert_trace_events p events =
      (.ok (), { s with events := insert_events s.events (events.map (·.redacted p)) }) := by
  cases events with
  | nil => rfl
  | cons first events =>
    have hw : (first :: events).any (·.workspace_id ≠ first.workspace_id) = false := by
      rw [List.any_eq_false]
      intro e he
      simpa using h.left e he first rfl
    simp only [insert_trace_events, hw, Bool.false_eq_true, if_false,
      forM_event_row_ok_iff.mpr h.right]

theorem event_row_error {e : TraceEvent} {err : Error} (h : event_row e = .error err) (m : String) :
    err ≠ .engine_error m := by
  unfold event_row at h
  dsimp only at h
  split at h
  · cases h
    nofun
  · split at h
    · cases h
      nofun
    · split at h <;> cases h
      nofun

theorem insert_trace_events_of_not_storable (h : ¬Storable events) :
    ∃ e, (∀ m, e ≠ .engine_error m) ∧ s.insert_trace_events p events = (.error e, s) := by
  cases events with
  | nil => exact absurd ⟨by simp, by simp⟩ h
  | cons first events =>
    unfold insert_trace_events
    dsimp only
    split
    case isTrue => exact ⟨.value_error _, nofun, rfl⟩
    case isFalse hw =>
      split
      case h_1 e he =>
        obtain ⟨_, _, he⟩ := Except.forM_eq_error he
        exact ⟨e, event_row_error he, rfl⟩
      case h_2 hr =>
        refine absurd ⟨fun e he first' hf => ?_, forM_event_row_ok_iff.mp hr⟩ h
        obtain rfl := Option.some.inj hf
        by_contra hne
        exact hw <| List.any_eq_true.mpr ⟨e, he, by simpa using hne⟩

-- Each event of a batch goes in or is ignored.
theorem insert_events_sublist (t : Table TraceEvent.event_id) (events : List TraceEvent) :
    ∃ new, (insert_events t events).rows = t.rows ++ new ∧ new.Sublist events := by
  induction events generalizing t with
  | nil            => exact ⟨[], by simp [insert_events], .slnil⟩
  | cons e events ih =>
    obtain ⟨new, hr, hn⟩ := ih ((t.insert e).getD t)
    cases h : t.insert e with
    | none =>
      rw [h] at hr
      exact ⟨new, by simpa [insert_events, h] using hr, hn.cons e⟩
    | some t' =>
      obtain ⟨-, ht'⟩ := Table.insert_eq_some_iff.mp h
      simp only [h, Option.getD_some, ht', List.append_assoc] at hr
      exact ⟨e :: new, by simpa [insert_events, h] using hr, hn.cons_cons e⟩

-- The batch goes in whole exactly where its ids are new ones.
theorem insert_events_rows_iff {t : Table TraceEvent.event_id} :
    (insert_events t events).rows = t.rows ++ events ↔
      (events.map (·.event_id)).Nodup ∧ ∀ e ∈ events, t.find e.event_id = none := by
  constructor
  · intro hr
    have hn := (insert_events t events).nodup
    rw [hr, List.map_append, List.nodup_append] at hn
    refine ⟨hn.right.left, fun e he => Table.find_eq_none_iff.mpr fun e' he' hid => ?_⟩
    exact hn.right.right _ (List.mem_map_of_mem he') _ (List.mem_map_of_mem he) hid
  · rintro ⟨hn, hf⟩
    induction events generalizing t with
    | nil            => simp [insert_events]
    | cons e events ih =>
      obtain ⟨hne, hn⟩ := List.nodup_cons.mp hn
      have hne' : e.event_id ∉ events.map (·.event_id) := hne
      obtain ⟨t', ht⟩ : ∃ t', t.insert e = some t' := by
        refine Option.isSome_iff_exists.mp ?_
        have hfe := Table.find_eq_none_iff.mp <| hf e (.head _)
        have hmem : e.event_id ∉ t.rows.map TraceEvent.event_id := by
          intro hm
          obtain ⟨e', he', hid⟩ := List.mem_map.mp hm
          exact hfe e' he' hid
        simp [Table.insert, hmem]
      have ht' := Table.insert_eq_some_iff.mp ht |>.right
      have hrest := ih (t := t') hn fun e' he' => by
        have hmem : e'.event_id ∈ events.map (·.event_id) := List.mem_map_of_mem he'
        rw [Table.find_insert ht, if_neg, hf e' (.tail _ he')]
        exact fun hid => hne' <| hid ▸ hmem
      rw [ht', List.append_assoc] at hrest
      simpa [insert_events, ht] using hrest

end Storage.State

namespace Engine

variable {E : Engine} {run : Run} {p : Redaction.Patterns} {c : Prog.Spec (store run p)}
variable {s t : Storage.State} {x : Invocation} {events : List TraceEvent}

-- The capture contract holds of every event.
def Accepts (E : Engine) (run : Run) (x : Invocation) (events : List TraceEvent) : Prop :=
  events.findSome? (E.refuse run x) = none

-- The store after a batch of an attempt went in.
def ingested (p : Redaction.Patterns) (kept : List TraceEvent) (s : Storage.State) : Storage.State :=
  { s with events := State.insert_events s.events (kept.map (·.redacted p)) }

-- Everything that ingesting a list of events can come to.
theorem wp_ingest_events_cases {Q : List TraceEvent × Bool → Storage.State → Prop}
    (hrefused : ∀ m, ¬Accepts E run x events → c.error (.engine_error m) s)
    (hraised : ∀ e, (∀ m, e ≠ .engine_error m) → Accepts E run x events →
      ¬State.Storable (E.kept_events events) → c.inv s ∧ c.error e s)
    (hkept : ∀ b, Accepts E run x events → State.Storable (E.kept_events events) →
      c.inv (ingested p (E.kept_events events) s) ∧
        Q (E.kept_events events, b) (ingested p (E.kept_events events) s)) :
    (E.ingest_events run x events).wp c Q s := by
  unfold ingest_events
  split
  case h_1 m hm => exact hrefused m <| by simp [Accepts, hm]
  case h_2 ha =>
    rw [Prog.wp_bind]
    by_cases hs : State.Storable (E.kept_events events)
    · have hstep : Storage.perform run p (.insert_trace_events (E.kept_events events)) s =
          (.ok (), ingested p (E.kept_events events) s) :=
        State.insert_trace_events_of_storable hs
      exact (wp_call_ok hstep).mpr (hkept _ ha hs)
    · obtain ⟨e, hne, he⟩ := State.insert_trace_events_of_not_storable (s := s) (p := p) hs
      refine wp_call_of (d := .insert_trace_events (E.kept_events events)) ?_ ?_
      · intro _ t ht
        cases he.symm.trans ht
      · intro _ t ht
        cases he.symm.trans ht
        exact hraised e hne ha hs

-- What a run of an ingestion that does not die comes to.
theorem ingest_events_inv {allow : ∀ q : Query, q.Answer → Prop}
    {o : Prog.Outcome Storage.Error (List TraceEvent × Bool)}
    (e : Prog.Exec (store run p) allow (E.ingest_events run x events) s t o) (ho : o ≠ .crash) :
    (Accepts E run x events ∧ State.Storable (E.kept_events events) ∧
      t = ingested p (E.kept_events events) s ∧ ∃ b, o = .ok (E.kept_events events, b)) ∨
    (¬(Accepts E run x events ∧ State.Storable (E.kept_events events)) ∧ t = s ∧
      ∃ err, o = .error err) := by
  let c : Prog.Spec (store run p) := {
    allow
    inv   := fun _ => True
    error := fun _ u =>
      ¬(Accepts E run x events ∧ State.Storable (E.kept_events events)) ∧ u = s
  }
  have hwp : (E.ingest_events run x events).wp c (fun r u =>
      Accepts E run x events ∧ State.Storable (E.kept_events events) ∧
        u = ingested p (E.kept_events events) s ∧ ∃ b, r = (E.kept_events events, b)) s :=
    wp_ingest_events_cases
      (fun _ ha => ⟨fun h => ha h.left, rfl⟩)
      (fun _ _ _ hs => ⟨trivial, fun h => hs h.right, rfl⟩)
      (fun b ha hs => ⟨trivial, ha, hs, rfl, b, rfl⟩)
  have hmeets := Prog.wp_sound e trivial hwp |>.right
  cases o with
  | ok r =>
    obtain ⟨ha, hs, ht, b, rfl⟩ := hmeets
    exact .inl ⟨ha, hs, ht, b, rfl⟩
  | error err => exact .inr ⟨hmeets.left, hmeets.right, err, rfl⟩
  | crash     => exact absurd rfl ho

-- The identity of an event is that of the attempt.
structure Attributed (run : Run) (x : Invocation) (e : TraceEvent) : Prop where
  run_id       : e.run_id = run.run_id
  case_id      : e.case_id = x.case.case_id
  attempt_id   : e.attempt_id = x.attempt_id
  workspace_id : e.workspace_id = run.workspace_id
  repeat_index : e.repeat_index = x.repeat_index
  attempt      : e.attempt = x.attempt

-- The events that trace evaluation of an attempt sees.
def seen_events (x : Invocation) (events : List TraceEvent) : List TraceEvent :=
  if 0 < x.attempt then events else events.filter (·.attempt = 0)

-- An ingestion rejects the events and stores nothing, or keeps events of the attempt that are all
-- scored with it.
def Faithful (run : Run) (x : Invocation) (s t : Storage.State) :
    Prog.Outcome Storage.Error (List TraceEvent × Bool) → Prop
  | .ok (kept, _) => ∀ e ∈ kept, Attributed run x e ∧ e ∈ seen_events x kept
  | .error _      => t = s
  | .crash        => True

theorem refuse_eq_none_iff {e : TraceEvent} :
    E.refuse run x e = none ↔ e.redaction_state.isSome ∧ e.run_id = run.run_id ∧
      e.case_id = x.case.case_id ∧ e.attempt_id = x.attempt_id := by
  unfold refuse
  dsimp only
  split
  case isTrue h => simp_all
  case isFalse h =>
    split
    case isTrue h' =>
      refine iff_of_false (by simp) ?_
      rintro ⟨-, hr, hc, ha⟩
      exact h'.elim (· hr) fun h' => h'.elim (· hc) (· ha)
    case isFalse h' =>
      rw [not_or, not_or, not_not, not_not, not_not] at h'
      exact iff_of_true rfl ⟨Option.isSome_iff_ne_none.mpr <| by simpa using h, h'⟩

theorem mem_kept_events_iff {e : TraceEvent} :
    e ∈ E.kept_events events ↔ ∃ e' ∈ events.take MAX_EVENTS_PER_ATTEMPT, E.stamp e' = e := by
  rw [kept_events, ← List.map_take, List.mem_map]

theorem Attributed.mem_seen {kept : List TraceEvent} {e : TraceEvent} (h : Attributed run x e)
    (he : e ∈ kept) : e ∈ seen_events x kept := by
  unfold seen_events
  split
  case isTrue    => exact he
  case isFalse h0 =>
    have ha := h.attempt
    refine List.mem_filter.mpr ⟨he, ?_⟩
    simp only [decide_eq_true_eq]
    omega

-- What the earlier attempts of a run ingested. Nothing else touches its events.
def ingesting (E : Engine) (run : Run) (p : Redaction.Patterns) :
    Machine Storage.State (Option (Invocation × List TraceEvent)) where
  init s := s.events = .empty
  step
    | s, none,             t => t.events = s.events
    | s, some (x, events), t =>
      ∃ o, Prog.Exec (store run p) (fun _ _ => True) (E.ingest_events run x events) s t o

theorem kept_attempt_id (h : Accepts E run x events) :
    ∀ e ∈ E.kept_events events, e.case_id = x.case.case_id ∧ e.attempt_id = x.attempt_id := by
  intro e he
  obtain ⟨e', he', rfl⟩ := mem_kept_events_iff.mp he
  have hacc := List.findSome?_eq_none_iff.mp h e' <| List.mem_of_mem_take he'
  exact refuse_eq_none_iff.mp hacc |>.right.right

-- However far an ingestion gets, it adds events of its own attempt only.
theorem ingest_events_adds {allow : ∀ q : Query, q.Answer → Prop}
    {o : Prog.Outcome Storage.Error (List TraceEvent × Bool)}
    (e : Prog.Exec (store run p) allow (E.ingest_events run x events) s t o) :
    ∃ new, t.events.rows = s.events.rows ++ new ∧ ∀ e ∈ new, e.attempt_id = x.attempt_id := by
  let c : Prog.Spec (store run p) := {
    allow
    inv   := fun u =>
      ∃ new, u.events.rows = s.events.rows ++ new ∧ ∀ e ∈ new, e.attempt_id = x.attempt_id
    error := fun _ _ => True
  }
  have hs : c.inv s := ⟨[], by simp, by simp⟩
  have hwp : (E.ingest_events run x events).wp c (fun _ _ => True) s := by
    refine wp_ingest_events_cases (fun _ _ => trivial) (fun _ _ _ _ => ⟨hs, trivial⟩) ?_
    intro b ha _
    obtain ⟨new, hr, hn⟩ := State.insert_events_rows s.events
      ((E.kept_events events).map (·.redacted p))
    refine ⟨⟨new, hr, fun e he => ?_⟩, trivial⟩
    obtain ⟨e', he', rfl⟩ := List.mem_map.mp <| hn e he
    exact kept_attempt_id ha e' he' |>.right
  exact Prog.wp_sound e hs hwp |>.left

-- Every stored event is of an attempt that ingested.
theorem ingesting_attempts {s₀ : Storage.State} {h : List (Option (Invocation × List TraceEvent))}
    (r : (ingesting E run p).Run s₀ h s) (h₀ : s₀.events = .empty) :
    ∀ e ∈ s.events, ∃ y events, some (y, events) ∈ h ∧ e.attempt_id = y.attempt_id := by
  induction r with
  | refl =>
    intro e he
    rw [h₀] at he
    cases he
  | @step h t l u _ st ih =>
    intro e he
    cases l with
    | none =>
      obtain ⟨y, events, hy, hid⟩ := ih e <| (show u.events = t.events from st) ▸ he
      exact ⟨y, events, List.mem_append_left _ hy, hid⟩
    | some l =>
      obtain ⟨x, events⟩ := l
      obtain ⟨o, st⟩ := st
      obtain ⟨new, hr, hn⟩ := ingest_events_adds st
      rw [Table.mem_rows, hr, List.mem_append] at he
      obtain he | he := he
      · obtain ⟨y, events', hy, hid⟩ := ih e he
        exact ⟨y, events', List.mem_append_left _ hy, hid⟩
      · exact ⟨x, events, by simp, hn e he⟩

-- Storage returns what an ingestion kept, each event once and redacted, and still what it had of
-- the other attempts.
def ReadsBack (p : Redaction.Patterns) (run : Run) (x : Invocation) (kept : List TraceEvent)
    (s t : Storage.State) : Prop :=
  (t.get_trace_events run.workspace_id x.case.case_id x.attempt_id).Perm
      (kept.map (·.redacted p)) ∧
    ∀ w case_id id, id ≠ x.attempt_id →
      t.get_trace_events w case_id id = s.get_trace_events w case_id id

theorem get_trace_events_perm {w case_id id : String} :
    (s.get_trace_events w case_id id).Perm (s.events.rows.filter fun e =>
      e.workspace_id = w && e.case_id = case_id && e.attempt_id = id) :=
  List.mergeSort_perm _ _

theorem reads_back_iff {kept : List TraceEvent}
    (hown : ∀ e ∈ kept, e.case_id = x.case.case_id ∧ e.attempt_id = x.attempt_id)
    (hfresh : ∀ e ∈ s.events, e.attempt_id ≠ x.attempt_id) :
    ReadsBack p run x kept s (ingested p kept s) ↔
      (kept.map (·.event_id)).Nodup ∧
      ∀ e ∈ kept, s.events.find e.event_id = none ∧ e.workspace_id = run.workspace_id := by
  set rows := kept.map (·.redacted p) with hrows
  set own := fun e : TraceEvent =>
    decide (e.workspace_id = run.workspace_id) && decide (e.case_id = x.case.case_id) &&
      decide (e.attempt_id = x.attempt_id) with howndef
  have hids : rows.map (·.event_id) = kept.map (·.event_id) := by
    simp [hrows, Function.comp_def, TraceEvent.redacted]
  have hold : s.events.rows.filter own = [] := by
    refine List.filter_eq_nil_iff.mpr fun e he => ?_
    simp [howndef, hfresh e he]
  have hothers : ∀ w case_id id, id ≠ x.attempt_id →
      (ingested p kept s).get_trace_events w case_id id = s.get_trace_events w case_id id := by
    intro w case_id id hid
    refine State.get_trace_events_insert_events fun e he => ?_
    obtain ⟨e', he', rfl⟩ := List.mem_map.mp he
    exact fun h => hid <| h.symm.trans (hown e' he').right
  obtain ⟨new, hr, hsub⟩ := State.insert_events_sublist s.events rows
  have hread : ((ingested p kept s).get_trace_events run.workspace_id x.case.case_id
      x.attempt_id).Perm (new.filter own) := by
    refine get_trace_events_perm.trans ?_
    have hr' : (ingested p kept s).events.rows = s.events.rows ++ new := hr
    rw [hr', List.filter_append, hold, List.nil_append]
  have hiff : (State.insert_events s.events rows).rows = s.events.rows ++ rows ↔
      (rows.map (·.event_id)).Nodup ∧ ∀ e ∈ rows, s.events.find e.event_id = none :=
    State.insert_events_rows_iff
  rw [hids] at hiff
  constructor
  · rintro ⟨hp, -⟩
    have hperm : (new.filter own).Perm rows := hread.symm.trans hp
    have hlen : new = rows := by
      refine hsub.eq_of_length_le ?_
      rw [← hperm.length_eq]
      exact List.length_filter_le _ _
    obtain ⟨hn, hf⟩ := hiff.mp (hlen ▸ hr)
    refine ⟨hn, fun e he => ?_⟩
    have hmem : e.redacted p ∈ rows := List.mem_map_of_mem he
    have hfind := hf _ hmem
    refine ⟨hfind, ?_⟩
    have hown' := List.mem_filter.mp <| hperm.mem_iff.mpr hmem
    simp only [howndef, Bool.and_eq_true, decide_eq_true_eq] at hown'
    exact hown'.right.left.left
  · rintro ⟨hn, hf⟩
    refine ⟨?_, hothers⟩
    have hall : (State.insert_events s.events rows).rows = s.events.rows ++ rows := by
      refine hiff.mpr ⟨hn, fun e he => ?_⟩
      obtain ⟨e', he', rfl⟩ := List.mem_map.mp he
      exact (hf e' he').left
    obtain rfl : new = rows := List.append_cancel_left (hr.symm.trans hall)
    rw [List.filter_eq_self.mpr] at hread
    · exact hread
    · intro e he
      obtain ⟨e', he', rfl⟩ := List.mem_map.mp he
      obtain ⟨hc, ha⟩ := hown e' he'
      simp [howndef, TraceEvent.redacted, hc, ha, (hf e' he').right]

namespace Evasion

open OneCase

def invocation : Invocation where
  case         := ⟨"c1", [], []⟩
  attempt_id   := "a1"
  repeat_index := 0
  attempt      := 0

-- A tool call of the first attempt, which says of which attempt it is.
def tool_call (attempt : Int) : TraceEvent where
  event_id          := "e1"
  run_id            := "r1"
  workspace_id      := "w1"
  case_id           := "c1"
  attempt_id        := "a1"
  attempt           := attempt
  type              := .tool_call
  source            := .adapter
  timestamp         := ⟨0, some 0⟩
  tool              := some "delete_everything"
  redaction_state   := some {}
  tool_typed_column := by simp

-- How the ingestion of one event ends.
def ingestion (attempt : Int) :
    Storage.State × Prog.Outcome Storage.Error (List TraceEvent × Bool) :=
  (engine.ingest_events frozen invocation [tool_call attempt]).run (store frozen redactors)
    (answers false ⟨.completed, some 0, [], .null, .null⟩) 1 (created frozen)

theorem ingestion_exec (attempt : Int) :
    Prog.Exec (store frozen redactors) (fun _ _ => True)
      (engine.ingest_events frozen invocation [tool_call attempt]) (created frozen)
      (ingestion attempt).1 (ingestion attempt).2 :=
  Prog.run_exec (fun _ => trivial) _ _ _

end Evasion

namespace Collision

open OneCase

-- Two attempts whose agents both call their event "e1".
def event (attempt_id : String) (repeat_index : ℕ) : TraceEvent where
  event_id          := "e1"
  run_id            := "r1"
  workspace_id      := "w1"
  case_id           := "c1"
  attempt_id        := attempt_id
  repeat_index      := repeat_index
  type              := .llm_response
  source            := .adapter
  timestamp         := ⟨0, some 0⟩
  redaction_state   := some {}
  tool_typed_column := by simp

def invocation (attempt_id : String) (repeat_index : ℕ) : Invocation where
  case         := ⟨"c1", [], []⟩
  attempt_id   := attempt_id
  repeat_index := repeat_index
  attempt      := 0

def ingest (attempt_id : String) (repeat_index : ℕ) (s : Storage.State) :
    Storage.State × Prog.Outcome Storage.Error (List TraceEvent × Bool) :=
  (engine.ingest_events frozen (invocation attempt_id repeat_index) [event attempt_id repeat_index]).run
    (store frozen redactors) (answers false ⟨.completed, some 0, [], .null, .null⟩) 1 s

theorem ingest_exec (attempt_id : String) (repeat_index : ℕ) (s : Storage.State) :
    Prog.Exec (store frozen redactors) (fun _ _ => True)
      (engine.ingest_events frozen (invocation attempt_id repeat_index) [event attempt_id repeat_index]) s
      (ingest attempt_id repeat_index s).1 (ingest attempt_id repeat_index s).2 :=
  Prog.run_exec (fun _ => trivial) _ _ _

def earlier : Storage.State :=
  (ingest "a1" 0 (created frozen)).1

theorem earlier_run : (ingesting engine frozen redactors).Run (created frozen)
    [some (invocation "a1" 0, [event "a1" 0])] earlier :=
  .step (h := []) .refl ⟨_, ingest_exec "a1" 0 _⟩

theorem kept_eq : (ingest "a2" 1 earlier).2 = .ok ([engine.stamp (event "a2" 1)], false) := by
  decide

end Collision

end Engine
