import Mathlib.Data.List.Induction
import Traceline.Events

-- The events of a local agent's trace file, rebound at the boundary of the sandbox.
namespace Targets.Local

open Events

-- The keys of `execution_context` that events are bound to.
structure ExecutionContext where
  run_id       : Option String := none
  workspace_id : Option String := none
  case_id      : Option String := none
  attempt_id   : Option String := none
  repeat_index : Option Int := none
  attempt      : Option Int := none

-- The fields of an envelope that are shorter than `min_length`.
def too_short (e : TraceEvent) : List String :=
  [("event_id", e.event_id), ("run_id", e.run_id), ("workspace_id", e.workspace_id),
    ("case_id", e.case_id), ("attempt_id", e.attempt_id)].filterMap
      fun (field, value) => if value = "" then some field else none

-- The check of `TraceEvent`, with the fields that its ValidationError names.
def make_event (e : TraceEvent) : Except (List String) TraceEvent :=
  if too_short e = [] then .ok e else .error (too_short e)

def redaction_state (found : List Redaction.RedactedPayload) : RedactionState :=
  let flags := (found.flatMap (·.detector_flags)).dedup
  let truncated := found.any (·.truncated)
  {
    status := if truncated then .truncated else if flags = [] then .clean else .redacted
    rules  := flags.mergeSort
  }

section Sanitize

-- What `uuid4` and the clock give to each event.
variable (p : Redaction.Patterns) (context : ExecutionContext)
variable (uuid : ℕ → String) (now : ℕ → Timestamp)

-- The new envelope of an event.
def envelope (sequence : ℕ) (trusted_ids : List (String × String)) (event : TraceEvent) :
    TraceEvent :=
  let safe_payload := event.payload.map fun kvs => p.redact (16 * 1024) (.obj kvs)
  let safe_error := event.error.map (·.redacted p)
  {
    event_id            := uuid sequence
    run_id              := context.run_id.getD "local-run"
    workspace_id        := context.workspace_id.getD "default"
    case_id             := context.case_id.getD "local-case"
    attempt_id          := context.attempt_id.getD "local-attempt"
    repeat_index        := context.repeat_index.getD 0
    attempt             := context.attempt.getD 0
    sequence
    type                := event.type
    source              := .adapter
    timestamp           := now sequence
    duration_ms         := event.duration_ms
    parent_event_id     := event.parent_event_id.bind fun parent => trusted_ids.lookup parent
    tool                := event.tool
    otel                := event.otel
    redaction_state     := some <|
      redaction_state <| safe_payload.toList ++ (safe_error.map Prod.snd).toList
    payload             := safe_payload.bind (·.content.fields?)
    error               := safe_error.map Prod.fst
    tool_typed_column   := event.tool_typed_column
  }

-- An event has its new id before its parent is looked up.
def sanitize_agent_events (events : List TraceEvent) : Except (List String) (List TraceEvent) :=
  go 0 [] events
where
  go (sequence : ℕ) (trusted_ids : List (String × String)) :
      List TraceEvent → Except (List String) (List TraceEvent)
    | []              => .ok []
    | event :: events => do
      let trusted_ids := (event.event_id, uuid sequence) :: trusted_ids
      let safe ← make_event (envelope p context uuid now sequence trusted_ids event)
      let sanitized ← go (sequence + 1) trusted_ids events
      return safe :: sanitized

end Sanitize

section Claims

-- The worker's identity, the adapter's authority and no bill.
structure Trusted (context : ExecutionContext) (e : TraceEvent) : Prop where
  run_id              : e.run_id = context.run_id.getD "local-run"
  workspace_id        : e.workspace_id = context.workspace_id.getD "default"
  case_id             : e.case_id = context.case_id.getD "local-case"
  attempt_id          : e.attempt_id = context.attempt_id.getD "local-attempt"
  repeat_index        : e.repeat_index = context.repeat_index.getD 0
  attempt             : e.attempt = context.attempt.getD 0
  source              : e.source = .adapter
  provider_request_id : e.provider_request_id = none
  cost                : e.cost = none

variable (events safe : List TraceEvent)

-- An event has a parent exactly if the one it declares is another event of the file, and its parent
-- is that one under its new id.
structure Linked : Prop where
  sound    : ∀ (i : ℕ) (e s : TraceEvent) (id : String), events[i]? = some e → safe[i]? = some s →
    s.parent_event_id = some id → ∃ (k : ℕ) (e' s' : TraceEvent), k ≠ i ∧ events[k]? = some e' ∧
      safe[k]? = some s' ∧ e.parent_event_id = some e'.event_id ∧ s'.event_id = id
  complete : ∀ (i k : ℕ) (e e' s : TraceEvent), k ≠ i → events[i]? = some e →
    events[k]? = some e' → safe[i]? = some s → e.parent_event_id = some e'.event_id →
      s.parent_event_id.isSome

structure Faithful (context : ExecutionContext) : Prop where
  length  : safe.length = events.length
  trusted : ∀ s ∈ safe, Trusted context s
  linked  : Linked events safe

-- No event is its own parent, and a parent that comes after its child has the id of one that comes
-- before it.
structure Ordered : Prop where
  proper : ∀ e ∈ events, e.parent_event_id ≠ some e.event_id
  behind : ∀ (i k : ℕ) (e e' : TraceEvent), i < k → events[i]? = some e → events[k]? = some e' →
    e.parent_event_id = some e'.event_id →
      ∃ j < i, ∃ e₀, events[j]? = some e₀ ∧ e₀.event_id = e'.event_id

end Claims

section Names

variable {uuid : ℕ → String} {events : List TraceEvent} {e : TraceEvent} {id name : String} {k : ℕ}

-- The names that have been given when the events up to here are done.
def trusted_ids (uuid : ℕ → String) (events : List TraceEvent) : List (String × String) :=
  (events.mapIdx fun sequence e => (e.event_id, uuid sequence)).reverse

theorem trusted_ids_snoc :
    trusted_ids uuid (events ++ [e]) = (e.event_id, uuid events.length) :: trusted_ids uuid events := by
  simp [trusted_ids]

theorem trusted_ids_sound (h : (trusted_ids uuid events).lookup name = some id) :
    ∃ k e, events[k]? = some e ∧ e.event_id = name ∧ uuid k = id := by
  induction events using List.reverseRecOn with
  | nil                       => cases h
  | append_singleton events e ih =>
    rw [trusted_ids_snoc, List.lookup_cons] at h
    split at h
    case h_1 hname =>
      exact ⟨events.length, e, by simp, (beq_iff_eq.mp hname).symm, Option.some_inj.mp h⟩
    case h_2       =>
      obtain ⟨k, e', hk, h⟩ := ih h
      exact ⟨k, e', List.getElem?_append_left (List.getElem?_eq_some_iff.mp hk).choose |>.trans hk, h⟩

theorem trusted_ids_complete (h : events[k]? = some e) :
    ((trusted_ids uuid events).lookup e.event_id).isSome := by
  induction events using List.reverseRecOn with
  | nil                       => cases h
  | append_singleton events e' ih =>
    rw [trusted_ids_snoc, List.lookup_cons]
    split
    case h_1       => rfl
    case h_2 hname =>
      refine ih ?_
      by_cases hk : k < events.length
      · rwa [List.getElem?_append_left hk] at h
      · rw [List.getElem?_append_right (not_lt.mp hk)] at h
        obtain ⟨hlt, rfl⟩ := List.getElem?_eq_some_iff.mp h
        simp at hname

end Names

section Loop

variable {p : Redaction.Patterns} {context : ExecutionContext}
variable {uuid : ℕ → String} {now : ℕ → Timestamp} {events safe : List TraceEvent}

-- What the loop makes of the event at a position.
def rebound (p : Redaction.Patterns) (context : ExecutionContext) (uuid : ℕ → String)
    (now : ℕ → Timestamp) (events : List TraceEvent) (i : ℕ) (e : TraceEvent) : TraceEvent :=
  envelope p context uuid now i (trusted_ids uuid (events.take (i + 1))) e

theorem go_eq {past : List TraceEvent}
    (h : sanitize_agent_events.go p context uuid now past.length (trusted_ids uuid past) events =
      .ok safe) :
    safe = events.mapIdx fun i e => rebound p context uuid now (past ++ events) (past.length + i) e := by
  induction events generalizing past safe with
  | nil               => exact (Except.ok.inj h).symm
  | cons e events ih =>
    unfold sanitize_agent_events.go at h
    dsimp only at h
    rw [← trusted_ids_snoc] at h
    unfold make_event at h
    split at h
    case isFalse => cases h
    case isTrue  =>
      cases hgo : sanitize_agent_events.go p context uuid now (past.length + 1)
          (trusted_ids uuid (past ++ [e])) events with
      | error _   =>
        rw [hgo] at h
        cases h
      | ok safe' =>
        rw [hgo] at h
        obtain rfl := Except.ok.inj h
        have hlength : (past ++ [e]).length = past.length + 1 := List.length_append ..
        have hpast : past ++ [e] ++ events = past ++ e :: events := List.append_assoc ..
        have htake : (past ++ e :: events).take (past.length + 1) = past ++ [e] := by
          rw [← hpast, ← hlength, List.take_left]
        rw [← hlength] at hgo
        rw [ih hgo, List.mapIdx_cons, hpast, hlength, rebound, Nat.add_zero, htake]
        simp only [Nat.add_zero, Nat.add_assoc, Nat.add_comm 1]

theorem sanitized_eq (h : sanitize_agent_events p context uuid now events = .ok safe) :
    safe = events.mapIdx (rebound p context uuid now events) := by
  simpa using @go_eq p context uuid now events safe [] h

theorem get_safe {i : ℕ} {e s : TraceEvent}
    (h : sanitize_agent_events p context uuid now events = .ok safe) (he : events[i]? = some e)
    (hs : safe[i]? = some s) : s = rebound p context uuid now events i e := by
  rw [sanitized_eq h, List.getElem?_mapIdx, he] at hs
  exact (Option.some_inj.mp hs).symm

theorem get_rebound {i : ℕ} {e : TraceEvent}
    (h : sanitize_agent_events p context uuid now events = .ok safe) (he : events[i]? = some e) :
    safe[i]? = some (rebound p context uuid now events i e) := by
  rw [sanitized_eq h, List.getElem?_mapIdx, he]
  rfl

-- The parent that an event gets is the last one of its name up to the event itself.
theorem rebound_parent {i : ℕ} {e : TraceEvent} {id : String}
    (h : (rebound p context uuid now events i e).parent_event_id = some id) :
    ∃ k e', k ≤ i ∧ events[k]? = some e' ∧ e.parent_event_id = some e'.event_id ∧ uuid k = id := by
  obtain ⟨name, hname, hid⟩ := Option.bind_eq_some_iff.mp h
  obtain ⟨k, e', hk, rfl, huuid⟩ := trusted_ids_sound hid
  rw [List.getElem?_take] at hk
  split at hk
  case isTrue hlt => exact ⟨k, e', Nat.le_of_lt_succ hlt, hk, hname, huuid⟩
  case isFalse    => cases hk

theorem rebound_parent_isSome {i k : ℕ} {e e' : TraceEvent} (hk : k ≤ i) (he' : events[k]? = some e')
    (hp : e.parent_event_id = some e'.event_id) :
    (rebound p context uuid now events i e).parent_event_id.isSome := by
  have hin : (events.take (i + 1))[k]? = some e' := by
    rw [List.getElem?_take, if_pos (Nat.lt_succ_of_le hk), he']
  change (e.parent_event_id.bind _).isSome
  rw [hp]
  exact trusted_ids_complete hin

-- An event that is its own parent stays so.
theorem rebound_self {i : ℕ} {e : TraceEvent} (he : events[i]? = some e)
    (hp : e.parent_event_id = some e.event_id) :
    (rebound p context uuid now events i e).parent_event_id = some (uuid i) := by
  obtain ⟨hi, rfl⟩ := List.getElem?_eq_some_iff.mp he
  change (events[i].parent_event_id.bind _) = _
  have hlength : (events.take i).length = i := List.length_take_of_le hi.le
  rw [hp, Option.bind_some, List.take_succ_eq_append_getElem hi, trusted_ids_snoc, hlength]
  exact List.lookup_cons_self

theorem trusted (h : sanitize_agent_events p context uuid now events = .ok safe) :
    ∀ s ∈ safe, Trusted context s := by
  intro s hs
  rw [sanitized_eq h] at hs
  obtain ⟨i, hi, rfl⟩ := List.mem_mapIdx.mp hs
  exact ⟨rfl, rfl, rfl, rfl, rfl, rfl, rfl, rfl, rfl⟩

theorem linked (h : sanitize_agent_events p context uuid now events = .ok safe)
    (ho : Ordered events) : Linked events safe where
  sound i e s id he hs hid := by
    obtain rfl := get_safe h he hs
    obtain ⟨k, e', hk, he', hp, rfl⟩ := rebound_parent hid
    refine ⟨k, e', _, ?_, he', get_rebound h he', hp, rfl⟩
    rintro rfl
    obtain rfl := Option.some_inj.mp (he.symm.trans he')
    exact ho.proper e (List.mem_of_getElem? he) hp
  complete i k e e' s hne he he' hs hp := by
    obtain rfl := get_safe h he hs
    rcases Nat.lt_or_gt_of_ne hne with hk | hk
    · exact rebound_parent_isSome hk.le he' hp
    · obtain ⟨j, hj, e₀, he₀, hname⟩ := ho.behind i k e e' hk he he' hp
      exact rebound_parent_isSome hj.le he₀ (hname ▸ hp)

theorem ordered (hu : Function.Injective uuid)
    (h : sanitize_agent_events p context uuid now events = .ok safe) (hl : Linked events safe) :
    Ordered events := by
  have hproper (e : TraceEvent) (he : e ∈ events) : e.parent_event_id ≠ some e.event_id := by
    intro hp
    obtain ⟨i, hi⟩ := List.mem_iff_getElem?.mp he
    obtain ⟨k, e', s', hne, he', hs', -, hid⟩ :=
      hl.sound i e _ _ hi (get_rebound h hi) (rebound_self hi hp)
    obtain rfl := get_safe h he' hs'
    exact hne (hu hid)
  refine ⟨hproper, fun i k e e' hk he he' hp => ?_⟩
  have hsome := hl.complete i k e e' _ hk.ne' he he' (get_rebound h he) hp
  obtain ⟨id, hid⟩ := Option.isSome_iff_exists.mp hsome
  obtain ⟨j, e₀, hj, he₀, hp₀, -⟩ := rebound_parent hid
  refine ⟨j, hj.lt_of_ne ?_, e₀, he₀, Option.some_inj.mp (hp₀.symm.trans hp)⟩
  rintro rfl
  obtain rfl := Option.some_inj.mp (he.symm.trans he₀)
  exact hproper e (List.mem_of_getElem? he) hp₀

-- What the worker names is not empty.
structure Named (context : ExecutionContext) : Prop where
  run_id       : context.run_id ≠ some ""
  workspace_id : context.workspace_id ≠ some ""
  case_id      : context.case_id ≠ some ""
  attempt_id   : context.attempt_id ≠ some ""

theorem getD_ne {name : Option String} {default : String} (h : name ≠ some "")
    (hd : default ≠ "") : name.getD default ≠ "" := by
  cases name with
  | none   => exact hd
  | some s => exact fun hs => h (congrArg some hs)

theorem make_envelope {i : ℕ} {ids : List (String × String)} {e : TraceEvent} (hc : Named context)
    (hu : uuid i ≠ "") :
    make_event (envelope p context uuid now i ids e) = .ok (envelope p context uuid now i ids e) := by
  have hrun := getD_ne hc.run_id (by decide : "local-run" ≠ "")
  have hworkspace := getD_ne hc.workspace_id (by decide : "default" ≠ "")
  have hcase := getD_ne hc.case_id (by decide : "local-case" ≠ "")
  have hattempt := getD_ne hc.attempt_id (by decide : "local-attempt" ≠ "")
  refine if_pos ?_
  simp [too_short, envelope, hu, hrun, hworkspace, hcase, hattempt]

-- Then no file is refused.
theorem sanitize_total (hc : Named context) (hu : ∀ i, uuid i ≠ "") :
    ∃ safe, sanitize_agent_events p context uuid now events = .ok safe := by
  suffices hgo : ∀ sequence ids, ∃ safe,
      sanitize_agent_events.go p context uuid now sequence ids events = .ok safe from hgo 0 []
  induction events with
  | nil               => exact fun _ _ => ⟨[], rfl⟩
  | cons e events ih =>
    intro sequence ids
    obtain ⟨safe, hsafe⟩ := ih (sequence + 1) ((e.event_id, uuid sequence) :: ids)
    refine ⟨envelope p context uuid now sequence ((e.event_id, uuid sequence) :: ids) e :: safe, ?_⟩
    unfold sanitize_agent_events.go
    dsimp only
    rw [make_envelope hc (hu sequence), hsafe]
    rfl

theorem sanitized_faithful_iff (hu : Function.Injective uuid)
    (h : sanitize_agent_events p context uuid now events = .ok safe) :
    Faithful events safe context ↔ Ordered events where
  mp hf  := ordered hu h hf.linked
  mpr ho := ⟨by rw [sanitized_eq h, List.length_mapIdx], trusted h, linked h ho⟩

end Loop

namespace Sample

def plain : Redaction.Patterns where
  canary _         := none
  provider_token _ := none
  bearer _         := none
  secret _         := none
  sensitive_key _  := false

def event (event_id : String) (parent_event_id : Option String) : TraceEvent where
  event_id
  run_id            := "forged"
  workspace_id      := "forged"
  case_id           := "forged"
  attempt_id        := "forged"
  type              := .llm_call
  timestamp         := ⟨0, some 0⟩
  parent_event_id
  cost              := some { cost_usd := .finite 0, price_version := "forged" }
  tool_typed_column := llm_call_untyped

def uuid (i : ℕ) : String :=
  String.ofList (List.replicate (i + 1) 'u')

theorem uuid_injective : Function.Injective uuid := by
  intro i k h
  simpa [uuid] using congrArg String.length h

def sanitized (events : List TraceEvent) : Except (List String) (List TraceEvent) :=
  sanitize_agent_events plain {} uuid (fun _ => ⟨1, some 0⟩) events

def parents (events : List TraceEvent) : Option (List (Option String)) :=
  (sanitized events).toOption.map fun safe => safe.map (·.parent_event_id)

theorem exists_sanitized (events : List TraceEvent) : ∃ safe, sanitized events = .ok safe := by
  refine sanitize_total ⟨by decide, by decide, by decide, by decide⟩ fun i hi => ?_
  simpa [uuid] using congrArg String.length hi

-- A parent before its child.
def ordered_pair : List TraceEvent :=
  [event "call" none, event "answer" (some "call")]

-- The same two, the other way round.
def reversed_pair : List TraceEvent :=
  [event "answer" (some "call"), event "call" none]

theorem sanitized_faithful_pair : ∃ safe, sanitized ordered_pair = .ok safe ∧
    Faithful ordered_pair safe {} ∧ safe.map (·.parent_event_id) = [none, some "u"] := by
  have hparents : parents ordered_pair = some [none, some "u"] := by decide +kernel
  obtain ⟨safe, hsafe⟩ := exists_sanitized ordered_pair
  have hordered : Ordered ordered_pair := by
    refine ⟨by decide, fun i k e e' hik he he' hp => ?_⟩
    have hk : k < 2 := (List.getElem?_eq_some_iff.mp he').choose
    obtain rfl : i = 0 := by omega
    obtain rfl := Option.some_inj.mp he
    cases hp
  refine ⟨safe, hsafe, (sanitized_faithful_iff uuid_injective hsafe).mpr hordered, ?_⟩
  rw [parents, hsafe] at hparents
  exact Option.some_inj.mp hparents

-- The answer loses its call.
theorem not_sanitized_faithful : ¬∀ p context uuid now events safe,
    Function.Injective uuid → sanitize_agent_events p context uuid now events = .ok safe →
      Faithful events safe context := by
  intro hall
  have hparents : parents reversed_pair = some [none, none] := by decide +kernel
  obtain ⟨safe, hsafe⟩ := exists_sanitized reversed_pair
  rw [parents, hsafe] at hparents
  have hfirst : (safe.map (·.parent_event_id))[0]? = some none :=
    congrArg (·[0]?) (Option.some_inj.mp hparents)
  rw [List.getElem?_map] at hfirst
  obtain ⟨s, hs, hnone⟩ := Option.map_eq_some_iff.mp hfirst
  have hf := hall plain {} uuid _ reversed_pair safe uuid_injective hsafe
  have hsome := hf.linked.complete 0 1 _ _ s (by decide) rfl rfl hs rfl
  rw [hnone] at hsome
  cases hsome

end Sample

end Targets.Local
