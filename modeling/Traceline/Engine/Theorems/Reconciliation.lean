import Mathlib.Algebra.Order.BigOperators.Group.List
import Traceline.Engine.Proxy
import Traceline.Engine.Theorems.Frame
import Traceline.Engine.Theorems.Containment

open Lifecycle Spec Events Evaluators Storage

-- `round(cost_usd * 1_000_000)` of an event, where it has a cost.
def Events.TraceEvent.micros (e : TraceEvent) : Int :=
  (e.cost.map fun b => State.event_row.usd_micros b.cost_usd).getD 0

namespace Engine

variable {E : Engine} {run : Run} {p : Redaction.Patterns} {s t u : Storage.State}
variable {x : Invocation} {raw : Json} {records : List Json} {events : List TraceEvent}
variable {fromisoformat : String → Option Timestamp} {context : ProxyContext} {marks : ℕ → Mark}

-- The integer micro-dollar cost of a proxy record.
def record_micros (raw : Json) : Int :=
  match (raw.get? "cost_usd_micros").getD .null with
  | .int cost => cost
  | _         => 0

def total_micros (records : List Json) : Int :=
  (records.map record_micros).sum

section Conversion

-- What the event of a record carries.
structure Converted (context : ProxyContext) (mark : Mark) (raw : Json) (e : TraceEvent) : Prop where
  event_id        : e.event_id = mark.uuid4
  run_id          : e.run_id = context.run_id
  workspace_id    : e.workspace_id = context.workspace_id
  case_id         : e.case_id = context.case_id
  attempt_id      : e.attempt_id = context.attempt_id
  source          : e.source = .proxy
  redaction_state : e.redaction_state.isSome
  micros          : e.micros = record_micros raw
  nonneg          : 0 ≤ record_micros raw

-- Dollars are exact, so nothing is rounded on the way back.
theorem usd_micros_dollars (n : Int) : State.event_row.usd_micros (dollars n) = n := by
  have hq : (n : ℚ) / 1000000 * 1000000 = n := by
    field_simp
  simp [State.event_row.usd_micros, dollars, hq]

theorem proxy_cost_micros {tokens : TokenUsage} {cost : Option CostBlock}
    (h : proxy_cost raw tokens = some cost) :
    0 ≤ record_micros raw ∧
      (cost.map fun b => State.event_row.usd_micros b.cost_usd).getD 0 = record_micros raw := by
  unfold proxy_cost at h
  unfold record_micros
  split at h
  case h_1 hn =>
    cases h
    simp [hn]
  case h_2 cost version hn _ =>
    split at h
    case isTrue => cases h
    case isFalse hneg =>
      cases h
      simpa [hn, usd_micros_dollars] using hneg
  case h_3 => cases h

theorem proxy_record_to_event_converted {sequence : ℕ} {mark : Mark} {e : TraceEvent}
    (h : proxy_record_to_event fromisoformat context sequence mark raw = .ok e) :
    Converted context mark raw e := by
  unfold proxy_record_to_event at h
  split at h
  case isTrue => cases h
  case isFalse =>
    split at h
    case h_1 => cases h
    case h_2 =>
      split at h
      case h_1 => cases h
      case h_2 =>
        split at h
        case h_1 => cases h
        case h_2 cost hc =>
          split at h
          case h_1 => cases h
          case h_2 =>
            cases h
            obtain ⟨hn, hm⟩ := proxy_cost_micros hc
            exact ⟨rfl, rfl, rfl, rfl, rfl, rfl, rfl, hm, hn⟩

-- The records from `index` on convert one by one, each under a mark of its own.
theorem proxy_records_to_events_converted {offset index : ℕ}
    (hm : ∀ i j, (marks i).uuid4 = (marks j).uuid4 → i = j)
    (h : proxy_records_to_events fromisoformat context offset marks index records = .ok events) :
    events.map (·.micros) = records.map record_micros ∧
      (events.map (·.event_id)).Nodup ∧
      ∀ e ∈ events, ∃ i raw, index ≤ i ∧ Converted context (marks i) raw e := by
  induction records generalizing index events with
  | nil                =>
    cases h
    simp
  | cons raw records ih =>
    obtain ⟨e, he, h⟩ := Except.bind_eq_ok_iff.mp h
    obtain ⟨rest, hrest, h⟩ := Except.bind_eq_ok_iff.mp h
    cases h
    have hc := proxy_record_to_event_converted he
    obtain ⟨hmicros, hn, hall⟩ := ih hrest
    refine ⟨by simp [hmicros, hc.micros], List.nodup_cons.mpr ⟨fun hid => ?_, hn⟩, fun e' he' => ?_⟩
    · obtain ⟨e', he', hid⟩ := List.mem_map.mp hid
      obtain ⟨i, _, hi, hc'⟩ := hall e' he'
      have hii := hm i index <| hc'.event_id.symm.trans <| hid.trans hc.event_id
      omega
    · obtain rfl | he' := List.mem_cons.mp he'
      · exact ⟨index, raw, le_rfl, hc⟩
      · obtain ⟨i, raw', hi, hc'⟩ := hall e' he'
        exact ⟨i, raw', by omega, hc'⟩

end Conversion

-- What the world outside does over a run. It answers each attempt from a capture of its own, and
-- what the proxy appends after the last invocation of a session comes `later`.
structure World where
  fromisoformat : String → Option Timestamp
  capture       : String → Capture
  later         : List Json

namespace World

variable (w : World)

-- The id of the event that the `i`th record of an attempt becomes.
def uuid4 (id : String) (i : ℕ) : String :=
  ((w.capture id).marks i).uuid4

-- An event of an agent or an adapter, which carries no cost.
def Costless (e : TraceEvent) : Prop :=
  e.cost = none ∧ ∀ id i, e.event_id ≠ w.uuid4 id i

structure Sound : Prop where
  -- No id is made twice.
  fresh   : ∀ id i id' i', w.uuid4 id i = w.uuid4 id' i' → id = id' ∧ i = i'
  adapter : ∀ id result, (w.capture id).result = .ok result →
    ∀ e ∈ result.trace_events, w.Costless e

def answering (run : Run) : ∀ q : Query, q.Answer → Prop
  | .invoke_agent _,    r      =>
    ∀ result, r = .ok result → ∀ e ∈ result.trace_events, w.Costless e
  | .invoke_target _ x, answer =>
    answer = (w.capture x.attempt_id).answer w.fromisoformat (x.context run)
  | _,                  _      => True

-- The costs of the proxy records that belong to an attempt.
def charge (id : String) : Int :=
  total_micros (w.capture id).unclaimed + total_micros (w.capture id).taken

-- The costs of all proxy records produced for a run.
def produced (s : Storage.State) : Int :=
  (s.attempts.rows.map fun a => w.charge a.attempt_id).sum + total_micros w.later

end World

-- The context an attempt was made in.
def row_context (run : Run) (a : AttemptRecord) : ProxyContext where
  run_id       := run.run_id
  workspace_id := run.workspace_id
  case_id      := a.case_id
  attempt_id   := a.attempt_id
  repeat_index := a.repeat_index
  attempt      := a.attempt

-- The events of an attempt that are evidence.
def evidence (r : InvocationResult) : List TraceEvent :=
  if r.status = .completed ∨ r.status = .no_trace then r.trace_events
  else r.trace_events.filter (·.source = .proxy)

def sum_micros (events : List TraceEvent) : Int :=
  (events.map (·.micros)).sum

-- A batch that goes in with all its costs.
structure Taken (E : Engine) (context : ProxyContext) (events : List TraceEvent) : Prop where
  redacted   : ∀ e ∈ events, e.redaction_state.isSome
  run_id     : ∀ e ∈ events, e.run_id = context.run_id
  case_id    : ∀ e ∈ events, e.case_id = context.case_id
  attempt_id : ∀ e ∈ events, e.attempt_id = context.attempt_id
  storable   : State.Storable (E.kept_events events)
  capped     : sum_micros (events.drop MAX_EVENTS_PER_ATTEMPT) = 0

-- No record with a cost arrives outside an invocation, and those that are taken come from an
-- adapter that returns, convert, and go in with the rest of the batch.
structure Collected (E : Engine) (run : Run) (w : World) (context : ProxyContext) : Prop where
  claimed : total_micros (w.capture context.attempt_id).unclaimed = 0
  taken   : total_micros (w.capture context.attempt_id).taken = 0 ∨
    E.has_target_adapter ∧ run.invocation_manifest.isSome ∧
    ∃ result proxy_events, (w.capture context.attempt_id).result = .ok result ∧
      (w.capture context.attempt_id).proxy_events w.fromisoformat context = .ok proxy_events ∧
      Taken E context (evidence (adapter_result E result proxy_events))

-- The costs that storage holds of an attempt.
def stored (s : Storage.State) (id : String) : Int :=
  sum_micros (s.events.rows.filter (·.attempt_id = id))

variable {w : World}

variable (E run w) in
-- What every state keeps of its events and costs.
structure Ledger (s : Storage.State) : Prop where
  stamped   : ∀ e ∈ s.events, ∀ b, e.cost = some b → b.price_version = E.price_version
  workspace : ∀ e ∈ s.events, e.cost.isSome → e.workspace_id = run.workspace_id
  owned     : ∀ e ∈ s.events, e.attempt_id ∈ s.attempts.rows.map (·.attempt_id)
  marked    : ∀ e ∈ s.events, ∀ id i, e.event_id = w.uuid4 id i → e.attempt_id = id
  summaries : ∀ r ∈ s.cost_summaries, r.price_version = E.price_version ∧
    ∃ e ∈ s.events, e.cost.isSome

variable (E run w) in
-- The costs of an attempt are stored, if they can be collected at all.
def Booked (s : Storage.State) (a : AttemptRecord) : Prop :=
  Collected E run w (row_context run a) → stored s a.attempt_id = w.charge a.attempt_id

def total_cost (s : Storage.State) : Int :=
  (s.cost_summaries.rows.map (·.usd_micros)).sum

variable (E run w) in
-- Between two attempts of a session.
structure Balanced (s : Storage.State) : Prop where
  ledger : Ledger E run w s
  booked : ∀ a ∈ s.attempts, Booked E run w s a
  status : s.status ≠ .complete

variable (E run w) in
-- Wherever a session may end.
structure Audited (s : Storage.State) : Prop where
  ledger : Ledger E run w s
  booked : ∀ a ∈ s.attempts, live a.status = false ∨ s.status = .complete → Booked E run w s a
  total  : s.status = .complete → total_cost s = sum_micros s.events.rows

variable (E run w) in
-- An attempt is being made, and none of its events is stored yet.
structure Pending (x : Invocation) (s : Storage.State) : Prop where
  ledger : Ledger E run w s
  others : ∀ a ∈ s.attempts, a.attempt_id ≠ x.attempt_id → Booked E run w s a
  own    : ∀ a ∈ s.attempts, a.attempt_id = x.attempt_id →
    row_context run a = x.context run ∧ live a.status
  there  : x.attempt_id ∈ s.attempts.rows.map (·.attempt_id)
  before : ∀ e ∈ s.events, e.attempt_id ≠ x.attempt_id
  status : s.status ≠ .complete

theorem Balanced.audited (h : Balanced E run w s) : Audited E run w s :=
  ⟨h.ledger, fun a ha _ => h.booked a ha, fun hs => absurd hs h.status⟩

theorem stored_eq_zero {id : String} (h : ∀ e ∈ s.events, e.attempt_id ≠ id) : stored s id = 0 := by
  rw [stored, List.filter_eq_nil_iff.mpr fun e he => by simpa using h e he]
  rfl

theorem Pending.audited (h : Pending E run w x s) : Audited E run w s := by
  refine ⟨h.ledger, fun a ha hl => h.others a ha fun hid => ?_, fun hs => absurd hs h.status⟩
  obtain hl | hs := hl
  · simp [h.own a ha hid |>.right] at hl
  · exact h.status hs

-- An attempt without costs needs no events.
theorem Pending.balanced (h : Pending E run w x s)
    (hc : Collected E run w (x.context run) → w.charge x.attempt_id = 0) : Balanced E run w s := by
  refine ⟨h.ledger, fun a ha => ?_, h.status⟩
  by_cases hid : a.attempt_id = x.attempt_id
  · intro hcol
    rw [hid, hc <| (h.own a ha hid).left ▸ hcol]
    exact stored_eq_zero h.before
  · exact h.others a ha hid

theorem mem_core {a : AttemptRecord}
    (h : t.attempts.rows.map AttemptRecord.core = s.attempts.rows.map AttemptRecord.core)
    (ha : a ∈ t.attempts) : ∃ b ∈ s.attempts, AttemptRecord.core b = AttemptRecord.core a :=
  List.mem_map.mp <| h ▸ List.mem_map_of_mem ha

theorem attempt_ids_of_core
    (h : t.attempts.rows.map AttemptRecord.core = s.attempts.rows.map AttemptRecord.core) :
    t.attempts.rows.map (·.attempt_id) = s.attempts.rows.map (·.attempt_id) := by
  have hid : ∀ rows : List AttemptRecord,
      rows.map (·.attempt_id) = (rows.map AttemptRecord.core).map Prod.fst := by
    simp [AttemptRecord.core, Function.comp_def]
  rw [hid, hid, h]

theorem row_context_of_core (run : Run) {a b : AttemptRecord}
    (h : AttemptRecord.core b = AttemptRecord.core a) :
    row_context run b = row_context run a ∧ b.attempt_id = a.attempt_id := by
  simp only [AttemptRecord.core, Prod.mk.injEq] at h
  obtain ⟨hid, hc, hr, hk, -⟩ := h
  simp [row_context, hid, hc, hr, hk]

theorem Booked.of_core {a b : AttemptRecord} (h : Booked E run w s b)
    (hc : AttemptRecord.core b = AttemptRecord.core a) (he : t.events = s.events) :
    Booked E run w t a := by
  obtain ⟨hx, hid⟩ := row_context_of_core run hc
  intro hcol
  have hb := h (hx ▸ hcol)
  rwa [hid, stored, ← he] at hb

theorem Ledger.of_outer (h : Ledger E run w s) (ho : Outer s t) : Ledger E run w t where
  stamped   := ho.events ▸ h.stamped
  workspace := ho.events ▸ h.workspace
  owned     := by
    rw [ho.events, attempt_ids_of_core ho.attempts]
    exact h.owned
  marked    := ho.events ▸ h.marked
  summaries := by
    rw [ho.cost_summaries, ho.events]
    exact h.summaries

theorem Balanced.of_outer (ho : Outer s t) (h : Balanced E run w s) : Balanced E run w t := by
  refine ⟨h.ledger.of_outer ho, fun a ha => ?_, fun hs => h.status <| ho.status hs⟩
  obtain ⟨b, hb, hc⟩ := mem_core ho.attempts ha
  exact (h.booked b hb).of_core hc ho.events

section Ingestion

variable {e : TraceEvent}

@[simp]
theorem micros_stamp : (E.stamp e).micros = e.micros := by
  cases h : e.cost <;> simp [TraceEvent.micros, stamp, h]

@[simp]
theorem micros_redacted : (e.redacted p).micros = e.micros :=
  rfl

@[simp]
theorem sum_micros_append (l l' : List TraceEvent) :
    sum_micros (l ++ l') = sum_micros l + sum_micros l' := by
  simp [sum_micros]

theorem sum_micros_eq_zero (h : ∀ e ∈ events, e.micros = 0) : sum_micros events = 0 := by
  refine List.sum_eq_zero fun n hn => ?_
  obtain ⟨e, he, rfl⟩ := List.mem_map.mp hn
  exact h e he

-- Two events of which one has a cost have different ids.
def Distinct (events : List TraceEvent) : Prop :=
  events.Pairwise fun e e' => e.micros ≠ 0 ∨ e'.micros ≠ 0 → e.event_id ≠ e'.event_id

-- Inserted events that are ignored have no cost where those with a cost have new ids.
theorem insert_events_micros {rows : Table TraceEvent.event_id} (hd : Distinct events)
    (hf : ∀ e ∈ events, e.micros ≠ 0 → rows.find e.event_id = none) :
    ∃ new, (State.insert_events rows events).rows = rows.rows ++ new ∧
      sum_micros new = sum_micros events := by
  induction events generalizing rows with
  | nil            => exact ⟨[], by simp [State.insert_events], rfl⟩
  | cons e events ih =>
    obtain ⟨hne, hd⟩ := List.pairwise_cons.mp hd
    have hcons : sum_micros (e :: events) = e.micros + sum_micros events := by
      simp [sum_micros]
    cases h : rows.insert e with
    | none =>
      obtain ⟨new, hr, hn⟩ := ih hd fun e' he' => hf e' <| .tail _ he'
      have hfree : e.micros = 0 := by
        by_contra hm
        obtain ⟨e', he'⟩ := Table.insert_eq_none_iff.mp h
        simp [hf e (.head _) hm] at he'
      exact ⟨new, by simpa [State.insert_events, h] using hr, by rw [hn, hcons, hfree, zero_add]⟩
    | some rows' =>
      obtain ⟨-, hrows⟩ := Table.insert_eq_some_iff.mp h
      have hf' : ∀ e' ∈ events, e'.micros ≠ 0 → rows'.find e'.event_id = none := by
        intro e' he' hm
        rw [Table.find_insert h, if_neg <| hne e' he' (.inr hm)]
        exact hf e' (.tail _ he') hm
      obtain ⟨new, hr, hn⟩ := ih hd hf'
      rw [hrows, List.append_assoc] at hr
      refine ⟨[e] ++ new, by simpa [State.insert_events, h] using hr, ?_⟩
      rw [sum_micros_append, hn, hcons]
      simp [sum_micros]

variable (run w) in
-- What holds of the evidence of an attempt, whatever becomes of it.
structure Due (x : Invocation) (events : List TraceEvent) : Prop where
  marked    : ∀ e ∈ events, ∀ id i, e.event_id = w.uuid4 id i → id = x.attempt_id
  workspace : ∀ e ∈ events, e.cost.isSome → e.workspace_id = run.workspace_id
  priced    : ∀ e ∈ events, e.micros ≠ 0 → ∃ i, e.event_id = w.uuid4 x.attempt_id i
  distinct  : Distinct events

theorem Due.sublist {events' : List TraceEvent} (h : Due run w x events)
    (hs : events'.Sublist events) : Due run w x events' :=
  ⟨fun e he => h.marked e <| hs.subset he, fun e he => h.workspace e <| hs.subset he,
    fun e he => h.priced e <| hs.subset he, h.distinct.sublist hs⟩

theorem Due.of_costless (h : ∀ e ∈ events, w.Costless e) : Due run w x events := by
  have hm : ∀ e ∈ events, e.micros = 0 := fun e he => by simp [TraceEvent.micros, (h e he).left]
  refine ⟨fun e he id i hid => absurd hid <| (h e he).right id i,
    fun e he hc => by simp [(h e he).left] at hc, fun e he hn => absurd (hm e he) hn, ?_⟩
  refine List.pairwise_of_forall_mem_list fun e he e' he' hn => ?_
  exact absurd hn <| by simp [hm e he, hm e' he']

-- What is kept of a batch is as the batch was, but for the price version and redactions.
theorem Due.kept (h : Due run w x events) :
    Due run w x ((E.kept_events events).map (·.redacted p)) := by
  have hsub : ((E.kept_events events).map (·.redacted p)).Sublist
      ((events.map E.stamp).map (·.redacted p)) := (List.take_sublist _ _).map _
  refine Due.sublist ?_ hsub
  rw [List.map_map]
  have hall : ∀ {P : TraceEvent → Prop}, (∀ e ∈ events, P ((E.stamp e).redacted p)) →
      ∀ e ∈ events.map ((·.redacted p) ∘ E.stamp), P e := by
    intro P hP e he
    obtain ⟨e', he', rfl⟩ := List.mem_map.mp he
    exact hP e' he'
  refine ⟨hall h.marked, hall fun e he hc => h.workspace e he ?_, hall fun e he hn => ?_, ?_⟩
  · simpa [TraceEvent.redacted, stamp] using hc
  · exact h.priced e he <| by simpa using hn
  · rw [Distinct, List.pairwise_map]
    exact h.distinct.imp fun hne hm => hne <| by simpa using hm

theorem sum_kept_events :
    sum_micros ((E.kept_events events).map (·.redacted p)) =
      sum_micros (events.take MAX_EVENTS_PER_ATTEMPT) := by
  have hf : TraceEvent.micros ∘ (·.redacted p) ∘ E.stamp = TraceEvent.micros := by
    funext e
    simp
  rw [kept_events, ← List.map_take, sum_micros, List.map_map, List.map_map, Function.comp_assoc, hf,
    sum_micros]

-- The attempt is booked once a batch went in.
theorem Pending.ingested (h : Pending E run w x s) (hd : Due run w x events)
    (ha : Accepts E run x events)
    (hc : Collected E run w (x.context run) →
      sum_micros (events.take MAX_EVENTS_PER_ATTEMPT) = w.charge x.attempt_id) :
    Balanced E run w (ingested p (E.kept_events events) s) := by
  set kept := (E.kept_events events).map (·.redacted p) with hkept
  have hdk : Due run w x kept := hd.kept
  have hid : ∀ e ∈ kept, e.attempt_id = x.attempt_id := by
    intro e he
    obtain ⟨e', he', rfl⟩ := List.mem_map.mp he
    exact kept_attempt_id ha e' he' |>.right
  have hfresh : ∀ e ∈ kept, e.micros ≠ 0 → s.events.find e.event_id = none := by
    intro e he hm
    obtain ⟨i, hi⟩ := hdk.priced e he hm
    refine Table.find_eq_none_iff.mpr fun e' he' heq => h.before e' he' ?_
    exact h.ledger.marked e' he' _ i <| heq.trans hi
  obtain ⟨new, hrows, hsum⟩ := insert_events_micros hdk.distinct hfresh
  obtain ⟨new', hrows', hsub⟩ := State.insert_events_rows s.events kept
  obtain rfl := List.append_cancel_left <| hrows.symm.trans hrows'
  have hmem : ∀ e ∈ State.insert_events s.events kept, e ∈ s.events ∨ e ∈ kept := by
    intro e he
    exact (List.mem_append.mp <| hrows ▸ Table.mem_rows.mp he).imp id (hsub e)
  have hold : ∀ e ∈ s.events, e ∈ State.insert_events s.events kept :=
    fun e he => Table.mem_rows.mpr <| hrows ▸ List.mem_append_left _ he
  refine ⟨⟨?_, ?_, ?_, ?_, ?_⟩, fun a hmem' => ?_, h.status⟩
  · intro e he b hb
    obtain he | he := hmem e he
    · exact h.ledger.stamped e he b hb
    · obtain ⟨e', he', rfl⟩ := List.mem_map.mp he
      obtain ⟨e', -, rfl⟩ := mem_kept_events_iff.mp he'
      obtain ⟨b', -, rfl⟩ := Option.map_eq_some_iff.mp hb
      rfl
  · intro e he hcost
    obtain he | he := hmem e he
    · exact h.ledger.workspace e he hcost
    · exact hdk.workspace e he hcost
  · intro e he
    obtain he | he := hmem e he
    · exact h.ledger.owned e he
    · exact hid e he ▸ h.there
  · intro e he id i heq
    obtain he | he := hmem e he
    · exact h.ledger.marked e he id i heq
    · rw [hid e he, hdk.marked e he id i heq]
  · intro r hr
    obtain ⟨hv, e, he, hcost⟩ := h.ledger.summaries r hr
    exact ⟨hv, e, hold e he, hcost⟩
  · have hstored : ∀ id, stored (Engine.ingested p (E.kept_events events) s) id =
        stored s id + sum_micros (new.filter (·.attempt_id = id)) := by
      intro id
      rw [stored, Engine.ingested, hrows, List.filter_append, sum_micros_append]
      rfl
    intro hcol
    rw [hstored]
    by_cases hax : a.attempt_id = x.attempt_id
    · have hall : new.filter (·.attempt_id = x.attempt_id) = new :=
        List.filter_eq_self.mpr fun e he => by simpa using hid e (hsub e he)
      rw [hax, hall, stored_eq_zero h.before, zero_add, hsum, sum_kept_events]
      exact hc <| (h.own a hmem' hax).left ▸ hcol
    · have hnone : new.filter (·.attempt_id = a.attempt_id) = [] := by
        refine List.filter_eq_nil_iff.mpr fun e he => ?_
        simpa [hid e (hsub e he)] using Ne.symm hax
      rw [hnone, h.others a hmem' hax hcol]
      exact add_zero _

end Ingestion

section Invocation

variable (E run w) in
-- What an invocation leaves to ingest. It is worth the charge of the attempt, where that can be
-- collected.
structure Evident (x : Invocation) (r : InvocationResult) : Prop where
  due     : Due run w x (evidence r)
  charged : Collected E run w (x.context run) →
    (w.charge x.attempt_id = 0 ∧ ∀ e ∈ evidence r, e.micros = 0) ∨
    (Taken E (x.context run) (evidence r) ∧ sum_micros (evidence r) = w.charge x.attempt_id)

theorem evidence_sublist {r : InvocationResult} : (evidence r).Sublist r.trace_events := by
  unfold evidence
  split
  · exact .refl _
  · exact List.filter_sublist

theorem Collected.charge_eq (h : Collected E run w context) :
    w.charge context.attempt_id = total_micros (w.capture context.attempt_id).taken := by
  rw [World.charge, h.claimed, zero_add]

-- Nothing is collected where no adapter was called.
theorem Evident.of_uncalled {r : InvocationResult}
    (hn : ¬(E.has_target_adapter ∧ run.invocation_manifest.isSome))
    (h : ∀ e ∈ r.trace_events, w.Costless e) : Evident E run w x r := by
  have hc : ∀ e ∈ evidence r, w.Costless e := fun e he => h e <| evidence_sublist.subset he
  refine ⟨.of_costless hc, fun hcol => .inl ⟨?_, fun e he => ?_⟩⟩
  · refine hcol.charge_eq.trans <| hcol.taken.resolve_right ?_
    rintro ⟨ha, hm, -⟩
    exact hn ⟨ha, hm⟩
  · simp [TraceEvent.micros, (hc e he).left]

variable {result : AdapterResult} {proxy_events : List TraceEvent}

-- The events of an adapter and of the proxy together.
structure Supplied (w : World) (run : Run) (x : Invocation) (result : AdapterResult)
    (proxy_events : List TraceEvent) : Prop where
  result : (w.capture x.attempt_id).result = .ok result
  events : (w.capture x.attempt_id).proxy_events w.fromisoformat (x.context run) = .ok proxy_events

theorem Supplied.conversion (h : Supplied w run x result proxy_events) (hw : w.Sound) :
    sum_micros proxy_events = total_micros (w.capture x.attempt_id).taken ∧
      (proxy_events.map (·.event_id)).Nodup ∧
      ∀ e ∈ proxy_events, ∃ i raw,
        Converted (x.context run) ((w.capture x.attempt_id).marks i) raw e := by
  have he := h.events
  rw [Capture.proxy_events, Capture.records, List.drop_left] at he
  obtain ⟨hm, hn, hall⟩ := proxy_records_to_events_converted
    (fun i j hij => (hw.fresh x.attempt_id i x.attempt_id j hij).right) he
  refine ⟨congrArg List.sum hm, hn, fun e he => ?_⟩
  obtain ⟨i, raw, -, hc⟩ := hall e he
  exact ⟨i, raw, hc⟩

theorem Supplied.due (h : Supplied w run x result proxy_events) (hw : w.Sound) :
    Due run w x (result.trace_events ++ proxy_events) := by
  obtain ⟨-, hn, hall⟩ := h.conversion hw
  have hadapter : Due run w x result.trace_events := .of_costless <| hw.adapter _ _ h.result
  have hid : ∀ e ∈ proxy_events, ∃ i, e.event_id = w.uuid4 x.attempt_id i := by
    intro e he
    obtain ⟨i, _, hc⟩ := hall e he
    exact ⟨i, hc.event_id⟩
  refine ⟨fun e he id i heq => ?_, fun e he hc => ?_, fun e he hm => ?_, ?_⟩
  · obtain he | he := List.mem_append.mp he
    · exact hadapter.marked e he id i heq
    · obtain ⟨j, hj⟩ := hid e he
      exact (hw.fresh _ _ _ _ <| heq.symm.trans hj).left
  · obtain he | he := List.mem_append.mp he
    · exact hadapter.workspace e he hc
    · obtain ⟨_, _, hcv⟩ := hall e he
      exact hcv.workspace_id
  · obtain he | he := List.mem_append.mp he
    · exact hadapter.priced e he hm
    · exact hid e he
  · refine List.pairwise_append.mpr ⟨hadapter.distinct, ?_, fun e he e' he' _ => ?_⟩
    · refine (List.pairwise_map.mp hn).imp ?_
      intro e e' hne _
      exact hne
    · obtain ⟨j, hj⟩ := hid e' he'
      exact hj ▸ (hw.adapter _ _ h.result e he).right _ _

-- What the adapter's result is worth is what the records are.
theorem Supplied.evident (h : Supplied w run x result proxy_events) (hw : w.Sound) :
    Evident E run w x (adapter_result E result proxy_events) := by
  obtain ⟨hsum, -, hall⟩ := h.conversion hw
  have hfree : ∀ e ∈ result.trace_events, e.micros = 0 := by
    intro e he
    simp [TraceEvent.micros, (hw.adapter _ _ h.result e he).left]
  have hevents : (adapter_result E result proxy_events).trace_events =
      result.trace_events ++ proxy_events := rfl
  have hproxy : proxy_events.filter (·.source = .proxy) = proxy_events := by
    refine List.filter_eq_self.mpr fun e he => ?_
    obtain ⟨_, _, hc⟩ := hall e he
    simp [hc.source]
  have htotal : sum_micros (evidence (adapter_result E result proxy_events)) =
      total_micros (w.capture x.attempt_id).taken := by
    unfold evidence
    split
    · rw [hevents, sum_micros_append, sum_micros_eq_zero hfree, zero_add, hsum]
    · rw [hevents, List.filter_append, sum_micros_append, hproxy, hsum,
        sum_micros_eq_zero fun e he => hfree e <| List.mem_of_mem_filter he, zero_add]
  refine ⟨(h.due hw).sublist evidence_sublist, fun hcol => ?_⟩
  obtain hzero | ⟨-, -, result', events', hr, he, ht⟩ := hcol.taken
  · refine .inl ⟨hcol.charge_eq.trans hzero, fun e he => ?_⟩
    obtain he | he := List.mem_append.mp <| evidence_sublist.subset he
    · exact hfree e he
    · have hnonneg : ∀ n ∈ proxy_events.map (·.micros), 0 ≤ n := by
        intro n hn
        obtain ⟨e', he', rfl⟩ := List.mem_map.mp hn
        obtain ⟨_, _, hc⟩ := hall e' he'
        exact hc.micros ▸ hc.nonneg
      exact List.all_zero_of_le_zero_le_of_sum_eq_zero hnonneg (hsum.trans hzero)
        (List.mem_map_of_mem he)
  · obtain rfl : result = result' := Except.ok.inj <| h.result.symm.trans hr
    obtain rfl : proxy_events = events' := Except.ok.inj <| h.events.symm.trans he
    exact .inr ⟨ht, htotal.trans hcol.charge_eq.symm⟩

end Invocation

section Attempt

variable {c : Prog.Spec (store run p)}

theorem Pending.save_remote_job (h : Pending E run w x s) (job : RemoteJob) :
    Pending E run w x (s.save_remote_job job) :=
  ⟨⟨h.ledger.stamped, h.ledger.workspace, h.ledger.owned, h.ledger.marked, h.ledger.summaries⟩,
    h.others, h.own, h.there, h.before, h.status⟩

-- What an invocation comes to: evidence, or an exception that leaves nothing to collect.
theorem wp_invoke_evident {Q : InvocationResult → Storage.State → Prop} (hw : w.Sound)
    (ha : ∀ q r, c.allow q r → w.answering run q r) (hinv : ∀ u, Pending E run w x u → c.inv u)
    (herr : ∀ e u, Pending E run w x u →
      (Collected E run w (x.context run) → w.charge x.attempt_id = 0) → c.error e u)
    (hq : ∀ r u, Pending E run w x u → Evident E run w x r → Q r u)
    (h : Pending E run w x s) : (E.invoke run x).wp c Q s := by
  have hnone : ¬(E.has_target_adapter ∧ run.invocation_manifest.isSome) →
      Collected E run w (x.context run) → w.charge x.attempt_id = 0 := fun hn hcol => by
    refine hcol.charge_eq.trans <| hcol.taken.resolve_right ?_
    rintro ⟨ht, hm, -⟩
    exact hn ⟨ht, hm⟩
  unfold invoke
  split
  case isFalse ht =>
    have hn : ¬(E.has_target_adapter ∧ run.invocation_manifest.isSome) := fun h => ht h.left
    rw [Prog.wp_bind]
    intro answer hans
    have hcostless := ha _ _ hans
    cases answer with
    | ok r    => exact hq r s h <| .of_uncalled hn <| hcostless r rfl
    | error m => exact herr _ s h <| hnone hn
  case isTrue ht =>
    unfold invoke_target
    split
    case h_1 hm => exact hq _ s h <| .of_uncalled (by simp [hm]) (by simp)
    case h_2 manifest hm =>
      rw [Prog.wp_bind]
      refine wp_remote_job (hinv s h) fun job => ?_
      rw [Prog.wp_bind]
      intro answer hans
      obtain rfl : answer = (w.capture x.attempt_id).answer w.fromisoformat (x.context run) :=
        ha _ _ hans
      change (E.target_result x _).wp c Q s
      rw [target_result, Prog.wp_bind]
      refine wp_persist_remote_jobs (fun u job hu => hu.save_remote_job job) h hinv fun u hu => ?_
      have hraised : ∀ {m e}, (w.capture x.attempt_id).result = .error m ∨
          (w.capture x.attempt_id).proxy_events w.fromisoformat (x.context run) = .error m →
          c.error e u := by
        intro m e hm
        refine herr e u hu fun hcol => hcol.charge_eq.trans <| hcol.taken.resolve_right ?_
        rintro ⟨-, -, result, events, hr, he, -⟩
        rcases hm with hm | hm
        · cases hr.symm.trans hm
        · cases he.symm.trans hm
      split
      case h_1 m hr => exact hraised (.inl hr)
      case h_2 result hr =>
        split
        case h_1 m he => exact hraised (.inr he)
        case h_2 proxy_events he =>
          have hev := Supplied.evident (E := E) ⟨hr, he⟩ hw
          split
          case h_1 id _ =>
            simp only [Engine.save_remote_job, Prog.wp_bind, wp_save_remote_job]
            exact ⟨hinv _ <| hu.save_remote_job _, hq _ _ (hu.save_remote_job _) hev⟩
          case h_2 => exact hq _ u hu hev

variable {allow : ∀ q : Query, q.Answer → Prop} {α : Type} {st : AttemptStatus}

-- The rest of an attempt once it is booked.
theorem Balanced.wp_outer {q : M α} (hq : q.Calls (store run p) allow outer)
    (h : Balanced E run w s) :
    q.wp (within run p allow (Audited E run w)) (fun _ => Balanced E run w) s :=
  wp_of_outer (fun _ => Balanced.audited) (fun _ _ => Balanced.of_outer) hq h

theorem refused_attempt_outer {r : InvocationResult} {m : String} :
    (refused_attempt x r m).Calls (store run p) allow outer :=
  .bind (outer_call trivial) fun _ => .of_pure _

-- Ingesting the evidence books the attempt.
theorem wp_ingest_evidence {r : InvocationResult}
    {Q : Except String (List TraceEvent × Bool) → Storage.State → Prop} (h : Pending E run w x s)
    (hr : Evident E run w x r) (hq : ∀ a u, Balanced E run w u → Q a u) :
    (catch_engine_error (E.ingest_events run x (evidence r))).wp
      (within run p allow (Audited E run w)) Q s := by
  have hfree : ¬Accepts E run x (evidence r) →
      Collected E run w (x.context run) → w.charge x.attempt_id = 0 := by
    intro hn hcol
    obtain ⟨hz, -⟩ | ⟨ht, -⟩ := hr.charged hcol
    · exact hz
    · refine absurd (List.findSome?_eq_none_iff.mpr fun e he => ?_) hn
      exact refuse_eq_none_iff.mpr
        ⟨ht.redacted e he, ht.run_id e he, ht.case_id e he, ht.attempt_id e he⟩
  have hkept : Accepts E run x (evidence r) →
      Balanced E run w (ingested p (E.kept_events (evidence r)) s) := by
    refine fun ha => h.ingested hr.due ha fun hcol => ?_
    obtain ⟨hz, hall⟩ | ⟨ht, hs⟩ := hr.charged hcol
    · rw [hz]
      exact sum_micros_eq_zero fun e he => hall e <| List.mem_of_mem_take he
    · rw [← hs, ← List.take_append_drop MAX_EVENTS_PER_ATTEMPT (evidence r), sum_micros_append,
        ht.capped, add_zero, List.take_append_drop]
  rw [wp_catch_engine_error]
  refine wp_ingest_events_cases (fun m hn => hq _ s <| h.balanced <| hfree hn) ?_ fun b ha _ =>
    ⟨(hkept ha).audited, hq _ _ <| hkept ha⟩
  intro e hne _ _
  refine ⟨h.audited, ?_⟩
  cases e with
  | engine_error m => exact absurd rfl (hne m)
  | _              => exact h.audited

theorem wp_failed_attempt_balanced {r : InvocationResult} (h : Pending E run w x s)
    (hr : Evident E run w x r) (hs : ¬(r.status = .completed ∨ r.status = .no_trace)) :
    (E.failed_attempt run x r st).wp (within run p allow (Audited E run w))
      (fun _ => Balanced E run w) s := by
  have hev : r.trace_events.filter (·.source = .proxy) = evidence r := (if_neg hs).symm
  unfold failed_attempt
  dsimp only
  rw [hev]
  split
  case isTrue hnil =>
    have hb : Balanced E run w s := by
      refine h.balanced fun hcol => ?_
      obtain ⟨hz, -⟩ | ⟨-, hsum⟩ := hr.charged hcol
      · exact hz
      · rw [← hsum, hnil]
        rfl
    refine hb.wp_outer <| .bind (.of_pure _) fun a => ?_
    split
    · exact refused_attempt_outer
    · exact .bind (outer_call trivial) fun _ => .of_pure _
  case isFalse =>
    rw [Prog.wp_bind]
    refine wp_ingest_evidence h hr fun a u hu => ?_
    split
    · exact hu.wp_outer refused_attempt_outer
    · exact hu.wp_outer <| .bind (outer_call trivial) fun _ => .of_pure _

theorem wp_completed_attempt_balanced {r : InvocationResult} (h : Pending E run w x s)
    (hr : Evident E run w x r) (hs : r.status = .completed ∨ r.status = .no_trace) :
    (E.completed_attempt run x r).wp (within run p allow (Audited E run w))
      (fun _ => Balanced E run w) s := by
  have hev : r.trace_events = evidence r := (if_pos hs).symm
  rw [completed_attempt, Prog.wp_bind, hev]
  refine wp_ingest_evidence h hr fun a u hu => ?_
  split
  · exact hu.wp_outer refused_attempt_outer
  · exact hu.wp_outer <| .bind (outer_call trivial) fun _ => .bind (outer_call trivial) fun _ =>
      .bind outer_lift fun _ => .bind (outer_call trivial) fun _ => .of_pure _

-- The row of a new attempt, which has no events yet.
theorem Balanced.pending {case : TestCase} {id : String} {r k : ℕ} {a : AttemptRecord}
    (h : Balanced E run w s) (he : s.create_attempt id case.case_id r k = (.ok a, t)) :
    a.attempt_id = id ∧
      Pending E run w { case, attempt_id := id, repeat_index := r, attempt := k } t := by
  unfold State.create_attempt at he
  dsimp only at he
  split at he
  case isTrue => cases he
  case isFalse =>
    split at he
    case h_1 => cases he
    case h_2 attempts hins =>
      cases he
      obtain ⟨hnew, hrows⟩ := Table.insert_eq_some_iff.mp hins
      have hfresh : ∀ b ∈ s.attempts, b.attempt_id ≠ id := Table.find_eq_none_iff.mp hnew
      have hmem : ∀ b ∈ attempts, b ∈ s.attempts ∨ b.attempt_id = id ∧
          row_context run b = Invocation.context
            { case, attempt_id := id, repeat_index := r, attempt := k } run ∧ live b.status := by
        intro b hb
        rw [Table.mem_rows, hrows, List.mem_append, List.mem_singleton] at hb
        obtain hb | rfl := hb
        · exact .inl hb
        · exact .inr ⟨rfl, rfl, rfl⟩
      refine ⟨rfl, ⟨h.ledger.stamped, h.ledger.workspace, fun e he => ?_, h.ledger.marked,
        h.ledger.summaries⟩, fun b hb hne => ?_, fun b hb hid => ?_, ?_, fun e he hid => ?_, h.status⟩
      · rw [hrows, List.map_append]
        exact List.mem_append_left _ <| h.ledger.owned e he
      · obtain hb | ⟨hid, -⟩ := hmem b hb
        · exact h.booked b hb
        · exact absurd hid hne
      · obtain hb | ⟨-, hb⟩ := hmem b hb
        · exact absurd hid <| hfresh b hb
        · exact hb
      · rw [hrows, List.map_append]
        exact List.mem_append_right _ (.head _)
      · obtain ⟨b, hb, hid'⟩ := List.mem_map.mp <| h.ledger.owned e he
        exact hfresh b hb <| hid'.trans hid

theorem Pending.running (h : Pending E run w x s) {up : State.AttemptUpdate} :
    Pending E run w x (s.write_attempt x.attempt_id .running up) := by
  have hcore : (s.write_attempt x.attempt_id .running up).attempts.rows.map AttemptRecord.core =
      s.attempts.rows.map AttemptRecord.core := core_write_attempt
  have ho : Outer s (s.write_attempt x.attempt_id .running up) := ⟨hcore, rfl, rfl, fun h => h⟩
  refine ⟨h.ledger.of_outer ho, fun b hb hne => ?_, fun b hb hid => ?_, ?_, h.before, h.status⟩
  · obtain ⟨b', hb', hc⟩ := mem_core hcore hb
    have hid' := (row_context_of_core run hc).right
    exact (h.others b' hb' <| hid' ▸ hne).of_core hc rfl
  · obtain ⟨b', hb', hc⟩ := mem_core hcore hb
    obtain ⟨hx, hid'⟩ := row_context_of_core run hc
    refine ⟨hx ▸ (h.own b' hb' <| hid'.trans hid).left, ?_⟩
    obtain ⟨b'', -, rfl⟩ := List.mem_map.mp hb
    split
    · rfl
    case isFalse hn =>
      rw [if_neg hn] at hid
      exact absurd (by simpa using hid) hn
  · rw [attempt_ids_of_core hcore]
    exact h.there

theorem Pending.set_running (h : Pending E run w x s) {a : Except Storage.Error Unit}
    (he : s.set_attempt_status x.attempt_id .running {} = (a, t)) : Pending E run w x t := by
  unfold State.set_attempt_status at he
  split at he
  · cases he
    exact h
  · split at he
    · cases he
      exact h
    case h_2 ht =>
      obtain ⟨rfl, -⟩ := transition_eq_ok_iff.mp ht
      cases he
      exact h.running

theorem wp_call_running {Q : Unit → Storage.State → Prop} (h : Pending E run w x s)
    (hq : ∀ u, Pending E run w x u → Q () u) :
    Prog.wp (α := Unit) (within run p allow (Audited E run w))
      (call (.set_attempt_status x.attempt_id .running {})) Q s := by
  refine wp_call_of ?_ ?_
  · intro _ u hu
    exact ⟨(h.set_running hu).audited, hq u <| h.set_running hu⟩
  · intro _ u hu
    exact ⟨(h.set_running hu).audited, (h.set_running hu).audited⟩

theorem wp_guarded_invoke_evident {Q : InvocationResult → Storage.State → Prop} (hw : w.Sound)
    (hq : ∀ r u, Pending E run w x u → Evident E run w x r → Q r u) (h : Pending E run w x s) :
    (E.guarded_invoke run x).wp (within run p (w.answering run) (Audited E run w)) Q s := by
  rw [guarded_invoke, Prog.wp_tryCatch]
  refine wp_invoke_evident hw (fun _ _ ha => ha) (fun _ hu => hu.audited) (fun e u hu hc => ?_) hq h
  -- The handler raises again, so it ends where an exception may.
  refine Prog.wp_of_exec (M := store run p) fun v o ev => ?_
  have hcalls : Prog.Calls (store run p) (w.answering run) outer (do
      call (.set_attempt_status x.attempt_id .errored
        { error := .str ("runner crashed: " ++ e.message) })
      throw e : M InvocationResult) := .bind (outer_call trivial) fun _ => .of_throw e
  have hv : Balanced E run w v := Prog.Calls.exec (I := Balanced E run w)
    (fun _ _ hd hb => hb.of_outer <| .of_call hd) ev hcalls (hu.balanced hc)
  refine ⟨hv.audited, ?_⟩
  cases o with
  | ok r    =>
    obtain ⟨ho, -⟩ | ⟨_, ho, -⟩ | ⟨_, _, -, ev⟩ := ev.bind_inv
    · cases ho
    · cases ho
    · cases ev
  | error _ => exact hv.audited
  | crash   => trivial

-- An attempt that is made is booked.
theorem wp_run_attempt_balanced (hw : w.Sound) {case : TestCase} {r k : ℕ}
    (h : Balanced E run w s) :
    (E.run_attempt run case r k).wp (within run p (w.answering run) (Audited E run w))
      (fun _ => Balanced E run w) s := by
  rw [run_attempt, Prog.wp_bind, wp_ask]
  intro id _
  rw [Prog.wp_bind]
  refine wp_call_of (d := .create_attempt id case.case_id r k) ?_ fun e t he => ?_
  case refine_2 =>
    have hsame : t = s := by
      change s.create_attempt id case.case_id r k = _ at he
      unfold State.create_attempt at he
      dsimp only at he
      split at he
      · cases he
        rfl
      · split at he <;> cases he
        rfl
    have ht : Audited E run w t := hsame ▸ h.audited
    exact ⟨ht, ht⟩
  intro a t ht
  obtain ⟨hid, hp⟩ := h.pending ht
  rw [← hid] at hp
  refine ⟨hp.audited, ?_⟩
  rw [Prog.wp_bind]
  refine wp_call_running hp fun u hu => ?_
  rw [Prog.wp_bind]
  refine wp_guarded_invoke_evident hw (fun result v hv hev => ?_) hu
  split
  case h_1 hs | h_2 hs | h_3 hs | h_4 hs =>
    rw [Prog.wp_bind]
    exact wp_failed_attempt_balanced hv hev (by simp [hs])
  case h_5 hs | h_6 hs =>
    rw [Prog.wp_bind]
    exact wp_completed_attempt_balanced hv hev (by simp [hs])

end Attempt

section Costs

variable {v : String}

theorem sum_cost_blocks {workspace_id : String} {rows : List TraceEvent}
    (h : ∀ e ∈ rows, e.cost.isSome → e.workspace_id = workspace_id) :
    (((rows.filter (·.workspace_id = workspace_id)).filterMap (·.cost)).map fun b =>
      State.event_row.usd_micros b.cost_usd).sum = sum_micros rows := by
  induction rows with
  | nil          => rfl
  | cons e rows ih =>
    have ih := ih fun e' he' => h e' <| .tail _ he'
    have hcons : sum_micros (e :: rows) = e.micros + sum_micros rows := by
      simp [sum_micros]
    rw [hcons, ← ih]
    cases hc : e.cost with
    | none   =>
      by_cases hw : e.workspace_id = workspace_id <;> simp [hw, hc, TraceEvent.micros]
    | some b => simp [h e (.head _) (by simp [hc]), hc, TraceEvent.micros]

-- Costs of one price version make one summary.
theorem cost_summaries_eq {blocks : List CostBlock} (hn : blocks ≠ [])
    (h : ∀ b ∈ blocks, b.price_version = v) :
    ∃ row, cost_summaries blocks = [row] ∧ row.price_version = v ∧
      row.usd_micros = (blocks.map fun b => State.event_row.usd_micros b.cost_usd).sum := by
  have hkeys : (blocks.map (·.price_version)).eraseDups = [v] := by
    cases blocks with
    | nil           => exact absurd rfl hn
    | cons b blocks =>
      rw [List.map_cons, List.eraseDups_cons, h b (.head _)]
      have hnone : (blocks.map (·.price_version)).filter (fun x => !x == v) = [] := by
        refine List.filter_eq_nil_iff.mpr fun x hx => ?_
        obtain ⟨b', hb', rfl⟩ := List.mem_map.mp hx
        simp [h b' (.tail _ hb')]
      simp [hnone]
  have hown : blocks.filter (·.price_version = v) = blocks :=
    List.filter_eq_self.mpr fun b hb => by simpa using h b hb
  rw [cost_summaries, hkeys, List.map_singleton, hown]
  exact ⟨_, rfl, rfl, rfl⟩

-- A summary replaces the only one there can be.
theorem upsert_summary {rows : Table CostSummary.price_version} {row : CostSummary}
    (h : ∀ r ∈ rows, r.price_version = row.price_version) : (rows.upsert row).rows = [row] := by
  obtain ⟨l, hn⟩ := rows
  cases l with
  | nil       => simp [Table.upsert]
  | cons r l =>
    have hr : r.price_version = row.price_version := h r (.head _)
    have hl : l = [] := by
      refine List.eq_nil_iff_forall_not_mem.mpr fun r' hr' => ?_
      refine (List.nodup_cons.mp hn).left ?_
      rw [hr, ← h r' (.tail _ hr')]
      exact List.mem_map_of_mem hr'
    simp [Table.upsert, hl, hr]

theorem Ledger.version_of_mem (h : Ledger E run w s) :
    ∀ b ∈ s.cost_blocks run.workspace_id, b.price_version = E.price_version := by
  intro b hb
  obtain ⟨e, he, hc⟩ := List.mem_filterMap.mp hb
  exact h.stamped e (List.mem_of_mem_filter he) b hc

-- The summaries that end a run cover all the costs of its events.
theorem wp_write_cost_summaries_audited {allow : ∀ q : Query, q.Answer → Prop}
    (h : Balanced E run w s) :
    write_cost_summaries.wp (within run p allow (Audited E run w)) (fun _ t =>
      Audited E run w t ∧ Audited E run w (t.write_run_status .complete)) s := by
  have hsum : ((s.cost_blocks run.workspace_id).map fun b =>
      State.event_row.usd_micros b.cost_usd).sum = sum_micros s.events.rows :=
    sum_cost_blocks h.ledger.workspace
  have hdone : ∀ t, Balanced E run w t → total_cost t = sum_micros t.events.rows →
      Audited E run w t ∧ Audited E run w (t.write_run_status .complete) :=
    fun t ht hc => ⟨ht.audited, ⟨ht.ledger.stamped, ht.ledger.workspace, ht.ledger.owned,
      ht.ledger.marked, ht.ledger.summaries⟩, fun a ha _ => ht.booked a ha, fun _ => hc⟩
  rw [write_cost_summaries, Prog.wp_bind, wp_cost_blocks]
  refine ⟨h.audited, ?_⟩
  split
  case isTrue hnil =>
    refine hdone s h ?_
    have hrows : s.cost_summaries.rows = [] := by
      refine List.eq_nil_iff_forall_not_mem.mpr fun r hr => ?_
      obtain ⟨-, e, he, hc⟩ := h.ledger.summaries r hr
      obtain ⟨b, hb⟩ := Option.isSome_iff_exists.mp hc
      have hmem : b ∈ s.cost_blocks run.workspace_id := by
        refine List.mem_filterMap.mpr ⟨e, List.mem_filter.mpr ⟨he, ?_⟩, hb⟩
        simpa using h.ledger.workspace e he hc
      simp [hnil] at hmem
    rw [← hsum, hnil, total_cost, hrows]
    rfl
  case isFalse hne =>
    rw [wp_add_cost_summaries]
    obtain ⟨row, hrow, hv, hmicros⟩ := cost_summaries_eq hne h.ledger.version_of_mem
    have hrows : (s.cost_summaries.upsert row).rows = [row] :=
      upsert_summary fun r hr => (h.ledger.summaries r hr).left.trans hv.symm
    obtain ⟨b, hb⟩ := List.exists_mem_of_ne_nil _ hne
    obtain ⟨e, he, hc⟩ := List.mem_filterMap.mp hb
    have ht : Balanced E run w (s.add_cost_summaries [row]) := by
      refine ⟨⟨h.ledger.stamped, h.ledger.workspace, h.ledger.owned, h.ledger.marked, ?_⟩,
        h.booked, h.status⟩
      intro r hr
      have hr' : r ∈ (s.cost_summaries.upsert row).rows := hr
      rw [hrows, List.mem_singleton] at hr'
      exact ⟨hr' ▸ hv, e, List.mem_of_mem_filter he, by simp [hc]⟩
    have htotal : total_cost (s.add_cost_summaries [row]) =
        sum_micros (s.add_cost_summaries [row]).events.rows := by
      change ((s.cost_summaries.upsert row).rows.map (·.usd_micros)).sum = sum_micros s.events.rows
      rw [hrows, ← hsum, ← hmicros]
      simp
    rw [hrow]
    exact ⟨ht.audited, hdone _ ht htotal⟩

end Costs

section Sessions

theorem frame_of_sound (hw : w.Sound) :
    Frame E run p (w.answering run) (Audited E run w) (Balanced E run w) where
  weaken _         := Balanced.audited
  call _ _         := Balanced.of_outer
  marked _ h _     :=
    ⟨⟨h.ledger.stamped, h.ledger.workspace, h.ledger.owned, h.ledger.marked, h.ledger.summaries⟩,
      fun a ha hl => h.booked a ha <| hl.imp id nofun, nofun⟩
  attempt _ _ _ _ h := wp_run_attempt_balanced hw h

variable (E run p w) in
-- Sessions on one run, one after the other, each labelled with the state it took up.
def reconciling : Machine Storage.State Storage.State where
  init s           := s = created run
  step s started t := started = s ∧ ∃ o, Prog.Exec (store run p) (w.answering run) E.run s t o

-- No attempt was cut between its invocation and its evidence with the costs of that invocation.
def Uncut (w : World) (s : Storage.State) : Prop :=
  ∀ a ∈ s.attempts, live a.status → stored s a.attempt_id = w.charge a.attempt_id

theorem audited_created : Audited E run w (created run) := by
  have he : (created run).events.rows = [] := rfl
  have ha : (created run).attempts.rows = [] := rfl
  have hc : (created run).cost_summaries.rows = [] := rfl
  have hs : (created run).status = .draft := rfl
  refine ⟨⟨?_, ?_, ?_, ?_, ?_⟩, ?_, ?_⟩
  case refine_1 | refine_2 | refine_3 | refine_4 => simp [Table.mem_rows, he]
  case refine_5                                  => simp [Table.mem_rows, hc]
  case refine_6                                  => simp [Table.mem_rows, ha]
  case refine_7                                  => simp [hs]

theorem reconciling_audited (hw : w.Sound) {h : List Storage.State}
    (r : (reconciling E run p w).Run (created run) h t) (hcut : ∀ s ∈ h, Uncut w s) :
    Audited E run w t := by
  generalize hs₀ : created run = s₀ at r
  induction r with
  | refl => exact hs₀ ▸ audited_created
  | @step h s started t r e ih =>
    obtain ⟨rfl, o, e⟩ := e
    have hs := ih fun u hu => hcut u <| List.mem_append_left _ hu
    have hlive := hcut started <| List.mem_append_right _ (.head _)
    have hbalanced : started.status ≠ .complete → Balanced E run w started := by
      refine fun hne => ⟨hs.ledger, fun a ha => ?_, hne⟩
      cases hl : live a.status with
      | true  => exact fun _ => hlive a ha hl
      | false => exact hs.booked a ha (.inl hl)
    have hwp := (frame_of_sound (E := E) (p := p) hw).wp_session hs hbalanced (R := Audited E run w)
      (fun _ h => h) fun _ => wp_write_cost_summaries_audited
    exact Prog.wp_sound (c := within run p (w.answering run) (Audited E run w)) e hs hwp |>.left

-- The costs of a complete run are those of all its proxy records, where each record with a cost
-- arrives during an invocation whose evidence goes in whole, and no process dies in between.
theorem costs_reconcile (E : Engine) (run : Run) (p : Redaction.Patterns) (w : World) (hw : w.Sound)
    (h : List Storage.State) (t : Storage.State)
    (r : (reconciling E run p w).Run (created run) h t) (hs : t.status = .complete)
    (hlater : total_micros w.later = 0)
    (hcol : ∀ a ∈ t.attempts, Collected E run w (row_context run a))
    (hcut : ∀ s ∈ h, Uncut w s) : total_cost t = w.produced t := by
  have ha := reconciling_audited hw r hcut
  have hbooked : ∀ a ∈ t.attempts.rows, stored t a.attempt_id = w.charge a.attempt_id :=
    fun a hmem => ha.booked a hmem (.inr hs) <| hcol a hmem
  rw [ha.total hs, World.produced, hlater, add_zero, ← List.map_congr_left hbooked]
  exact (t.attempts.sum_by_key TraceEvent.attempt_id TraceEvent.micros ha.ledger.owned).symm

end Sessions

namespace Proxied

open OneCase

def adapted : Engine :=
  { engine with has_target_adapter := true }

def targeted : Run :=
  { frozen with invocation_manifest := some [] }

-- What the proxy writes down of one request that cost seven micro-dollars.
def record : Json :=
  .obj [("source", .str "proxy"), ("cost_usd_micros", .int 7), ("price_version", .str "2026")]

def mark (id : String) (i : ℕ) : String :=
  String.ofList <| List.replicate i 'x' ++ '-' :: id.toList

theorem mark_inj {id id' : String} {i i' : ℕ} (h : mark id i = mark id' i') : id = id' ∧ i = i' := by
  have hlist : ∀ (i i' : ℕ) (l l' : List Char),
      List.replicate i 'x' ++ '-' :: l = List.replicate i' 'x' ++ '-' :: l' → l = l' ∧ i = i' := by
    intro i
    induction i with
    | zero      =>
      intro i' l l' hl
      cases i' <;> simp_all [List.replicate_succ]
    | succ i ih =>
      intro i' l l' hl
      cases i' with
      | zero    => simp [List.replicate_succ] at hl
      | succ i' =>
        simp only [List.replicate_succ, List.cons_append, List.cons.injEq, true_and] at hl
        obtain ⟨hl', rfl⟩ := ih i' l l' hl
        exact ⟨hl', rfl⟩
  have hl := hlist i i' id.toList id'.toList <| String.ofList_injective h
  exact ⟨String.toList_injective hl.left, hl.right⟩

-- An adapter that answers each invocation, while the proxy takes some records down.
def world (unclaimed taken : List Json) : World where
  fromisoformat _ := none
  capture id      := {
    persisted := []
    result    := .ok ⟨"ok", .null, [], none⟩
    unclaimed
    taken
    marks i   := ⟨mark id i, ⟨0, some 0⟩⟩
  }
  later           := []

theorem world_sound (unclaimed taken : List Json) : (world unclaimed taken).Sound where
  fresh _ _ _ _ h  := mark_inj h
  adapter _ _ h    := by
    cases h
    simp

def answers (w : World) : ∀ q : Query, q.Answer
  | .should_cancel _   => false
  | .uuid4             => "a1"
  | .invoke_agent _    => .error "no agent"
  | .invoke_target _ x =>
    (w.capture x.attempt_id).answer w.fromisoformat (x.context targeted)
  | .set_order ids     => ⟨ids, .refl ids⟩

theorem answers_answering (w : World) (q : Query) : w.answering targeted q (answers w q) := by
  cases q with
  | invoke_agent _ =>
    rintro _ ⟨⟩
  | invoke_target _ _ => rfl
  | _ => trivial

def session (w : World) : Storage.State × Prog.Outcome Storage.Error RunResult :=
  adapted.run.run (store targeted redactors) (answers w) 60 (created targeted)

theorem session_run (w : World) :
    (reconciling adapted targeted redactors w).Run (created targeted) [created targeted]
      (session w).1 :=
  .single ⟨rfl, _, Prog.run_exec (answers_answering w) _ _ _⟩

-- A record that arrives before the adapter is called costs seven micro-dollars, and no summary
-- holds them.
theorem record_between_lost :
    ∃ w : World, w.Sound ∧ ∃ h t, (reconciling adapted targeted redactors w).Run (created targeted)
      h t ∧ t.status = .complete ∧ total_cost t ≠ w.produced t :=
  ⟨world [record] [], world_sound _ _, _, _, session_run _, by decide +kernel, by decide +kernel⟩

theorem costs_reconcile_taken :
    (session (world [] [record])).1.status = .complete ∧
      total_cost (session (world [] [record])).1 =
        (world [] [record]).produced (session (world [] [record])).1 := by
  have hs : (session (world [] [record])).1.status = .complete := by decide +kernel
  have hrows : (session (world [] [record])).1.attempts.rows.map (row_context targeted) =
      [⟨"r1", "w1", "c1", "a1", 0, 0⟩] := by decide +kernel
  refine ⟨hs, costs_reconcile adapted targeted redactors (world [] [record]) (world_sound _ _) _ _
    (session_run _) hs rfl (fun a ha => ?_) ?_⟩
  · have hx : row_context targeted a = ⟨"r1", "w1", "c1", "a1", 0, 0⟩ := by
      simpa [hrows] using List.mem_map_of_mem (f := row_context targeted) ha
    rw [hx]
    refine ⟨rfl, .inr ⟨rfl, rfl, _, _, rfl, rfl, ?_⟩⟩
    exact ⟨by decide, by decide, by decide, by decide,
      ⟨by decide, by decide +kernel⟩, by decide⟩
  · intro s hs a ha
    obtain rfl := List.mem_singleton.mp hs
    have hnone : (created targeted).attempts.rows = [] := rfl
    simp [Table.mem_rows, hnone] at ha

end Proxied

end Engine
