import Traceline.Events.Timestamps
import Traceline.Storage
import Traceline.TraceRules.Theorems.Precedence

-- The order in which stored events are read back, next to the order of the rules.
namespace TraceRules

open Events

-- No event is before one that is listed before it, and all of them can be compared.
def InRuleOrder (events : List TraceEvent) : Prop :=
  events.Pairwise fun a b => key_lt b a = .ok false

-- The texts of two timestamps put them as their instants do: both are naive or both aware, the one
-- whose clock face shows the earlier time is not the later one, and two offsets east of Greenwich
-- that show the same time are the same.
structure Agree (a b : TraceEvent) : Prop where
  aware   : aware a.timestamp = aware b.timestamp
  wall    : a.timestamp.wall < b.timestamp.wall → Evaluators.sort_key a ≤ Evaluators.sort_key b
  offsets : a.timestamp.wall = b.timestamp.wall → ∀ x ∈ a.timestamp.offset, ∀ y ∈ b.timestamp.offset,
    0 ≤ x → 0 ≤ y → x = y

-- ORDER BY timestamp, sequence
def text_le (a b : TraceEvent) : Bool :=
  toLex (a.timestamp.isoformat, a.sequence) ≤ toLex (b.timestamp.isoformat, b.sequence)

variable {a b : TraceEvent} {events : List TraceEvent}

theorem text_le_iff (ha : a.timestamp.Valid) (hb : b.timestamp.Valid) :
    text_le a b = true ↔ a.timestamp.wall < b.timestamp.wall ∨
      a.timestamp.wall = b.timestamp.wall ∧
        (Timestamp.zone a.timestamp.offset < Timestamp.zone b.timestamp.offset ∨
          Timestamp.zone a.timestamp.offset = Timestamp.zone b.timestamp.offset ∧
            a.sequence ≤ b.sequence) := by
  rw [text_le, decide_eq_true_eq, Prod.Lex.toLex_le_toLex]
  dsimp only
  have hlt := Timestamp.isoformat_lt_iff ha.left hb.left
  have heq := Timestamp.isoformat_inj ha.left hb.left
  rw [heq]
  constructor
  case mp  =>
    rintro (h | ⟨⟨hw, hz⟩, hs⟩)
    · exact (hlt.mp h).imp_right fun ⟨hw, hz⟩ => ⟨hw, .inl hz⟩
    · exact .inr ⟨hw, .inr ⟨hz, hs⟩⟩
  case mpr =>
    rintro (hw | ⟨hw, hz | ⟨hz, hs⟩⟩)
    · exact .inl <| hlt.mpr <| .inl hw
    · exact .inl <| hlt.mpr <| .inr ⟨hw, hz⟩
    · exact .inr ⟨⟨hw, hz⟩, hs⟩

theorem sort_key_le_iff : Evaluators.sort_key a ≤ Evaluators.sort_key b ↔
    instant a.timestamp < instant b.timestamp ∨
      instant a.timestamp = instant b.timestamp ∧ a.sequence ≤ b.sequence :=
  Prod.Lex.toLex_le_toLex

-- An event that is listed first is not judged to come second.
theorem sort_key_le_of_text_le (ha : a.timestamp.Valid) (hb : b.timestamp.Valid) (h : Agree a b)
    (hle : text_le a b = true) : Evaluators.sort_key a ≤ Evaluators.sort_key b := by
  rcases (text_le_iff ha hb).mp hle with hw | ⟨hw, hz⟩
  · exact h.wall hw
  · have haware := h.aware
    have hoffsets := h.offsets hw
    rw [sort_key_le_iff, instant, instant, hw]
    unfold aware at haware
    cases hx : a.timestamp.offset with
    | none   =>
      cases hy : b.timestamp.offset with
      | some y => simp [hx, hy] at haware
      | none   =>
        rw [hx, hy] at hz
        exact .inr ⟨rfl, (hz.resolve_left <| List.lt_irrefl _).right⟩
    | some x =>
      cases hy : b.timestamp.offset with
      | none   => simp [hx, hy] at haware
      | some y =>
        have hx' := ha.right x hx
        have hy' := hb.right y hy
        rw [hx, hy, Timestamp.zone_lt_iff hx' hy', Timestamp.zone_inj hx' hy'] at hz
        have heast := hoffsets x hx y hy
        simp only [Option.getD_some]
        omega

theorem key_lt_eq_ok_false_iff :
    key_lt b a = .ok false ↔
      aware a.timestamp = aware b.timestamp ∧ Evaluators.sort_key a ≤ Evaluators.sort_key b := by
  by_cases h : aware b.timestamp = aware a.timestamp
  case pos =>
    rw [key_lt_eq h, Except.ok.injEq, decide_eq_false_iff_not, not_lt]
    exact (and_iff_right h.symm).symm
  case neg =>
    refine iff_of_false ?_ fun hab => h hab.left.symm
    unfold aware at h
    rw [key_lt, if_neg h]
    exact fun hok => by cases hok

theorem pairwise_text_le (events : List TraceEvent) :
    (events.mergeSort text_le).Pairwise fun a b => text_le a b = true := by
  refine List.pairwise_mergeSort (fun a b c hab hbc => ?_) (fun a b => ?_) events
  · rw [text_le, decide_eq_true_eq] at *
    exact le_trans hab hbc
  · simp only [text_le, Bool.or_eq_true, decide_eq_true_eq]
    exact le_total ..

-- What a list in rule order says of two of its events, whichever is listed first.
def Settled (a b : TraceEvent) : Prop :=
  a = b ∨ text_le a b = true ∧ key_lt b a = .ok false ∨ text_le b a = true ∧ key_lt a b = .ok false

theorem InRuleOrder.settled (h : InRuleOrder (events.mergeSort text_le)) (ha : a ∈ events)
    (hb : b ∈ events) : Settled a b := by
  have hpairs := (pairwise_text_le events).and h
  exact List.Pairwise.forall_of_forall_of_flip (R := Settled) (fun _ _ => .inl rfl)
    (hpairs.imp fun hab => .inr <| .inl hab) (hpairs.imp fun hab => .inr <| .inr hab)
    (List.mem_mergeSort.mpr ha) (List.mem_mergeSort.mpr hb)

theorem Settled.aware (h : Settled a b) : aware a.timestamp = aware b.timestamp := by
  rcases h with rfl | ⟨_, h⟩ | ⟨_, h⟩
  · rfl
  · exact (key_lt_eq_ok_false_iff.mp h).left
  · exact (key_lt_eq_ok_false_iff.mp h).left.symm

theorem Settled.sort_key_le (h : Settled a b) (hab : ¬text_le b a = true) :
    Evaluators.sort_key a ≤ Evaluators.sort_key b := by
  rcases h with rfl | ⟨_, h⟩ | ⟨h, _⟩
  · exact le_refl _
  · exact (key_lt_eq_ok_false_iff.mp h).right
  · exact absurd h hab

-- Of two offsets east of Greenwich with the same clock face, the text puts the smaller one first,
-- which is the later instant.
theorem Settled.not_lt {x y : Int} (h : Settled a b) (ha : a.timestamp.Valid) (hb : b.timestamp.Valid)
    (hw : a.timestamp.wall = b.timestamp.wall) (hx : a.timestamp.offset = some x)
    (hy : b.timestamp.offset = some y) (hpos : 0 ≤ x) : ¬x < y := by
  intro hlt
  have hzone := (Timestamp.zone_lt_iff (ha.right x hx) (hb.right y hy)).mpr (.inl ⟨hpos, .inr hlt⟩)
  have hnot : ¬text_le b a = true := by
    rw [text_le_iff hb ha, hx, hy, hw]
    rintro (h | ⟨_, h | ⟨h, _⟩⟩)
    · exact lt_irrefl _ h
    · exact List.lt_asymm hzone h
    · rw [h] at hzone
      exact List.lt_irrefl _ hzone
  have hle := sort_key_le_iff.mp (h.sort_key_le hnot)
  rw [instant, instant, hx, hy, hw, Option.getD_some, Option.getD_some] at hle
  omega

theorem in_rule_order_iff (hv : ∀ e ∈ events, e.timestamp.Valid) :
    InRuleOrder (events.mergeSort text_le) ↔ ∀ a ∈ events, ∀ b ∈ events, Agree a b := by
  constructor
  case mp  =>
    intro h a ha b hb
    have hab := h.settled ha hb
    refine ⟨hab.aware, fun hw => hab.sort_key_le ?_, fun hw x hx y hy hx0 hy0 => ?_⟩
    · rw [text_le_iff (hv b hb) (hv a ha)]
      omega
    · have hxy := hab.not_lt (hv a ha) (hv b hb) hw hx hy hx0
      have hyx := (h.settled hb ha).not_lt (hv b hb) (hv a ha) hw.symm hy hx hy0
      omega
  case mpr =>
    intro h
    refine (pairwise_text_le events).imp_of_mem fun {a b} ha hb hle => ?_
    have ha := List.mem_mergeSort.mp ha
    have hb := List.mem_mergeSort.mp hb
    exact key_lt_eq_ok_false_iff.mpr
      ⟨(h a ha b hb).aware, sort_key_le_of_text_le (hv a ha) (hv b hb) (h a ha b hb) hle⟩

-- The events of an attempt that are stored.
def attempt_events (s : Storage.State) (workspace_id case_id attempt_id : String) :
    List TraceEvent :=
  s.events.rows.filter fun e =>
    e.workspace_id = workspace_id && e.case_id = case_id && e.attempt_id = attempt_id

-- The stored events are read back in the order of the rules exactly if the texts of their
-- timestamps agree with their instants.
theorem stored_order_iff {s : Storage.State} {workspace_id case_id attempt_id : String}
    (hv : ∀ e ∈ s.events, e.timestamp.Valid) :
    InRuleOrder (s.get_trace_events workspace_id case_id attempt_id) ↔
      ∀ a ∈ attempt_events s workspace_id case_id attempt_id,
        ∀ b ∈ attempt_events s workspace_id case_id attempt_id, Agree a b :=
  in_rule_order_iff fun e he => hv e <| List.mem_of_mem_filter he

namespace Stored

def event (id : String) (wall offset sequence : Int) : TraceEvent where
  event_id          := id
  run_id            := "run"
  workspace_id      := "workspace"
  case_id           := "case"
  attempt_id        := "attempt"
  sequence
  type              := .llm_call
  timestamp         := ⟨wall, some offset⟩
  tool_typed_column := llm_call_untyped

-- Ten o'clock two hours east of Greenwich is eight o'clock there.
def east : TraceEvent :=
  event "east" 36000000000 7200 0

def greenwich : TraceEvent :=
  event "greenwich" 32400000000 0 1

def stored (a b : TraceEvent) (h : a.event_id ≠ b.event_id) : Storage.State :=
  { Storage.State.draft with
    events := {
      rows  := [a, b]
      nodup := by simpa using h
    } }

end Stored

open Stored in
theorem stored_order_of_utc :
    InRuleOrder ((stored (event "second" 1500000 0 1) (event "first" 1000000 0 0)
      (by decide)).get_trace_events "workspace" "case" "attempt") := by
  refine (stored_order_iff ?_).mpr ?_
  · intro e he
    have he : e ∈ [event "second" 1500000 0 1, event "first" 1000000 0 0] := he
    rcases List.mem_pair.mp he with rfl | rfl <;> decide
  · intro a ha b hb
    have ha : a ∈ [event "second" 1500000 0 1, event "first" 1000000 0 0] := List.mem_of_mem_filter ha
    have hb : b ∈ [event "second" 1500000 0 1, event "first" 1000000 0 0] := List.mem_of_mem_filter hb
    rcases List.mem_pair.mp ha with rfl | rfl <;> rcases List.mem_pair.mp hb with rfl | rfl <;>
      exact ⟨rfl, by decide, by decide⟩

-- The text that shows the later time is of the earlier event.
open Stored in
theorem not_stored_order :
    ¬∀ (s : Storage.State) (workspace_id case_id attempt_id : String),
      (∀ e ∈ s.events, e.timestamp.Valid) →
      InRuleOrder (s.get_trace_events workspace_id case_id attempt_id) := by
  intro h
  have hv : ∀ e ∈ [east, greenwich], e.timestamp.Valid := by
    intro e he
    rcases List.mem_pair.mp he with rfl | rfl <;> decide
  have horder := h (stored east greenwich (by decide)) "workspace" "case" "attempt" hv
  have hagree := (in_rule_order_iff fun e he => hv e <| List.mem_of_mem_filter he).mp horder
  exact absurd ((hagree greenwich (by decide) east (by decide)).wall (by decide)) (by decide)

end TraceRules
