import Traceline.Library.Ancestry
import Traceline.TraceRules.Theorems.Order

-- Which of two events comes first.
namespace TraceRules

open Events Ancestry
open Evaluators (sort_key)

-- The first event is the one that the second names as its parent.
def Causes (events : List TraceEvent) (a d : TraceEvent) : Prop :=
  a ∈ events ∧ d.parent_event_id = some a.event_id

-- A proper ancestor.
def Precursor (events : List TraceEvent) : TraceEvent → TraceEvent → Prop :=
  Relation.TransGen (Causes events)

-- Their pairs of a timestamp and a sequence number are equal.
def SameKey (a b : TraceEvent) : Prop :=
  aware a.timestamp = aware b.timestamp ∧ sort_key a = sort_key b

variable {x : Context} {a b d e : TraceEvent}

namespace Context

def parent (x : Context) (e : TraceEvent) : Option TraceEvent :=
  e.parent_event_id.bind x.event?

theorem mem_of_event? {id : String} (h : x.event? id = some e) :
    e ∈ x.events ∧ e.event_id = id := by
  have hid := List.find?_some h
  rw [decide_eq_true_eq] at hid
  exact ⟨List.mem_reverse.mp <| List.mem_of_find?_eq_some h, hid⟩

-- Where ids are distinct, an event is found by its id.
theorem event?_eq (hids : (ids x.events).Nodup) (he : e ∈ x.events) :
    x.event? e.event_id = some e := by
  cases h : x.event? e.event_id with
  | some d =>
    obtain ⟨hd, hid⟩ := mem_of_event? h
    rw [List.inj_on_of_nodup_map hids hd he hid]
  | none   =>
    have := List.find?_eq_none.mp h e (List.mem_reverse.mpr he)
    simp at this

theorem parent_eq_some_iff (hids : (ids x.events).Nodup) :
    x.parent d = some a ↔ Causes x.events a d := by
  rw [parent, Option.bind_eq_some_iff]
  constructor
  case mp =>
    rintro ⟨id, hd, ha⟩
    obtain ⟨hmem, rfl⟩ := mem_of_event? ha
    exact ⟨hmem, hd⟩
  case mpr => exact fun ⟨hmem, hd⟩ => ⟨_, hd, event?_eq hids hmem⟩

theorem climb_iff {id : String} {fuel : ℕ} {cur : Option TraceEvent} :
    x.climb id fuel cur = true ↔ ∃ k < fuel, ∃ e, up x.parent k cur = some e ∧ e.event_id = id := by
  induction fuel generalizing cur with
  | zero         => exact iff_of_false (by rintro ⟨⟩) (by rintro ⟨_, ⟨⟩, _⟩)
  | succ fuel ih =>
    cases cur with
    | none     =>
      refine iff_of_false (by rintro ⟨⟩) ?_
      rintro ⟨k, _, e, he, _⟩
      rw [up_none] at he
      cases he
    | some cur =>
      rw [climb, Bool.or_eq_true, decide_eq_true_eq, ← parent, ih]
      constructor
      case mp =>
        rintro (h | ⟨k, hk, e, he, hid⟩)
        · exact ⟨0, fuel.succ_pos, cur, rfl, h⟩
        · refine ⟨k + 1, Nat.succ_lt_succ hk, e, ?_, hid⟩
          rw [up_succ]
          exact he
      case mpr =>
        rintro ⟨k, hk, e, he, hid⟩
        cases k with
        | zero   =>
          cases he
          exact .inl hid
        | succ k =>
          rw [up_succ] at he
          exact .inr ⟨k, Nat.lt_of_succ_lt_succ hk, e, he, hid⟩

theorem mem_of_precursor (h : Precursor x.events a d) : a ∈ x.events := by
  induction h with
  | single h    => exact h.left
  | tail _ _ ih => exact ih

-- `_is_ancestor` gives up too late to miss an ancestor. It knows the ancestor by its id only.
theorem is_ancestor_iff_exists (hids : (ids x.events).Nodup) :
    x.is_ancestor a d = true ↔ ∃ e, e.event_id = a.event_id ∧ Precursor x.events e d := by
  have hgraph : ∀ e, Precursor x.events e d ↔ Ancestor x.parent e d := by
    intro e
    rw [Precursor, Ancestor]
    simp only [parent_eq_some_iff hids]
  have hlength : (ids x.events).dedup.length = x.events.length := by
    rw [hids.dedup, ids, List.length_map]
  have hfinite : ∀ y z, x.parent y = some z → z ∈ x.events.toFinset :=
    fun y z h => List.mem_toFinset.mpr (parent_eq_some_iff hids |>.mp h).left
  simp only [hgraph, ancestor_iff]
  rw [is_ancestor, climb_iff, hlength]
  constructor
  case mp =>
    rintro ⟨k, _, e, he, hid⟩
    refine ⟨e, hid, k, ?_⟩
    rw [up_succ]
    exact he
  case mpr =>
    rintro ⟨e, hid, k, hk⟩
    obtain ⟨j, hj, hup⟩ := exists_up_lt hfinite hk
    rw [up_succ] at hup
    exact ⟨j, by have := x.events.toFinset_card_le; omega, e, hup, hid⟩

theorem is_ancestor_iff (hids : (ids x.events).Nodup) (ha : a ∈ x.events) :
    x.is_ancestor a d = true ↔ Precursor x.events a d := by
  rw [is_ancestor_iff_exists hids]
  constructor
  case mp  =>
    intro ⟨e, hid, h⟩
    rwa [← List.inj_on_of_nodup_map hids (mem_of_precursor h) ha hid]
  case mpr => exact fun h => ⟨a, rfl, h⟩

-- Where the loop of `_is_ancestor` stands.
structure Climb where
  cur   : Option TraceEvent
  steps : ℕ

def climb_from (x : Context) (desc : TraceEvent) : Climb where
  cur   := desc.parent_event_id.bind x.event?
  steps := 0

-- One turn of that loop, which answers or goes on.
def turn (x : Context) (ancestor : TraceEvent) (c : Climb) : Bool ⊕ Climb :=
  match c.cur with
  | none     => .inl false
  | some cur =>
    if cur.event_id = ancestor.event_id then .inl true
    else
      match cur.parent_event_id with
      | none    => .inl false
      | some id =>
        if c.steps + 1 > (ids x.events).dedup.length then .inl false
        else .inr ⟨x.event? id, c.steps + 1⟩

-- The loop answers after so many turns.
inductive Answers (x : Context) (ancestor : TraceEvent) : Climb → ℕ → Bool → Prop
  | done : x.turn ancestor c = .inl answer → Answers x ancestor c 1 answer
  | next : x.turn ancestor c = .inr c' → Answers x ancestor c' n answer →
    Answers x ancestor c (n + 1) answer

theorem Answers.unique {c : Climb} {m n : ℕ} {p q : Bool} (h : x.Answers a c m p)
    (h' : x.Answers a c n q) : m = n ∧ p = q := by
  induction h generalizing n with
  | done h =>
    cases h' with
    | done h'   => exact ⟨rfl, Sum.inl.inj <| h.symm.trans h'⟩
    | next h' _ => cases h.symm.trans h'
  | next h _ ih =>
    cases h' with
    | done h'    => cases h.symm.trans h'
    | next h' e' =>
      cases h.symm.trans h'
      exact (ih e').imp_left <| congrArg (· + 1)

-- The steps that are left bound the turns that are left.
theorem answers_climb {c : Climb} {left : ℕ}
    (h : c.steps + left = (ids x.events).dedup.length) :
    ∃ n ≤ left + 1, x.Answers a c n (x.climb a.event_id (left + 1) c.cur) := by
  induction left generalizing c with
  | zero =>
    refine ⟨1, Nat.le_refl _, .done ?_⟩
    cases hc : c.cur with
    | none     => simp [turn, hc, climb]
    | some cur =>
      have hlast : c.steps + 1 > (ids x.events).dedup.length := by omega
      by_cases hid : cur.event_id = a.event_id
      case pos => simp [turn, hc, climb, hid]
      case neg => cases hp : cur.parent_event_id <;> simp [turn, hc, climb, hid, hp, hlast]
  | succ left ih =>
    cases hc : c.cur with
    | none     => exact ⟨1, by omega, .done <| by simp [turn, hc, climb]⟩
    | some cur =>
      by_cases hid : cur.event_id = a.event_id
      case pos => exact ⟨1, by omega, .done <| by simp [turn, hc, climb, hid]⟩
      case neg =>
        cases hp : cur.parent_event_id with
        | none    => exact ⟨1, by omega, .done <| by simp [turn, hc, climb, hid, hp]⟩
        | some id =>
          have hmore : ¬c.steps + 1 > (ids x.events).dedup.length := by omega
          have hturn : x.turn a c = .inr ⟨x.event? id, c.steps + 1⟩ := by
            simp only [turn, hc, if_neg hid, hp, if_neg hmore]
          obtain ⟨n, hn, e⟩ := ih (c := ⟨x.event? id, c.steps + 1⟩) (by dsimp only; omega)
          refine ⟨n + 1, Nat.succ_le_succ hn, .next hturn ?_⟩
          simpa [climb, hid, hp] using e

-- The loop of `_is_ancestor` answers whatever the links, and says what they say.
theorem ancestor_search (hids : (ids x.events).Nodup) :
    ∃ answer,
      (∃ n ≤ x.events.length + 1, x.Answers a (x.climb_from d) n answer) ∧
      (∀ n answer', x.Answers a (x.climb_from d) n answer' → answer' = answer) ∧
      (answer = true ↔ ∃ e, e.event_id = a.event_id ∧ Precursor x.events e d) ∧
      (a ∈ x.events → (answer = true ↔ Precursor x.events a d)) := by
  have hlength : (ids x.events).dedup.length = x.events.length := by
    rw [hids.dedup, ids, List.length_map]
  obtain ⟨n, hn, e⟩ := answers_climb (a := a) (c := x.climb_from d) (Nat.zero_add _)
  rw [hlength] at hn
  exact ⟨_, ⟨n, hn, e⟩, fun _ _ e' => (e'.unique e).right, is_ancestor_iff_exists hids,
    is_ancestor_iff hids⟩

end Context

theorem key_lt_eq (h : aware a.timestamp = aware b.timestamp) :
    key_lt a b = .ok (decide (sort_key a < sort_key b)) :=
  if_pos h

theorem key_lt_ne (h : aware a.timestamp ≠ aware b.timestamp) : key_lt a b ≠ .ok true := by
  unfold aware at h
  rw [key_lt, if_neg h]
  rintro ⟨⟩

section Precedes

variable (hids : (ids x.events).Nodup) (ha : a ∈ x.events) (hb : b ∈ x.events)

include hids ha in
theorem precedes_of_precursor (h : Precursor x.events a b) : x.precedes a b = .ok true :=
  if_pos <| (Context.is_ancestor_iff hids ha).mpr h

include hids ha hb in
theorem precedes_of_successor (h : ¬Precursor x.events a b) (h' : Precursor x.events b a) :
    x.precedes a b = .ok false := by
  rw [Context.precedes, if_neg <| mt (Context.is_ancestor_iff hids ha).mp h,
    if_pos <| (Context.is_ancestor_iff hids hb).mpr h']

include hids ha hb in
theorem precedes_of_unrelated (h : ¬Precursor x.events a b) (h' : ¬Precursor x.events b a) :
    x.precedes a b = key_lt a b := by
  rw [Context.precedes, if_neg <| mt (Context.is_ancestor_iff hids ha).mp h,
    if_neg <| mt (Context.is_ancestor_iff hids hb).mp h']

end Precedes

-- The keys of two events that can be compared put them in one order.
theorem key_lt_xor (h : aware a.timestamp = aware b.timestamp) (hkey : sort_key a ≠ sort_key b) :
    Xor (key_lt a b = .ok true) (key_lt b a = .ok true) := by
  rw [key_lt_eq h, key_lt_eq h.symm, Except.ok.injEq, Except.ok.injEq, decide_eq_true_eq,
    decide_eq_true_eq]
  rcases lt_or_gt_of_ne hkey with hlt | hlt
  · exact .inl ⟨hlt, hlt.asymm⟩
  · exact .inr ⟨hlt, hlt.asymm⟩

-- Two events are in one order, unless each is an ancestor of the other one, or neither is and their
-- timestamps cannot be compared. An ancestor always comes first.
theorem precedes_exact (hids : (ids x.events).Nodup) (ha : a ∈ x.events) (hb : b ∈ x.events)
    (hkey : ¬SameKey a b) :
    (Xor (x.precedes a b = .ok true) (x.precedes b a = .ok true) ↔
      ¬(Precursor x.events a b ∧ Precursor x.events b a) ∧
        (Precursor x.events a b ∨ Precursor x.events b a ∨
          aware a.timestamp = aware b.timestamp)) ∧
    (Precursor x.events a b → x.precedes a b = .ok true) := by
  refine ⟨?_, precedes_of_precursor hids ha⟩
  by_cases hab : Precursor x.events a b
  case pos =>
    rw [precedes_of_precursor hids ha hab]
    by_cases hba : Precursor x.events b a
    case pos =>
      rw [precedes_of_precursor hids hb hba]
      exact iff_of_false (by rintro (h | h) <;> exact h.right rfl) fun h => h.left ⟨hab, hba⟩
    case neg =>
      rw [precedes_of_successor hids hb ha hba hab]
      exact iff_of_true (.inl ⟨rfl, by rintro ⟨⟩⟩) ⟨fun h => hba h.right, .inl hab⟩
  case neg =>
    by_cases hba : Precursor x.events b a
    case pos =>
      rw [precedes_of_precursor hids hb hba, precedes_of_successor hids ha hb hab hba]
      exact iff_of_true (.inr ⟨rfl, by rintro ⟨⟩⟩) ⟨fun h => hab h.left, .inr (.inl hba)⟩
    case neg =>
      rw [precedes_of_unrelated hids ha hb hab hba, precedes_of_unrelated hids hb ha hba hab]
      by_cases haware : aware a.timestamp = aware b.timestamp
      case pos =>
        have hne : sort_key a ≠ sort_key b := fun h => hkey ⟨haware, h⟩
        exact iff_of_true (key_lt_xor haware hne) ⟨fun h => hab h.left, .inr (.inr haware)⟩
      case neg =>
        refine iff_of_false ?_ ?_
        · rintro (h | h)
          · exact key_lt_ne haware h.left
          · exact key_lt_ne (Ne.symm haware) h.left
        · rintro ⟨_, h | h | h⟩
          · exact hab h
          · exact hba h
          · exact haware h

namespace Looped

def lang : Predicates.Language where
  py              := .ascii
  fromisoformat _ := none
  cel _           := .error (.semantic "no CEL")

def event (id parent : String) (time : Int) : TraceEvent where
  event_id          := id
  run_id            := "run"
  workspace_id      := "workspace"
  case_id           := "case"
  attempt_id        := "attempt"
  type              := .llm_call
  timestamp         := ⟨time, some 0⟩
  parent_event_id   := some parent
  tool_typed_column := llm_call_untyped

def first : TraceEvent :=
  event "first" "second" 1

def second : TraceEvent :=
  event "second" "first" 2

-- Each of the two events names the other one as its parent.
def looped : Context :=
  ⟨lang, [first, second]⟩

-- The parent of the first event is not there.
def dangling : Context :=
  ⟨lang, [event "first" "nobody" 1, second]⟩

end Looped

open Looped in
theorem not_precedes_exact :
    ¬∀ (x : Context) (a b : TraceEvent), (ids x.events).Nodup → a ∈ x.events → b ∈ x.events →
      ¬SameKey a b → Xor (x.precedes a b = .ok true) (x.precedes b a = .ok true) := by
  intro h
  have hkey : ¬SameKey first second := fun h => absurd h.right (by decide)
  have hx := h looped first second (by decide) (.head _) (.tail _ (.head _)) hkey
  have hab : looped.precedes first second = .ok true := by decide
  have hba : looped.precedes second first = .ok true := by decide
  rw [hab, hba] at hx
  rcases hx with h | h <;> exact h.right rfl

open Looped in
theorem precedes_exact_dangling :
    dangling.precedes (event "first" "nobody" 1) second = .ok true := by
  have hkey : ¬SameKey (event "first" "nobody" 1) second := fun h => absurd h.right (by decide)
  refine (precedes_exact (x := dangling) (by decide) (.head _) (.tail _ (.head _)) hkey).right ?_
  exact .single ⟨.head _, rfl⟩

-- The two events that name each other are ancestors of themselves.
open Looped in
theorem ancestor_search_looped :
    ∃ answer,
      (∃ n ≤ 3, looped.Answers first (looped.climb_from first) n answer) ∧
      (answer = true ↔ Precursor looped.events first first) := by
  obtain ⟨answer, hn, _, _, h⟩ :=
    Context.ancestor_search (x := looped) (a := first) (d := first) (by decide)
  exact ⟨answer, hn, h (.head _)⟩

end TraceRules
