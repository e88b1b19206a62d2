import Mathlib.Data.List.Dedup
import Traceline.Library.Both
import Traceline.TraceRules.Theorems.Visits

-- What a verdict owes to the order in which the events are listed.
namespace TraceRules

open Events Except
open Evaluators (RuleResult sort_key sort_events dedupe_ids)

def instant (t : Timestamp) : Int :=
  t.wall - t.offset.getD 0 * 1000000

def aware (t : Timestamp) : Bool :=
  t.offset.isSome

-- Timestamps that every comparison takes for the same.
def Level (a b : Timestamp) : Prop :=
  aware a = aware b ∧ instant a = instant b

section Timestamps

variable {a b c : Timestamp} {ms : Int}

theorem lt_eq_ok (h : aware a = aware b) : a.lt b = .ok (decide (instant a < instant b)) := by
  obtain ⟨wall, offset⟩ := a
  obtain ⟨wall', offset'⟩ := b
  cases offset <;> cases offset' <;> (simp_all [aware, instant, Timestamp.lt]; try congr)

theorem lt_eq_error (h : aware a ≠ aware b) : ∃ e, a.lt b = .error e := by
  obtain ⟨wall, offset⟩ := a
  obtain ⟨wall', offset'⟩ := b
  cases offset <;> cases offset' <;> simp_all [aware, Timestamp.lt]

theorem within_window_level (h : Level b c) : within_window a b ms = within_window a c ms := by
  obtain ⟨wall, offset⟩ := a
  obtain ⟨wall', offset'⟩ := b
  obtain ⟨wall'', offset''⟩ := c
  obtain ⟨ha, hi⟩ := h
  cases offset <;> cases offset' <;> cases offset'' <;> simp_all [aware, instant, within_window]

end Timestamps

-- The timestamps of a list have a least one, whatever the order of the list.
structure Least (events : List TraceEvent) (t : Timestamp) : Prop where
  mem   : ∃ e ∈ events, e.timestamp = t
  aware : ∀ e ∈ events, aware e.timestamp = aware t
  le    : ∀ e ∈ events, instant t ≤ instant e.timestamp

def Mixed (events : List TraceEvent) : Prop :=
  ∃ a ∈ events, ∃ b ∈ events, aware a.timestamp ≠ aware b.timestamp

section Starts

variable {events events' : List TraceEvent} {event : TraceEvent} {t t' : Timestamp}

theorem Least.level (h : Least events t) (h' : Least events' t') (hp : events.Perm events') :
    Level t t' := by
  have ⟨e, he, het⟩ := h.mem
  have ⟨e', he', het'⟩ := h'.mem
  constructor
  · rw [← het, ← h'.aware e (hp.mem_iff.mp he)]
  · apply le_antisymm
    · rw [← het']
      exact h.le e' (hp.mem_iff.mpr he')
    · rw [← het]
      exact h'.le e (hp.mem_iff.mp he)

theorem Least.not_mixed (h : Least events t) : ¬ Mixed events :=
  fun ⟨a, ha, b, hb, hne⟩ => hne <| (h.aware a ha).trans (h.aware b hb).symm

theorem Mixed.perm (h : Mixed events) (hp : events.Perm events') : Mixed events' :=
  have ⟨a, ha, b, hb, hne⟩ := h
  ⟨a, hp.mem_iff.mp ha, b, hp.mem_iff.mp hb, hne⟩

theorem earliest_eq (h : aware event.timestamp = aware t) :
    earliest t event = .ok (if instant event.timestamp < instant t then event.timestamp else t) := by
  rw [earliest, lt_eq_ok h]
  simp [Except.mapError, bind, Except.bind, pure, Except.pure]

theorem earliest_error (h : aware event.timestamp ≠ aware t) : ∃ e, earliest t event = .error e := by
  have ⟨e, he⟩ := lt_eq_error h
  exact ⟨.other e, by rw [earliest, he]; rfl⟩

-- After each turn the timestamp is the least of those seen.
theorem earliest_run (events : List TraceEvent) {seen : List TraceEvent} (h : Least seen t) :
    (∃ t', events.foldlM earliest t = .ok t' ∧ Least (seen ++ events) t') ∨
    (∃ e, events.foldlM earliest t = .error e) ∧ Mixed (seen ++ events) := by
  induction events generalizing seen t with
  | nil               => exact .inl ⟨t, rfl, by simpa using h⟩
  | cons event events ih =>
    rw [List.foldlM_cons]
    by_cases ha : aware event.timestamp = aware t
    case neg =>
      have ⟨e, he⟩ := earliest_error ha
      have ⟨first, hf, hft⟩ := h.mem
      exact .inr ⟨⟨e, by rw [he]; rfl⟩, event, by simp, first, by simp [hf], by rwa [hft]⟩
    case pos =>
      rw [earliest_eq ha]
      have hl : Least (seen ++ [event])
          (if instant event.timestamp < instant t then event.timestamp else t) := by
        split
        case isTrue hlt  =>
          refine ⟨⟨event, by simp, rfl⟩, fun e he => ?_, fun e he => ?_⟩
          · rcases List.mem_append.mp he with he | he
            · exact (h.aware e he).trans ha.symm
            · rw [List.mem_singleton.mp he]
          · rcases List.mem_append.mp he with he | he
            · exact hlt.le.trans (h.le e he)
            · rw [List.mem_singleton.mp he]
        case isFalse hle =>
          have ⟨first, hf, hft⟩ := h.mem
          refine ⟨⟨first, by simp [hf], hft⟩, fun e he => ?_, fun e he => ?_⟩
          · rcases List.mem_append.mp he with he | he
            · exact h.aware e he
            · rwa [List.mem_singleton.mp he]
          · rcases List.mem_append.mp he with he | he
            · exact h.le e he
            · rw [List.mem_singleton.mp he]
              exact not_lt.mp hle
      rw [List.append_cons]
      exact ih hl

theorem attempt_start_cases (events : List TraceEvent) :
    attempt_start events = .ok none ∧ events = [] ∨
    (∃ t, attempt_start events = .ok (some t) ∧ Least events t) ∨
    (∃ e, attempt_start events = .error e) ∧ Mixed events := by
  cases events with
  | nil               => exact .inl ⟨rfl, rfl⟩
  | cons event events =>
    have hl : Least [event] event.timestamp := ⟨⟨event, by simp, rfl⟩, by simp, by simp⟩
    rcases earliest_run events hl with ⟨t, ht, hl⟩ | ⟨⟨e, he⟩, hm⟩
    · exact .inr <| .inl ⟨t, by rw [attempt_start, ht]; rfl, hl⟩
    · exact .inr <| .inr ⟨⟨e, by rw [attempt_start, he]; rfl⟩, hm⟩

theorem attempt_start_perm (hp : events.Perm events') :
    Both (Option.Rel Level) (attempt_start events) (attempt_start events') := by
  rcases attempt_start_cases events with ⟨h, rfl⟩ | ⟨t, h, hl⟩ | ⟨⟨e, h⟩, hm⟩
  · rw [List.nil_perm.mp hp, h]
    exact .ok .none
  · rcases attempt_start_cases events' with ⟨h', rfl⟩ | ⟨t', h', hl'⟩ | ⟨_, hm'⟩
    · have ⟨e, he, _⟩ := hl.mem
      exact absurd (hp.mem_iff.mp he) List.not_mem_nil
    · rw [h, h']
      exact .ok <| .some <| hl.level hl' hp
    · exact absurd (hm'.perm hp.symm) hl.not_mixed
  · rcases attempt_start_cases events' with ⟨h', rfl⟩ | ⟨t', h', hl'⟩ | ⟨⟨e', h'⟩, _⟩
    · have ⟨a, ha, _⟩ := hm
      exact absurd (hp.mem_iff.mp ha) List.not_mem_nil
    · exact absurd (hm.perm hp) hl'.not_mixed
    · rw [h, h']
      exact .error

end Starts

theorem sort_events_perm {l l' : List TraceEvent} (h : l.Perm l') :
    Both List.Perm (sort_events l) (sort_events l') := by
  have hall (p : TraceEvent → Bool) : l.all p = l'.all p := by
    rw [Bool.eq_iff_iff, List.all_eq_true, List.all_eq_true]
    exact forall_congr' fun e => imp_congr_left h.mem_iff
  unfold sort_events
  rw [hall, hall]
  split
  · exact .ok <| (List.mergeSort_perm ..).trans <| h.trans (List.mergeSort_perm ..).symm
  · exact .error

namespace Context

-- Two contexts whose events are the same in another order, with distinct ids.
structure Reordered (x x' : Context) : Prop where
  lang   : x.lang = x'.lang
  perm   : x.events.Perm x'.events
  unique : (ids x.events).Nodup

variable {x x' : Context} {node pattern : Node} {anchor : Option TraceEvent} {window : Option Int}
variable {a b e : TraceEvent} {id : String}

theorem eq_of_id_eq (hu : (ids x.events).Nodup) (ha : a ∈ x.events) (hb : b ∈ x.events)
    (h : a.event_id = b.event_id) : a = b :=
  List.inj_on_of_nodup_map hu ha hb h

theorem event?_eq_some_iff (hu : (ids x.events).Nodup) :
    x.event? id = some e ↔ e ∈ x.events ∧ e.event_id = id := by
  constructor
  case mp =>
    intro h
    exact ⟨List.mem_reverse.mp <| List.mem_of_find?_eq_some h, by simpa using List.find?_some h⟩
  case mpr =>
    rintro ⟨he, rfl⟩
    have hs : (x.event? e.event_id).isSome :=
      List.find?_isSome.mpr ⟨e, List.mem_reverse.mpr he, by simp⟩
    have ⟨e', he'⟩ := Option.isSome_iff_exists.mp hs
    have hid : e'.event_id = e.event_id := by simpa using List.find?_some he'
    rw [he', eq_of_id_eq hu (List.mem_reverse.mp <| List.mem_of_find?_eq_some he') he hid]

namespace Reordered

variable (h : x.Reordered x')

include h

theorem symm : x'.Reordered x where
  lang   := h.lang.symm
  perm   := h.perm.symm
  unique := (h.perm.map _).nodup_iff.mp h.unique

theorem event? : x.event? = x'.event? := by
  funext id
  ext e
  rw [event?_eq_some_iff h.unique, event?_eq_some_iff h.symm.unique, h.perm.mem_iff]

theorem climb (fuel : ℕ) (cur : Option TraceEvent) : x.climb id fuel cur = x'.climb id fuel cur := by
  induction fuel generalizing cur with
  | zero         => rfl
  | succ fuel ih =>
    cases cur with
    | none     => rfl
    | some cur => rw [Context.climb, Context.climb, ih, h.event?]

theorem is_ancestor : x.is_ancestor = x'.is_ancestor := by
  funext a b
  have hl : (ids x.events).dedup.length = (ids x'.events).dedup.length := by
    rw [List.Nodup.dedup h.unique, List.Nodup.dedup h.symm.unique]
    exact (h.perm.map _).length_eq
  rw [Context.is_ancestor, Context.is_ancestor, h.climb, hl, h.event?]

theorem precedes : x.precedes = x'.precedes := by
  funext a b
  rw [Context.precedes, Context.precedes, h.is_ancestor]

theorem follows : x.follows = x'.follows := by
  funext a b
  rw [Context.follows, Context.follows, h.is_ancestor]

theorem selects : x.selects = x'.selects := by
  funext pattern e
  unfold Context.selects Context.compile_where
  rw [h.lang]

theorem in_window {l l' : List TraceEvent} (hl : l.Perm l') :
    Both List.Perm (x.in_window anchor window l) (x'.in_window anchor window l') := by
  cases window with
  | none    => exact .ok hl
  | some ms =>
    have ho : Both (Option.Rel Level) (x.origin anchor) (x'.origin anchor) := by
      cases anchor with
      | none   => exact attempt_start_perm h.perm
      | some _ => exact .ok <| .some ⟨rfl, rfl⟩
    refine ho.bind fun start start' _ _ hs => ?_
    cases hs with
    | none    => exact .filter_perm _ hl
    | some hs =>
      dsimp only
      simp only [within_window_level hs]
      exact .filter_perm _ hl

theorem matching : Both List.Perm (x.matching pattern anchor window)
    (x'.matching pattern anchor window) := by
  unfold Context.matching
  dsimp only
  split
  case isTrue  => exact .error
  case isFalse =>
    rw [h.selects]
    exact (Both.filter_perm _ h.perm).bind fun _ _ _ _ hp => (h.in_window hp).bind
      fun _ _ _ _ hp => (sort_events_perm hp).mapError

theorem candidates : Both List.Perm (x.candidates anchor node) (x'.candidates anchor node) := by
  unfold Context.candidates
  split
  · exact .error
  · split
    · exact .error
    · exact h.matching

end Reordered

-- The events that may come right before an anchor, unless they come after it.
structure Rival (x : Context) (anchor e : TraceEvent) : Prop where
  other          : e.event_id ≠ anchor.event_id
  not_descendant : x.is_ancestor anchor e = false

structure Prior (x : Context) (anchor e : TraceEvent) : Prop extends x.Rival anchor e where
  earlier : sort_key e < sort_key anchor

-- All of the events are compared with the anchor.
def Comparable (x : Context) (anchor : TraceEvent) (l : List TraceEvent) : Prop :=
  ∀ e ∈ l, x.Rival anchor e → aware e.timestamp = aware anchor.timestamp

-- The last of the events so far that come before the anchor, of several the first.
structure Best (x : Context) (anchor : TraceEvent) (l : List TraceEvent) (best : TraceEvent) :
    Prop where
  mem   : best ∈ l
  prior : x.Prior anchor best
  le    : ∀ e ∈ l, x.Prior anchor e → sort_key e ≤ sort_key best

theorem key_lt_eq (h : aware a.timestamp = aware b.timestamp) :
    key_lt a b = .ok (decide (sort_key a < sort_key b)) :=
  if_pos h

theorem key_lt_error (h : aware a.timestamp ≠ aware b.timestamp) : ∃ e, key_lt a b = .error e :=
  ⟨_, if_neg h⟩

section Later

variable {best : Option TraceEvent} {anchor : TraceEvent}

theorem later_skip (h : ¬ x.Rival anchor e) : x.later anchor best e = .ok best := by
  unfold later
  split
  case isTrue        => rfl
  case isFalse hother =>
    split
    case isTrue      => rfl
    case isFalse hnd => exact absurd ⟨hother, by simpa using hnd⟩ h

theorem later_rival (h : x.Rival anchor e) :
    x.later anchor best e = keep_later anchor best e := by
  rw [later, if_neg h.other, if_neg (by simp [h.not_descendant])]

theorem later_error (h : x.Rival anchor e) (ha : aware e.timestamp ≠ aware anchor.timestamp) :
    ∃ err, x.later anchor best e = .error err := by
  have ⟨err, he⟩ := key_lt_error ha
  exact ⟨err, by rw [later_rival h, keep_later, he]; rfl⟩

theorem later_after (h : x.Rival anchor e) (ha : aware e.timestamp = aware anchor.timestamp)
    (hlt : ¬ sort_key e < sort_key anchor) : x.later anchor best e = .ok best := by
  rw [later_rival h, keep_later, key_lt_eq ha, decide_eq_false hlt]
  rfl

theorem later_first (h : x.Prior anchor e) (ha : aware e.timestamp = aware anchor.timestamp) :
    x.later anchor none e = .ok (some e) := by
  rw [later_rival h.toRival, keep_later, key_lt_eq ha, decide_eq_true h.earlier]
  rfl

theorem later_prior {last : TraceEvent} (h : x.Prior anchor e)
    (ha : aware e.timestamp = aware anchor.timestamp)
    (hl : aware last.timestamp = aware e.timestamp) : x.later anchor (some last) e =
      .ok (some (if sort_key last < sort_key e then e else last)) := by
  rw [later_rival h.toRival, keep_later, key_lt_eq ha, decide_eq_true h.earlier]
  dsimp only [bind, Except.bind]
  rw [key_lt_eq hl]
  simp [pure, Except.pure]

-- What the loop holds after some of the events.
def Kept (x : Context) (anchor : TraceEvent) (seen : List TraceEvent) : Option TraceEvent → Prop
  | none      => ∀ e ∈ seen, ¬ x.Prior anchor e
  | some best => x.Best anchor seen best

variable {seen l : List TraceEvent}

theorem Comparable.snoc (hc : x.Comparable anchor seen)
    (h : x.Rival anchor e → aware e.timestamp = aware anchor.timestamp) :
    x.Comparable anchor (seen ++ [e]) := by
  intro e' he' hr
  rcases List.mem_append.mp he' with he' | he'
  · exact hc e' he' hr
  · rw [List.mem_singleton.mp he'] at hr ⊢
    exact h hr

theorem Kept.snoc (hk : x.Kept anchor seen best) (h : ¬ x.Prior anchor e) :
    x.Kept anchor (seen ++ [e]) best := by
  cases best with
  | none      =>
    intro e' he'
    rcases List.mem_append.mp he' with he' | he'
    · exact hk e' he'
    · rwa [List.mem_singleton.mp he']
  | some best =>
    refine ⟨List.mem_append_left _ hk.mem, hk.prior, fun e' he' hp => ?_⟩
    rcases List.mem_append.mp he' with he' | he'
    · exact hk.le e' he' hp
    · exact absurd (List.mem_singleton.mp he' ▸ hp) h

theorem Kept.first (hk : x.Kept anchor seen none) (hp : x.Prior anchor e) :
    x.Kept anchor (seen ++ [e]) (some e) := by
  refine ⟨by simp, hp, fun e' he' hp' => ?_⟩
  rcases List.mem_append.mp he' with he' | he'
  · exact absurd hp' (hk e' he')
  · rw [List.mem_singleton.mp he']

theorem Kept.next {last : TraceEvent} (hk : x.Kept anchor seen (some last))
    (hp : x.Prior anchor e) : x.Kept anchor (seen ++ [e])
      (some (if sort_key last < sort_key e then e else last)) := by
  split
  case isTrue hlt  =>
    refine ⟨by simp, hp, fun e' he' hp' => ?_⟩
    rcases List.mem_append.mp he' with he' | he'
    · exact (hk.le e' he' hp').trans hlt.le
    · rw [List.mem_singleton.mp he']
  case isFalse hle =>
    refine ⟨List.mem_append_left _ hk.mem, hk.prior, fun e' he' hp' => ?_⟩
    rcases List.mem_append.mp he' with he' | he'
    · exact hk.le e' he' hp'
    · rw [List.mem_singleton.mp he']
      exact not_lt.mp hle

-- One turn, which fails only on an event that cannot be compared.
theorem later_turn (hc : x.Comparable anchor seen) (hk : x.Kept anchor seen best) (e : TraceEvent) :
    (∃ best', x.later anchor best e = .ok best' ∧ x.Comparable anchor (seen ++ [e]) ∧
      x.Kept anchor (seen ++ [e]) best') ∨
    (∃ err, x.later anchor best e = .error err) ∧ ∀ l, ¬ x.Comparable anchor (seen ++ e :: l) := by
  by_cases hr : x.Rival anchor e
  case neg =>
    exact .inl ⟨best, later_skip hr, hc.snoc fun h => absurd h hr, hk.snoc fun h => hr h.toRival⟩
  case pos =>
    by_cases ha : aware e.timestamp = aware anchor.timestamp
    case neg => exact .inr ⟨later_error hr ha, fun l h => ha <| h e (by simp) hr⟩
    case pos =>
      left
      by_cases hlt : sort_key e < sort_key anchor
      case neg =>
        exact ⟨best, later_after hr ha hlt, hc.snoc fun _ => ha, hk.snoc fun h => hlt h.earlier⟩
      case pos =>
        have hp : x.Prior anchor e := ⟨hr, hlt⟩
        cases best with
        | none      => exact ⟨some e, later_first hp ha, hc.snoc fun _ => ha, hk.first hp⟩
        | some last =>
          have hl := (hc last hk.mem hk.prior.toRival).trans ha.symm
          exact ⟨_, later_prior hp ha hl, hc.snoc fun _ => ha, hk.next hp⟩

theorem later_run (hc : x.Comparable anchor seen) (hk : x.Kept anchor seen best) :
    (∃ best', l.foldlM (x.later anchor) best = .ok best' ∧ x.Comparable anchor (seen ++ l) ∧
      x.Kept anchor (seen ++ l) best') ∨
    (∃ err, l.foldlM (x.later anchor) best = .error err) ∧ ¬ x.Comparable anchor (seen ++ l) := by
  induction l generalizing seen best with
  | nil         => exact .inl ⟨best, rfl, by rwa [List.append_nil], by rwa [List.append_nil]⟩
  | cons e l ih =>
    rw [List.foldlM_cons]
    rcases later_turn hc hk e with ⟨best', hb, hc', hk'⟩ | ⟨⟨err, he⟩, hn⟩
    · rw [hb, List.append_cons]
      exact ih hc' hk'
    · exact .inr ⟨⟨err, by rw [he]; rfl⟩, hn l⟩

-- Of several latest events the first one stays.
theorem later_stays {last : TraceEvent} (ha : aware last.timestamp = aware anchor.timestamp)
    (hc : x.Comparable anchor l) (hle : ∀ e ∈ l, x.Prior anchor e → sort_key e ≤ sort_key last) :
    l.foldlM (x.later anchor) (some last) = .ok (some last) := by
  induction l with
  | nil         => rfl
  | cons e l ih =>
    have hturn : x.later anchor (some last) e = .ok (some last) := by
      by_cases hr : x.Rival anchor e
      case neg => exact later_skip hr
      case pos =>
        have he := hc e (.head _) hr
        by_cases hlt : sort_key e < sort_key anchor
        case neg => exact later_after hr he hlt
        case pos =>
          rw [later_prior ⟨hr, hlt⟩ he (ha.trans he.symm),
            if_neg (not_lt.mpr <| hle e (.head _) ⟨hr, hlt⟩)]
    rw [List.foldlM_cons, hturn]
    exact ih (fun e he => hc e <| .tail _ he) fun e he => hle e <| .tail _ he

end Later

end Context

end TraceRules
