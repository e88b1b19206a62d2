import Traceline.Schedules.Sweep

-- Time zones as tables of offsets, and the daily slots in them.
namespace Schedules

-- The microseconds of a day.
def DAY : Int :=
  86400000000

-- The offset from UTC that a zone has at an instant, by its offset before the first transition and
-- its transitions, each with the offset from it on.
def offset_at : Int → List (Int × Int) → Int → Int
  | before, [],                 _ => before
  | before, (t, after) :: rest, u => if u < t then before else offset_at after rest u

-- `utcoffset()` of a local time with `fold=0`. It is past a transition when it is on both clocks.
def utcoffset : Int → List (Int × Int) → Int → Int
  | before, [],                 _ => before
  | before, (t, after) :: rest, x =>
    if x < t + before ∨ x < t + after then before else utcoffset after rest x

-- The length of the gap that a local time falls into, which is zero for one that the clocks show.
def gap_at : Int → List (Int × Int) → Int → Int
  | _,      [],                 _ => 0
  | before, (t, after) :: rest, x =>
    if x < t + before then 0 else if x < t + after then after - before else gap_at after rest x

-- From one transition to the next passes as much time as the two shift the clock by.
def Spaced : Int → List (Int × Int) → Prop
  | before, (t, after) :: (t', after') :: rest =>
    t + (after - before).natAbs + (after' - after).natAbs ≤ t' ∧ Spaced after ((t', after') :: rest)
  | _,      _                                  => True

structure Zone where
  before      : Int
  transitions : List (Int × Int)
  spaced      : Spaced before transitions

namespace Zone

variable (z : Zone)

-- `local.astimezone(utc)`
def instant (x : Int) : Int :=
  x - utcoffset z.before z.transitions x

-- What the clocks of the zone show at an instant.
def wall (u : Int) : Int :=
  u + offset_at z.before z.transitions u

def date (u : Int) : Int :=
  z.wall u / DAY

def gap (x : Int) : Int :=
  gap_at z.before z.transitions x

end Zone

def combine (day : Int) (local_time : Int) : Int :=
  day * DAY + local_time

-- The calendar of these zones.
def calendar_of (zones : String → Option Zone) (time : String → Fin 86400000000)
    (isoformat : String → ℕ → String → String) (strftime : ℕ → String) : Calendar where
  max := 3652059
  known timezone := (zones timezone).isSome
  isoformat
  roundtrips timezone current local_time :=
    (zones timezone).any fun zone =>
      let naive := combine current (time local_time).val
      zone.wall (zone.instant naive) = naive
  strftime

section Table

variable {before t after u v x x' : Int} {transitions rest : List (Int × Int)}

theorem Spaced.tail (h : Spaced before ((t, after) :: rest)) : Spaced after rest := by
  cases rest with
  | nil      => trivial
  | cons _ _ => exact h.right

theorem Spaced.next {t' after' : Int}
    (h : Spaced before ((t, after) :: (t', after') :: rest)) :
    t + (after - before).natAbs + (after' - after).natAbs ≤ t' :=
  h.left

-- What is past a transition on the clock is past it.
theorem Spaced.le_instant (h : Spaced before ((t, after) :: rest)) (hx : t + after ≤ x) :
    t ≤ x - utcoffset after rest x := by
  induction rest generalizing before t after with
  | nil             => rw [utcoffset]; omega
  | cons next rest ih =>
    obtain ⟨t', after'⟩ := next
    have hnext := h.next
    rw [utcoffset]
    split
    case isTrue  => omega
    case isFalse =>
      have := ih h.tail (by omega)
      omega

theorem Spaced.lt_instant (h : Spaced before ((t, after) :: rest))
    (hv : ∀ next ∈ rest.head?, v < next.1) (hx : v + after < x) :
    v < x - utcoffset after rest x := by
  cases rest with
  | nil            => rw [utcoffset]; omega
  | cons next rest =>
    obtain ⟨t', after'⟩ := next
    have hlt : v < t' := hv _ rfl
    rw [utcoffset]
    split
    case isTrue  => omega
    case isFalse =>
      have := h.tail.le_instant (x := x) (by omega)
      omega

theorem Spaced.le_wall (h : Spaced before ((t, after) :: rest)) (hu : t ≤ u) :
    t + after ≤ u + offset_at after rest u := by
  induction rest generalizing before t after with
  | nil             => rw [offset_at]; omega
  | cons next rest ih =>
    obtain ⟨t', after'⟩ := next
    have hnext := h.next
    rw [offset_at]
    split
    case isTrue  => omega
    case isFalse =>
      have := ih h.tail (by omega)
      omega

-- A local time comes before a transition, in the gap it leaves, or behind it.
theorem Spaced.instant_cases (h : Spaced before ((t, after) :: rest)) (x : Int) :
    (x - before < t ∧ utcoffset before ((t, after) :: rest) x = before ∧
      offset_at before ((t, after) :: rest) (x - before) = before) ∨
    (t ≤ x - before ∧ x < t + after ∧ utcoffset before ((t, after) :: rest) x = before ∧
      offset_at before ((t, after) :: rest) (x - before) = after ∧
      ∀ next ∈ rest.head?, x - before < next.1) ∨
    (t + before ≤ x ∧ t + after ≤ x ∧ t ≤ x - utcoffset after rest x ∧
      utcoffset before ((t, after) :: rest) x = utcoffset after rest x ∧
      offset_at before ((t, after) :: rest) (x - utcoffset after rest x) =
        offset_at after rest (x - utcoffset after rest x)) := by
  by_cases hx : x < t + before ∨ x < t + after
  case pos =>
    have hutc : utcoffset before ((t, after) :: rest) x = before := if_pos hx
    by_cases ht : x - before < t
    case pos => exact .inl ⟨ht, hutc, if_pos ht⟩
    case neg =>
      refine .inr <| .inl ⟨by omega, by omega, hutc, ?_⟩
      rw [offset_at, if_neg ht]
      cases rest with
      | nil            => exact ⟨rfl, fun next hn => by cases hn⟩
      | cons next rest =>
        obtain ⟨t', after'⟩ := next
        have hnext := h.next
        have hlt : x - before < t' := by omega
        refine ⟨if_pos hlt, fun next hn => ?_⟩
        obtain rfl := Option.some_inj.mp hn
        exact hlt
  case neg =>
    have hle := h.le_instant (x := x) (by omega)
    exact .inr <| .inr ⟨by omega, by omega, hle, if_neg hx, if_neg (by omega)⟩

-- A local time comes back from UTC behind the gap it falls into.
theorem Spaced.roundtrip_eq (h : Spaced before transitions) :
    x - utcoffset before transitions x +
      offset_at before transitions (x - utcoffset before transitions x) =
        x + gap_at before transitions x := by
  induction transitions generalizing before with
  | nil                  => rw [utcoffset, offset_at, gap_at]; omega
  | cons transition rest ih =>
    obtain ⟨t, after⟩ := transition
    obtain ⟨_, hutc, hoff⟩ | ⟨_, _, hutc, hoff, _⟩ | ⟨_, _, _, hutc, hoff⟩ := h.instant_cases x <;>
      rw [hutc, hoff, gap_at]
    · rw [if_pos (by omega)]
      omega
    · rw [if_neg (by omega), if_pos (by omega)]
      omega
    · rw [if_neg (by omega), if_neg (by omega)]
      exact ih h.tail

theorem Spaced.gap_nonneg (h : Spaced before transitions) : 0 ≤ gap_at before transitions x := by
  induction transitions generalizing before with
  | nil                  => rfl
  | cons transition rest ih =>
    obtain ⟨t, after⟩ := transition
    rw [gap_at]
    split
    · rfl
    split
    · omega
    · exact ih h.tail

-- A local time after what the clocks show at the instant of another is at a later instant.
theorem Spaced.instant_lt (h : Spaced before transitions)
    (hx : x - utcoffset before transitions x +
      offset_at before transitions (x - utcoffset before transitions x) < x') :
    x - utcoffset before transitions x < x' - utcoffset before transitions x' := by
  induction transitions generalizing before with
  | nil                  => rw [utcoffset, utcoffset]; rw [utcoffset, offset_at] at hx; omega
  | cons transition rest ih =>
    obtain ⟨t, after⟩ := transition
    have hle := h.roundtrip_eq (x := x)
    have hgap := h.gap_nonneg (x := x)
    have hx' := h.instant_cases x'
    obtain ⟨_, hutc, hoff⟩ | ⟨_, _, hutc, hoff, hnext⟩ | ⟨_, _, _, hutc, hoff⟩ := h.instant_cases x
    case inl          =>
      rw [hutc, hoff] at hx
      rw [hutc]
      obtain ⟨_, hutc', _⟩ | ⟨_, _, hutc', _⟩ | ⟨_, _, _, hutc', _⟩ := hx' <;> rw [hutc'] <;> omega
    case inr.inl      =>
      rw [hutc, hoff] at hx
      rw [hutc]
      have hlt := h.lt_instant hnext hx
      obtain ⟨_, hutc', _⟩ | ⟨_, _, hutc', _⟩ | ⟨_, _, _, hutc', _⟩ := hx' <;> rw [hutc'] <;> omega
    case inr.inr      =>
      rw [hutc, hoff] at hx
      rw [hutc]
      have hlt := ih h.tail hx
      rw [hutc, hoff] at hle
      obtain ⟨_, hutc', _⟩ | ⟨_, _, hutc', _⟩ | ⟨_, _, _, hutc', _⟩ := hx' <;> rw [hutc'] <;> omega

-- A local time that the clocks show falls into no gap.
theorem Spaced.gap_eq_zero (h : Spaced before transitions)
    (hu : u + offset_at before transitions u = x) : gap_at before transitions x = 0 := by
  induction transitions generalizing before with
  | nil                  => rfl
  | cons transition rest ih =>
    obtain ⟨t, after⟩ := transition
    rw [offset_at] at hu
    rw [gap_at]
    split
    · rfl
    split at hu
    case isTrue  => omega
    case isFalse =>
      have hle := h.le_wall (u := u) (by omega)
      rw [if_neg (by omega)]
      exact ih h.tail hu

end Table

namespace Zone

variable {z : Zone} {x x' : Int}

theorem wall_instant : z.wall (z.instant x) = x + z.gap x :=
  z.spaced.roundtrip_eq

theorem gap_nonneg : 0 ≤ z.gap x :=
  z.spaced.gap_nonneg

theorem instant_lt (h : z.wall (z.instant x) < x') : z.instant x < z.instant x' :=
  z.spaced.instant_lt h

-- The check of `due_daily_slots`: the local time exists.
theorem wall_instant_iff : z.wall (z.instant x) = x ↔ ∃ u, z.wall u = x where
  mp h  := ⟨_, h⟩
  mpr h := by
    have hgap : z.gap x = 0 := z.spaced.gap_eq_zero h.choose_spec
    rw [wall_instant, hgap, add_zero]

end Zone

section Slots

-- A day of the range that the zone has, unless its local time is to be skipped.
structure Due (zone : Zone) (local_time : Int) (policy : DstPolicy) (start stop : ℕ) (d : Int) :
    Prop where
  within : start ≤ d ∧ d ≤ stop
  day    : ∃ u, zone.date u = d
  time   : policy = .skip → ∃ u, zone.wall u = combine d local_time

-- One slot for each day that is due, on that day, and in order.
structure OnePerDay (zone : Zone) (local_time : Int) (policy : DstPolicy) (start stop : ℕ)
    (slots : List Int) : Prop where
  increasing : (slots.map zone.instant).Pairwise (· < ·)
  one        : ∀ d, Due zone local_time policy start stop d →
    (slots.filter fun s => zone.date (zone.instant s) = d).length = 1
  only       : ∀ s ∈ slots, Due zone local_time policy start stop (zone.date (zone.instant s))

variable {cal : Calendar} {local_time timezone : String} {policy : DstPolicy}

theorem due_from_eq {current n : ℕ} {days : List ℕ}
    (h : due_from cal local_time timezone policy current n = .ok days) :
    days = (List.range' current n).filter fun d =>
      cal.roundtrips timezone d local_time || policy = .first := by
  induction n generalizing current days with
  | zero      => exact (Except.ok.inj h).symm
  | succ n ih =>
    unfold due_from at h
    split at h
    case isTrue  => cases h
    case isFalse =>
      cases hrest : due_from cal local_time timezone policy (current + 1) n with
      | error e  =>
        rw [hrest] at h
        cases h
      | ok rest =>
        rw [hrest] at h
        change (if _ then pure rest else pure (current :: rest)) = Except.ok days at h
        rw [List.range'_succ, List.filter_cons, ← ih hrest]
        split at h
        case isTrue hskip  =>
          obtain rfl := Except.ok.inj h
          obtain ⟨hround, rfl⟩ : cal.roundtrips timezone current local_time = false ∧
            policy = .skip := by simpa using hskip
          simp [hround]
        case isFalse hkeep =>
          obtain rfl := Except.ok.inj h
          have hkept : (cal.roundtrips timezone current local_time || policy = .first) = true := by
            cases policy with
            | first => simp
            | skip  => simpa using hkeep
          rw [if_pos hkept]

variable {zone : Zone} {time : Int} {start stop : ℕ} {days : List ℕ}

-- The days whose slots are kept.
structure Kept (zone : Zone) (time : Int) (policy : DstPolicy) (start stop : ℕ) (days : List ℕ) :
    Prop where
  bounds : 0 ≤ time ∧ time < DAY
  sorted : days.Pairwise (· < ·)
  mem    : ∀ d, d ∈ days ↔ (start ≤ d ∧ d ≤ stop) ∧
    (policy = .skip → ∃ u, zone.wall u = combine d time)

-- Each slot is on its own day.
def OnDay (zone : Zone) (time : Int) (days : List ℕ) : Prop :=
  ∀ d ∈ days, zone.date (zone.instant (combine d time)) = d

-- A slot is on its day or on a later one, as the gap has it.
theorem date_eq_iff (h : 0 ≤ time ∧ time < DAY) (d : Int) :
    zone.date (zone.instant (combine d time)) = d ↔ time + zone.gap (combine d time) < DAY := by
  have hgap := zone.gap_nonneg (x := combine d time)
  rw [Zone.date, zone.wall_instant]
  generalize zone.gap (combine d time) = gap at *
  unfold combine DAY at *
  omega

theorem le_date (h : 0 ≤ time ∧ time < DAY) (d : Int) :
    d ≤ zone.date (zone.instant (combine d time)) := by
  have hgap := zone.gap_nonneg (x := combine d time)
  rw [Zone.date, zone.wall_instant]
  generalize zone.gap (combine d time) = gap at *
  unfold combine DAY at *
  omega

theorem Kept.one_per_day (h : Kept zone time policy start stop days)
    (hday : OnDay zone time days) :
    OnePerDay zone time policy start stop (days.map fun d : ℕ => combine d time) where
  increasing := by
    rw [List.map_map, List.pairwise_map]
    refine h.sorted.imp_of_mem fun {d d'} hd _ hlt => zone.instant_lt ?_
    have hdate := hday d hd
    have := h.bounds
    dsimp only
    unfold Zone.date combine DAY at *
    omega
  one d hdue := by
    obtain ⟨⟨hstart, hstop⟩, _, htime⟩ := hdue
    obtain ⟨d, rfl⟩ := Int.eq_ofNat_of_zero_le (by omega : 0 ≤ d)
    have hmem : d ∈ days := (h.mem d).mpr ⟨by omega, htime⟩
    have hfilter : (days.filter fun d' : ℕ =>
        zone.date (zone.instant (combine d' time)) = (d : Int)) = days.filter (· == d) := by
      refine List.filter_congr fun d' hd' => ?_
      rw [hday d' hd', beq_eq_decide]
      exact decide_eq_decide.mpr Int.ofNat_inj
    rw [List.filter_map, List.length_map]
    change (days.filter fun d' : ℕ =>
      zone.date (zone.instant (combine d' time)) = (d : Int)).length = 1
    have hnodup : days.Nodup := h.sorted.imp fun hlt => hlt.ne
    rw [hfilter, ← List.countP_eq_length_filter]
    exact List.count_eq_one_of_mem hnodup hmem
  only s hs := by
    obtain ⟨d, hd, rfl⟩ := List.mem_map.mp hs
    rw [hday d hd]
    obtain ⟨⟨hstart, hstop⟩, htime⟩ := (h.mem d).mp hd
    exact ⟨by omega, ⟨_, hday d hd⟩, htime⟩

theorem Kept.on_day_of_skip (h : Kept zone time .skip start stop days) : OnDay zone time days := by
  intro d hd
  have hbounds := h.bounds
  have hsame := zone.wall_instant_iff.mpr <| ((h.mem d).mp hd).right rfl
  rw [zone.wall_instant] at hsame
  exact (date_eq_iff hbounds d).mpr (by omega)

-- Slots that fill a range one by one, none before its day, are each on their day.
theorem Kept.on_day_of_one_per_day (h : Kept zone time .first start stop days)
    (hone : OnePerDay zone time .first start stop (days.map fun d : ℕ => combine d time)) :
    OnDay zone time days := by
  intro d hd
  induction hk : stop - d using Nat.strong_induction_on generalizing d with
  | _ k ih =>
    by_contra hne
    have hmem := List.mem_map_of_mem (f := fun d : ℕ => combine d time) hd
    have hdue := hone.only _ hmem
    obtain ⟨hstart, hstop⟩ := hdue.within
    have hle : (d : Int) ≤ zone.date (zone.instant (combine d time)) := le_date h.bounds d
    obtain ⟨e, he⟩ :=
      Int.eq_ofNat_of_zero_le (by omega : 0 ≤ zone.date (zone.instant (combine d time)))
    have hin : e ∈ days := (h.mem e).mpr ⟨by omega, fun hp => by cases hp⟩
    have hdate := ih (stop - e) (by omega) e hin rfl
    have hcount := hone.one _ hdue
    obtain ⟨s, hs⟩ := List.length_eq_one_iff.mp hcount
    have hd' := hs ▸ List.mem_filter.mpr ⟨hmem, decide_eq_true rfl⟩
    have he' := hs ▸ List.mem_filter.mpr
      ⟨List.mem_map_of_mem (f := fun d : ℕ => combine d time) hin,
        decide_eq_true (hdate.trans he.symm)⟩
    have hsame := (List.mem_singleton.mp hd').trans (List.mem_singleton.mp he').symm
    unfold combine DAY at hsame
    omega

variable {zones : String → Option Zone} {clock : String → Fin 86400000000}
variable {isoformat : String → ℕ → String → String} {strftime : ℕ → String}

theorem kept_of_due_daily_slots (hzone : zones timezone = some zone)
    (h : due_daily_slots (calendar_of zones clock isoformat strftime) local_time timezone policy
      start stop = .ok days) : Kept zone (clock local_time).val policy start stop days := by
  have hbounds : (0 : Int) ≤ (clock local_time).val ∧ ((clock local_time).val : Int) < DAY := by
    have := (clock local_time).isLt
    unfold DAY
    omega
  unfold due_daily_slots at h
  split at h
  case isTrue hlt  =>
    obtain rfl := Except.ok.inj h
    exact ⟨hbounds, .nil, fun d => ⟨fun hd => absurd hd List.not_mem_nil, fun hd => by omega⟩⟩
  case isFalse hle =>
    split at h
    case isFalse => cases h
    case isTrue  =>
      rw [due_from_eq h]
      refine ⟨hbounds, (List.pairwise_lt_range' 1).sublist List.filter_sublist, fun d => ?_⟩
      have hround :
          (calendar_of zones clock isoformat strftime).roundtrips timezone d local_time = true ↔
            ∃ u, zone.wall u = combine d (clock local_time).val := by
        rw [← zone.wall_instant_iff]
        simp [calendar_of, hzone]
      rw [List.mem_filter, List.mem_range'_1, Bool.or_eq_true, hround, decide_eq_true_iff]
      cases policy <;> simp <;> omega

-- The slots are as they should be unless the schedule keeps a time whose gap reaches past midnight.
theorem daily_slots_iff (hzone : zones timezone = some zone)
    (h : due_daily_slots (calendar_of zones clock isoformat strftime) local_time timezone policy
      start stop = .ok days) :
    OnePerDay zone (clock local_time).val policy start stop
        (days.map fun d : ℕ => combine d (clock local_time).val) ↔
      (policy = .first → ∀ d : ℕ, start ≤ d → d ≤ stop →
        (clock local_time).val + zone.gap (combine d (clock local_time).val) < DAY) := by
  have hkept := kept_of_due_daily_slots hzone h
  cases policy with
  | skip  => exact iff_of_true (hkept.one_per_day hkept.on_day_of_skip) fun hp => by cases hp
  | first =>
    constructor
    case mp  =>
      intro hone _ d hstart hstop
      have hd : d ∈ days := (hkept.mem d).mpr ⟨⟨hstart, hstop⟩, fun hp => by cases hp⟩
      exact (date_eq_iff hkept.bounds d).mp <| hkept.on_day_of_one_per_day hone d hd
    case mpr =>
      intro hgap
      refine hkept.one_per_day fun d hd => ?_
      obtain ⟨⟨hstart, hstop⟩, -⟩ := (hkept.mem d).mp hd
      exact (date_eq_iff hkept.bounds d).mpr <| hgap rfl d hstart hstop

end Slots

namespace DailySample

def hour : Int :=
  3600000000

-- The clocks go from two to three in the night of day 10.
def spring : Zone where
  before      := -5 * hour
  transitions := [(10 * DAY + 7 * hour, -4 * hour)]
  spaced      := trivial

-- Day 10 is left out: the clocks go from the end of day 9 to the start of day 11.
def date_line : Zone where
  before      := -10 * hour
  transitions := [(10 * DAY + 10 * hour, 14 * hour)]
  spaced      := trivial

def zones (timezone : String) : Option Zone :=
  if timezone = "spring" then some spring
  else if timezone = "date_line" then some date_line
  else none

-- Half past two.
def clock (_ : String) : Fin 86400000000 :=
  9000000000

def slots_of (timezone : String) : Except Error (List ℕ) :=
  due_daily_slots (calendar_of zones clock (fun _ _ _ => "") fun _ => "") "02:30" timezone .first
    9 11

-- The slot of day 10 is at half past three.
theorem daily_slots_spring : ∃ days, slots_of "spring" = .ok days ∧
    OnePerDay spring (clock "02:30").val .first 9 11
      (days.map fun d : ℕ => combine d (clock "02:30").val) := by
  have hdays : slots_of "spring" = .ok [9, 10, 11] := by rfl
  refine ⟨_, hdays, (daily_slots_iff rfl hdays).mpr fun _ d hstart hstop => ?_⟩
  obtain rfl | rfl | rfl : d = 9 ∨ d = 10 ∨ d = 11 := by omega
  all_goals decide

-- The slots of day 10 and day 11 are at the same moment.
theorem not_one_per_day : ¬∀ (zones : String → Option Zone) clock isoformat strftime local_time
    timezone policy start stop zone days, zones timezone = some zone →
    due_daily_slots (calendar_of zones clock isoformat strftime) local_time timezone policy start
      stop = .ok days →
    OnePerDay zone (clock local_time).val policy start stop
      (days.map fun d : ℕ => combine d (clock local_time).val) := by
  intro hall
  have hone := hall zones clock _ _ _ "date_line" .first 9 11 date_line [9, 10, 11] rfl
    (by rfl : slots_of "date_line" = _)
  exact absurd hone.increasing (by decide)

end DailySample

end Schedules
