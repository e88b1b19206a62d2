import Mathlib.Data.Int.ConditionallyCompleteOrder
import Mathlib.Order.SuccPred.IntervalSucc
import Mathlib.Order.Monotone.Basic
import Traceline.Events
import Traceline.Library.Digits

-- How the texts of timestamps compare.
namespace Events.Timestamp

open Digits

section Civil

variable {days days' doe c q s t y y' e : Int}

-- A day of an era is one of a century, of a leap cycle in it and of a year of the cycle.
theorem exists_year (h : 0 ≤ doe ∧ doe < 146097) :
    ∃ c q s t : Int, (0 ≤ c ∧ c ≤ 3) ∧ (0 ≤ q ∧ q ≤ 24) ∧ (0 ≤ s ∧ s ≤ 3) ∧ 0 ≤ t ∧
      (t ≤ 364 ∨ t = 365 ∧ s = 3 ∧ (q < 24 ∨ c = 3)) ∧
      doe = 36524 * c + 1461 * q + 365 * s + t := by
  by_cases hlast : doe = 146096
  case pos => exact ⟨3, 24, 3, 365, by omega⟩
  case neg =>
    generalize hc : doe / 36524 = c
    generalize hr : doe - 36524 * c = r
    generalize hq : r / 1461 = q
    generalize hr' : r - 1461 * q = r'
    have hrange : 0 ≤ r ∧ r < 36524 := by omega
    by_cases hleap : r' = 1460
    case pos => exact ⟨c, q, 3, 365, by omega⟩
    case neg => exact ⟨c, q, r' / 365, r' - 365 * (r' / 365), by omega⟩

theorem year_of_era_eq (hc : 0 ≤ c ∧ c ≤ 3) (hq : 0 ≤ q ∧ q ≤ 24) (hs : 0 ≤ s ∧ s ≤ 3)
    (ht : 0 ≤ t) (hleap : t ≤ 364 ∨ t = 365 ∧ s = 3 ∧ (q < 24 ∨ c = 3))
    (h : doe = 36524 * c + 1461 * q + 365 * s + t) :
    (doe - doe / 1460 + doe / 36524 - doe / 146096) / 365 = 100 * c + 4 * q + s := by
  by_cases hlast : doe = 146096
  case pos => omega
  case neg =>
    have hcentury : doe / 36524 = c := by omega
    have hera : doe / 146096 = 0 := by omega
    rw [hcentury, hera]
    by_cases hearly : 24 * c + q + 365 * s + t < 1460
    case pos =>
      have hcycle : doe / 1460 = 25 * c + q := by omega
      omega
    case neg =>
      have hcycle : doe / 1460 = 25 * c + q + 1 := by omega
      omega

-- The first day of a year that starts in March.
def new_year (y : Int) : Int :=
  365 * y + y / 4 - y / 100 + y / 400

theorem new_year_strictMono : StrictMono new_year :=
  strictMono_int_of_lt_succ fun y => by unfold new_year; omega

theorem new_year_eq (hc : 0 ≤ c ∧ c ≤ 3) (hq : 0 ≤ q ∧ q ≤ 24) (hs : 0 ≤ s ∧ s ≤ 3) :
    new_year (100 * c + 4 * q + s + e * 400) = 146097 * e + 36524 * c + 1461 * q + 365 * s := by
  have h4 : (100 * c + 4 * q + s + e * 400) / 4 = 25 * c + q + 100 * e := by omega
  have h100 : (100 * c + 4 * q + s + e * 400) / 100 = c + 4 * e := by omega
  have h400 : (100 * c + 4 * q + s + e * 400) / 400 = e := by omega
  rw [new_year, h4, h100, h400]
  omega

-- A year is over after its last day.
theorem lt_new_year (hc : 0 ≤ c ∧ c ≤ 3) (hq : 0 ≤ q ∧ q ≤ 24) (hs : 0 ≤ s ∧ s ≤ 3)
    (hleap : t ≤ 364 ∨ t = 365 ∧ s = 3 ∧ (q < 24 ∨ c = 3)) :
    146097 * e + 36524 * c + 1461 * q + 365 * s + t <
      new_year (100 * c + 4 * q + s + e * 400 + 1) := by
  by_cases hs' : s < 3
  case pos =>
    rw [show 100 * c + 4 * q + s + e * 400 + 1 = 100 * c + 4 * q + (s + 1) + e * 400 by omega,
      new_year_eq hc hq (by omega)]
    omega
  case neg =>
    by_cases hq' : q < 24
    case pos =>
      rw [show 100 * c + 4 * q + s + e * 400 + 1 = 100 * c + 4 * (q + 1) + 0 + e * 400 by omega,
        new_year_eq hc (by omega) (by omega)]
      omega
    case neg =>
      by_cases hc' : c < 3
      case pos =>
        rw [show 100 * c + 4 * q + s + e * 400 + 1 = 100 * (c + 1) + 4 * 0 + 0 + e * 400 by omega,
          new_year_eq (by omega) (by omega) (by omega)]
        omega
      case neg =>
        rw [show 100 * c + 4 * q + s + e * 400 + 1 = 100 * 0 + 4 * 0 + 0 + (e + 1) * 400 by omega,
          new_year_eq (by omega) (by omega) (by omega)]
        omega

-- Year, month and day of a day of such a year.
def date (y t : Int) : Int × Int × Int :=
  let mp := (5 * t + 2) / 153
  let month := if mp < 10 then mp + 3 else mp - 9
  (y + (if month ≤ 2 then 1 else 0), month, t - (153 * mp + 2) / 5 + 1)

theorem exists_date (days : Int) :
    ∃ y t, days + 719468 = new_year y + t ∧ 0 ≤ t ∧ t ≤ 365 ∧ new_year y + t < new_year (y + 1) ∧
      civil days = date y t := by
  generalize hz : days + 719468 = z
  generalize he : z / 146097 = e
  obtain ⟨c, q, s, t, hc, hq, hs, ht, hleap, h⟩ :=
    @exists_year (z - e * 146097) (by omega)
  have hyear := year_of_era_eq hc hq hs ht hleap h
  have hstart := new_year_eq (e := e) hc hq hs
  have hday : z - e * 146097 - (365 * (100 * c + 4 * q + s) + (100 * c + 4 * q + s) / 4 -
      (100 * c + 4 * q + s) / 100) = t := by
    have h4 : (100 * c + 4 * q + s) / 4 = 25 * c + q := by omega
    have h100 : (100 * c + 4 * q + s) / 100 = c := by omega
    rw [h4, h100]
    omega
  refine ⟨100 * c + 4 * q + s + e * 400, t, by omega, ht, by omega, ?_, ?_⟩
  · have := lt_new_year (e := e) hc hq hs hleap
    omega
  · simp only [civil, hz, he, hyear, hday, date]

theorem date_bounds (h : 0 ≤ t ∧ t ≤ 365) :
    1 ≤ (date y t).2.1 ∧ (date y t).2.1 ≤ 12 ∧ 1 ≤ (date y t).2.2 ∧ (date y t).2.2 ≤ 31 := by
  unfold date
  dsimp only
  split <;> omega

theorem date_months (y t : Int) (h : 0 ≤ t ∧ t ≤ 365) :
    12 * (date y t).1 + (date y t).2.1 = 12 * y + (5 * t + 2) / 153 + 3 := by
  unfold date
  dsimp only
  split <;> split <;> omega

theorem civil_bounds (days : Int) :
    1 ≤ (civil days).2.1 ∧ (civil days).2.1 ≤ 12 ∧ 1 ≤ (civil days).2.2 ∧ (civil days).2.2 ≤ 31 := by
  obtain ⟨y, t, _, h0, h365, _, h⟩ := exists_date days
  rw [h]
  exact date_bounds ⟨h0, h365⟩

-- A later day has a later date.
theorem civil_lt (h : days < days') :
    (civil days).1 < (civil days').1 ∨ (civil days).1 = (civil days').1 ∧
      ((civil days).2.1 < (civil days').2.1 ∨ (civil days).2.1 = (civil days').2.1 ∧
        (civil days).2.2 < (civil days').2.2) := by
  obtain ⟨y, t, hd, ht, ht', hend, hcivil⟩ := exists_date days
  obtain ⟨y', u, hd', hu, hu', hend', hcivil'⟩ := exists_date days'
  rw [hcivil, hcivil']
  have hmonths := date_months y t ⟨ht, ht'⟩
  have hmonths' := date_months y' u ⟨hu, hu'⟩
  have hbounds := date_bounds (y := y) ⟨ht, ht'⟩
  have hbounds' := date_bounds (y := y') ⟨hu, hu'⟩
  have hle : y ≤ y' := by
    by_contra hlt
    have := new_year_strictMono.monotone (show y' + 1 ≤ y by omega)
    omega
  by_cases hy : y = y'
  case neg => omega
  case pos =>
    subst hy
    have hlt : t < u := by omega
    have hday : (date y t).2.2 = t - (153 * ((5 * t + 2) / 153) + 2) / 5 + 1 := rfl
    have hday' : (date y u).2.2 = u - (153 * ((5 * u + 2) / 153) + 2) / 5 + 1 := rfl
    omega

end Civil

-- `datetime.min` and `datetime.max`, in microseconds of the clock face since 1970.
def WALL_MIN : Int :=
  -719162 * 86400000000

def WALL_MAX : Int :=
  2932897 * 86400000000 - 1

-- The clock face is one that a `datetime` can show.
def InRange (t : Timestamp) : Prop :=
  WALL_MIN ≤ t.wall ∧ t.wall ≤ WALL_MAX

instance (t : Timestamp) : Decidable t.InRange :=
  inferInstanceAs <| Decidable (_ ∧ _)

variable {t t' : Timestamp} {n n' : Int} {width : ℕ} {x y : List Char}

def days (t : Timestamp) : Int :=
  t.wall / 86400000000

-- Seconds and microseconds of the day.
def clock (t : Timestamp) : Int :=
  t.wall % 86400000000 / 1000000

def micros (t : Timestamp) : Int :=
  t.wall % 86400000000 % 1000000

theorem civil_year (h : t.InRange) : 1 ≤ (civil t.days).1 ∧ (civil t.days).1 ≤ 9999 := by
  have hdays : -719162 ≤ t.days ∧ t.days ≤ 2932896 := by
    unfold InRange WALL_MIN WALL_MAX at h
    unfold days
    omega
  have hmin : civil (-719162) = (1, 1, 1) := by decide
  have hmax : civil 2932896 = (9999, 12, 31) := by decide
  constructor
  · rcases eq_or_lt_of_le hdays.left with h | h
    · rw [← h, hmin]
    · have := civil_lt h
      rw [hmin] at this
      dsimp only at this
      omega
  · rcases eq_or_lt_of_le hdays.right with h | h
    · rw [h, hmax]
    · have := civil_lt h
      rw [hmax] at this
      dsimp only at this
      omega

theorem pad_toList (h : n.natAbs < 10 ^ (width + 1)) :
    (pad (width + 1) n).toList = fixed (width + 1) n.natAbs := by
  have hdigits : (toString n.natAbs).toList = Nat.toDigits 10 n.natAbs := Nat.toList_repr
  have hlength : (toString n.natAbs).length = (Nat.toDigits 10 n.natAbs).length := by
    rw [← String.length_toList, hdigits]
  simp only [pad, String.toList_append, String.toList_ofList]
  rw [hdigits, hlength, replicate_toDigits h]

-- The text of an offset.
def zone : Option Int → List Char
  | none   => []
  | some x => String.toList <|
    (if x < 0 then "-" else "+") ++ pad 2 (x.natAbs / 3600) ++ ":" ++ pad 2 (x.natAbs / 60 % 60) ++
      (if x % 60 = 0 then "" else ":" ++ pad 2 (x.natAbs % 60))

-- What follows the seconds.
def tail (t : Timestamp) : List Char :=
  (if t.micros = 0 then [] else '.' :: fixed 6 t.micros.natAbs) ++ zone t.offset

-- The text up to the seconds.
def face (t : Timestamp) (rest : List Char) : List Char :=
  fixed 4 (civil t.days).1.natAbs ++ '-' :: (fixed 2 (civil t.days).2.1.natAbs ++
    '-' :: (fixed 2 (civil t.days).2.2.natAbs ++ 'T' :: (fixed 2 (t.clock / 3600).natAbs ++
      ':' :: (fixed 2 (t.clock / 60 % 60).natAbs ++ ':' :: (fixed 2 (t.clock % 60).natAbs ++ rest)))))

theorem isoformat_toList (h : t.InRange) : t.isoformat.toList = t.face t.tail := by
  have hyear := civil_year h
  have hdate := civil_bounds t.days
  have hclock : 0 ≤ t.clock ∧ t.clock < 86400 := by unfold clock; omega
  have hmicros : 0 ≤ t.micros ∧ t.micros < 1000000 := by unfold micros; omega
  have hfraction : (if t.micros = 0 then "" else "." ++ pad 6 t.micros).toList =
      if t.micros = 0 then [] else '.' :: fixed 6 t.micros.natAbs := by
    split
    · rfl
    · rw [String.toList_append, pad_toList (by omega)]
      rfl
  unfold face tail isoformat
  change String.toList (pad 4 (civil t.days).1 ++ "-" ++ pad 2 (civil t.days).2.1 ++ "-" ++
    pad 2 (civil t.days).2.2 ++ "T" ++ pad 2 (t.clock / 3600) ++ ":" ++ pad 2 (t.clock / 60 % 60) ++
    ":" ++ pad 2 (t.clock % 60) ++ (if t.micros = 0 then "" else "." ++ pad 6 t.micros) ++ _) = _
  simp only [String.toList_append, hfraction]
  rw [pad_toList (by omega), pad_toList (by omega), pad_toList (by omega), pad_toList (by omega),
    pad_toList (by omega), pad_toList (by omega)]
  cases t.offset with
  | none   => simp only [zone, List.append_assoc]; rfl
  | some x => simp only [zone, String.toList_append, List.append_assoc]; rfl

-- Texts that agree in a character are compared behind it.
theorem cons_lt_cons {c : Char} : c :: x < c :: y ↔ x < y := by
  rw [List.cons_lt_cons_iff]
  simp

-- A time of day is ordered as its hours, minutes and seconds are.
theorem clock_lt_iff {a b : Int} {p : Prop} (ha : 0 ≤ a) (hb : 0 ≤ b) :
    ((a / 3600).natAbs < (b / 3600).natAbs ∨ (a / 3600).natAbs = (b / 3600).natAbs ∧
      ((a / 60 % 60).natAbs < (b / 60 % 60).natAbs ∨
        (a / 60 % 60).natAbs = (b / 60 % 60).natAbs ∧
          ((a % 60).natAbs < (b % 60).natAbs ∨ (a % 60).natAbs = (b % 60).natAbs ∧ p))) ↔
    a < b ∨ a = b ∧ p := by
  have split (c : Int) : c = 3600 * (c / 3600) + 60 * (c / 60 % 60) + c % 60 := by omega
  have hsplit := split a
  have hsplit' := split b
  have hrange : 0 ≤ a / 3600 ∧ 0 ≤ a / 60 % 60 ∧ a / 60 % 60 < 60 ∧ 0 ≤ a % 60 ∧ a % 60 < 60 := by
    omega
  have hrange' : 0 ≤ b / 3600 ∧ 0 ≤ b / 60 % 60 ∧ b / 60 % 60 < 60 ∧ 0 ≤ b % 60 ∧ b % 60 < 60 := by
    omega
  generalize a / 3600 = h at *
  generalize a / 60 % 60 = m at *
  generalize a % 60 = s at *
  generalize b / 3600 = h' at *
  generalize b / 60 % 60 = m' at *
  generalize b % 60 = s' at *
  by_cases hp : p
  case pos => simp only [hp, and_true]; omega
  case neg => simp only [hp, and_false, or_false]; omega

-- The clock face decides, before what follows it.
theorem face_lt_iff (h : t.InRange) (h' : t'.InRange) :
    t.face x < t'.face y ↔ t.wall / 1000000 < t'.wall / 1000000 ∨
      t.wall / 1000000 = t'.wall / 1000000 ∧ x < y := by
  have hyear := civil_year h
  have hyear' := civil_year h'
  have hdate := civil_bounds t.days
  have hdate' := civil_bounds t'.days
  have hclock : 0 ≤ t.clock ∧ t.clock < 86400 := by unfold clock; omega
  have hclock' : 0 ≤ t'.clock ∧ t'.clock < 86400 := by unfold clock; omega
  have hwall : t.wall / 1000000 = 86400 * t.days + t.clock := by unfold days clock; omega
  have hwall' : t'.wall / 1000000 = 86400 * t'.days + t'.clock := by unfold days clock; omega
  unfold face
  rw [fixed_append_lt_iff (by omega) (by omega), cons_lt_cons, fixed_append_lt_iff (by omega) (by omega),
    cons_lt_cons, fixed_append_lt_iff (by omega) (by omega), cons_lt_cons,
    fixed_append_lt_iff (by omega) (by omega), cons_lt_cons,
    fixed_append_lt_iff (by omega) (by omega), cons_lt_cons,
    fixed_append_lt_iff (by omega) (by omega), clock_lt_iff hclock.left hclock'.left, hwall, hwall']
  rcases Int.lt_trichotomy t.days t'.days with hlt | heq | hgt
  · have := civil_lt hlt
    exact iff_of_true (by omega) (by omega)
  · rw [heq]
    simp only [Nat.lt_irrefl, false_or, true_and]
    by_cases hxy : x < y
    case pos => simp only [hxy, and_true]; omega
    case neg => simp only [hxy, and_false, or_false]; omega
  · have := civil_lt hgt
    exact iff_of_false (by omega) (by omega)

-- Neither the sign of an offset nor its absence comes behind the point of a fraction.
theorem zone_lt (o : Option Int) : zone o < '.' :: x := by
  cases o with
  | none   => exact List.nil_lt_cons ..
  | some o =>
    simp only [zone, String.toList_append]
    split
    · exact List.cons_lt_cons_iff.mpr <| .inl <| by decide
    · exact List.cons_lt_cons_iff.mpr <| .inl <| by decide

theorem tail_lt_iff :
    t.tail < t'.tail ↔ t.micros < t'.micros ∨ t.micros = t'.micros ∧ zone t.offset < zone t'.offset := by
  have hmicros : 0 ≤ t.micros ∧ t.micros < 1000000 := by unfold micros; omega
  have hmicros' : 0 ≤ t'.micros ∧ t'.micros < 1000000 := by unfold micros; omega
  unfold tail
  by_cases h : t.micros = 0 <;> by_cases h' : t'.micros = 0
  · rw [if_pos h, if_pos h', List.nil_append, List.nil_append, h, h']
    simp
  · rw [if_pos h, if_neg h', List.nil_append]
    exact iff_of_true (zone_lt _) (.inl (by omega))
  · rw [if_neg h, if_pos h', List.nil_append]
    exact iff_of_false (List.lt_asymm <| zone_lt _) (by omega)
  · rw [if_neg h, if_neg h', List.cons_append, List.cons_append, cons_lt_cons,
      fixed_append_lt_iff (by omega) (by omega)]
    by_cases hz : zone t.offset < zone t'.offset
    case pos => simp only [hz, and_true]; omega
    case neg => simp only [hz, and_false, or_false]; omega

-- Texts are ordered by what the clock face shows, and then by the text of the offset.
theorem isoformat_lt_iff (h : t.InRange) (h' : t'.InRange) :
    t.isoformat < t'.isoformat ↔
      t.wall < t'.wall ∨ t.wall = t'.wall ∧ zone t.offset < zone t'.offset := by
  rw [String.lt_iff, isoformat_toList h, isoformat_toList h', face_lt_iff h h', tail_lt_iff]
  have hwall : t.wall = 1000000 * (t.wall / 1000000) + t.micros := by unfold micros; omega
  have hwall' : t'.wall = 1000000 * (t'.wall / 1000000) + t'.micros := by unfold micros; omega
  have hmicros : 0 ≤ t.micros ∧ t.micros < 1000000 := by unfold micros; omega
  have hmicros' : 0 ≤ t'.micros ∧ t'.micros < 1000000 := by unfold micros; omega
  by_cases hz : zone t.offset < zone t'.offset
  case pos => simp only [hz, and_true]; omega
  case neg => simp only [hz, and_false, or_false]; omega

theorem isoformat_inj (h : t.InRange) (h' : t'.InRange) :
    t.isoformat = t'.isoformat ↔ t.wall = t'.wall ∧ zone t.offset = zone t'.offset := by
  constructor
  case mp  =>
    intro heq
    have hlt := (isoformat_lt_iff h h').not.mp <| by rw [heq]; exact List.lt_irrefl _
    have hgt := (isoformat_lt_iff h' h).not.mp <| by rw [heq]; exact List.lt_irrefl _
    have hwall : t.wall = t'.wall := by omega
    exact ⟨hwall, List.le_antisymm (List.not_lt.mp fun hz => hgt <| .inr ⟨hwall.symm, hz⟩)
      (List.not_lt.mp fun hz => hlt <| .inr ⟨hwall, hz⟩)⟩
  case mpr =>
    intro ⟨hwall, hzone⟩
    have hlt : ¬t.isoformat.toList < t'.isoformat.toList := by
      rw [← String.lt_iff, isoformat_lt_iff h h', hwall, hzone]
      simp
    have hgt : ¬t'.isoformat.toList < t.isoformat.toList := by
      rw [← String.lt_iff, isoformat_lt_iff h' h, hwall, hzone]
      simp
    exact String.toList_inj.mp <| List.le_antisymm (List.not_lt.mp hgt) (List.not_lt.mp hlt)

-- Two texts of one offset are ordered as their clock faces are.
theorem isoformat_lt_iff_wall (h : t.InRange) (h' : t'.InRange) (ho : t.offset = t'.offset) :
    t.isoformat < t'.isoformat ↔ t.wall < t'.wall := by
  rw [isoformat_lt_iff h h', ho]
  simp

section Offsets

variable {x y : Int}

-- The offset is one that a `tzinfo` may have.
def Valid (t : Timestamp) : Prop :=
  t.InRange ∧ ∀ x ∈ t.offset, -86400 < x ∧ x < 86400

instance (t : Timestamp) : Decidable t.Valid :=
  inferInstanceAs <| Decidable (_ ∧ _)

-- Hours, minutes and, where there are any, seconds of an offset.
def span (n : ℕ) : List Char :=
  fixed 2 (n / 3600) ++ ':' :: (fixed 2 (n / 60 % 60) ++
    if n % 60 = 0 then [] else ':' :: fixed 2 (n % 60))

theorem zone_some (hx : -86400 < x ∧ x < 86400) :
    zone (some x) = (if x < 0 then '-' else '+') :: span x.natAbs := by
  have hh : ((x.natAbs : Int) / 3600).natAbs = x.natAbs / 3600 := by omega
  have hm : ((x.natAbs : Int) / 60 % 60).natAbs = x.natAbs / 60 % 60 := by omega
  have hs : ((x.natAbs : Int) % 60).natAbs = x.natAbs % 60 := by omega
  have hsign : (if x < 0 then "-" else "+").toList = [if x < 0 then '-' else '+'] := by
    split <;> rfl
  have hseconds : (if x % 60 = 0 then "" else ":" ++ pad 2 ((x.natAbs : Int) % 60)).toList =
      if x.natAbs % 60 = 0 then [] else ':' :: fixed 2 (x.natAbs % 60) := by
    by_cases h : x % 60 = 0
    · rw [if_pos h, if_pos (by omega)]
      rfl
    · rw [if_neg h, if_neg (by omega), String.toList_append, pad_toList (by omega), hs]
      rfl
  simp only [zone, String.toList_append, hsign, hseconds]
  rw [pad_toList (by omega), pad_toList (by omega), hh, hm]
  simp only [span, List.append_assoc, List.cons_append, List.nil_append]
  rfl

theorem span_lt_iff {m n : ℕ} (hm : m < 86400) (hn : n < 86400) : span m < span n ↔ m < n := by
  have hsplit (k : ℕ) : k = 3600 * (k / 3600) + 60 * (k / 60 % 60) + k % 60 := by omega
  have hm' := hsplit m
  have hn' := hsplit n
  have hseconds : ((if m % 60 = 0 then [] else ':' :: fixed 2 (m % 60)) <
      if n % 60 = 0 then [] else ':' :: fixed 2 (n % 60)) ↔ m % 60 < n % 60 := by
    by_cases h : m % 60 = 0 <;> by_cases h' : n % 60 = 0
    · rw [if_pos h, if_pos h']
      exact iff_of_false (List.lt_irrefl _) (by omega)
    · rw [if_pos h, if_neg h']
      exact iff_of_true (List.nil_lt_cons ..) (by omega)
    · rw [if_neg h, if_pos h']
      exact iff_of_false (List.not_lt_nil _) (by omega)
    · rw [if_neg h, if_neg h', cons_lt_cons, fixed_lt_iff (by omega) (by omega)]
  rw [span, span, fixed_append_lt_iff (by omega) (by omega), cons_lt_cons,
    fixed_append_lt_iff (by omega) (by omega), hseconds]
  have : m / 60 % 60 < 60 ∧ m % 60 < 60 ∧ n / 60 % 60 < 60 ∧ n % 60 < 60 := by omega
  generalize m / 3600 = a at *
  generalize m / 60 % 60 = b at *
  generalize m % 60 = c at *
  generalize n / 3600 = a' at *
  generalize n / 60 % 60 = b' at *
  generalize n % 60 = c' at *
  omega

-- A plus comes before a minus, and a sign before the longer way.
theorem zone_lt_iff (hx : -86400 < x ∧ x < 86400) (hy : -86400 < y ∧ y < 86400) :
    zone (some x) < zone (some y) ↔
      0 ≤ x ∧ (y < 0 ∨ x < y) ∨ x < 0 ∧ y < x := by
  rw [zone_some hx, zone_some hy, List.cons_lt_cons_iff,
    span_lt_iff (by omega) (by omega)]
  have hplus : ('+' : Char) < '-' := by decide
  have hminus : ¬('-' : Char) < '+' := by decide
  by_cases h : x < 0 <;> by_cases h' : y < 0
  · simp [h, h']; omega
  · simp [h, h', hminus]; omega
  · simp [h, h', hplus]; omega
  · simp [h, h']; omega

theorem zone_inj (hx : -86400 < x ∧ x < 86400) (hy : -86400 < y ∧ y < 86400) :
    zone (some x) = zone (some y) ↔ x = y := by
  constructor
  case mp  =>
    intro h
    have hlt := (zone_lt_iff hx hy).not.mp <| by rw [h]; exact List.lt_irrefl _
    have hgt := (zone_lt_iff hy hx).not.mp <| by rw [h]; exact List.lt_irrefl _
    omega
  case mpr => exact fun h => by rw [h]

end Offsets

end Events.Timestamp
