import Mathlib.Algebra.BigOperators.Group.List.Basic
import Mathlib.Algebra.Order.BigOperators.Group.List
import Mathlib.Algebra.Order.Field.Basic
import Mathlib.Algebra.Order.Ring.Rat
import Mathlib.Data.List.Nodup
import Mathlib.Tactic.FieldSimp
import Mathlib.Tactic.Linarith
import Mathlib.Tactic.Ring

-- Cohen's statistic of two raters, for any notion of which labels are the same.
namespace Raters

variable {α : Type*} (same : α → α → Bool) (pairs : List (α × α))

-- The items to which the raters gave the same label.
def agreed : ℕ :=
  pairs.countP fun p => same p.1 p.2

-- What is left of the agreement where the labels of one rater are paired with all of the other.
def crossed : ℕ :=
  (pairs.map fun p => pairs.countP fun q => same p.1 q.2).sum

def observed : ℚ :=
  agreed same pairs / pairs.length

def expected : ℚ :=
  crossed same pairs / (pairs.length * pairs.length)

-- The agreement beyond what is expected. All of it is expected only where all labels are the same.
def kappa : ℚ :=
  if expected same pairs = 1 then 1
  else (observed same pairs - expected same pairs) / (1 - expected same pairs)

variable {same} {same' : α → α → Bool} {pairs} {pairs' : List (α × α)}

theorem agreed_le : agreed same pairs ≤ pairs.length :=
  List.countP_le_length

theorem agreed_eq_length_iff : agreed same pairs = pairs.length ↔ ∀ p ∈ pairs, same p.1 p.2 :=
  List.countP_eq_length

theorem crossed_le : crossed same pairs ≤ pairs.length * pairs.length := by
  have hle : ∀ k ∈ pairs.map fun p => pairs.countP fun q => same p.1 q.2, k ≤ pairs.length := by
    rw [List.forall_mem_map]
    exact fun _ _ => List.countP_le_length
  have hsum := List.sum_le_card_nsmul _ _ hle
  rwa [List.length_map] at hsum

theorem sum_eq_length_mul {l : List α} {f : α → ℕ} {n : ℕ} (hle : ∀ a ∈ l, f a ≤ n) :
    (l.map f).sum = l.length * n ↔ ∀ a ∈ l, f a = n := by
  induction l with
  | nil         => simp
  | cons a l ih =>
    have hl : ∀ b ∈ l, f b ≤ n := fun b hb => hle b (.tail _ hb)
    have ha := hle a (.head _)
    have hsum : (l.map f).sum ≤ l.length * n := by
      have := List.sum_le_card_nsmul (l.map f) n (List.forall_mem_map.mpr hl)
      rwa [List.length_map] at this
    rw [List.map_cons, List.sum_cons, List.length_cons, Nat.succ_mul, List.forall_mem_cons,
      ← ih hl]
    omega

theorem crossed_eq_length_iff : crossed same pairs = pairs.length * pairs.length ↔
    ∀ p ∈ pairs, ∀ q ∈ pairs, same p.1 q.2 := by
  rw [crossed, sum_eq_length_mul fun _ _ => List.countP_le_length]
  exact forall₂_congr fun _ _ => List.countP_eq_length

theorem observed_eq_one_iff (hne : pairs ≠ []) :
    observed same pairs = 1 ↔ ∀ p ∈ pairs, same p.1 p.2 := by
  have hlength : (pairs.length : ℚ) ≠ 0 :=
    Nat.cast_ne_zero.mpr <| List.length_pos_iff.mpr hne |>.ne'
  rw [observed, div_eq_one_iff_eq hlength, Nat.cast_inj, agreed_eq_length_iff]

theorem expected_eq_one_iff (hne : pairs ≠ []) :
    expected same pairs = 1 ↔ ∀ p ∈ pairs, ∀ q ∈ pairs, same p.1 q.2 := by
  have hlength : (pairs.length : ℚ) ≠ 0 :=
    Nat.cast_ne_zero.mpr <| List.length_pos_iff.mpr hne |>.ne'
  rw [expected, div_eq_one_iff_eq (mul_ne_zero hlength hlength), ← Nat.cast_mul, Nat.cast_inj,
    crossed_eq_length_iff]

theorem observed_le_one : observed same pairs ≤ 1 :=
  div_le_one_of_le₀ (Nat.cast_le.mpr agreed_le) (Nat.cast_nonneg _)

theorem expected_le_one : expected same pairs ≤ 1 := by
  refine div_le_one_of_le₀ ?_ (mul_self_nonneg _)
  rw [← Nat.cast_mul]
  exact Nat.cast_le.mpr crossed_le

theorem div_le_one_of_lt {o e : ℚ} (ho : o ≤ 1) (he : e < 1) : (o - e) / (1 - e) ≤ 1 := by
  rw [div_le_one (by linarith)]
  linarith

theorem kappa_le_one : kappa same pairs ≤ 1 := by
  rw [kappa]
  split
  case isTrue     => exact le_refl 1
  case isFalse he => exact div_le_one_of_lt observed_le_one <| lt_of_le_of_ne expected_le_one he

section Comparison

theorem countP_le_of_imp {l : List α} {p q : α → Bool} (h : ∀ a ∈ l, p a → q a) :
    l.countP p ≤ l.countP q :=
  List.countP_mono_left h

theorem countP_eq_iff {l : List α} {p q : α → Bool} (h : ∀ a ∈ l, p a → q a) :
    l.countP p = l.countP q ↔ ∀ a ∈ l, q a → p a := by
  induction l with
  | nil         => simp
  | cons a l ih =>
    have hl : ∀ b ∈ l, p b → q b := fun b hb => h b (.tail _ hb)
    have hle := countP_le_of_imp hl
    have ha := h a (.head _)
    rw [List.countP_cons, List.countP_cons, List.forall_mem_cons, ← ih hl]
    cases hp : p a <;> cases hq : q a <;> simp [hp, hq] at ha ⊢
    omega

theorem sum_map_eq_iff {l : List α} {f g : α → ℕ} (h : ∀ a ∈ l, f a ≤ g a) :
    (l.map f).sum = (l.map g).sum ↔ ∀ a ∈ l, f a = g a := by
  induction l with
  | nil         => simp
  | cons a l ih =>
    have hl : ∀ b ∈ l, f b ≤ g b := fun b hb => h b (.tail _ hb)
    have hsum := List.sum_le_sum hl
    have ha := h a (.head _)
    rw [List.map_cons, List.map_cons, List.sum_cons, List.sum_cons, List.forall_mem_cons, ← ih hl]
    omega

-- Of two notions the finer one counts as much as the other where they do not differ.
theorem observed_eq_iff (h : ∀ p ∈ pairs, same p.1 p.2 → same' p.1 p.2) (hne : pairs ≠ []) :
    observed same pairs = observed same' pairs ↔ ∀ p ∈ pairs, same' p.1 p.2 → same p.1 p.2 := by
  have hlength : (pairs.length : ℚ) ≠ 0 :=
    Nat.cast_ne_zero.mpr <| List.length_pos_iff.mpr hne |>.ne'
  rw [observed, observed, div_left_inj' hlength, Nat.cast_inj]
  exact countP_eq_iff h

theorem expected_eq_iff (h : ∀ p ∈ pairs, ∀ q ∈ pairs, same p.1 q.2 → same' p.1 q.2)
    (hne : pairs ≠ []) : expected same pairs = expected same' pairs ↔
      ∀ p ∈ pairs, ∀ q ∈ pairs, same' p.1 q.2 → same p.1 q.2 := by
  have hlength : (pairs.length : ℚ) ≠ 0 :=
    Nat.cast_ne_zero.mpr <| List.length_pos_iff.mpr hne |>.ne'
  rw [expected, expected, div_left_inj' (mul_ne_zero hlength hlength), Nat.cast_inj, crossed,
    crossed, sum_map_eq_iff fun p hp => countP_le_of_imp <| h p hp]
  exact forall₂_congr fun p hp => countP_eq_iff <| h p hp

end Comparison

section Invariance

theorem countP_eq_sum {l : List α} {p : α → Bool} :
    l.countP p = (l.map fun a => if p a then 1 else 0).sum := by
  induction l with
  | nil         => rfl
  | cons a l ih => rw [List.countP_cons, List.map_cons, List.sum_cons, ih, Nat.add_comm]

theorem sum_countP_comm {β : Type*} {l : List α} {m : List β} {r : α → β → Bool} :
    (l.map fun a => m.countP (r a)).sum = (m.map fun b => l.countP (r · b)).sum := by
  induction l with
  | nil         => simp
  | cons a l ih =>
    have hsplit : (m.map fun b => (a :: l).countP (r · b)) =
        m.map fun b => l.countP (r · b) + if r a b then 1 else 0 :=
      List.map_congr_left fun b _ => List.countP_cons ..
    rw [List.map_cons, List.sum_cons, ih, hsplit, List.sum_map_add, countP_eq_sum, Nat.add_comm]

theorem observed_swap (h : ∀ p ∈ pairs, same p.2 p.1 = same p.1 p.2) :
    observed same (pairs.map Prod.swap) = observed same pairs := by
  rw [observed, observed, agreed, agreed, List.countP_map, List.length_map]
  rw [List.countP_congr fun p hp => by rw [Function.comp, Prod.fst_swap, Prod.snd_swap, h p hp]]

theorem expected_swap (h : ∀ p ∈ pairs, ∀ q ∈ pairs, same q.2 p.1 = same p.1 q.2) :
    expected same (pairs.map Prod.swap) = expected same pairs := by
  have hcrossed : crossed same (pairs.map Prod.swap) = crossed same pairs := by
    rw [crossed, List.map_map, crossed, sum_countP_comm]
    refine congrArg List.sum <| List.map_congr_left fun q hq => ?_
    rw [Function.comp, List.countP_map]
    exact List.countP_congr fun p hp => by
      rw [Function.comp, Prod.fst_swap, Prod.snd_swap, h p hp q hq]
  rw [expected, expected, hcrossed, List.length_map]

theorem observed_perm (h : pairs.Perm pairs') : observed same pairs = observed same pairs' := by
  rw [observed, observed, agreed, agreed, h.countP_eq, h.length_eq]

theorem expected_perm (h : pairs.Perm pairs') : expected same pairs = expected same pairs' := by
  have hcrossed : crossed same pairs = crossed same pairs' := by
    rw [crossed, crossed, (h.map _).sum_eq]
    exact congrArg List.sum <| List.map_congr_left fun p _ => h.countP_eq _
  rw [expected, expected, hcrossed, h.length_eq]

end Invariance

section Categories

variable [DecidableEq α]

theorem sum_ite_eq {categories : List α} (hnodup : categories.Nodup) {a : α} (ha : a ∈ categories)
    (f : α → ℕ) : (categories.map fun c => if a = c then f c else 0).sum = f a := by
  rw [List.sum_map_eq_nsmul_single a _ fun c hc _ => if_neg hc.symm,
    List.count_eq_one_of_mem hnodup ha, if_pos rfl, one_nsmul]

-- The categories share what is expected of the raters where the labels are told apart.
theorem crossed_eq_sum {categories : List α} (hnodup : categories.Nodup)
    (hcover : ∀ p ∈ pairs, p.1 ∈ categories) :
    crossed (fun a b => decide (a = b)) pairs =
      (categories.map fun c => pairs.countP (·.1 = c) * pairs.countP (·.2 = c)).sum := by
  have hsum : ∀ (f : α → ℕ) (l : List (α × α)), (∀ p ∈ l, p.1 ∈ categories) →
      (l.map fun p => f p.1).sum = (categories.map fun c => l.countP (·.1 = c) * f c).sum := by
    intro f l hl
    induction l with
    | nil         => simp
    | cons p l ih =>
      have hp := hl p (.head _)
      have hsplit : (categories.map fun c => (p :: l).countP (·.1 = c) * f c) =
          categories.map fun c => l.countP (·.1 = c) * f c + if p.1 = c then f c else 0 := by
        refine List.map_congr_left fun c _ => ?_
        rw [List.countP_cons, Nat.add_mul]
        split <;> simp_all
      rw [List.map_cons, List.sum_cons, ih fun q hq => hl q (.tail _ hq), hsplit,
        List.sum_map_add, sum_ite_eq hnodup hp, Nat.add_comm]
  rw [← hsum (fun c => pairs.countP (·.2 = c)) pairs hcover, crossed]
  refine congrArg List.sum <| List.map_congr_left fun p _ => List.countP_congr fun q _ => ?_
  simp only [decide_eq_true_eq]
  exact eq_comm

end Categories

end Raters
