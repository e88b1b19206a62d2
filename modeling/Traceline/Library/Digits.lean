import Mathlib.Algebra.Group.Nat.Defs
import Mathlib.Tactic.Tauto

-- Numbers written with a fixed number of decimal digits, which are ordered as texts are.
namespace Digits

variable {width m n : ℕ} {a b x y : List Char}

-- Texts that start alike long are compared by their starts first.
theorem append_lt_append_iff (h : a.length = b.length) :
    a ++ x < b ++ y ↔ a < b ∨ a = b ∧ x < y := by
  induction a generalizing b with
  | nil          =>
    cases b with
    | nil      => simp
    | cons _ _ => cases h
  | cons c a hi =>
    cases b with
    | nil      => cases h
    | cons d b =>
      rw [List.cons_append, List.cons_append, List.cons_lt_cons_iff, List.cons_lt_cons_iff,
        hi (Nat.succ.inj h), List.cons.injEq]
      tauto

-- The last `width` digits of a number.
def fixed : ℕ → ℕ → List Char
  | 0,         _ => []
  | width + 1, n => fixed width (n / 10) ++ [(n % 10).digitChar]

@[simp]
theorem fixed_length : (fixed width n).length = width := by
  induction width generalizing n with
  | zero          => rfl
  | succ width hi => rw [fixed, List.length_append, hi, List.length_singleton]

theorem fixed_zero : fixed width 0 = List.replicate width '0' := by
  induction width with
  | zero          => rfl
  | succ width hi => rw [fixed, Nat.zero_div, hi, List.replicate_succ']; rfl

theorem digitChar_lt_iff (hm : m < 10) (hn : n < 10) : m.digitChar < n.digitChar ↔ m < n := by
  rw [Char.lt_def, UInt32.lt_iff_toNat_lt]
  change m.digitChar.toNat < n.digitChar.toNat ↔ m < n
  rw [Nat.toNat_digitChar_of_lt_ten hm, Nat.toNat_digitChar_of_lt_ten hn]
  omega

theorem digitChar_inj (hm : m < 10) (hn : n < 10) : m.digitChar = n.digitChar ↔ m = n := by
  constructor
  case mp  =>
    intro h
    have := congrArg Char.toNat h
    rw [Nat.toNat_digitChar_of_lt_ten hm, Nat.toNat_digitChar_of_lt_ten hn] at this
    omega
  case mpr => exact congrArg _

theorem fixed_inj (hm : m < 10 ^ width) (hn : n < 10 ^ width) :
    fixed width m = fixed width n ↔ m = n := by
  induction width generalizing m n with
  | zero          => simp only [Nat.pow_zero] at hm hn; simp [fixed]; omega
  | succ width hi =>
    rw [Nat.pow_succ] at hm hn
    constructor
    case mpr => exact congrArg _
    case mp  =>
      intro h
      obtain ⟨hleft, hright⟩ := List.append_inj h (by simp)
      rw [hi (by omega) (by omega)] at hleft
      rw [List.singleton_inj,
        digitChar_inj (Nat.mod_lt _ (by decide)) (Nat.mod_lt _ (by decide))] at hright
      omega

-- The text of a smaller number is smaller.
theorem fixed_lt_iff (hm : m < 10 ^ width) (hn : n < 10 ^ width) :
    fixed width m < fixed width n ↔ m < n := by
  induction width generalizing m n with
  | zero          => simp only [Nat.pow_zero] at hm hn; simp [fixed]; omega
  | succ width hi =>
    rw [Nat.pow_succ] at hm hn
    rw [fixed, fixed, append_lt_append_iff (by simp), hi (by omega) (by omega),
      fixed_inj (by omega) (by omega), List.cons_lt_cons_iff,
      digitChar_lt_iff (Nat.mod_lt _ (by decide)) (Nat.mod_lt _ (by decide))]
    simp only [List.not_lt_nil, and_false, or_false]
    omega

-- Digits that are padded with zeros to the width.
theorem replicate_toDigits (h : n < 10 ^ (width + 1)) :
    List.replicate (width + 1 - (Nat.toDigits 10 n).length) '0' ++ Nat.toDigits 10 n =
      fixed (width + 1) n := by
  induction width generalizing n with
  | zero          =>
    rw [Nat.toDigits_of_lt_base (by simpa using h)]
    simp [fixed, Nat.mod_eq_of_lt (show n < 10 by simpa using h)]
  | succ width hi =>
    by_cases hn : n < 10
    case pos =>
      rw [Nat.toDigits_of_lt_base hn, fixed, Nat.mod_eq_of_lt hn, Nat.div_eq_of_lt hn, fixed_zero]
      rfl
    case neg =>
      rw [Nat.pow_succ] at h
      rw [Nat.toDigits_of_base_le (by decide) (Nat.le_of_not_lt hn), List.length_append,
        List.length_singleton, Nat.add_sub_add_right, ← List.append_assoc, hi (by omega)]
      rfl

-- Two numbers of one width and what follows them.
theorem fixed_append_lt_iff (hm : m < 10 ^ width) (hn : n < 10 ^ width) :
    fixed width m ++ x < fixed width n ++ y ↔ m < n ∨ m = n ∧ x < y := by
  rw [append_lt_append_iff (by simp), fixed_lt_iff hm hn, fixed_inj hm hn]

end Digits
