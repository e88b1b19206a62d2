import Traceline.Calibration.Service
import Traceline.Evaluators.Theorems.Equality
import Traceline.Library.Except
import Traceline.Library.Raters

namespace Calibration

variable {pairs pairs' : List (Json × Json)} {py : Python} {j : Json}

-- `a / b`
def div (a b : ℚ) : Except String ℚ :=
  if b = 0 then .error "float division by zero" else .ok (a / b)

-- What a category adds to the agreement that is expected.
def share (pairs : List (Json × Json)) (total : ℚ) (category : Json) : Except String ℚ := do
  return (← div (pairs.countP (·.1 = category)) total) *
    (← div (pairs.countP (·.2 = category)) total)

-- `cohen_kappa` with the divisions that it makes.
def cohen_kappa_divided (pairs : List (Json × Json)) : Except String (Option ℚ) :=
  if pairs = [] then return none
  else do
    let total : ℚ := pairs.length
    let observed ← div (pairs.countP fun p => p.1.pyEq p.2) total
    let categories := (pairs.map Prod.fst ++ pairs.map Prod.snd).dedup
    let shares ← categories.mapM (share pairs total)
    let expected := shares.sum
    if expected = 1 then return some (if observed = 1 then 1 else 0)
    else return some (← div (observed - expected) (1 - expected))

-- The statistic as it is defined, under one notion of which labels are the same.
def textbook (same : Json → Json → Bool) (pairs : List (Json × Json)) : Option ℚ :=
  if pairs = [] then none else some (Raters.kappa same pairs)

-- The two notions that the code has: `==`, and the same `_label_key`.
def notions : List (Json → Json → Bool) :=
  [Json.pyEq, fun a b => decide (a = b)]

theorem proper_of_label {v : Json} (h : _label py j = .ok v) : j.proper := by
  unfold _label at h
  split at h
  case h_1           => rfl
  case h_2           => rfl
  case h_3           => rfl
  case h_4           => rfl
  case h_5           => rfl
  case h_6           => cases h

theorem sum_map_div {l : List Json} {f : Json → ℕ} {d : ℚ} :
    (l.map fun c => (f c : ℚ) / d).sum = ((l.map f).sum : ℕ) / d := by
  induction l with
  | nil         => simp
  | cons c l ih =>
    rw [List.map_cons, List.sum_cons, ih, List.map_cons, List.sum_cons, Nat.cast_add, add_div]

-- What the categories add up to is what is expected where labels are told apart by their keys.
theorem expected_eq : ((pairs.map Prod.fst ++ pairs.map Prod.snd).dedup.map fun category =>
    ((pairs.countP (·.1 = category) : ℚ) / pairs.length) *
      (pairs.countP (·.2 = category) / pairs.length)).sum =
    Raters.expected (fun a b => decide (a = b)) pairs := by
  have hcover : ∀ p ∈ pairs, p.1 ∈ (pairs.map Prod.fst ++ pairs.map Prod.snd).dedup := by
    intro p hp
    exact List.mem_dedup.mpr <| List.mem_append_left _ <| List.mem_map_of_mem hp
  rw [Raters.expected, Raters.crossed_eq_sum (List.nodup_dedup _) hcover, ← sum_map_div]
  refine congrArg List.sum <| List.map_congr_left fun c _ => ?_
  rw [Nat.cast_mul, div_mul_div_comm]

theorem cohen_kappa_eq (hne : pairs ≠ []) :
    let o := Raters.observed Json.pyEq pairs
    let e := Raters.expected (fun a b => decide (a = b)) pairs
    cohen_kappa pairs =
      some (if e = 1 then if o = 1 then 1 else 0 else (o - e) / (1 - e)) := by
  unfold cohen_kappa
  rw [if_neg hne]
  dsimp only
  rw [expected_eq]
  split <;> rfl

theorem div_eq (a : ℚ) {b : ℚ} (hb : b ≠ 0) : div a b = .ok (a / b) :=
  if_neg hb

theorem share_eq {total : ℚ} (htotal : total ≠ 0) (category : Json) :
    share pairs total category = .ok (((pairs.countP (·.1 = category) : ℚ) / total) *
      (pairs.countP (·.2 = category) / total)) := by
  rw [share, div_eq _ htotal, div_eq _ htotal]
  rfl

theorem cohen_kappa_divided_eq : cohen_kappa_divided pairs = .ok (cohen_kappa pairs) := by
  unfold cohen_kappa_divided cohen_kappa
  by_cases hne : pairs = []
  case pos => rw [if_pos hne, if_pos hne]; rfl
  case neg =>
    have htotal : (pairs.length : ℚ) ≠ 0 :=
      Nat.cast_ne_zero.mpr <| List.length_pos_iff.mpr hne |>.ne'
    rw [if_neg hne, if_neg hne]
    dsimp only
    rw [div_eq _ htotal]
    dsimp only [bind, Except.bind]
    rw [Except.mapM_eq_ok_iff.mpr <| List.forall₂_map_right_iff.mpr <| List.forall₂_same.mpr
      fun c _ => share_eq htotal c]
    dsimp only
    split
    case isTrue     => rfl
    case isFalse he => rw [div_eq _ (sub_ne_zero.mpr (Ne.symm he))]; rfl

section Exactness

variable {o o' e e' : ℚ}

theorem div_eq_div_iff_of_ne (he : e ≠ 1) (he' : e' ≠ 1) :
    (o - e) / (1 - e) = (o - e') / (1 - e') ↔ o = 1 ∨ e = e' := by
  have hne : 1 - e ≠ 0 := sub_ne_zero.mpr (Ne.symm he)
  have hne' : 1 - e' ≠ 0 := sub_ne_zero.mpr (Ne.symm he')
  have hcross : (o - e) * (1 - e') - (o - e') * (1 - e) = (o - 1) * (e - e') := by ring
  rw [div_eq_div_iff hne hne', ← sub_eq_zero, hcross, mul_eq_zero, sub_eq_zero, sub_eq_zero]

-- A pair that agrees under `==` and not under the keys is counted, but its chance is not.
theorem cohen_kappa_eq_iff (hproper : ∀ p ∈ pairs, p.1.proper) (hne : pairs ≠ []) :
    (∃ same ∈ notions, cohen_kappa pairs = textbook same pairs) ↔
      (∀ p ∈ pairs, p.1.pyEq p.2 → p.1 = p.2) ∨ ∀ p ∈ pairs, p.1.pyEq p.2 := by
  let key : Json → Json → Bool := fun a b => decide (a = b)
  have hfine : ∀ p ∈ pairs, ∀ b, key p.1 b → p.1.pyEq b := by
    intro p hp b hb
    rw [← of_decide_eq_true hb]
    exact Json.pyEq_refl (hproper p hp)
  have hobserved : Raters.observed key pairs = Raters.observed Json.pyEq pairs ↔
      ∀ p ∈ pairs, p.1.pyEq p.2 → key p.1 p.2 :=
    Raters.observed_eq_iff (fun p hp => hfine p hp p.2) hne
  have hexpected : Raters.expected key pairs = Raters.expected Json.pyEq pairs ↔
      ∀ p ∈ pairs, ∀ q ∈ pairs, p.1.pyEq q.2 → key p.1 q.2 :=
    Raters.expected_eq_iff (fun p hp q _ => hfine p hp q.2) hne
  have hall : Raters.expected key pairs = 1 → ∀ p ∈ pairs, p.1 = p.2 := by
    intro he p hp
    exact of_decide_eq_true <| (Raters.expected_eq_one_iff hne).mp he p hp p hp
  have hall' : Raters.expected key pairs = 1 → Raters.observed Json.pyEq pairs = 1 := by
    intro he
    refine (Raters.observed_eq_one_iff hne).mpr fun p hp => hfine p hp p.2 ?_
    exact decide_eq_true (hall he p hp)
  simp only [notions, List.mem_cons, List.not_mem_nil, or_false, exists_eq_or_imp, exists_eq_left,
    cohen_kappa_eq hne, textbook, if_neg hne, Option.some_inj]
  change (_ = Raters.kappa Json.pyEq pairs ∨ _ = Raters.kappa key pairs) ↔ _
  rw [Raters.kappa, Raters.kappa]
  by_cases he : Raters.expected key pairs = 1
  case pos =>
    refine iff_of_true (.inr ?_) (.inl fun p hp _ => hall he p hp)
    rw [if_pos he, if_pos (hall' he), if_pos he]
  case neg =>
    rw [if_neg he, if_neg he]
    constructor
    case mp =>
      rintro (h | h)
      · by_cases he' : Raters.expected Json.pyEq pairs = 1
        case pos =>
          exact .inr fun p hp => (Raters.expected_eq_one_iff hne).mp he' p hp p hp
        case neg =>
          rw [if_neg he', div_eq_div_iff_of_ne he he'] at h
          refine h.symm.imp (fun h p hp hpq => ?_) (Raters.observed_eq_one_iff hne).mp
          exact of_decide_eq_true <| hexpected.mp h p hp p hp hpq
      · have hne' : 1 - Raters.expected key pairs ≠ 0 := sub_ne_zero.mpr (Ne.symm he)
        rw [div_left_inj' hne', sub_left_inj] at h
        exact .inl fun p hp hpq => of_decide_eq_true <| hobserved.mp h.symm p hp hpq
    case mpr =>
      rintro (h | h)
      · have ho := hobserved.mpr fun p hp hpq => decide_eq_true (h p hp hpq)
        exact .inr <| by rw [ho]
      · have ho := (Raters.observed_eq_one_iff hne).mpr h
        refine .inl ?_
        rw [ho, div_self (sub_ne_zero.mpr (Ne.symm he))]
        split
        case isTrue      => rfl
        case isFalse he' => rw [div_self (sub_ne_zero.mpr (Ne.symm he'))]

end Exactness

theorem cohen_kappa_le_one : ∀ k ∈ cohen_kappa pairs, k ≤ 1 := by
  intro k hk
  by_cases hne : pairs = []
  case pos => rw [hne] at hk; cases hk
  case neg =>
    rw [cohen_kappa_eq hne] at hk
    cases hk
    split
    case isTrue     => split <;> norm_num
    case isFalse he =>
      exact Raters.div_le_one_of_lt Raters.observed_le_one <|
        lt_of_le_of_ne Raters.expected_le_one he

theorem cohen_kappa_perm (h : pairs.Perm pairs') : cohen_kappa pairs = cohen_kappa pairs' := by
  by_cases hne : pairs = []
  case pos =>
    rw [hne] at h
    rw [hne, h.nil_eq]
  case neg =>
    have hne' : pairs' ≠ [] := fun h' => hne <| by rw [h'] at h; exact h.eq_nil
    rw [cohen_kappa_eq hne, cohen_kappa_eq hne', Raters.observed_perm h, Raters.expected_perm h]

theorem cohen_kappa_swap (hproper : ∀ p ∈ pairs, p.1.proper ∧ p.2.proper) :
    cohen_kappa (pairs.map Prod.swap) = cohen_kappa pairs := by
  by_cases hne : pairs = []
  case pos => rw [hne]; rfl
  case neg =>
    have hne' : pairs.map Prod.swap ≠ [] := by simpa using hne
    rw [cohen_kappa_eq hne, cohen_kappa_eq hne', Raters.observed_swap, Raters.expected_swap]
    · exact fun p _ q _ => decide_eq_decide.mpr eq_comm
    · intro p hp
      have := hproper p hp
      exact Bool.eq_iff_iff.mpr
        ⟨Json.pyEq_symm this.right this.left, Json.pyEq_symm this.left this.right⟩

-- The labels that the service accepts.
def Accepted (py : Python) (pairs : List (Json × Json)) : Prop :=
  ∀ p ∈ pairs, _label py p.1 = .ok p.1 ∧ _label py p.2 = .ok p.2

-- What is said of the statistic: it is that of the textbook, no division fails, it is one at most,
-- and neither the order of the pairs nor that of the raters matters.
structure Textbook (pairs : List (Json × Json)) : Prop where
  statistic : ∃ same ∈ notions, cohen_kappa pairs = textbook same pairs
  divided   : cohen_kappa_divided pairs = .ok (cohen_kappa pairs)
  le_one    : ∀ k ∈ cohen_kappa pairs, k ≤ 1
  swap      : cohen_kappa (pairs.map Prod.swap) = cohen_kappa pairs
  perm      : ∀ pairs', pairs'.Perm pairs → cohen_kappa pairs' = cohen_kappa pairs

-- Labels that are equal without being the same, as `1` and `True` are, make the two counts differ.
-- That does not show where all pairs agree.
theorem kappa_textbook_iff (h : Accepted py pairs) : Textbook pairs ↔
    (∀ p ∈ pairs, p.1.pyEq p.2 → p.1 = p.2) ∨ ∀ p ∈ pairs, p.1.pyEq p.2 := by
  have hproper : ∀ p ∈ pairs, p.1.proper ∧ p.2.proper := fun p hp =>
    ⟨proper_of_label (h p hp).left, proper_of_label (h p hp).right⟩
  by_cases hne : pairs = []
  case pos =>
    subst hne
    refine iff_of_true ?_ (.inr <| List.forall_mem_nil _)
    exact {
      statistic := ⟨Json.pyEq, .head _, rfl⟩
      divided   := rfl
      le_one    := nofun
      swap      := rfl
      perm      := fun _ h => h.eq_nil ▸ rfl
    }
  case neg =>
    rw [← cohen_kappa_eq_iff (fun p hp => (hproper p hp).left) hne]
    refine ⟨Textbook.statistic, fun hstatistic => ?_⟩
    exact {
      statistic := hstatistic
      divided   := cohen_kappa_divided_eq
      le_one    := cohen_kappa_le_one
      swap      := cohen_kappa_swap hproper
      perm      := fun _ => cohen_kappa_perm
    }

namespace Labelled

-- Two people who say the same, and two who do not.
def apart : List (Json × Json) :=
  [(.int 1, .int 1), (.int 0, .int 1)]

-- The first two agree for `==` alone.
def mixed : List (Json × Json) :=
  [(.int 1, .bool true), (.int 1, .int 0)]

theorem accepted_apart : Accepted py apart := by
  intro p hp
  simp only [apart, List.mem_cons, List.not_mem_nil, or_false] at hp
  rcases hp with rfl | rfl <;> exact ⟨rfl, rfl⟩

theorem accepted_mixed : Accepted py mixed := by
  intro p hp
  simp only [mixed, List.mem_cons, List.not_mem_nil, or_false] at hp
  rcases hp with rfl | rfl <;> exact ⟨rfl, rfl⟩

end Labelled

theorem kappa_textbook_apart : Textbook Labelled.apart := by
  refine (@kappa_textbook_iff _ Python.ascii Labelled.accepted_apart).mpr <| .inl ?_
  decide

-- The share of the pairs that agree is one half, and the keys expect none to.
theorem not_kappa_textbook : ¬ ∀ (py : Python) (pairs : List (Json × Json)),
    Accepted py pairs → Textbook pairs := by
  intro h
  have hstatistic := (h Python.ascii _ Labelled.accepted_mixed).statistic
  rcases (cohen_kappa_eq_iff (by decide) (by decide)).mp hstatistic with h | h
  · exact absurd (h (.int 1, .bool true) (.head _) rfl) (by decide)
  · exact absurd (h (.int 1, .int 0) (.tail _ (.head _))) (by decide)

end Calibration
