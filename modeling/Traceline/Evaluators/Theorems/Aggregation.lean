import Mathlib.Algebra.Order.BigOperators.Group.List
import Mathlib.Tactic.FieldSimp
import Mathlib.Tactic.Linarith
import Traceline.Evaluators.Aggregate
import Traceline.Evaluators.Theorems.Missing
import Traceline.Library.Rank

open Rank Spec

namespace PyFloat

variable {q r : ℚ} {qs : List ℚ}

theorem le_finite : (finite q).le (finite r) = true ↔ q ≤ r := by
  simp [le, lt, eq, le_iff_lt_or_eq]

theorem lt_finite : (finite q).lt (finite r) = decide (q < r) :=
  rfl

theorem foldl_add_finite : (qs.map finite).foldl add (finite q) = finite (q + qs.sum) := by
  induction qs generalizing q with
  | nil          => rw [List.sum_nil, add_zero, List.map_nil, List.foldl_nil]
  | cons r qs ih => rw [List.map_cons, List.foldl_cons, add, ih, List.sum_cons, add_assoc]

theorem sum_finite : sum (qs.map finite) = finite qs.sum := by
  rw [sum, foldl_add_finite, zero_add]

theorem exists_foldl_min : ∃ m, (qs.map finite).foldl min (finite q) = finite m ∧
    m ∈ q :: qs ∧ ∀ x ∈ q :: qs, m ≤ x := by
  induction qs generalizing q with
  | nil          => exact ⟨q, rfl, .head _, by simp⟩
  | cons r qs ih =>
    rw [List.map_cons, List.foldl_cons, min, lt_finite]
    by_cases h : r < q
    case pos =>
      obtain ⟨m, hm, hmem, hle⟩ := @ih r
      refine ⟨m, by rwa [decide_eq_true h], .tail _ hmem, fun x hx => ?_⟩
      rcases List.mem_cons.mp hx with rfl | hx
      · exact (hle r <| .head _).trans h.le
      · exact hle x hx
    case neg =>
      obtain ⟨m, hm, hmem, hle⟩ := @ih q
      refine ⟨m, by rwa [decide_eq_false h], ?_, fun x hx => ?_⟩
      · rcases List.mem_cons.mp hmem with rfl | hmem
        · exact .head _
        · exact .tail _ <| .tail _ hmem
      · rcases List.mem_cons.mp hx with rfl | hx
        · exact hle x <| .head _
        · rcases List.mem_cons.mp hx with rfl | hx
          · exact (hle q <| .head _).trans <| not_lt.mp h
          · exact hle x <| .tail _ hx

end PyFloat

namespace Evaluators

-- The position that a percentile picks among `n` sorted values.
def nearest (p : ℚ) (n : ℕ) : ℕ :=
  (⌈p * n⌉.toNat - 1) ⊓ (n - 1)

variable {p : ℚ} {qs : List ℚ} {n : ℕ}

theorem nearest_lt (hn : 0 < n) : nearest p n < n := by
  have : nearest p n ≤ n - 1 := Nat.min_le_right _ _
  omega

theorem nearest_succ (hp : p ≤ 1) (hn : 0 < n) : nearest p (n + 1) ≤ nearest p n + 1 := by
  have hceil : ⌈p * (n + 1 : ℕ)⌉ ≤ ⌈p * n⌉ + 1 := by
    rw [Int.ceil_le]
    have := Int.le_ceil (p * n)
    push_cast
    linarith
  rw [nearest, nearest]
  omega

theorem percentile_eq (h : qs ≠ []) :
    ∃ v, rank qs (nearest p qs.length) = some v ∧ percentile (qs.map .finite) p = .finite v := by
  obtain ⟨v, hv⟩ := exists_rank <| nearest_lt (p := p) <| List.length_pos_of_ne_nil h
  have hsort : (qs.map PyFloat.finite).mergeSort (fun a b => !b.lt a) =
      (qs.mergeSort fun x y => x ≤ y).map .finite := by
    refine (List.map_mergeSort fun a _ b _ => ?_).symm
    rw [PyFloat.lt_finite, ← decide_not, decide_eq_decide, not_lt]
  refine ⟨v, hv, ?_⟩
  have hget : ((qs.mergeSort fun x y => x ≤ y).map PyFloat.finite)[nearest p qs.length]? =
      some (.finite v) := by
    rw [List.getElem?_map]
    exact congrArg _ hv
  rw [percentile, hsort, List.length_map]
  exact congrArg (Option.getD · .nan) hget

theorem minimum_eq (h : qs ≠ []) :
    ∃ v, rank qs 0 = some v ∧ minimum (qs.map .finite) = .finite v := by
  cases qs with
  | nil       => cases h rfl
  | cons q qs =>
    obtain ⟨m, hm, hmem, hle⟩ := @PyFloat.exists_foldl_min q qs
    exact ⟨m, rank_zero hmem hle, hm⟩

-- A score that is an exact number, where it is there.
def Exact (s : CaseScore) : Prop :=
  ∀ x ∈ s.score, x.isFinite

def amount (s : CaseScore) : ℚ :=
  match contribution s with
  | .finite q => q
  | _         => 0

-- What a method makes of exact scores.
def rolled (method : Method) (scores : List CaseScore) : ℚ :=
  let values := scores.map amount
  match method with
  | .pass_rate => count .PASS scores / scores.length
  | .mean      => values.sum / scores.length
  | .p50       => (rank values (nearest (1 / 2) scores.length)).getD 0
  | .p95       => (rank values (nearest (19 / 20) scores.length)).getD 0
  | .min       => (rank values 0).getD 0
  | .sum       => values.sum

variable {s s' e : CaseScore} {terms terms' scores scores' : List CaseScore} {method : Method}

theorem Exact.contribution_eq (h : Exact s) : contribution s = .finite (amount s) := by
  cases hs : s.score with
  | none   => rw [amount, contribution, hs, Option.getD_none]
  | some x =>
    cases x with
    | finite q => rw [amount, contribution, hs, Option.getD_some]
    | _        => cases h _ hs

theorem contributions_eq (h : ∀ s ∈ terms, Exact s) :
    terms.map contribution = (terms.map amount).map .finite := by
  rw [List.map_map]
  exact List.map_congr_left fun s hs => (h s hs).contribution_eq

theorem mean_eq (h : ∀ s ∈ terms, Exact s) :
    mean (terms.map contribution) = .finite (rolled .mean terms) := by
  rw [mean, contributions_eq h, PyFloat.sum_finite, PyFloat.div, List.length_map, List.length_map]
  rfl

theorem rollup_eq (h : ∀ s ∈ terms, Exact s) (hne : terms ≠ []) :
    rollup method terms = .finite (rolled method terms) := by
  have hvalues := contributions_eq h
  have hne' : terms.map amount ≠ [] := by simpa using hne
  have hpercentile : ∀ p : ℚ, percentile (terms.map contribution) p =
      .finite ((rank (terms.map amount) (nearest p terms.length)).getD 0) := by
    intro p
    obtain ⟨v, hv, hp⟩ := percentile_eq (p := p) hne'
    rw [List.length_map] at hv
    rw [hvalues, hp, hv, Option.getD_some]
  cases method with
  | pass_rate => rfl
  | mean      => exact mean_eq h
  | p50       => exact hpercentile _
  | p95       => exact hpercentile _
  | min       =>
    obtain ⟨v, hv, hmin⟩ := minimum_eq hne'
    have : minimum (terms.map contribution) = .finite ((rank (terms.map amount) 0).getD 0) := by
      rw [hvalues, hmin, hv, Option.getD_some]
    exact this
  | sum       =>
    have : PyFloat.sum (terms.map contribution) = .finite (terms.map amount).sum := by
      rw [hvalues, PyFloat.sum_finite]
    exact this

-- A position that moves up by one at most for each further value.
structure Gradual (position : ℕ → ℕ) : Prop where
  lt   : ∀ {n}, 0 < n → position n < n
  succ : ∀ {n}, 0 < n → position (n + 1) ≤ position n + 1

-- A method takes a quotient by the number of scores, the sum, or a value by its rank.
theorem rolled_cases (method : Method) :
    method = .pass_rate ∨ method = .mean ∨ method = .sum ∨ ∃ position, Gradual position ∧
      ∀ terms, rolled method terms =
        (rank (terms.map amount) (position terms.length)).getD 0 := by
  cases method with
  | pass_rate => exact .inl rfl
  | mean      => exact .inr <| .inl rfl
  | sum       => exact .inr <| .inr <| .inl rfl
  | p50       =>
    exact .inr <| .inr <| .inr ⟨_, ⟨nearest_lt, nearest_succ (by norm_num)⟩, fun _ => rfl⟩
  | p95       =>
    exact .inr <| .inr <| .inr ⟨_, ⟨nearest_lt, nearest_succ (by norm_num)⟩, fun _ => rfl⟩
  | min       =>
    exact .inr <| .inr <| .inr ⟨fun _ => 0, ⟨id, fun _ => Nat.zero_le _⟩, fun _ => rfl⟩

theorem rolled_perm (h : terms.Perm terms') : rolled method terms = rolled method terms' := by
  have hsum := (h.map amount).sum_eq
  have hlength := h.length_eq
  rcases rolled_cases method with rfl | rfl | rfl | ⟨position, _, hrank⟩
  · have hcount : count .PASS terms = count .PASS terms' := h.countP_eq _
    rw [rolled, rolled, hcount, hlength]
  · rw [rolled, rolled, hsum, hlength]
  · exact hsum
  · rw [hrank, hrank, hlength, rank_perm <| h.map amount]

theorem pass_rate_bounds : 0 ≤ rolled .pass_rate terms ∧ rolled .pass_rate terms ≤ 1 := by
  have hle : (count .PASS terms : ℚ) ≤ terms.length := Nat.cast_le.mpr List.countP_le_length
  exact ⟨div_nonneg (Nat.cast_nonneg _) (Nat.cast_nonneg _),
    div_le_one_of_le₀ hle (Nat.cast_nonneg _)⟩

theorem ranked_value {position : ℕ → ℕ} (hp : Gradual position) (hne : terms ≠ [])
    (h : rolled method terms = (rank (terms.map amount) (position terms.length)).getD 0) :
    rank (terms.map amount) (position terms.length) = some (rolled method terms) := by
  have hlt := hp.lt <| List.length_pos_of_ne_nil hne
  obtain ⟨v, hv⟩ := exists_rank (l := terms.map amount) (by rwa [List.length_map])
  rw [h, hv, Option.getD_some]

-- The value lies between two of the contributions.
theorem rolled_between (hm : method ≠ .pass_rate ∧ method ≠ .sum) (hne : terms ≠ []) :
    ∃ s ∈ terms, ∃ t ∈ terms, amount s ≤ rolled method terms ∧
      rolled method terms ≤ amount t := by
  rcases rolled_cases method with rfl | rfl | rfl | ⟨position, hp, hrank⟩
  · exact absurd rfl hm.left
  · have hlength : (terms.length : ℚ) ≠ 0 := by simpa using hne
    have hmean : (terms.map fun _ => rolled .mean terms).sum = (terms.map amount).sum := by
      rw [List.map_const', List.sum_replicate, nsmul_eq_mul, rolled]
      field_simp
    obtain ⟨s, hs, hle⟩ := List.exists_le_of_sum_le hne amount _ hmean.ge
    obtain ⟨t, ht, hge⟩ := List.exists_le_of_sum_le hne _ amount hmean.le
    exact ⟨s, hs, t, ht, hle, hge⟩
  · exact absurd rfl hm.right
  · obtain ⟨s, hs, heq⟩ := List.mem_map.mp <| mem_of_rank <| ranked_value hp hne <| hrank terms
    exact ⟨s, hs, s, hs, heq.le, heq.ge⟩

-- A failure that becomes a success with a score at least as high lowers nothing.
theorem rolled_improved (hs : s.status = .FAIL) (hs' : s'.status = .PASS)
    (hle : amount s ≤ amount s') :
    rolled method (s :: terms) ≤ rolled method (s' :: terms) := by
  rcases rolled_cases method with rfl | rfl | rfl | ⟨position, hp, hrank⟩
  · have hcount : count .PASS (s :: terms) ≤ count .PASS (s' :: terms) := by
      rw [count, count, List.countP_cons_of_neg (by simp [hs]),
        List.countP_cons_of_pos (by simp [hs'])]
      exact Nat.le_succ _
    exact div_le_div_of_nonneg_right (Nat.cast_le.mpr hcount) (Nat.cast_nonneg _)
  · refine div_le_div_of_nonneg_right ?_ (Nat.cast_nonneg _)
    rw [List.map_cons, List.map_cons, List.sum_cons, List.sum_cons]
    linarith
  · rw [rolled, rolled, List.map_cons, List.map_cons, List.sum_cons, List.sum_cons]
    linarith
  · exact rank_cons_mono hle (ranked_value hp (List.cons_ne_nil _ _) <| hrank _)
      (ranked_value hp (List.cons_ne_nil _ _) <| hrank _)

-- A further error that counts as a failure raises nothing but a sum.
theorem rolled_failed (hm : method ≠ .sum) (he : e.status = .ERROR) (hzero : amount e = 0)
    (hnonneg : ∀ s ∈ terms, 0 ≤ amount s) (hne : terms ≠ []) :
    rolled method (e :: terms) ≤ rolled method terms := by
  have hlength : (0 : ℚ) < terms.length := by
    exact_mod_cast List.length_pos_of_ne_nil hne
  have hlonger : (terms.length : ℚ) ≤ (e :: terms).length := by
    exact_mod_cast Nat.le_succ _
  rcases rolled_cases method with rfl | rfl | rfl | ⟨position, hp, hrank⟩
  · have hcount : count .PASS (e :: terms) = count .PASS terms :=
      List.countP_cons_of_neg (by simp [he])
    rw [rolled, rolled, hcount]
    exact div_le_div_of_nonneg_left (Nat.cast_nonneg _) hlength hlonger
  · have hsum : 0 ≤ (terms.map amount).sum := by
      refine List.sum_nonneg fun x hx => ?_
      obtain ⟨s, hs, rfl⟩ := List.mem_map.mp hx
      exact hnonneg s hs
    rw [rolled, rolled, List.map_cons, List.sum_cons, hzero, zero_add]
    exact div_le_div_of_nonneg_left hsum hlength hlonger
  · exact absurd rfl hm
  · refine rank_cons_le (x := amount e) (fun y hy => ?_) (ranked_value hp hne <| hrank _)
      (ranked_value hp (List.cons_ne_nil _ _) <| hrank _) ?_
    · obtain ⟨s, hs, rfl⟩ := List.mem_map.mp hy
      exact hzero ▸ hnonneg s hs
    · exact hp.succ <| List.length_pos_of_ne_nil hne

-- The scores of one metric, each an exact number where there is one.
structure Measured (metric : Metric) (scores : List CaseScore) : Prop where
  own   : ∀ s ∈ scores, s.metric_id = metric.metric_id
  exact : ∀ s ∈ scores, Exact s

-- What an aggregate says about the scores it was made from.
structure Summary (metric : Metric) (scores : List CaseScore) (expected_n : ℕ) (in_progress : Bool)
    (agg : RunAggregate) : Prop where
  metric_id     : agg.metric_id = metric.metric_id
  empty         : denominator metric scores = [] →
    agg.value = none ∧ agg.pass_rate = none ∧ agg.mean = none
  measured      : denominator metric scores ≠ [] →
    agg.value = some (.finite <| rolled metric.aggregation.method <| denominator metric scores) ∧
    agg.pass_rate = some (.finite <| rolled .pass_rate <| denominator metric scores) ∧
    agg.mean = some (.finite <| rolled .mean <| denominator metric scores)
  n_cases       : agg.n_cases = (retained scores).length
  n_denominator : agg.n_denominator = (denominator metric scores).length
  error_n       : agg.error_n = count .ERROR (retained scores)
  skipped_n     : agg.skipped_n = count .SKIPPED (retained scores)
  state         : agg.aggregation_state =
    aggregation_state in_progress (retained scores).length expected_n

variable {metric : Metric} {expected_n : ℕ} {in_progress : Bool} {agg agg' : RunAggregate}

theorem Measured.denominator (h : Measured metric scores) : ∀ s ∈ denominator metric scores, Exact s :=
  fun s hs => h.exact s <| List.mem_of_mem_filter <| List.mem_of_mem_filter hs

theorem aggregate_metric_spec (L : Languages) (h : Measured metric scores) : ∃ agg,
    aggregate_metric L metric scores expected_n in_progress = .ok agg ∧
      Summary metric scores expected_n in_progress agg := by
  have hfind : scores.find? (·.metric_id ≠ metric.metric_id) = none :=
    List.find?_eq_none.mpr fun s hs => by simpa using h.own s hs
  rw [aggregate_metric, hfind]
  refine ⟨_, rfl, rfl, fun he => ?_, fun hne => ?_, rfl, rfl, rfl, rfl, rfl⟩
  · exact ⟨if_pos he, if_pos he, if_pos he⟩
  · rw [← rollup_eq h.denominator hne, ← mean_eq h.denominator]
    exact ⟨if_neg hne, if_neg hne, if_neg hne⟩

theorem Summary.unique (h : Summary metric scores expected_n in_progress agg)
    (h' : Summary metric scores expected_n in_progress agg') : agg = agg' := by
  have hvalues : agg.value = agg'.value ∧ agg.pass_rate = agg'.pass_rate ∧ agg.mean = agg'.mean := by
    by_cases hd : denominator metric scores = []
    case pos =>
      obtain ⟨hv, hr, hm⟩ := h.empty hd
      obtain ⟨hv', hr', hm'⟩ := h'.empty hd
      exact ⟨hv.trans hv'.symm, hr.trans hr'.symm, hm.trans hm'.symm⟩
    case neg =>
      obtain ⟨hv, hr, hm⟩ := h.measured hd
      obtain ⟨hv', hr', hm'⟩ := h'.measured hd
      exact ⟨hv.trans hv'.symm, hr.trans hr'.symm, hm.trans hm'.symm⟩
  obtain ⟨hv, hr, hm⟩ := hvalues
  cases agg
  cases agg'
  rw [RunAggregate.mk.injEq]
  exact ⟨h.metric_id.trans h'.metric_id.symm, hv, hr, hm, h.n_cases.trans h'.n_cases.symm,
    h.n_denominator.trans h'.n_denominator.symm, h.error_n.trans h'.error_n.symm,
    h.skipped_n.trans h'.skipped_n.symm, h.state.trans h'.state.symm⟩

theorem retained_perm (hp : scores'.Perm scores) : (retained scores').Perm (retained scores) :=
  hp.filter _

theorem denominator_perm (hp : scores'.Perm scores) :
    (denominator metric scores').Perm (denominator metric scores) :=
  (retained_perm hp).filter _

theorem Summary.perm (h : Summary metric scores expected_n in_progress agg)
    (hp : scores'.Perm scores) : Summary metric scores' expected_n in_progress agg := by
  have hd : (denominator metric scores').Perm (denominator metric scores) := denominator_perm hp
  have hr := retained_perm hp
  have hcount : ∀ status, count status (retained scores') = count status (retained scores) :=
    fun status => hr.countP_eq _
  refine ⟨h.metric_id, fun he => ?_, fun hne => ?_, ?_, ?_, ?_, ?_, ?_⟩
  · exact h.empty <| List.nil_perm.mp <| he ▸ hd
  · rw [rolled_perm hd, rolled_perm hd, rolled_perm hd]
    exact h.measured fun he => hne <| List.perm_nil.mp <| he ▸ hd
  · rw [h.n_cases, hr.length_eq]
  · rw [h.n_denominator, hd.length_eq]
  · rw [h.error_n, hcount]
  · rw [h.skipped_n, hcount]
  · rw [h.state, hr.length_eq]

theorem retained_retained : retained (retained scores) = retained scores := by
  rw [retained, retained, List.filter_filter]
  exact List.filter_congr fun _ _ => Bool.and_self _

theorem Summary.first_attempts (h : Summary metric scores expected_n in_progress agg) :
    Summary metric (retained scores) expected_n in_progress agg := by
  have hd : denominator metric (retained scores) = denominator metric scores := by
    rw [denominator, denominator, retained_retained]
  constructor
  case metric_id     => exact h.metric_id
  case empty         => exact hd.symm ▸ h.empty
  case measured      => exact hd.symm ▸ h.measured
  case n_denominator => exact hd.symm ▸ h.n_denominator
  all_goals rw [retained_retained]
  case n_cases       => exact h.n_cases
  case error_n       => exact h.error_n
  case skipped_n     => exact h.skipped_n
  case state         => exact h.state

-- Each score is terms, skipped, or an error that is left out.
theorem length_eq_counts (on_error : OnError) : scores.length =
    (scores.filter fun s => counted on_error s.status).length + count .SKIPPED scores +
      if on_error = .exclude then count .ERROR scores else 0 := by
  rw [← List.countP_eq_length_filter]
  induction scores with
  | nil            => cases on_error <;> rfl
  | cons s scores ih =>
    rw [List.length_cons, ih, count, count, count, count, List.countP_cons, List.countP_cons,
      List.countP_cons]
    cases on_error <;> cases hs : s.status <;> simp [counted] <;> omega

variable {l r : List CaseScore}

theorem denominator_cons (hr : s.on_retry_override = false)
    (hc : counted metric.aggregation.on_error s.status = true) :
    denominator metric (s :: scores) = s :: denominator metric scores := by
  rw [denominator, retained, List.filter_cons_of_pos (by simp [hr]),
    List.filter_cons_of_pos (by simpa using hc)]
  rfl

theorem denominator_cons_retry (hr : s.on_retry_override = true) :
    denominator metric (s :: scores) = denominator metric scores := by
  rw [denominator, retained, List.filter_cons_of_neg (by simp [hr])]
  rfl

theorem Measured.perm (h : Measured metric scores) (hp : scores'.Perm scores) :
    Measured metric scores' :=
  ⟨fun s hs => h.own s <| hp.mem_iff.mp hs, fun s hs => h.exact s <| hp.mem_iff.mp hs⟩

theorem Measured.cons (h : Measured metric scores) (hs : s.metric_id = metric.metric_id)
    (he : Exact s) : Measured metric (s :: scores) :=
  ⟨List.forall_mem_cons.mpr ⟨hs, h.own⟩, List.forall_mem_cons.mpr ⟨he, h.exact⟩⟩

-- A value stays, and is not lower.
def Raised (old new : Option PyFloat) : Prop :=
  ∀ v ∈ old, ∃ v' ∈ new, v.le v'

-- A value stays, and is not higher.
def Lowered (old new : Option PyFloat) : Prop :=
  ∀ v ∈ old, ∃ v' ∈ new, v'.le v

def Between (terms : List CaseScore) (value : Option PyFloat) : Prop :=
  ∀ v ∈ value, ∃ s ∈ terms, ∃ t ∈ terms, (contribution s).le v ∧ v.le (contribution t)

theorem Summary.between (h : Summary metric scores expected_n in_progress agg)
    (hm : Measured metric scores) :
    (metric.aggregation.method ≠ .pass_rate ∧ metric.aggregation.method ≠ .sum →
      Between (denominator metric scores) agg.value) ∧
    Between (denominator metric scores) agg.mean := by
  have hbetween : ∀ method : Method, method ≠ .pass_rate ∧ method ≠ .sum →
      denominator metric scores ≠ [] → Between (denominator metric scores)
        (some <| .finite <| rolled method <| denominator metric scores) := by
    intro method hmethod hne v hv
    cases hv
    obtain ⟨s, hs, t, ht, hle, hge⟩ := rolled_between hmethod hne
    refine ⟨s, hs, t, ht, ?_, ?_⟩
    · rwa [(hm.denominator s hs).contribution_eq, PyFloat.le_finite]
    · rwa [(hm.denominator t ht).contribution_eq, PyFloat.le_finite]
  by_cases hd : denominator metric scores = []
  case pos =>
    obtain ⟨hvalue, _, hmean⟩ := h.empty hd
    rw [hvalue, hmean]
    exact ⟨fun _ => nofun, nofun⟩
  case neg =>
    obtain ⟨hvalue, _, hmean⟩ := h.measured hd
    rw [hvalue, hmean]
    exact ⟨fun hmethod => hbetween _ hmethod hd, hbetween .mean ⟨nofun, nofun⟩ hd⟩

theorem Summary.rate (h : Summary metric scores expected_n in_progress agg) :
    ∀ v ∈ agg.pass_rate, (PyFloat.finite 0).le v ∧ v.le (.finite 1) := by
  by_cases hd : denominator metric scores = []
  case pos =>
    rw [(h.empty hd).right.left]
    nofun
  case neg =>
    rw [(h.measured hd).right.left]
    intro v hv
    cases hv
    exact ⟨PyFloat.le_finite.mpr pass_rate_bounds.left, PyFloat.le_finite.mpr pass_rate_bounds.right⟩

theorem Summary.accounts (h : Summary metric scores expected_n in_progress agg) :
    agg.n_denominator + agg.skipped_n +
      (if metric.aggregation.on_error = .exclude then agg.error_n else 0) =
        (retained scores).length := by
  rw [h.n_denominator, h.skipped_n, h.error_n]
  exact (length_eq_counts _).symm

-- One and the same denominator gives one and the same value.
theorem Summary.value_congr (h : Summary metric scores expected_n in_progress agg)
    (h' : Summary metric scores' expected_n in_progress agg')
    (hd : denominator metric scores' = denominator metric scores) :
    agg'.value = agg.value ∧ agg'.pass_rate = agg.pass_rate ∧ agg'.mean = agg.mean := by
  by_cases hne : denominator metric scores = []
  case pos =>
    obtain ⟨hv, hr, hm⟩ := h.empty hne
    obtain ⟨hv', hr', hm'⟩ := h'.empty <| hd.trans hne
    exact ⟨hv'.trans hv.symm, hr'.trans hr.symm, hm'.trans hm.symm⟩
  case neg =>
    obtain ⟨hv, hr, hm⟩ := h.measured hne
    obtain ⟨hv', hr', hm'⟩ := h'.measured <| hd.symm ▸ hne
    rw [hd] at hv' hr' hm'
    exact ⟨hv'.trans hv.symm, hr'.trans hr.symm, hm'.trans hm.symm⟩

theorem Summary.finite (h : Summary metric scores expected_n in_progress agg) :
    (∀ v ∈ agg.value, v.isFinite) ∧ (∀ v ∈ agg.pass_rate, v.isFinite) ∧
      ∀ v ∈ agg.mean, v.isFinite := by
  by_cases hne : denominator metric scores = []
  case pos =>
    obtain ⟨hv, hr, hm⟩ := h.empty hne
    rw [hv, hr, hm]
    exact ⟨nofun, nofun, nofun⟩
  case neg =>
    obtain ⟨hv, hr, hm⟩ := h.measured hne
    rw [hv, hr, hm]
    refine ⟨?_, ?_, ?_⟩ <;> intro v hv <;> cases hv <;> rfl

theorem le_refl_of_isFinite {v : PyFloat} (h : v.isFinite) : v.le v := by
  cases v with
  | finite q => exact PyFloat.le_finite.mpr le_rfl
  | _        => cases h

theorem Summary.improved (h : Summary metric (s :: scores) expected_n in_progress agg)
    (h' : Summary metric (s' :: scores) expected_n in_progress agg')
    (hs : s.status = .FAIL) (hs' : s'.status = .PASS) (he : Exact s) (he' : Exact s')
    (hretry : s'.on_retry_override = s.on_retry_override)
    (hle : (contribution s).le (contribution s')) : Raised agg.value agg'.value := by
  cases hr : s.on_retry_override with
  | true  =>
    have hd : denominator metric (s' :: scores) = denominator metric (s :: scores) := by
      rw [denominator_cons_retry hr, denominator_cons_retry (hretry.trans hr)]
    rw [(h.value_congr h' hd).left]
    exact fun v hv => ⟨v, hv, le_refl_of_isFinite <| h.finite.left v hv⟩
  | false =>
    have hd : denominator metric (s :: scores) = s :: denominator metric scores :=
      denominator_cons hr (by rw [hs]; rfl)
    have hd' : denominator metric (s' :: scores) = s' :: denominator metric scores :=
      denominator_cons (hretry.trans hr) (by rw [hs']; rfl)
    rw [he.contribution_eq, he'.contribution_eq, PyFloat.le_finite] at hle
    rw [(h.measured (by simp [hd])).left, (h'.measured (by simp [hd'])).left, hd, hd']
    intro v hv
    cases hv
    exact ⟨_, rfl, PyFloat.le_finite.mpr <| rolled_improved hs hs' hle⟩

theorem Summary.failed (h : Summary metric scores expected_n in_progress agg)
    (h' : Summary metric (e :: scores) expected_n in_progress agg')
    (hon : metric.aggregation.on_error = .fail) (he : e.status = .ERROR) (hscore : e.score = none)
    (hm : Measured metric scores) (hunit : ∀ s ∈ scores, (PyFloat.finite 0).le (contribution s)) :
    Lowered agg.pass_rate agg'.pass_rate ∧ Lowered agg.mean agg'.mean ∧
      (metric.aggregation.method ≠ .sum → Lowered agg.value agg'.value) := by
  cases hr : e.on_retry_override with
  | true  =>
    obtain ⟨hv, hrate, hmean⟩ := h.value_congr h' (denominator_cons_retry hr)
    obtain ⟨hf, hf', hf''⟩ := h.finite
    rw [hv, hrate, hmean]
    exact ⟨fun v hv => ⟨v, hv, le_refl_of_isFinite <| hf' v hv⟩,
      fun v hv => ⟨v, hv, le_refl_of_isFinite <| hf'' v hv⟩,
      fun _ v hv => ⟨v, hv, le_refl_of_isFinite <| hf v hv⟩⟩
  | false =>
    have hd : denominator metric (e :: scores) = e :: denominator metric scores :=
      denominator_cons hr (by rw [he, hon]; rfl)
    have hzero : amount e = 0 := by rw [amount, contribution, hscore, Option.getD_none]
    have hnonneg : ∀ s ∈ denominator metric scores, 0 ≤ amount s := by
      intro s hs
      have hs' := hunit s <| List.mem_of_mem_filter <| List.mem_of_mem_filter hs
      rwa [(hm.denominator s hs).contribution_eq, PyFloat.le_finite] at hs'
    by_cases hne : denominator metric scores = []
    case pos =>
      obtain ⟨hv, hrate, hmean⟩ := h.empty hne
      rw [hv, hrate, hmean]
      exact ⟨nofun, nofun, fun _ => nofun⟩
    case neg =>
      obtain ⟨hv, hrate, hmean⟩ := h.measured hne
      obtain ⟨hv', hrate', hmean'⟩ := h'.measured (by simp [hd])
      have hlowered : ∀ method : Method, method ≠ .sum →
          Lowered (some <| .finite <| rolled method <| denominator metric scores)
            (some <| .finite <| rolled method <| denominator metric (e :: scores)) := by
        intro method hmethod v hv
        cases hv
        rw [hd]
        exact ⟨_, rfl, PyFloat.le_finite.mpr <| rolled_failed hmethod he hzero hnonneg hne⟩
      rw [hv, hrate, hmean, hv', hrate', hmean']
      exact ⟨hlowered .pass_rate nofun, hlowered .mean nofun, hlowered _⟩

def scored (score : Option PyFloat) (status : CaseStatus) : CaseScore where
  metric_id          := "m"
  case_id            := "case"
  score              := score
  passed             := status = .PASS
  evidence_event_ids := []
  status             := status
  message            := ""
  attempt            := 0
  on_retry_override  := false
  provisional        := false
  raw_value          := .null
  evaluator_version  := none

end Evaluators
