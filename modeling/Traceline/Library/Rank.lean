import Mathlib.Data.List.Sort
import Mathlib.Order.Lattice

-- The values of a list by their rank.
namespace Rank

variable {α : Type*} [LinearOrder α] {l l' : List α} {k k' : ℕ} {x y v v' : α}

def rank (l : List α) (k : ℕ) : Option α :=
  (l.mergeSort fun x y => x ≤ y)[k]?

theorem getElem?_le_iff (h : l.Pairwise (· ≤ ·)) (hv : l[k]? = some v) :
    v ≤ x ↔ k < l.countP (· ≤ x) := by
  induction l generalizing k with
  | nil         => cases hv
  | cons y l ih =>
    obtain ⟨hy, hl⟩ := List.pairwise_cons.mp h
    by_cases hyx : y ≤ x
    case pos =>
      rw [List.countP_cons_of_pos (by simpa using hyx)]
      cases k with
      | zero   =>
        cases hv
        exact iff_of_true hyx <| Nat.succ_pos _
      | succ k => exact (ih hl hv).trans Nat.succ_lt_succ_iff.symm
    case neg =>
      have hnone : l.countP (· ≤ x) = 0 := by
        rw [List.countP_eq_zero]
        intro z hz
        simpa using lt_of_lt_of_le (not_le.mp hyx) (hy z hz)
      rw [List.countP_cons_of_neg (by simpa using hyx), hnone]
      refine iff_of_false (fun hvx => ?_) (Nat.not_lt_zero _)
      rcases List.mem_cons.mp <| List.mem_of_getElem? hv with rfl | hmem
      · exact hyx hvx
      · exact hyx <| (hy v hmem).trans hvx

-- The value of rank `k` is at most `x` where more than `k` values are.
theorem rank_le_iff (h : rank l k = some v) : v ≤ x ↔ k < l.countP (· ≤ x) := by
  rw [getElem?_le_iff (l.pairwise_mergeSort' (· ≤ ·)) h, (l.mergeSort_perm _).countP_eq]

theorem exists_rank (h : k < l.length) : ∃ v, rank l k = some v := by
  have hk : k < (l.mergeSort fun x y => x ≤ y).length := by rwa [List.length_mergeSort]
  exact ⟨_, List.getElem?_eq_getElem hk⟩

theorem mem_of_rank (h : rank l k = some v) : v ∈ l :=
  (l.mergeSort_perm _).mem_iff.mp <| List.mem_of_getElem? h

theorem rank_le_rank (h : rank l k = some v) (h' : rank l' k' = some v')
    (hcount : k < l.countP (· ≤ v) → k' < l'.countP (· ≤ v)) : v' ≤ v :=
  (rank_le_iff h').mpr <| hcount <| (rank_le_iff h).mp le_rfl

theorem rank_perm (hp : l.Perm l') : rank l k = rank l' k := by
  have hcount : ∀ x, l.countP (· ≤ x) = l'.countP (· ≤ x) := fun x => hp.countP_eq _
  by_cases hk : k < l.length
  case pos =>
    obtain ⟨v, hv⟩ := exists_rank hk
    obtain ⟨v', hv'⟩ := exists_rank (hp.length_eq ▸ hk)
    have hle : v ≤ v' := rank_le_rank hv' hv fun hlt => by rwa [hcount]
    have hge : v' ≤ v := rank_le_rank hv hv' fun hlt => by rwa [← hcount]
    rw [hv, hv', le_antisymm hle hge]
  case neg =>
    have hk' : ¬k < l'.length := hp.length_eq ▸ hk
    rw [rank, rank, List.getElem?_eq_none, List.getElem?_eq_none] <;>
      rw [List.length_mergeSort] <;> omega

-- A value does not sink where one value of the list grows.
theorem rank_cons_mono (hxy : x ≤ y) (h : rank (x :: l) k = some v)
    (h' : rank (y :: l) k = some v') : v ≤ v' := by
  refine rank_le_rank h' h fun hlt => hlt.trans_le ?_
  rw [List.countP_cons, List.countP_cons]
  refine Nat.add_le_add_left ?_ _
  by_cases hy : y ≤ v'
  · rw [if_pos (by simpa using hy), if_pos (by simpa using hxy.trans hy)]
  · rw [if_neg (by simpa using hy)]
    exact Nat.zero_le _

-- A new value below all others moves each of them up by one rank.
theorem rank_cons_le (hx : ∀ y ∈ l, x ≤ y) (h : rank l k = some v)
    (h' : rank (x :: l) k' = some v') (hk : k' ≤ k + 1) : v' ≤ v := by
  refine rank_le_rank h h' fun hlt => ?_
  rw [List.countP_cons_of_pos (by simpa using hx v <| mem_of_rank h)]
  omega

-- The least value has rank zero.
theorem rank_zero (hmem : v ∈ l) (hle : ∀ x ∈ l, v ≤ x) : rank l 0 = some v := by
  obtain ⟨w, hw⟩ := exists_rank (List.length_pos_of_mem hmem)
  have hwv : w ≤ v := (rank_le_iff hw).mpr <| List.countP_pos_iff.mpr ⟨v, hmem, by simp⟩
  rw [hw, le_antisymm hwv <| hle w <| mem_of_rank hw]

end Rank
