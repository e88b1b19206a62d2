import Mathlib.Data.Nat.ModEq

-- Turns that visit the places of a circle one after the other.
namespace Rotation

-- How many places lie between the start of a turn and place `i`.
def distance (n start i : ℕ) : ℕ :=
  (i + (n - start % n)) % n

variable {n start d m i : ℕ} {turns : List (ℕ × ℕ)}

theorem distance_lt (hn : 0 < n) : distance n start i < n :=
  Nat.mod_lt _ hn

theorem add_distance (hi : i < n) : (start + distance n start i) % n = i := by
  have hlt : start % n < n := Nat.mod_lt _ <| Nat.zero_lt_of_lt hi
  have hsum : start % n + (i + (n - start % n)) = i + n := by omega
  rw [distance, Nat.add_mod_mod, ← Nat.mod_add_mod, hsum, Nat.add_mod_right, Nat.mod_eq_of_lt hi]

theorem eq_distance (hd : d < n) (h : (start + d) % n = i) : d = distance n start i := by
  have hi : i < n := h ▸ Nat.mod_lt _ (Nat.zero_lt_of_lt hd)
  have hmod : start + d ≡ start + distance n start i [MOD n] := h.trans (add_distance hi).symm
  have hcancel : d ≡ distance n start i [MOD n] := Nat.ModEq.add_left_cancel' start hmod
  rwa [Nat.ModEq, Nat.mod_eq_of_lt hd, Nat.mod_eq_of_lt (distance_lt <| Nat.zero_lt_of_lt hd)]
    at hcancel

-- Where a turn starts further along, as much less is left.
theorem distance_add (hi : i < n) (hm : m ≤ distance n start i) :
    distance n (start + m) i = distance n start i - m := by
  have hlt : distance n start i < n := distance_lt <| Nat.zero_lt_of_lt hi
  refine (eq_distance (by omega) ?_).symm
  rw [Nat.add_assoc, Nat.add_sub_cancel' hm, add_distance hi]

-- Each turn visits `v` places, and the next one starts up to `v` places further along.
inductive Rotates (n : ℕ) : ℕ → List (ℕ × ℕ) → Prop
  | nil {s} : Rotates n s []
  | cons {s next k v rest} : 1 ≤ k → k ≤ v → next % n = (s + k) % n →
    Rotates n next rest → Rotates n s ((s, v) :: rest)

theorem distance_congr {start' : ℕ} (h : start % n = start' % n) :
    distance n start i = distance n start' i := by
  rw [distance, distance, h]

-- More turns than there are places ahead of `i` reach it.
theorem Rotates.exists_reached (h : Rotates n start turns) (hi : i < n)
    (hlength : distance n start i < turns.length) :
    ∃ turn ∈ turns, distance n turn.1 i < turn.2 := by
  induction h with
  | nil                                  => cases hlength
  | @cons start next m v turns hm hmv hnext _ ih =>
    by_cases hv : distance n start i < v
    case pos => exact ⟨_, .head _, hv⟩
    case neg =>
      have hdistance : distance n next i = distance n start i - m := by
        rw [distance_congr hnext]
        exact distance_add hi <| hmv.trans <| Nat.le_of_not_lt hv
      rw [List.length_cons] at hlength
      obtain ⟨turn, hmem, hreached⟩ := ih (by omega)
      exact ⟨turn, .tail _ hmem, hreached⟩

end Rotation
