import Mathlib.Data.Finset.Card
import Mathlib.Logic.Function.Iterate
import Mathlib.Logic.Relation

-- The ancestors in a graph in which everything has one parent at most.
namespace Ancestry

variable {α : Type*} {parent : α → Option α} {a b d : α} {k m n : ℕ}

def Ancestor (parent : α → Option α) : α → α → Prop :=
  Relation.TransGen fun a d => parent d = some a

-- Where a number of steps up leads.
def up (parent : α → Option α) (k : ℕ) : Option α → Option α :=
  (·.bind parent)^[k]

theorem up_succ {o : Option α} : up parent (k + 1) o = up parent k (o.bind parent) :=
  Function.iterate_succ_apply ..

theorem up_add {o : Option α} : up parent (m + n) o = up parent m (up parent n o) :=
  Function.iterate_add_apply ..

theorem up_none : up parent k none = none :=
  Function.iterate_fixed (by rfl) k

-- Steps up that lead somewhere led somewhere all the way.
theorem exists_up_of_le {o : Option α} (h : up parent n o = some a) (hm : m ≤ n) :
    ∃ b, up parent m o = some b := by
  rw [← Nat.sub_add_cancel hm, up_add] at h
  cases hb : up parent m o with
  | some b => exact ⟨b, rfl⟩
  | none   =>
    rw [hb, up_none] at h
    cases h

theorem ancestor_iff : Ancestor parent a d ↔ ∃ k, up parent (k + 1) (some d) = some a := by
  constructor
  case mp =>
    intro h
    induction h with
    | single h    => exact ⟨0, h⟩
    | tail _ h ih =>
      obtain ⟨k, hk⟩ := ih
      refine ⟨k + 1, ?_⟩
      rw [up_succ, Option.bind_some, h]
      exact hk
  case mpr =>
    rintro ⟨k, hk⟩
    induction k generalizing d with
    | zero      => exact .single hk
    | succ k ih =>
      rw [up_succ, Option.bind_some] at hk
      cases hp : parent d with
      | none   =>
        rw [hp, up_none] at hk
        cases hk
      | some p =>
        rw [hp] at hk
        exact (ih hk).tail hp

-- Where all parents are among finitely many, an ancestor is reached before a step is repeated.
theorem exists_up_lt {l : Finset α} (hl : ∀ x y, parent x = some y → y ∈ l)
    (h : up parent (k + 1) (some d) = some a) :
    ∃ j < l.card, up parent (j + 1) (some d) = some a := by
  induction k using Nat.strong_induction_on with
  | _ k ih =>
    by_cases hk : k < l.card
    case pos => exact ⟨k, hk, h⟩
    case neg =>
      have hmem : ∀ i, ∃ b, i ≤ k → up parent (i + 1) (some d) = some b ∧ b ∈ l := by
        intro i
        by_cases hi : i ≤ k
        case neg => exact ⟨d, fun h => absurd h hi⟩
        case pos =>
          obtain ⟨b, hb⟩ := exists_up_of_le (m := i + 1) h (by omega)
          obtain ⟨c, hc⟩ := exists_up_of_le (m := i) h (by omega)
          refine ⟨b, fun _ => ⟨hb, hl c b ?_⟩⟩
          rw [Nat.add_comm, up_add, hc] at hb
          exact hb
      choose f hf using hmem
      have hcard : l.card < (Finset.range (k + 1)).card := by
        rw [Finset.card_range]
        omega
      have hmaps : ∀ i ∈ Finset.range (k + 1), f i ∈ l :=
        fun i hi => (hf i <| Nat.lt_succ_iff.mp <| Finset.mem_range.mp hi).right
      obtain ⟨i, hi, j, hj, hne, hsame⟩ := Finset.exists_ne_map_eq_of_card_lt_of_maps_to hcard hmaps
      rw [Finset.mem_range, Nat.lt_succ_iff] at hi hj
      have hcut : ∀ {i j}, i < j → j ≤ k → f i = f j →
          ∃ n < l.card, up parent (n + 1) (some d) = some a := by
        intro i j hij hj hsame
        refine ih (k - (j - i)) (by omega) ?_
        rw [show k - (j - i) + 1 = (k - j) + (i + 1) by omega, up_add, (hf i (by omega)).left, hsame,
          ← (hf j hj).left, ← up_add, show k - j + (j + 1) = k + 1 by omega]
        exact h
      rcases Nat.lt_or_gt_of_ne hne with hij | hij
      · exact hcut hij hj hsame
      · exact hcut hij hi hsame.symm

end Ancestry
