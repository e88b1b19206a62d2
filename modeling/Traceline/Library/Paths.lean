import Mathlib.Data.List.DropRight

-- Paths as what stands between the separators of a text.
namespace Paths

variable {α : Type*} [DecidableEq α] {sep : α} {dot up : List α} {text text' : List α}

-- The segments that lead somewhere: an empty one or a `dot` stays where it is.
def segments (sep : α) (dot text : List α) : List (List α) :=
  (text.splitOn sep).filter fun s => s ≠ [] ∧ s ≠ dot

-- A segment that leads nowhere.
def Redundant (sep : α) (dot text : List α) : Prop :=
  ∃ s ∈ text.splitOn sep, s = [] ∨ s = dot

instance : Decidable (Redundant sep dot text) :=
  inferInstanceAs (Decidable (∃ s ∈ text.splitOn sep, s = [] ∨ s = dot))

-- Where a path leads from `root` when `up` steps back.
def resolve (up : List α) (root path : List (List α)) : List (List α) :=
  path.foldl (fun place s => if s = up then place.dropLast else place ++ [s]) root

theorem segments_of_not_redundant (h : ¬ Redundant sep dot text) :
    segments sep dot text = text.splitOn sep := by
  refine List.filter_eq_self.mpr fun s hs => decide_eq_true ?_
  exact not_or.mp fun hnowhere => h ⟨s, hs, hnowhere⟩

-- Without segments that lead nowhere, a path has one spelling.
theorem eq_of_segments_eq (h : ¬ Redundant sep dot text) (h' : ¬ Redundant sep dot text')
    (hsegments : segments sep dot text = segments sep dot text') : text = text' := by
  rw [segments_of_not_redundant h, segments_of_not_redundant h'] at hsegments
  have htext : [sep].intercalate (text.splitOn sep) = text := List.intercalate_splitOn sep
  rw [← htext, hsegments, List.intercalate_splitOn]

theorem segments_concat : segments sep dot (text ++ [sep]) = segments sep dot text := by
  rw [segments, List.splitOn_append_cons_self, List.filter_append, List.splitOn_nil]
  simp [segments]

theorem segments_rdropWhile :
    segments sep dot (text.rdropWhile (· == sep)) = segments sep dot text := by
  induction text using List.reverseRecOn with
  | nil              => rfl
  | append_singleton text c ih =>
    rw [List.rdropWhile_concat]
    split
    case isTrue hc  => rw [ih, LawfulBEq.eq_of_beq hc, segments_concat]
    case isFalse hc => rfl

theorem resolve_eq {root path : List (List α)} (h : up ∉ path) :
    resolve up root path = root ++ path := by
  induction path generalizing root with
  | nil            => exact (List.append_nil _).symm
  | cons s path ih =>
    have hs : s ≠ up := fun hs => h <| hs ▸ .head _
    have hstep : resolve up root (s :: path) = resolve up (root ++ [s]) path := by
      rw [resolve, List.foldl_cons, if_neg hs, ← resolve]
    rw [hstep, ih fun hpath => h <| .tail _ hpath, List.append_assoc, List.singleton_append]

end Paths
