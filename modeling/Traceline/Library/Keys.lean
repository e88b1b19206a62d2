import Mathlib.Data.List.Sort

-- Association lists in the order of their keys.
namespace Keys

variable {κ : Type} [LinearOrder κ] {α β : Type}

def sort (kvs : List (κ × α)) : List (κ × α) :=
  kvs.insertionSort fun a b => a.1 ≤ b.1

theorem pairwise_sort (kvs : List (κ × α)) : (sort kvs).Pairwise fun a b => a.1 ≤ b.1 :=
  have : Std.Total fun a b : κ × α => a.1 ≤ b.1 := ⟨fun a b => le_total a.1 b.1⟩
  have : IsTrans (κ × α) fun a b => a.1 ≤ b.1 := ⟨fun _ _ _ => le_trans⟩
  List.pairwise_insertionSort _ _

@[simp]
theorem sort_sort (kvs : List (κ × α)) : sort (sort kvs) = sort kvs :=
  (pairwise_sort kvs).insertionSort_eq

-- What is done to the values does not depend on the order.
theorem sort_map (f : α → β) (kvs : List (κ × α)) :
    sort (kvs.map (Prod.map id f)) = (sort kvs).map (Prod.map id f) :=
  (List.map_insertionSort _ _ (Prod.map id f) kvs fun _ _ _ _ => Iff.rfl).symm

theorem lookup_orderedInsert (kv : κ × α) (kvs : List (κ × α)) (k : κ) :
    (kvs.orderedInsert (fun a b => a.1 ≤ b.1) kv).lookup k = (kv :: kvs).lookup k := by
  induction kvs with
  | nil           => rfl
  | cons kv' kvs ih =>
    rw [List.orderedInsert_cons]
    split
    case isTrue    => rfl
    case isFalse h =>
      -- The key of the one that is passed is another.
      have hne : kv'.1 ≠ kv.1 := fun he => h he.ge
      rw [List.lookup_cons, ih, List.lookup_cons, List.lookup_cons, List.lookup_cons]
      by_cases hk : k = kv'.1
      · rw [hk, beq_self_eq_true, beq_false_of_ne hne]
      · rw [beq_false_of_ne hk]

-- The sort is stable: of two entries with one key, the same one is found.
@[simp]
theorem lookup_sort (kvs : List (κ × α)) (k : κ) : (sort kvs).lookup k = kvs.lookup k := by
  unfold sort
  induction kvs with
  | nil          => rfl
  | cons kv kvs ih =>
    rw [List.insertionSort_cons, lookup_orderedInsert, List.lookup_cons, List.lookup_cons, ih]

@[simp]
theorem sort_eq_nil_iff {kvs : List (κ × α)} : sort kvs = [] ↔ kvs = [] := by
  rw [← List.length_eq_zero_iff, sort, List.length_insertionSort, List.length_eq_zero_iff]

theorem lookup_map (f : α → β) (kvs : List (κ × α)) (k : κ) :
    (kvs.map (Prod.map id f)).lookup k = (kvs.lookup k).map f := by
  induction kvs with
  | nil          => rfl
  | cons kv kvs ih =>
    rw [List.map_cons, List.lookup_cons, List.lookup_cons, ih, Prod.map_fst, id_eq]
    cases k == kv.1 <;> rfl

end Keys
