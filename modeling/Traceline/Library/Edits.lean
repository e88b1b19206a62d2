import Mathlib.Data.List.Basic

-- Edits of a list, each of which drops some of its elements and updates the others.
structure Edit (α : Type*) where
  keep   : α → Bool
  update : α → α

namespace Edit

variable {α β : Type*} {e e' : Edit α} {es : List (Edit α)} {xs : List α} {x : α} {v : α → β}

def apply (e : Edit α) (xs : List α) : List α :=
  (xs.filter e.keep).map e.update

def applyAll (es : List (Edit α)) (xs : List α) : List α :=
  es.foldl (fun xs e => e.apply xs) xs

def updateAll (es : List (Edit α)) (x : α) : α :=
  es.foldl (fun x e => e.update x) x

-- What is dropped does not depend on what has been updated.
def Stable (es : List (Edit α)) : Prop :=
  ∀ e ∈ es, ∀ e' ∈ es, ∀ x, e'.keep (e.update x) = e'.keep x

theorem keep_updateAll (h : ∀ e ∈ es, ∀ x, e'.keep (e.update x) = e'.keep x) :
    e'.keep (updateAll es x) = e'.keep x := by
  induction es generalizing x with
  | nil          => rfl
  | cons e es ih =>
    exact (ih fun e' he' => h e' <| .tail _ he').trans <| h e (.head _) x

theorem applyAll_eq (h : Stable es) :
    applyAll es xs = (xs.filter fun x => es.all fun e => e.keep x).map (updateAll es) := by
  induction es generalizing xs with
  | nil          => exact ((List.map_id _).trans <| List.filter_true _).symm
  | cons e es ih =>
    have hstable : Stable es := fun e he e' he' => h e (.tail _ he) e' (.tail _ he')
    rw [applyAll, List.foldl_cons]
    refine (ih hstable).trans ?_
    rw [apply, List.filter_map, List.filter_filter, List.map_map]
    have hkeep : ∀ x, (((fun x => es.all fun e => e.keep x) ∘ e.update) x && e.keep x) =
        (e :: es).all fun e => e.keep x := by
      intro x
      rw [List.all_cons, Bool.and_comm, Function.comp_apply]
      congr 1
      rw [Bool.eq_iff_iff, List.all_eq_true, List.all_eq_true]
      exact forall₂_congr fun e' he' => by rw [h e (.head _) e' (.tail _ he') x]
    rw [List.filter_congr fun x _ => hkeep x]
    rfl

-- Two filters of a list, one of which is within the other.
theorem map_filter_eq_iff {p q : α → Bool} {f g : α → β} :
    (xs.filter fun x => p x && q x).map f = (xs.filter q).map g ↔
      ∀ x ∈ xs, q x = true → p x = true ∧ f x = g x := by
  rw [← List.filter_filter]
  constructor
  case mpr =>
    intro h
    have hfilter : (xs.filter q).filter p = xs.filter q := by
      refine List.filter_eq_self.mpr fun x hx => ?_
      exact (h x (List.mem_filter.mp hx).left (List.mem_filter.mp hx).right).left
    rw [hfilter]
    refine List.map_congr_left fun x hx => ?_
    exact (h x (List.mem_filter.mp hx).left (List.mem_filter.mp hx).right).right
  case mp  =>
    intro h x hx hq
    have hlength : ((xs.filter q).filter p).length = (xs.filter q).length := by
      have := congrArg List.length h
      rwa [List.length_map, List.length_map] at this
    have hfilter := List.filter_sublist.eq_of_length hlength
    rw [hfilter] at h
    have hx := List.mem_filter.mpr ⟨hx, hq⟩
    exact ⟨List.filter_eq_self.mp hfilter x hx, List.map_inj_left.mp h x hx⟩

-- The last edit alone has the same result as all edits, seen through `v`, exactly if what it keeps
-- is what the others keep too, and looks the same with their updates and without them.
theorem apply_applyAll_eq_iff (h : Stable (e :: es)) :
    (e.apply <| applyAll es xs).map v = (e.apply xs).map v ↔ ∀ x ∈ xs, e.keep x = true →
      (∀ e' ∈ es, e'.keep x = true) ∧ v (e.update <| updateAll es x) = v (e.update x) := by
  have hstable : Stable es := fun e he e' he' => h e (.tail _ he) e' (.tail _ he')
  rw [applyAll_eq hstable, apply, apply, List.filter_map, List.filter_filter, List.map_map,
    List.map_map, List.map_map]
  have hkeep : ∀ x, ((e.keep ∘ updateAll es) x && es.all fun e => e.keep x) =
      ((es.all fun e => e.keep x) && e.keep x) := by
    intro x
    rw [Bool.and_comm, Function.comp_apply,
      keep_updateAll fun e' he' => h e' (.tail _ he') e (.head _)]
  rw [List.filter_congr fun x _ => hkeep x, map_filter_eq_iff]
  refine forall₃_congr fun x _ _ => and_congr_left fun _ => ?_
  exact List.all_eq_true

end Edit
