import Mathlib.Data.List.Sort

-- Reading a growing set of keys page by page, the greatest first, where each page starts behind the
-- last key of the page before it.
namespace Keyset

variable {κ : Type*} [LinearOrder κ]

-- ORDER BY key DESC
def descending (keys : List κ) : List κ :=
  keys.mergeSort fun a b => b ≤ a

-- The keys behind a cursor.
def rest (cursor : Option κ) (keys : List κ) : List κ :=
  descending <| keys.filter fun k => cursor.all (k < ·)

-- The pages from a cursor on. Between two of them the set of keys may grow.
inductive Walk : List κ → Option κ → List κ → Prop
  | last : Walk keys cursor (rest cursor keys)
  | next (n : ℕ) : ((rest cursor keys).take n).getLast? = some k → keys ⊆ keys' → keys'.Nodup →
    Walk keys' (some k) result → Walk keys cursor ((rest cursor keys).take n ++ result)

variable {keys keys' result : List κ} {cursor : Option κ} {k x : κ} {n : ℕ}

theorem mem_rest : k ∈ rest cursor keys ↔ k ∈ keys ∧ ∀ c ∈ cursor, k < c := by
  rw [rest, descending, List.mem_mergeSort, List.mem_filter]
  cases cursor <;> simp

theorem descending_pairwise (h : keys.Nodup) : (descending keys).Pairwise (· > ·) := by
  have hsorted : (descending keys).Pairwise fun a b => b ≤ a := by
    simpa [descending] using @List.pairwise_mergeSort _ (fun a b : κ => decide (b ≤ a))
      (fun a b c hab hbc => by simpa using le_trans (by simpa using hbc) (by simpa using hab))
      (fun a b => by simpa using le_total b a) keys
  have hnodup : (descending keys).Nodup := List.mergeSort_perm keys _ |>.nodup_iff.mpr h
  exact hsorted.imp₂ (fun _ _ hle hne => lt_of_le_of_ne hle <| Ne.symm hne) hnodup

theorem rest_pairwise (h : keys.Nodup) : (rest cursor keys).Pairwise (· > ·) :=
  descending_pairwise <| h.filter _

theorem eq_of_sorted {l l' : List κ} (h : l.Pairwise (· > ·)) (h' : l'.Pairwise (· > ·))
    (hmem : ∀ x, x ∈ l ↔ x ∈ l') : l = l' :=
  List.Perm.eq_of_pairwise (fun _ _ _ _ hab hba => (hab.asymm hba).elim) h h' <|
    (List.perm_ext_iff_of_nodup (h.imp ne_of_gt) (h'.imp ne_of_gt)).mpr hmem

section Page

variable {l : List κ} (hl : l.Pairwise (· > ·)) (hk : (l.take n).getLast? = some k)

-- The last key of a page separates it from what follows.
include hl hk in
theorem le_of_mem_take (h : x ∈ l.take n) : k ≤ x := by
  obtain ⟨page, hpage⟩ := List.getLast?_eq_some_iff.mp hk
  have hsorted : (l.take n).Pairwise (· > ·) := hl.sublist <| List.take_sublist n l
  rw [hpage] at h hsorted
  rcases List.mem_append.mp h with h | h
  · exact le_of_lt <| (List.pairwise_append.mp hsorted).right.right x h k (.head _)
  · exact le_of_eq (List.mem_singleton.mp h).symm

include hl hk in
theorem lt_of_mem_drop (h : x ∈ l.drop n) : x < k := by
  rw [← List.take_append_drop n l] at hl
  exact (List.pairwise_append.mp hl).right.right k (List.mem_of_getLast? hk) x h

end Page

-- What a page leaves is what its cursor selects.
theorem rest_some (h : keys.Nodup) (hk : ((rest cursor keys).take n).getLast? = some k) :
    rest (some k) keys = (rest cursor keys).drop n := by
  have hsorted : (rest cursor keys).Pairwise (· > ·) := rest_pairwise h
  refine eq_of_sorted (rest_pairwise h) (hsorted.sublist <| List.drop_sublist ..) fun x => ?_
  have hlast := mem_rest.mp <| List.mem_of_mem_take <| List.mem_of_getLast? hk
  constructor
  case mp =>
    intro hx
    obtain ⟨hx, hlt⟩ := mem_rest.mp hx
    have hrest : x ∈ rest cursor keys :=
      mem_rest.mpr ⟨hx, fun c hc => (hlt k rfl).trans <| hlast.right c hc⟩
    rw [← List.take_append_drop n (rest cursor keys)] at hrest
    refine (List.mem_append.mp hrest).resolve_left fun hpage => ?_
    exact absurd (hlt k rfl) <| not_lt_of_ge <| le_of_mem_take hsorted hk hpage
  case mpr =>
    intro hx
    refine mem_rest.mpr ⟨(mem_rest.mp <| List.mem_of_mem_drop hx).left, fun c hc => ?_⟩
    rw [← Option.mem_some_iff.mp hc]
    exact lt_of_mem_drop hsorted hk hx

namespace Walk

-- A walk goes down, from the cursor on.
theorem sorted (w : Walk keys cursor result) (h : keys.Nodup) :
    result.Pairwise (· > ·) ∧ ∀ x ∈ result, ∀ c ∈ cursor, x < c := by
  induction w with
  | last               => exact ⟨rest_pairwise h, fun x hx => (mem_rest.mp hx).right⟩
  | @next cursor _ _ _ _ n hk _ hn _ hi =>
    obtain ⟨hresult, hbehind⟩ := hi hn
    have hpage : (rest cursor _).Pairwise (· > ·) := rest_pairwise h
    refine ⟨List.pairwise_append.mpr ⟨hpage.sublist (List.take_sublist ..), hresult, ?_⟩, ?_⟩
    · intro x hx y hy
      exact lt_of_lt_of_le (hbehind y hy _ rfl) <| le_of_mem_take hpage hk hx
    · intro x hx c hc
      rcases List.mem_append.mp hx with hx | hx
      · exact (mem_rest.mp <| List.mem_of_mem_take hx).right c hc
      · exact (hbehind x hx _ rfl).trans <|
          (mem_rest.mp <| List.mem_of_mem_take <| List.mem_of_getLast? hk).right c hc

-- No key that was there behind the cursor is missed.
theorem covers (w : Walk keys cursor result) (h : keys.Nodup) (hx : x ∈ keys)
    (hcursor : ∀ c ∈ cursor, x < c) : x ∈ result := by
  induction w with
  | last                  => exact mem_rest.mpr ⟨hx, hcursor⟩
  | next n hk hsub hn _ hi =>
    have hrest := mem_rest.mpr ⟨hx, hcursor⟩
    rw [← List.take_append_drop n (rest _ _)] at hrest
    rcases List.mem_append.mp hrest with hpage | hlater
    · exact List.mem_append_left _ hpage
    · have hlt := lt_of_mem_drop (rest_pairwise h) hk hlater
      refine List.mem_append_right _ <| hi hn (hsub hx) fun c hc => ?_
      rwa [← Option.mem_some_iff.mp hc]

-- The keys that were there at the start come once each, in order.
theorem complete {old : κ → Bool} (w : Walk keys none result) (h : keys.Nodup)
    (hold : ∀ x, old x = true ↔ x ∈ keys) : result.filter old = descending keys := by
  obtain ⟨hsorted, _⟩ := w.sorted h
  have hleft : (result.filter old).Pairwise (· > ·) := hsorted.filter _
  have hright := descending_pairwise h
  refine eq_of_sorted hleft hright fun x => ?_
  rw [List.mem_filter, hold, descending, List.mem_mergeSort]
  exact ⟨And.right, fun hx => ⟨w.covers h hx (fun c hc => by cases hc), hx⟩⟩

end Walk

end Keyset
