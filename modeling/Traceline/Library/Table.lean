import Mathlib.Algebra.BigOperators.Group.List.Basic
import Mathlib.Data.List.Nodup

variable {κ ρ : Type} [DecidableEq κ]

-- The rows of a relation with a primary key, in the order they were inserted.
structure Table (key : ρ → κ) where
  rows  : List ρ
  nodup : (rows.map key).Nodup

namespace Table

variable {key : ρ → κ}

instance : Membership ρ (Table key) where
  mem t r := r ∈ t.rows

def empty : Table key where
  rows  := []
  nodup := .nil

-- SELECT … WHERE key = k
def find (t : Table key) (k : κ) : Option ρ :=
  t.rows.find? (key · = k)

-- INSERT, which is none where it violates the primary key.
def insert (t : Table key) (r : ρ) : Option (Table key) :=
  if h : key r ∈ t.rows.map key then none
  else some {
    rows  := t.rows ++ [r]
    nodup := by simpa using t.nodup.concat h
  }

-- UPDATE … SET f WHERE p, for an update that does not touch the key
def update (t : Table key) (p : ρ → Bool) (f : ρ → ρ) (hf : ∀ r, key (f r) = key r) :
    Table key where
  rows  := t.rows.map fun r => if p r then f r else r
  nodup := by
    have h : key ∘ (fun r => if p r then f r else r) = key := by
      funext r
      simp only [Function.comp]
      split <;> simp [hf]
    simpa [h] using t.nodup

-- INSERT … ON CONFLICT DO UPDATE, which replaces the row in its place.
def upsert (t : Table key) (r : ρ) : Table key where
  rows  :=
    if key r ∈ t.rows.map key then t.rows.map fun r' => if key r' = key r then r else r'
    else t.rows ++ [r]
  nodup := by
    split
    case isTrue h =>
      have hk : key ∘ (fun r' => if key r' = key r then r else r') = key := by
        funext r'
        simp only [Function.comp]
        split <;> simp_all
      simpa [hk] using t.nodup
    case isFalse h => simpa using t.nodup.concat h

-- DELETE … WHERE p
def delete (t : Table key) (p : ρ → Bool) : Table key where
  rows  := t.rows.filter fun r => !p r
  nodup := t.nodup.sublist <| List.filter_sublist.map key

variable {t : Table key} {r r' : ρ} {k : κ}

omit [DecidableEq κ] in
theorem mem_rows : r ∈ t ↔ r ∈ t.rows :=
  Iff.rfl

omit [DecidableEq κ] in
theorem eq_of_key_eq (h : r ∈ t) (h' : r' ∈ t) (hk : key r = key r') : r = r' :=
  List.inj_on_of_nodup_map t.nodup h h' hk

theorem find_eq_some_iff : t.find k = some r ↔ r ∈ t ∧ key r = k where
  mp h := ⟨List.mem_of_find?_eq_some h, by simpa using List.find?_some h⟩
  mpr := by
    intro ⟨hm, hk⟩
    have hs : (t.find k).isSome := List.find?_isSome.mpr ⟨r, hm, by simpa using hk⟩
    obtain ⟨r', hr'⟩ := Option.isSome_iff_exists.mp hs
    have hk' : key r' = k := by simpa using List.find?_some hr'
    rw [hr', t.eq_of_key_eq (List.mem_of_find?_eq_some hr') hm (hk'.trans hk.symm)]

theorem find_key (h : r ∈ t) : t.find (key r) = some r :=
  find_eq_some_iff.mpr ⟨h, rfl⟩

theorem find_eq_none_iff : t.find k = none ↔ ∀ r ∈ t, key r ≠ k := by
  simp [find, mem_rows]

@[simp]
theorem find_empty : (empty : Table key).find k = none :=
  rfl

theorem key_of_find (h : t.find k = some r) : key r = k :=
  find_eq_some_iff.mp h |>.right

@[simp]
theorem find_update {p : ρ → Bool} {f : ρ → ρ} {hf : ∀ r, key (f r) = key r} :
    (t.update p f hf).find k = (t.find k).map fun r => if p r then f r else r := by
  have h : (fun r => decide (key r = k)) ∘ (fun r => if p r then f r else r) =
      fun r => decide (key r = k) := by
    funext r
    simp only [Function.comp]
    split <;> simp [hf]
  rw [find, update, List.find?_map, h]
  rfl

omit [DecidableEq κ] in
theorem mem_update {p : ρ → Bool} {f : ρ → ρ} {hf : ∀ r, key (f r) = key r} :
    r ∈ t.update p f hf ↔ ∃ r' ∈ t, (if p r' then f r' else r') = r :=
  List.mem_map

omit [DecidableEq κ] in
theorem mem_delete {p : ρ → Bool} : r ∈ t.delete p ↔ r ∈ t ∧ p r = false := by
  simp [delete, mem_rows]

theorem find_delete {k' : κ} :
    (t.delete (key · = k)).find k' = if k' = k then none else t.find k' := by
  split
  case isTrue h  =>
    subst h
    exact find_eq_none_iff.mpr fun r hr => by simpa using (mem_delete.mp hr).right
  case isFalse h =>
    cases hf : t.find k' with
    | none   =>
      exact find_eq_none_iff.mpr fun r hr => find_eq_none_iff.mp hf r (mem_delete.mp hr).left
    | some r =>
      obtain ⟨hr, rfl⟩ := find_eq_some_iff.mp hf
      exact find_key <| mem_delete.mpr ⟨hr, by simpa using h⟩

-- SELECT * … WHERE key = k
theorem filter_key : t.rows.filter (key · = k) = (t.find k).toList := by
  obtain ⟨rows, hn⟩ := t
  change rows.filter (key · = k) = (rows.find? (key · = k)).toList
  induction rows with
  | nil          => rfl
  | cons r rows ih =>
    obtain ⟨hr, hn⟩ := List.nodup_cons.mp hn
    rw [List.filter_cons, List.find?_cons]
    by_cases h : key r = k
    case neg => simpa [h] using ih hn
    case pos =>
      have hrest : rows.filter (key · = k) = [] :=
        List.filter_eq_nil_iff.mpr fun r' hr' => by
          simpa using fun h' => hr <| List.mem_map.mpr ⟨r', hr', h'.trans h.symm⟩
      simp [h, hrest]

theorem key_mem_iff : key r ∈ t.rows.map key ↔ ∃ r', t.find (key r) = some r' := by
  rw [← Option.isSome_iff_exists, Option.isSome_iff_ne_none, Ne, find_eq_none_iff]
  simp [mem_rows]

theorem insert_eq_none_iff : t.insert r = none ↔ ∃ r', t.find (key r) = some r' := by
  rw [← key_mem_iff]
  unfold insert
  split
  case isTrue h  => simp only [h]
  case isFalse h => simp only [h, reduceCtorEq]

theorem insert_eq_some_iff {t' : Table key} :
    t.insert r = some t' ↔ t.find (key r) = none ∧ t'.rows = t.rows ++ [r] := by
  have hn : key r ∉ t.rows.map key ↔ t.find (key r) = none := by
    simp [find_eq_none_iff, mem_rows]
  unfold insert
  split
  case isTrue h  => simp [← hn, h]
  case isFalse h =>
    rw [← hn, Option.some_inj]
    exact ⟨fun e => ⟨h, e ▸ rfl⟩, fun ⟨_, e⟩ => by cases t'; simp_all⟩

theorem find_insert {t' : Table key} (h : t.insert r = some t') :
    t'.find k = if key r = k then some r else t.find k := by
  have ⟨hn, hr⟩ := insert_eq_some_iff.mp h
  by_cases hk : key r = k
  · subst hk
    rw [find] at hn
    rw [find, hr, List.find?_append, hn]
    simp
  · simp [find, hr, List.find?_append, hk]

theorem find_upsert : (t.upsert r).find k = if key r = k then some r else t.find k := by
  by_cases hm : key r ∈ t.rows.map key
  · have hrows : (t.upsert r).rows = t.rows.map fun r' => if key r' = key r then r else r' :=
      if_pos hm
    have hk : (fun r' => decide (key r' = k)) ∘ (fun r' => if key r' = key r then r else r') =
        fun r' => decide (key r' = k) := by
      funext r'
      simp only [Function.comp]
      split <;> simp_all
    rw [find, hrows, List.find?_map, hk]
    change (t.find k).map _ = _
    split
    case isTrue h =>
      obtain ⟨r', hr', hkr⟩ := List.mem_map.mp hm
      have hf : t.find k = some r' := find_eq_some_iff.mpr ⟨hr', hkr.trans h⟩
      simp [hf, hkr]
    case isFalse h =>
      cases hf : t.find k with
      | none    => rfl
      | some r' => simp [key_of_find hf, Ne.symm h]
  · have hrows : (t.upsert r).rows = t.rows ++ [r] := if_neg hm
    rw [find, hrows, List.find?_append]
    change (t.find k).or _ = _
    split
    case isTrue h =>
      have hf : t.find k = none := by
        rw [find_eq_none_iff]
        exact fun r' hr' hk => hm <| List.mem_map.mpr ⟨r', hr', hk.trans h.symm⟩
      simp [hf, h]
    case isFalse h => simp [h]

theorem find_foldl_upsert {rs : List ρ} (h : ∀ r ∈ rs, key r ≠ k) :
    (rs.foldl upsert t).find k = t.find k := by
  induction rs generalizing t with
  | nil          => rfl
  | cons r rs ih =>
    rw [List.foldl_cons, ih fun r' hr' => h r' <| .tail _ hr', find_upsert,
      if_neg <| h r <| .head _]

-- Upserts of distinct keys all stay.
theorem find_foldl_upsert_of_mem {rs : List ρ} (h : r ∈ rs) (hn : (rs.map key).Nodup) :
    (rs.foldl upsert t).find (key r) = some r := by
  induction rs generalizing t with
  | nil           => cases h
  | cons r' rs ih =>
    obtain ⟨hne, hn⟩ := List.nodup_cons.mp hn
    rw [List.foldl_cons]
    cases h with
    | head      =>
      have hrest : ∀ r' ∈ rs, key r' ≠ key r := fun r' hr' hk =>
        hne <| hk ▸ List.mem_map_of_mem hr'
      rw [find_foldl_upsert hrest, find_upsert, if_pos rfl]
    | tail _ h => exact ih h hn

-- Rows of distinct keys stay as they came.
theorem rows_foldl_upsert {rs : List ρ} (hn : (t.rows.map key ++ rs.map key).Nodup) :
    (rs.foldl upsert t).rows = t.rows ++ rs := by
  induction rs generalizing t with
  | nil          => exact (List.append_nil _).symm
  | cons r rs ih =>
    have hr : key r ∉ t.rows.map key := fun hr =>
      (List.nodup_append.mp hn).right.right _ hr _ (.head _) rfl
    have hrows : (t.upsert r).rows = t.rows ++ [r] := if_neg hr
    rw [List.foldl_cons, ih, hrows, List.append_assoc, List.singleton_append]
    rwa [hrows, List.map_append, List.map_singleton, List.append_assoc, List.singleton_append]

theorem mem_upsert (h : r' ∈ t.upsert r) : r' = r ∨ r' ∈ t ∧ key r' ≠ key r := by
  have hnodup := (t.upsert r).find_key h
  rw [find_upsert] at hnodup
  split at hnodup
  case isTrue hk  => exact .inl (Option.some_inj.mp hnodup).symm
  case isFalse hk => exact .inr ⟨(find_eq_some_iff.mp hnodup).left, fun hk' => hk hk'.symm⟩

theorem mem_of_foldl_upsert {rs : List ρ} (h : r ∈ rs.foldl upsert t) : r ∈ t ∨ r ∈ rs := by
  induction rs generalizing t with
  | nil           => exact .inl h
  | cons r' rs ih =>
    rcases ih h with h | h
    · rcases mem_upsert h with h | h
      · exact .inr <| h ▸ .head _
      · exact .inl h.left
    · exact .inr <| .tail _ h

section Sums

variable {ε M : Type} [AddCommMonoid M]

theorem sum_map_ite {rows : List ρ} (hn : (rows.map key).Nodup) {k : κ} (hk : k ∈ rows.map key) (x : M) :
    (rows.map fun r => if k = key r then x else 0).sum = x := by
  induction rows with
  | nil          => cases hk
  | cons r rows ih =>
    obtain ⟨hr, hn⟩ := List.nodup_cons.mp hn
    rw [List.map_cons, List.sum_cons]
    by_cases h : k = key r
    · have hrest : (rows.map fun r => if k = key r then x else 0).sum = 0 := by
        refine List.sum_eq_zero fun y hy => ?_
        obtain ⟨r', hr', rfl⟩ := List.mem_map.mp hy
        refine if_neg fun h' => hr ?_
        rw [← h, h']
        exact List.mem_map_of_mem hr'
      rw [if_pos h, hrest, add_zero]
    · rw [if_neg h, zero_add]
      exact ih hn <| (List.mem_cons.mp hk).resolve_left h

-- What the rows of another relation sum up to, row by row of the one they refer to.
theorem sum_by_key {l : List ε} (ref : ε → κ) (f : ε → M) (h : ∀ e ∈ l, ref e ∈ t.rows.map key) :
    (t.rows.map fun r => ((l.filter (ref · = key r)).map f).sum).sum = (l.map f).sum := by
  induction l with
  | nil      => simp
  | cons e l ih =>
    have hrow : ∀ r, (((e :: l).filter (ref · = key r)).map f).sum =
        (if ref e = key r then f e else 0) + ((l.filter (ref · = key r)).map f).sum := by
      intro r
      by_cases he : ref e = key r <;> simp [he]
    simp only [hrow, List.sum_map_add]
    rw [sum_map_ite t.nodup (h e (.head _)), ih fun e' he' => h e' (.tail _ he'), List.map_cons,
      List.sum_cons]

end Sums

end Table
