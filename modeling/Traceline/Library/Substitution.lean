import Mathlib.Data.List.Infix

-- Replacing the matches of a pattern from left to right, and what matches of a pattern, the same or
-- another one, are left.
namespace Substitution

variable {α : Type}

-- The match of a pattern at a position, given what comes before and after it. A match is not empty.
structure Pattern (α : Type) where
  run         : Option α → List α → Option (List α)
  run_prefix  : ∀ {a xs m}, run a xs = some m → m <+: xs
  run_ne_nil  : ∀ {a xs m}, run a xs = some m → m ≠ []

-- What comes before the rest of a text, after some of it has been read.
def last (a : Option α) (us : List α) : Option α :=
  us.getLast?.or a

section

variable {a : Option α} {x : α} {us vs : List α}

@[simp]
theorem last_nil : last a [] = a := by
  simp [last]

theorem last_append : last a (us ++ vs) = last (last a us) vs := by
  rw [last, last, last, List.getLast?_append, Option.or_assoc]

@[simp]
theorem last_cons : last a (x :: us) = last (some x) us := by
  rw [← List.singleton_append, last_append]
  rfl

end

namespace Pattern

variable (p q : Pattern α) (repl : List α → List α)

-- A text with each match replaced. The search goes on behind a match.
def sub (a : Option α) : List α → List α
  | []      => []
  | x :: xs =>
    match p.run a (x :: xs) with
    | none   => x :: sub (some x) xs
    | some m => repl m ++ sub (last a m) (xs.drop (m.length - 1))
  termination_by xs => xs.length
  decreasing_by all_goals simp; try omega

def search (a : Option α) : List α → Bool
  | []      => false
  | x :: xs => (p.run a (x :: xs)).isSome || search (some x) xs

-- All matches in a text, at whatever position, are of the given kind.
def Only (ok : List α → Prop) (a : Option α) (xs : List α) : Prop :=
  ∀ us vs m, xs = us ++ vs → p.run (last a us) vs = some m → ok m

-- The pattern has no match in a text.
def Free (a : Option α) (xs : List α) : Prop :=
  p.Only (fun _ => False) a xs

-- A text in which one pattern has a match at each position at which another one has.
def Covered (a : Option α) (xs : List α) : Prop :=
  ∀ us vs, xs = us ++ vs → q.run (last a us) vs = none → p.run (last a us) vs = none

variable {p q : Pattern α} {repl : List α → List α} {ok : List α → Prop}
variable {a b : Option α} {x : α} {us vs xs m t : List α}

@[simp]
theorem run_nil : p.run a [] = none := by
  cases h : p.run a [] with
  | none   => rfl
  | some m => exact absurd (List.prefix_nil.mp (p.run_prefix h)) (p.run_ne_nil h)

theorem sub_of_none (h : p.run a (x :: xs) = none) :
    p.sub repl a (x :: xs) = x :: p.sub repl (some x) xs := by
  rw [sub, h]

theorem sub_of_some (h : p.run a (m ++ t) = some m) :
    p.sub repl a (m ++ t) = repl m ++ p.sub repl (last a m) t := by
  cases m with
  | nil       => exact absurd rfl (p.run_ne_nil h)
  | cons x xs =>
    rw [List.cons_append] at h ⊢
    rw [sub, h]
    dsimp only
    rw [List.length_cons, Nat.add_sub_cancel, List.drop_left]

-- The match at a position, split off from what comes after it.
theorem exists_match (h : p.run a xs = some m) : ∃ t, xs = m ++ t ∧ p.run a (m ++ t) = some m := by
  obtain ⟨t, rfl⟩ := p.run_prefix h
  exact ⟨t, rfl, h⟩

-- A replaced text is the text itself up to its first match.
theorem sub_cases (p : Pattern α) (repl : List α → List α) (a : Option α) (xs : List α) :
    p.sub repl a xs = xs ∨ ∃ us m t, xs = us ++ (m ++ t) ∧ p.run (last a us) (m ++ t) = some m ∧
      p.sub repl a xs = us ++ (repl m ++ p.sub repl (last (last a us) m) t) := by
  induction xs generalizing a with
  | nil          => exact .inl (by rw [sub])
  | cons x xs ih =>
    cases h : p.run a (x :: xs) with
    | some m =>
      obtain ⟨t, hxs, hm⟩ := exists_match h
      exact .inr ⟨[], m, t, hxs, by rwa [last_nil], by rw [hxs, sub_of_some hm]; simp⟩
    | none   =>
      rw [sub_of_none h]
      cases ih (some x) with
      | inl hsub => exact .inl (by rw [hsub])
      | inr hsub =>
        obtain ⟨us, m, t, rfl, hm, hsub⟩ := hsub
        exact .inr ⟨x :: us, m, t, rfl, by rwa [last_cons], by rw [hsub, last_cons]; rfl⟩

theorem free_of_search (h : p.search a xs = false) : p.Free a xs := by
  induction xs generalizing a with
  | nil          =>
    intro us vs m hxs hm
    obtain ⟨-, rfl⟩ := List.append_eq_nil_iff.mp hxs.symm
    rw [run_nil] at hm
    cases hm
  | cons x xs ih =>
    rw [search, Bool.or_eq_false_iff] at h
    intro us vs m hxs hm
    cases us with
    | nil       =>
      rw [List.nil_append] at hxs
      rw [last_nil, ← hxs] at hm
      simp [hm] at h
    | cons y us =>
      obtain ⟨rfl, htail⟩ := List.cons.inj hxs
      rw [last_cons] at hm
      exact ih h.right us vs m htail hm

theorem Free.sub (h : p.Free a xs) : p.sub repl a xs = xs := by
  cases sub_cases p repl a xs with
  | inl hsub => exact hsub
  | inr hsub =>
    obtain ⟨us, m, t, rfl, hm, -⟩ := hsub
    exact (h us _ _ rfl hm).elim

theorem Only.mono {ok' : List α → Prop} (h : p.Only ok a xs) (hok : ∀ m, ok m → ok' m) :
    p.Only ok' a xs :=
  fun us vs m hxs hm => hok _ <| h us vs m hxs hm

theorem Free.run (h : p.Free a (us ++ vs)) : p.run (last a us) vs = none := by
  cases hm : p.run (last a us) vs with
  | none   => rfl
  | some m => exact (h us vs m rfl hm).elim

theorem Free.run_append (h : p.Free a (us ++ vs ++ xs)) : p.run (last a us) (vs ++ xs) = none := by
  rw [List.append_assoc] at h
  exact h.run

theorem Free.covered (h : p.Free a xs) : p.Covered q a xs := by
  rintro us vs rfl -
  exact h.run

theorem covered_self : p.Covered p a xs :=
  fun _ _ _ h => h

theorem Covered.of_append (h : p.Covered q a (us ++ vs)) : p.Covered q (last a us) vs := by
  intro us' vs' hvs hm
  rw [← last_append] at hm ⊢
  exact h (us ++ us') vs' (by rw [hvs, List.append_assoc]) hm

-- What the matches of a pattern must keep to so that replacing those of another one makes no new
-- ones: none reaches into a replaced match from before it, none starts behind a match, and those
-- that start within a replaced one are of the given kind.
structure Keeps (p q : Pattern α) (repl : List α → List α) (ok : List α → Prop) : Prop where
  reach  : ∀ {a us m t rest}, us ≠ [] → q.run (last a us) (m ++ t) = some m →
    p.run a (us ++ (m ++ t)) = none → p.run a (us ++ (repl m ++ rest)) = none
  within : ∀ {a b us vs m t m'}, q.run a (m ++ t) = some m → repl m = us ++ vs → vs ≠ [] →
    p.run (last b us) (vs ++ q.sub repl (last a m) t) = some m' → ok m'
  behind : ∀ {a b m t}, q.run a (m ++ t) = some m → p.run b t = none

theorem Keeps.only_sub (h : Keeps p q repl ok) (hb : q.run a xs = none → p.run b xs = none)
    (hxs : p.Covered q a xs) : p.Only ok b (q.sub repl a xs) := by
  induction hk : xs.length using Nat.strong_induction_on generalizing a b xs with
  | _ k ih =>
    cases xs with
    | nil       =>
      intro us vs m hnil hm
      rw [Pattern.sub] at hnil
      obtain ⟨rfl, rfl⟩ := List.append_eq_nil_iff.mp hnil.symm
      rw [run_nil] at hm
      cases hm
    | cons x xs =>
      cases hq : q.run a (x :: xs) with
      | none   =>
        have hcover : p.Covered q a ([x] ++ xs) := hxs
        have hrest : p.Only ok (some x) (q.sub repl (some x) xs) :=
          ih xs.length (by simp at hk; omega) (hxs [x] xs rfl) hcover.of_append rfl
        have hx : p.run b (x :: q.sub repl (some x) xs) = none := by
          cases sub_cases q repl (some x) xs with
          | inl hsub => rw [hsub, hb hq]
          | inr hsub =>
            obtain ⟨us, m, t, rfl, hm, hsub⟩ := hsub
            rw [← last_cons] at hm
            rw [hsub]
            exact h.reach (List.cons_ne_nil x us) hm (hb hq)
        intro us vs m hsub hm
        rw [sub_of_none hq] at hsub
        cases us with
        | nil       =>
          rw [← show x :: q.sub repl (some x) xs = vs from hsub, last_nil, hx] at hm
          cases hm
        | cons y us =>
          obtain ⟨rfl, htail⟩ := List.cons.inj hsub
          rw [last_cons] at hm
          exact hrest us vs m htail hm
      | some m =>
        obtain ⟨t, hmt, hm⟩ := exists_match hq
        rw [hmt] at hk hxs ⊢
        rw [sub_of_some hm]
        have hpos := List.length_pos_of_ne_nil (q.run_ne_nil hm)
        have hrest (b) : p.Only ok b (q.sub repl (last a m) t) :=
          ih t.length (by simp at hk; omega) (fun _ => h.behind hm) hxs.of_append rfl
        intro us vs m' hsub hm'
        rcases List.append_eq_append_iff.mp hsub with ⟨us', rfl, hvs⟩ | ⟨vs', hrepl, rfl⟩
        · rw [last_append] at hm'
          exact hrest _ us' vs m' hvs hm'
        · cases vs' with
          | nil        => exact hrest _ [] _ m' rfl hm'
          | cons y vs' => exact h.within hm hrepl (List.cons_ne_nil _ _) hm'

-- A pattern whose matches keep to those of another one has none after these are replaced, either.
theorem Keeps.free_sub (h : Keeps p q repl fun _ => False) (hxs : p.Free a xs) :
    p.Free a (q.sub repl a xs) := by
  refine h.only_sub (fun _ => ?_) hxs.covered
  rw [← List.nil_append xs] at hxs
  exact hxs.run

theorem Keeps.only_sub_self (h : Keeps p p repl ok) : p.Only ok a (p.sub repl a xs) :=
  h.only_sub (fun hnone => hnone) covered_self

end Pattern

end Substitution
