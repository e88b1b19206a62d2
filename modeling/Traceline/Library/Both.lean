import Traceline.Library.Except

namespace Except

-- Two computations that yield related values, or both fail.
inductive Both {ε α β : Type*} (R : α → β → Prop) : Except ε α → Except ε β → Prop
  | ok {a b} : R a b → Both R (.ok a) (.ok b)
  | error {e e'} : Both R (.error e) (.error e')

variable {ε α β γ δ : Type _}

namespace Both

variable {R : α → β → Prop} {S : γ → δ → Prop} {x : Except ε α} {y : Except ε β} {a : α}
variable {l l' : List α}

theorem bind {f : α → Except ε γ} {g : β → Except ε δ} (h : Both R x y)
    (hf : ∀ a b, x = .ok a → y = .ok b → R a b → Both S (f a) (g b)) :
    Both S (x >>= f) (y >>= g) := by
  cases h with
  | ok hr => exact hf _ _ rfl rfl hr
  | error => exact .error

theorem mapError {ε' : Type _} {f : ε → ε'} (h : Both R x y) :
    Both R (x.mapError f) (y.mapError f) := by
  cases h with
  | ok hr => exact .ok hr
  | error => exact .error

theorem symm (h : Both R x y) : Both (fun b a => R a b) y x := by
  cases h with
  | ok hr => exact .ok hr
  | error => exact .error

theorem trans {T : α → γ → Prop} {U : β → γ → Prop} {z : Except ε γ} (h : Both R x y)
    (h' : Both U y z) (ht : ∀ a b c, R a b → U b c → T a c) : Both T x z := by
  cases h with
  | ok hr =>
    cases h' with
    | ok hu => exact .ok (ht _ _ _ hr hu)
  | error =>
    cases h' with
    | error => exact .error

theorem mono {T : α → β → Prop} (h : Both R x y) (ht : ∀ a b, R a b → T a b) : Both T x y := by
  cases h with
  | ok hr => exact .ok (ht _ _ hr)
  | error => exact .error

theorem refl {R : α → α → Prop} (hr : ∀ a, R a a) : Both R x x := by
  cases x with
  | ok a    => exact .ok (hr a)
  | error e => exact .error

theorem exists_of_ok (h : Both R (.ok a) y) : ∃ b, y = .ok b ∧ R a b := by
  cases h with
  | ok hr => exact ⟨_, rfl, hr⟩

-- A test keeps the same elements of a list in whatever order they stand.
theorem filter_perm (p : α → Except ε Bool) (h : l.Perm l') :
    Both List.Perm (filter p l) (filter p l') := by
  induction h with
  | nil          => exact .ok .nil
  | cons a _ ih  =>
    refine .bind (.refl fun _ => rfl) fun keep _ _ _ hk => .bind ih fun rest rest' _ _ hr => .ok ?_
    subst hk
    cases keep
    · exact hr
    · exact hr.cons a
  | swap a b l   =>
    unfold filter filter
    cases p a with
    | error e =>
      cases p b with
      | error e => exact .error
      | ok keep => exact .error
    | ok keep =>
      cases p b with
      | error e  => exact .error
      | ok keep' =>
        cases filter p l with
        | error e => exact .error
        | ok rest =>
          refine .ok ?_
          cases keep
          · exact .refl _
          · cases keep'
            · exact .refl _
            · exact .swap a b rest
  | trans _ _ ih ih' => exact ih.trans ih' fun _ _ _ h h' => h.trans h'

end Both

-- The results of a traversal have counterparts under a relation on both sides.
def Setwise (S : γ → δ → Prop) (rs : List γ) (rs' : List δ) : Prop :=
  (∀ r ∈ rs, ∃ r' ∈ rs', S r r') ∧ ∀ r' ∈ rs', ∃ r ∈ rs, S r r'

-- A traversal in another order yields the counterparts of what it yields in the first.
theorem Both.mapM_setwise {S : γ → δ → Prop} {f : α → Except ε γ} {g : α → Except ε δ}
    {l l' : List α} (h : ∀ a, a ∈ l ↔ a ∈ l') (hf : ∀ a ∈ l, Both S (f a) (g a)) :
    Both (Setwise S) (l.mapM f) (l'.mapM g) := by
  cases hl : l.mapM f with
  | error e =>
    cases hl' : l'.mapM g with
    | error e' => exact .error
    | ok rs'   =>
      have ⟨a, ha, he⟩ := mapM_eq_error hl
      have ⟨r', _, hr'⟩ := (mapM_eq_ok_iff.mp hl').exists_of_mem_left ((h a).mp ha)
      have hb := hf a ha
      rw [he, hr'] at hb
      cases hb
  | ok rs   =>
    have hok : ∀ a ∈ l', ∃ r', g a = .ok r' := by
      intro a ha
      have ha := (h a).mpr ha
      have ⟨r, _, hr⟩ := (mapM_eq_ok_iff.mp hl).exists_of_mem_left ha
      have ⟨r', hr', _⟩ := (hr ▸ hf a ha).exists_of_ok
      exact ⟨r', hr'⟩
    have ⟨rs', hl'⟩ := exists_mapM_eq_ok_iff.mpr hok
    rw [hl']
    refine .ok ⟨fun r hr => ?_, fun r' hr' => ?_⟩
    · have ⟨a, ha, hr⟩ := exists_of_mapM_eq_ok hl hr
      have ⟨r', hg, hs⟩ := (hr ▸ hf a ha).exists_of_ok
      have ⟨b, hb, hb'⟩ := (mapM_eq_ok_iff.mp hl').exists_of_mem_left ((h a).mp ha)
      exact ⟨r', Except.ok.inj (hb'.symm.trans hg) ▸ hb, hs⟩
    · have ⟨a, ha, hr'⟩ := exists_of_mapM_eq_ok hl' hr'
      have ha := (h a).mpr ha
      have ⟨r, hrs, hr⟩ := (mapM_eq_ok_iff.mp hl).exists_of_mem_left ha
      have hb := hf a ha
      rw [hr, hr'] at hb
      cases hb with
      | ok hs => exact ⟨r, hrs, hs⟩

end Except
