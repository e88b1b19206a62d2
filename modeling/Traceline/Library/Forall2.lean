import Mathlib.Data.List.Forall2

namespace List.Forall₂

variable {α β : Type*} {R : α → β → Prop} {l : List α} {l' : List β} {a : α} {b : β}

theorem exists_of_mem_left (h : Forall₂ R l l') (ha : a ∈ l) : ∃ b ∈ l', R a b := by
  induction h with
  | nil            => cases ha
  | cons hr _ ih =>
    cases ha with
    | head        => exact ⟨_, .head _, hr⟩
    | tail _ ha =>
      have ⟨b, hb, hr⟩ := ih ha
      exact ⟨b, .tail _ hb, hr⟩

theorem exists_of_mem_right (h : Forall₂ R l l') (hb : b ∈ l') : ∃ a ∈ l, R a b :=
  h.flip.exists_of_mem_left hb

theorem map_eq {γ : Type*} {f : α → γ} {g : β → γ} (h : Forall₂ R l l')
    (hR : ∀ a b, R a b → f a = g b) : l.map f = l'.map g := by
  induction h with
  | nil           => rfl
  | cons hr _ ih => rw [List.map_cons, List.map_cons, hR _ _ hr, ih]

theorem countP_eq {p : α → Bool} {q : β → Bool} (h : Forall₂ R l l')
    (hR : ∀ a b, R a b → p a = q b) : l.countP p = l'.countP q := by
  induction h with
  | nil          => rfl
  | cons hr _ ih => rw [List.countP_cons, List.countP_cons, hR _ _ hr, ih]

theorem filterMap_eq {γ : Type*} {f : α → Option γ} {g : β → Option γ} (h : Forall₂ R l l')
    (hR : ∀ a b, R a b → f a = g b) : l.filterMap f = l'.filterMap g := by
  induction h with
  | nil          => rfl
  | cons hr _ ih => rw [List.filterMap_cons, List.filterMap_cons, hR _ _ hr, ih]

theorem imp_of_mem {S : α → β → Prop} (h : Forall₂ R l l')
    (hR : ∀ a ∈ l, ∀ b ∈ l', R a b → S a b) : Forall₂ S l l' := by
  induction h with
  | nil           => exact .nil
  | cons hr _ ih =>
    exact .cons (hR _ (.head _) _ (.head _) hr) <|
      ih fun a ha b hb => hR a (.tail _ ha) b (.tail _ hb)

theorem comp_of_mem {γ : Type*} {S : β → γ → Prop} {T : α → γ → Prop} {l'' : List γ}
    (h : Forall₂ R l l') (h' : Forall₂ S l' l'')
    (hT : ∀ a ∈ l, ∀ b c, R a b → S b c → T a c) : Forall₂ T l l'' := by
  induction h generalizing l'' with
  | nil          =>
    cases h'
    exact .nil
  | cons hr _ ih =>
    cases h' with
    | cons hs h' =>
      exact .cons (hT _ (.head _) _ _ hr hs) <| ih h' fun a ha => hT a (.tail _ ha)

theorem of_mem_zip (h : Forall₂ R l l') (hp : (a, b) ∈ l.zip l') : R a b := by
  induction h with
  | nil          => cases hp
  | cons hr _ ih =>
    rw [List.zip_cons_cons] at hp
    rcases List.mem_cons.mp hp with h | hp
    · cases h
      exact hr
    · exact ih hp

theorem exists_mem_zip_of_mem_left (h : Forall₂ R l l') (ha : a ∈ l) : ∃ b, (a, b) ∈ l.zip l' := by
  induction h with
  | nil          => cases ha
  | cons hr _ ih =>
    rcases List.mem_cons.mp ha with rfl | ha
    · exact ⟨_, .head _⟩
    · obtain ⟨b, hb⟩ := ih ha
      exact ⟨b, .tail _ hb⟩

theorem exists_mem_zip_of_mem_right (h : Forall₂ R l l') (hb : b ∈ l') :
    ∃ a, (a, b) ∈ l.zip l' := by
  induction h with
  | nil          => cases hb
  | cons hr _ ih =>
    rcases List.mem_cons.mp hb with rfl | hb
    · exact ⟨_, .head _⟩
    · obtain ⟨a, ha⟩ := ih hb
      exact ⟨a, .tail _ ha⟩

theorem snoc (h : Forall₂ R l l') (hr : R a b) : Forall₂ R (l ++ [a]) (l' ++ [b]) :=
  rel_append h (.cons hr .nil)

end List.Forall₂
