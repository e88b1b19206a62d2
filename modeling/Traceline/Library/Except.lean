import Traceline.Library.Forall2

namespace Except

variable {ε α β : Type _} {x : Except ε α} {f : α → Except ε β} {a : α} {b : β} {e : ε}
variable {l : List α} {bs : List β}

theorem bind_eq_ok_iff : x >>= f = .ok b ↔ ∃ a, x = .ok a ∧ f a = .ok b := by
  cases x <;> simp [bind, Except.bind]

theorem bind_eq_error_iff :
    x >>= f = .error e ↔ x = .error e ∨ ∃ a, x = .ok a ∧ f a = .error e := by
  cases x <;> simp [bind, Except.bind]

theorem map_eq_ok_iff {f : α → β} : x.map f = .ok b ↔ ∃ a, x = .ok a ∧ f a = b := by
  cases x <;> simp [Except.map]

theorem exists_of_toOption_map {f : α → β} (h : (x.map f).toOption = some b) :
    ∃ a, x = .ok a ∧ f a = b := by
  cases x with
  | error e => cases h
  | ok a    => exact ⟨a, rfl, Option.some.inj h⟩

theorem map_eq_error_iff {f : α → β} : x.map f = .error e ↔ x = .error e := by
  cases x <;> simp [Except.map]

theorem mapError_eq_ok_iff {ε' : Type _} {f : ε → ε'} : x.mapError f = .ok a ↔ x = .ok a := by
  cases x <;> simp [Except.mapError]

-- The test of all elements stops at the first one that fails it.
theorem allM_eq_ok_true_iff {p : α → Except ε Bool} :
    l.allM p = .ok true ↔ ∀ a ∈ l, p a = .ok true := by
  induction l with
  | nil         => exact iff_of_true rfl (by simp)
  | cons a l ih =>
    rw [List.forall_mem_cons, List.allM, bind_eq_ok_iff, ← ih]
    constructor
    · rintro ⟨_ | _, ha, h⟩
      · cases h
      · exact ⟨ha, h⟩
    · exact fun ⟨ha, h⟩ => ⟨true, ha, h⟩

-- A test that comes out alike for all elements.
theorem allM_eq_of_forall {p : α → Except ε Bool} {r : Except ε Bool} (hl : l ≠ [])
    (h : ∀ a ∈ l, p a = r) : l.allM p = r := by
  induction l with
  | nil         => contradiction
  | cons a l ih =>
    rw [List.forall_mem_cons] at h
    rw [List.allM, h.left]
    match r, l with
    | .error _,   _      => rfl
    | .ok false,  _      => rfl
    | .ok true,   []     => rfl
    | .ok true,   b :: l => exact ih (by simp) h.right

-- A traversal goes through where it does at every element.
theorem mapM_eq_ok_iff : l.mapM f = .ok bs ↔ List.Forall₂ (fun a b => f a = .ok b) l bs := by
  induction l generalizing bs with
  | nil =>
    rw [List.mapM_nil, List.forall₂_nil_left_iff]
    exact ⟨fun h => (Except.ok.inj h).symm, fun h => h ▸ rfl⟩
  | cons a l ih =>
    rw [List.mapM_cons, bind_eq_ok_iff, List.forall₂_cons_left_iff]
    simp only [bind_eq_ok_iff, ih]
    constructor
    · rintro ⟨b, hb, bs', hbs, ⟨⟩⟩
      exact ⟨b, bs', hb, hbs, rfl⟩
    · rintro ⟨b, bs', hb, hbs, rfl⟩
      exact ⟨b, hb, bs', hbs, rfl⟩

theorem mapM_eq_error (h : l.mapM f = .error e) : ∃ a ∈ l, f a = .error e := by
  induction l with
  | nil          => cases h
  | cons a l ih =>
    rw [List.mapM_cons, bind_eq_error_iff] at h
    rcases h with h | ⟨b, _, h⟩
    · exact ⟨a, .head _, h⟩
    · rcases bind_eq_error_iff.mp h with h | ⟨bs, _, h⟩
      · have ⟨a', ha', he⟩ := ih h
        exact ⟨a', .tail _ ha', he⟩
      · cases h

theorem forM_eq_error {f : α → Except ε Unit} (h : l.forM f = .error e) :
    ∃ a ∈ l, f a = .error e := by
  induction l with
  | nil          => cases h
  | cons a l ih =>
    rcases bind_eq_error_iff (f := fun _ => l.forM f) |>.mp h with h | ⟨_, _, h⟩
    · exact ⟨a, .head _, h⟩
    · have ⟨a', ha', he⟩ := ih h
      exact ⟨a', .tail _ ha', he⟩

theorem forM_eq_ok_iff {f : α → Except ε Unit} : l.forM f = .ok () ↔ ∀ a ∈ l, f a = .ok () := by
  induction l with
  | nil         => exact iff_of_true rfl (by simp)
  | cons a l ih =>
    rw [List.forall_mem_cons, ← ih]
    exact bind_eq_ok_iff (f := fun _ => l.forM f) |>.trans
      ⟨fun ⟨_, ha, hl⟩ => ⟨ha, hl⟩, fun ⟨ha, hl⟩ => ⟨_, ha, hl⟩⟩

theorem exists_mapM_eq_ok_iff : (∃ bs, l.mapM f = .ok bs) ↔ ∀ a ∈ l, ∃ b, f a = .ok b := by
  induction l with
  | nil          => exact iff_of_true ⟨[], rfl⟩ (by simp)
  | cons a l ih =>
    rw [List.forall_mem_cons, ← ih]
    simp only [mapM_eq_ok_iff, List.forall₂_cons_left_iff]
    exact ⟨fun ⟨_, b, bs, hb, hbs, _⟩ => ⟨⟨b, hb⟩, bs, hbs⟩,
      fun ⟨⟨b, hb⟩, bs, hbs⟩ => ⟨_, b, bs, hb, hbs, rfl⟩⟩

-- Whatever a traversal produced came from an element.
theorem exists_of_mapM_eq_ok (h : l.mapM f = .ok bs) (hb : b ∈ bs) : ∃ a ∈ l, f a = .ok b :=
  mapM_eq_ok_iff.mp h |>.exists_of_mem_right hb

-- The elements on which a test that may fail yields true.
def filter (p : α → Except ε Bool) : List α → Except ε (List α)
  | []     => .ok []
  | a :: l => do
    let keep ← p a
    let rest ← filter p l
    return if keep then a :: rest else rest

theorem mem_of_mem_filter {p : α → Except ε Bool} {out : List α} (h : filter p l = .ok out)
    (ha : a ∈ out) : a ∈ l := by
  induction l generalizing out with
  | nil         =>
    cases h
    cases ha
  | cons b l ih =>
    obtain ⟨keep, -, h⟩ := bind_eq_ok_iff.mp h
    obtain ⟨rest, hr, h⟩ := bind_eq_ok_iff.mp h
    cases h
    cases keep
    case false => exact .tail _ (ih hr ha)
    case true  =>
      rcases List.mem_cons.mp ha with rfl | ha
      · exact .head _
      · exact .tail _ (ih hr ha)

-- The errors of a computation are not of the given kind.
def Avoids (bad : ε → Prop) (x : Except ε α) : Prop :=
  ∀ e, x = .error e → ¬ bad e

namespace Avoids

variable {bad : ε → Prop} {p : α → Except ε Bool}

theorem ok : Avoids bad (.ok a) :=
  nofun

theorem error (h : ¬ bad e) : Avoids bad (.error e : Except ε α) :=
  fun _ he => Except.error.inj he ▸ h

theorem bind (hx : Avoids bad x) (hf : ∀ a, x = .ok a → Avoids bad (f a)) :
    Avoids bad (x >>= f) := by
  intro e h
  rcases bind_eq_error_iff.mp h with h | ⟨a, ha, h⟩
  · exact hx e h
  · exact hf a ha e h

theorem mapM (h : ∀ a ∈ l, Avoids bad (f a)) : Avoids bad (l.mapM f) := by
  intro e he
  have ⟨a, ha, hf⟩ := mapM_eq_error he
  exact h a ha e hf

theorem filter (h : ∀ a ∈ l, Avoids bad (p a)) : Avoids bad (Except.filter p l) := by
  induction l with
  | nil         => exact ok
  | cons a l ih =>
    rw [List.forall_mem_cons] at h
    exact bind h.left fun _ _ => bind (ih h.right) fun _ _ => ok

theorem foldlM {g : β → α → Except ε β} (h : ∀ b, ∀ a ∈ l, Avoids bad (g b a)) (b : β) :
    Avoids bad (l.foldlM g b) := by
  induction l generalizing b with
  | nil         => exact ok
  | cons a l ih =>
    rw [List.foldlM_cons]
    exact bind (h b a <| .head _) fun b' _ => ih (fun b a ha => h b a <| .tail _ ha) b'

theorem mapError {ε' : Type _} {bad : ε' → Prop} {g : ε → ε'} (h : ∀ e, ¬ bad (g e)) :
    Avoids bad (x.mapError g) := by
  cases x with
  | ok a    => exact ok
  | error e => exact error (h e)

end Avoids

end Except
