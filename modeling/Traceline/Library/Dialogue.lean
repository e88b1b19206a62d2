import Traceline.Library.Logged

-- The histories of a program whose calls and questions may be answered by anything.
namespace Prog

variable {S : Sig} {α β : Type}

-- A run to the end: the calls it made, with the replies it got, and what it came to.
inductive Dialogue : Prog S α → List (Event S) → Except S.Error α → Prop
  | pure  : Dialogue (.pure a) [] (.ok a)
  | throw : Dialogue (.throw e) [] (.error e)
  | call {k : Except S.Error (S.Reply c) → Prog S α} (r : Except S.Error (S.Reply c)) :
    Dialogue (k r) h o → Dialogue (.call c k) (⟨c, r⟩ :: h) o
  | ask {k : S.Answer q → Prog S α} (r : S.Answer q) : Dialogue (k r) h o → Dialogue (.ask q k) h o

namespace Dialogue

variable {p : Prog S α} {h h' : List (Event S)} {o : Except S.Error α}

theorem ofExcept (x : Except S.Error α) : Dialogue (Prog.ofExcept x) [] x := by
  cases x with
  | ok a    => exact .pure
  | error e => exact .throw

theorem perform {c : S.Call} (r : Except S.Error (S.Reply c)) :
    Dialogue (Prog.perform c) [⟨c, r⟩] r :=
  .call r (ofExcept r)

theorem bind {g : α → Prog S β} {a : α} {o : Except S.Error β} (d : Dialogue p h (.ok a))
    (d' : Dialogue (g a) h' o) : Dialogue (p >>= g) (h ++ h') o := by
  induction p generalizing h with
  | pure b      =>
    cases d
    exact d'
  | throw e     => cases d
  | call c k ih =>
    cases d with
    | call r d => exact .call r (ih r d)
  | ask q k ih  =>
    cases d with
    | ask r d => exact .ask r (ih r d)

theorem map {g : α → β} {a : α} (d : Dialogue p h (.ok a)) : Dialogue (g <$> p) h (.ok (g a)) := by
  have hbind := bind (g := fun a => Pure.pure (g a)) d .pure
  rwa [List.append_nil] at hbind

theorem tryCatch {g : S.Error → Prog S α} {a : α} (d : Dialogue p h (.ok a)) :
    Dialogue (MonadExcept.tryCatch p g) h (.ok a) := by
  induction p generalizing h with
  | pure b      => exact d
  | throw e     => cases d
  | call c k ih =>
    cases d with
    | call r d => exact .call r (ih r d)
  | ask q k ih  =>
    cases d with
    | ask r d => exact .ask r (ih r d)

theorem pure_inv {a : α} (d : Dialogue (Pure.pure a : Prog S α) h o) : h = [] ∧ o = .ok a := by
  cases d
  exact ⟨rfl, rfl⟩

theorem throw_inv {e : S.Error} (d : Dialogue (MonadExcept.throw e : Prog S α) h o) :
    h = [] ∧ o = .error e := by
  cases d
  exact ⟨rfl, rfl⟩

theorem ofExcept_inv {x : Except S.Error α} (d : Dialogue (Prog.ofExcept x) h o) :
    h = [] ∧ o = x := by
  cases x with
  | ok a    => exact pure_inv d
  | error e => exact throw_inv d

theorem perform_inv {c : S.Call} {o : Except S.Error (S.Reply c)}
    (d : Dialogue (Prog.perform c) h o) : h = [⟨c, o⟩] := by
  cases d with
  | call r d =>
    obtain ⟨rfl, rfl⟩ := ofExcept_inv d
    rfl

theorem query_inv {q : S.Query} {o : Except S.Error (S.Answer q)}
    (d : Dialogue (Prog.query q) h o) : h = [] ∧ ∃ a, o = .ok a := by
  cases d with
  | ask r d =>
    cases d
    exact ⟨rfl, r, rfl⟩

-- A sequence made the calls of its first part, and those of the second if it got there.
theorem bind_inv {g : α → Prog S β} {o : Except S.Error β} (d : Dialogue (p >>= g) h o) :
    (∃ e, o = .error e ∧ Dialogue p h (.error e)) ∨
    ∃ a h₁ h₂, h = h₁ ++ h₂ ∧ Dialogue p h₁ (.ok a) ∧ Dialogue (g a) h₂ o := by
  induction p generalizing h with
  | pure a      => exact .inr ⟨a, [], h, rfl, .pure, d⟩
  | throw e     =>
    cases d
    exact .inl ⟨e, rfl, .throw⟩
  | call c k ih =>
    cases d with
    | call r d =>
      rcases ih r d with ⟨e, ho, d⟩ | ⟨a, h₁, h₂, rfl, d₁, d₂⟩
      · exact .inl ⟨e, ho, .call r d⟩
      · exact .inr ⟨a, _, h₂, rfl, .call r d₁, d₂⟩
  | ask q k ih  =>
    cases d with
    | ask r d =>
      rcases ih r d with ⟨e, ho, d⟩ | ⟨a, h₁, h₂, rfl, d₁, d₂⟩
      · exact .inl ⟨e, ho, .ask r d⟩
      · exact .inr ⟨a, h₁, h₂, rfl, .ask r d₁, d₂⟩

-- What was raised in a block is handled after it.
theorem tryCatch_inv {g : S.Error → Prog S α} (d : Dialogue (MonadExcept.tryCatch p g) h o) :
    (∃ a, o = .ok a ∧ Dialogue p h (.ok a)) ∨
    ∃ e h₁ h₂, h = h₁ ++ h₂ ∧ Dialogue p h₁ (.error e) ∧ Dialogue (g e) h₂ o := by
  induction p generalizing h with
  | pure a      =>
    cases d
    exact .inl ⟨a, rfl, .pure⟩
  | throw e     => exact .inr ⟨e, [], h, rfl, .throw, d⟩
  | call c k ih =>
    cases d with
    | call r d =>
      rcases ih r d with ⟨a, ho, d⟩ | ⟨e, h₁, h₂, rfl, d₁, d₂⟩
      · exact .inl ⟨a, ho, .call r d⟩
      · exact .inr ⟨e, _, h₂, rfl, .call r d₁, d₂⟩
  | ask q k ih  =>
    cases d with
    | ask r d =>
      rcases ih r d with ⟨a, ho, d⟩ | ⟨e, h₁, h₂, rfl, d₁, d₂⟩
      · exact .inl ⟨a, ho, .ask r d⟩
      · exact .inr ⟨e, h₁, h₂, rfl, .ask r d₁, d₂⟩

theorem ofExcept_bind_inv {x : Except S.Error α} {g : α → Prog S β} {o : Except S.Error β}
    (d : Dialogue (Prog.ofExcept x >>= g) h o) :
    (∃ e, x = .error e ∧ h = [] ∧ o = .error e) ∨ ∃ a, x = .ok a ∧ Dialogue (g a) h o := by
  cases x with
  | ok a    => exact .inr ⟨a, rfl, d⟩
  | error e =>
    obtain ⟨rfl, rfl⟩ := throw_inv d
    exact .inl ⟨e, rfl, rfl, rfl⟩

theorem query_bind_inv {q : S.Query} {g : S.Answer q → Prog S β} {o : Except S.Error β}
    (d : Dialogue (Prog.query q >>= g) h o) : ∃ a, Dialogue (g a) h o := by
  cases d with
  | ask r d => exact ⟨r, d⟩

-- A call that is answered is followed by what comes after it, one that raises by nothing.
theorem perform_bind_inv {c : S.Call} {g : S.Reply c → Prog S β} {o : Except S.Error β}
    (d : Dialogue (Prog.perform c >>= g) h o) :
    (∃ e, h = [⟨c, .error e⟩] ∧ o = .error e) ∨
    ∃ a h', h = ⟨c, .ok a⟩ :: h' ∧ Dialogue (g a) h' o := by
  cases d with
  | call r d =>
    cases r with
    | ok a    => exact .inr ⟨a, _, rfl, d⟩
    | error e =>
      obtain ⟨rfl, rfl⟩ := throw_inv d
      exact .inl ⟨e, rfl, rfl⟩

theorem map_inv {g : α → β} {o : Except S.Error β} (d : Dialogue (g <$> p) h o) :
    (∃ e, o = .error e ∧ Dialogue p h (.error e)) ∨ ∃ a, o = .ok (g a) ∧ Dialogue p h (.ok a) := by
  rcases bind_inv (g := fun a => Pure.pure (g a)) d with he | ⟨a, h₁, h₂, rfl, d₁, d₂⟩
  · exact .inl he
  · obtain ⟨rfl, rfl⟩ := pure_inv d₂
    exact .inr ⟨a, rfl, by rwa [List.append_nil]⟩

end Dialogue

-- A run next to a store is one of those histories.
theorem Exec.dialogue {M : Store S} {allow : ∀ q : S.Query, S.Answer q → Prop} {p : Prog S α} {a : α}
    {x y : M.logged.State} (e : Exec M.logged allow p x y (.ok a)) :
    ∃ h, y.2 = x.2 ++ h ∧ Dialogue p h (.ok a) := by
  generalize ho : (Outcome.ok a : Outcome S.Error α) = o at e
  induction e with
  | pure                 =>
    cases ho
    exact ⟨[], (List.append_nil _).symm, .pure⟩
  | throw                => cases ho
  | crash                => cases ho
  | @call c x _ _ _ _ ih =>
    obtain ⟨h, hh, d⟩ := ih ho
    exact ⟨⟨c, (M.perform c x.1).1⟩ :: h, by simp [hh], .call _ d⟩
  | ask _ _ ih           =>
    obtain ⟨h, hh, d⟩ := ih ho
    exact ⟨h, hh, .ask _ d⟩

-- Every call of a run of the program has a property, and what it returns another.
def Emits (P : Event S → Prop) (p : Prog S α) (Q : α → Prop) : Prop :=
  ∀ h o, Dialogue p h o → (∀ e ∈ h, P e) ∧ ∀ a, o = .ok a → Q a

namespace Emits

variable {P : Event S → Prop} {p : Prog S α} {Q Q' : α → Prop} {R : β → Prop}

theorem pure {a : α} (hq : Q a) : Emits P (Pure.pure a) Q := by
  intro h o d
  obtain ⟨rfl, rfl⟩ := d.pure_inv
  exact ⟨List.forall_mem_nil _, fun b hb => Except.ok.inj hb ▸ hq⟩

theorem throw {e : S.Error} : Emits P (MonadExcept.throw e : Prog S α) Q := by
  intro h o d
  obtain ⟨rfl, rfl⟩ := d.throw_inv
  exact ⟨List.forall_mem_nil _, nofun⟩

theorem ofExcept {x : Except S.Error α} (hq : ∀ a, x = .ok a → Q a) :
    Emits P (Prog.ofExcept x) Q := by
  intro h o d
  obtain ⟨rfl, rfl⟩ := d.ofExcept_inv
  exact ⟨List.forall_mem_nil _, hq⟩

theorem query {q : S.Query} {Q : S.Answer q → Prop} (hq : ∀ a, Q a) :
    Emits P (Prog.query q) Q := by
  intro h o d
  obtain ⟨rfl, -⟩ := d.query_inv
  exact ⟨List.forall_mem_nil _, fun a _ => hq a⟩

theorem perform {c : S.Call} {Q : S.Reply c → Prop} (hp : ∀ r, P ⟨c, r⟩) (hq : ∀ a, Q a) :
    Emits P (Prog.perform c) Q := by
  intro h o d
  obtain rfl := d.perform_inv
  exact ⟨fun e he => List.mem_singleton.mp he ▸ hp o, fun a _ => hq a⟩

theorem bind {g : α → Prog S β} (hp : Emits P p Q) (hg : ∀ a, Q a → Emits P (g a) R) :
    Emits P (p >>= g) R := by
  intro h o d
  rcases d.bind_inv with ⟨e, rfl, d₁⟩ | ⟨a, h₁, h₂, rfl, d₁, d₂⟩
  · exact ⟨(hp _ _ d₁).left, nofun⟩
  · obtain ⟨hp₁, hq⟩ := hp _ _ d₁
    obtain ⟨hp₂, hr⟩ := hg a (hq a rfl) _ _ d₂
    exact ⟨List.forall_mem_append.mpr ⟨hp₁, hp₂⟩, hr⟩

theorem tryCatch {g : S.Error → Prog S α} (hp : Emits P p Q) (hg : ∀ e, Emits P (g e) Q) :
    Emits P (MonadExcept.tryCatch p g) Q := by
  intro h o d
  rcases d.tryCatch_inv with ⟨a, rfl, d₁⟩ | ⟨e, h₁, h₂, rfl, d₁, d₂⟩
  · exact hp _ _ d₁
  · obtain ⟨hp₂, hq⟩ := hg e _ _ d₂
    exact ⟨List.forall_mem_append.mpr ⟨(hp _ _ d₁).left, hp₂⟩, hq⟩

theorem map {g : α → β} (hp : Emits P p Q) (hq : ∀ a, Q a → R (g a)) : Emits P (g <$> p) R :=
  hp.bind fun a ha => pure (hq a ha)

theorem ite {c : Prop} [Decidable c] {q : Prog S α} (hp : c → Emits P p Q) (hq : ¬ c → Emits P q Q) :
    Emits P (if c then p else q) Q := by
  split
  case isTrue hc  => exact hp hc
  case isFalse hc => exact hq hc

theorem foldlM {l : List β} {f : α → β → Prog S α} {a : α} (ha : Q a)
    (hf : ∀ a b, Q a → Emits P (f a b) Q) : Emits P (l.foldlM f a) Q := by
  induction l generalizing a with
  | nil         => exact pure ha
  | cons b l ih =>
    rw [List.foldlM_cons]
    exact (hf a b ha).bind fun a' ha' => ih ha'

end Emits

end Prog
