import Traceline.Library.May
import Traceline.Library.Pool
import Traceline.Library.Wp

-- A store that keeps the history of the calls it served beside its state.
abbrev Store.logged {S : Sig} (M : Store S) : Store S where
  State       := M.State × List (Event S)
  perform c x := ((M.perform c x.1).1, (M.perform c x.1).2, x.2 ++ [⟨c, (M.perform c x.1).1⟩])

namespace Prog

variable {S : Sig} {M N : Store S} {α : Type} {allow : ∀ q : S.Query, S.Answer q → Prop}
variable {p : Prog S α} {s t : M.State} {h : List (Event S)} {o : Outcome S.Error α}

-- All that is asked is that `I` holds wherever a run may end.
def Spec.always (N : Store S) (allow : ∀ q : S.Query, S.Answer q → Prop) (I : N.State → Prop) :
    Spec N where
  allow := allow
  inv   := I
  error := fun _ => I

variable {I P : N.State → Prop} {D : S.Call → Prop} {x : N.State}

end Prog

-- Properties of the history of a program that each of its calls must keep, where what one part of
-- the program has learned of the history is still there for the next.
namespace Prog

variable {S : Sig} {M : Store S} {allow : ∀ q : S.Query, S.Answer q → Prop} {α β : Type}
variable {I : List (Event S) → Prop} {h : List (Event S)} {Q : α → List (Event S) → Prop}

-- A run that started with the history `h` leaves one that extends it and has the property.
def Spec.growing (M : Store S) (allow : ∀ q : S.Query, S.Answer q → Prop)
    (I : List (Event S) → Prop) (h : List (Event S)) : Spec M.logged where
  allow     := allow
  inv x     := I x.2
  error _ x := h <+: x.2 ∧ I x.2

-- The program keeps `I` and comes to `Q`, from any state of the store with the history `h`.
def Keeps (M : Store S) (allow : ∀ q : S.Query, S.Answer q → Prop) (I : List (Event S) → Prop)
    (p : Prog S α) (h : List (Event S)) (Q : α → List (Event S) → Prop) : Prop :=
  ∀ s : M.State, p.wp (.growing M allow I h) (fun a x => h <+: x.2 ∧ I x.2 ∧ Q a x.2) (s, h)

namespace Keeps

theorem exec {p : Prog S α} {s t : M.State} {h' : List (Event S)} {o : Outcome S.Error α}
    (hp : Keeps M allow I p h Q) (hi : I h) (e : Exec M.logged allow p (s, h) (t, h') o) : I h' :=
  wp_sound (c := .growing M allow I h) e hi (hp s) |>.left

theorem exec_ok {p : Prog S α} {s : M.State} {x : M.logged.State} {a : α}
    (hp : Keeps M allow I p h Q) (hi : I h) (e : Exec M.logged allow p (s, h) x (.ok a)) : Q a x.2 :=
  wp_sound (c := .growing M allow I h) e hi (hp s) |>.right.right.right

theorem pure {a : α} (hi : I h) (hq : Q a h) : Keeps M allow I (Pure.pure a) h Q :=
  fun _ => ⟨List.prefix_refl h, hi, hq⟩

theorem throw {e : S.Error} (hi : I h) : Keeps M allow I (MonadExcept.throw e : Prog S α) h Q :=
  fun _ => ⟨List.prefix_refl h, hi⟩

theorem ofExcept {x : Except S.Error α} (hi : I h) (hq : ∀ a, x = .ok a → Q a h) :
    Keeps M allow I (Prog.ofExcept x) h Q := by
  cases x with
  | ok a    => exact pure hi <| hq a rfl
  | error e => exact throw hi

-- The history of a call that keeps the property extends by it.
theorem perform {c : S.Call} {Q : S.Reply c → List (Event S) → Prop}
    (hi : ∀ r, I (h ++ [⟨c, r⟩])) (hq : ∀ a, Q a (h ++ [⟨c, .ok a⟩])) :
    Keeps M allow I (Prog.perform c) h Q := by
  intro s
  rw [wp_perform]
  refine ⟨hi _, ?_⟩
  dsimp only
  generalize (M.perform c s).1 = r
  cases r with
  | ok a    => exact ⟨List.prefix_append _ _, hi _, hq a⟩
  | error e => exact ⟨List.prefix_append _ _, hi _⟩

-- What is kept from a later history on is kept from an earlier one.
theorem wp_of_prefix {p : Prog S α} {h' : List (Event S)} {s : M.State} (hp : h <+: h')
    (hk : Keeps M allow I p h' Q) :
    p.wp (.growing M allow I h) (fun a x => h <+: x.2 ∧ I x.2 ∧ Q a x.2) (s, h') :=
  wp_mono (fun _ _ hq => ⟨hp.trans hq.left, hq.right⟩) <|
    wp_weaken (c := .growing M allow I h') (fun _ _ ha => ha) (fun _ hi => hi)
      (fun _ _ he => ⟨hp.trans he.left, he.right⟩) (hk s)

theorem bind {p : Prog S α} {g : α → Prog S β} {R : β → List (Event S) → Prop}
    (hp : Keeps M allow I p h Q)
    (hg : ∀ a h', h <+: h' → I h' → Q a h' → Keeps M allow I (g a) h' R) :
    Keeps M allow I (p >>= g) h R := by
  intro s
  rw [wp_bind]
  exact wp_mono (fun a x hq => wp_of_prefix hq.left (hg a x.2 hq.left hq.right.left hq.right.right))
    (hp s)

-- What is not a call leaves the history as it is.
theorem ofExcept_bind {x : Except S.Error α} {g : α → Prog S β} {R : β → List (Event S) → Prop}
    (hi : I h) (hg : ∀ a, x = .ok a → Keeps M allow I (g a) h R) :
    Keeps M allow I (Prog.ofExcept x >>= g) h R := by
  cases x with
  | ok a    => exact hg a rfl
  | error e => exact throw hi

theorem query_bind {q : S.Query} {g : S.Answer q → Prog S β} {R : β → List (Event S) → Prop}
    (hg : ∀ a, Keeps M allow I (g a) h R) : Keeps M allow I (Prog.query q >>= g) h R :=
  fun s a _ => hg a s

theorem mono {p : Prog S α} {R : α → List (Event S) → Prop} (hp : Keeps M allow I p h Q)
    (hq : ∀ a h', h <+: h' → I h' → Q a h' → R a h') : Keeps M allow I p h R :=
  fun s => wp_mono (fun a x hx => ⟨hx.left, hx.right.left, hq a x.2 hx.left hx.right.left hx.right.right⟩)
    (hp s)

theorem tryCatch {p : Prog S α} {g : S.Error → Prog S α} (hp : Keeps M allow I p h Q)
    (hg : ∀ e h', h <+: h' → I h' → Keeps M allow I (g e) h' Q) :
    Keeps M allow I (MonadExcept.tryCatch p g) h Q := by
  intro s
  refine (wp_tryCatch p g _).mpr ?_
  exact wp_weaken (c := .growing M allow I h) (fun _ _ ha => ha) (fun _ hi => hi)
    (fun e x he => wp_of_prefix he.left (hg e x.2 he.left he.right)) (hp s)

theorem map {p : Prog S α} {g : α → β} {R : β → List (Event S) → Prop}
    (hp : Keeps M allow I p h Q) (hq : ∀ a h', Q a h' → R (g a) h') :
    Keeps M allow I (g <$> p) h R :=
  hp.bind fun a _ _ hi ha => pure hi (hq a _ ha)

theorem ite {c : Prop} [Decidable c] {p q : Prog S α} (hp : c → Keeps M allow I p h Q)
    (hq : ¬ c → Keeps M allow I q h Q) : Keeps M allow I (if c then p else q) h Q := by
  split
  case isTrue hc  => exact hp hc
  case isFalse hc => exact hq hc

theorem foldlM {l : List β} {f : α → β → Prog S α} {a : α} (hi : I h) (ha : Q a h)
    (hf : ∀ a b h', h <+: h' → I h' → Q a h' → Keeps M allow I (f a b) h' Q) :
    Keeps M allow I (l.foldlM f a) h Q := by
  induction l generalizing a h with
  | nil         => exact pure hi ha
  | cons b l ih =>
    rw [List.foldlM_cons]
    exact (hf a b h (List.prefix_refl h) hi ha).bind fun a' h' hp hi' ha' =>
      ih hi' ha' fun a b h'' hp' => hf a b h'' (hp.trans hp')

end Keeps

end Prog
