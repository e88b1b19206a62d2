import Traceline.Library.Prog

namespace Prog

variable {S : Sig} {M : Store S} {α β : Type}

-- What a run is checked against: the answers its environment may give, an assertion on every
-- state a call leaves behind (where the process may die), and one on every state it raises in.
structure Spec (M : Store S) where
  allow : ∀ q : S.Query, S.Answer q → Prop
  inv   : M.State → Prop
  error : S.Error → M.State → Prop

def wp (c : Spec M) : Prog S α → (α → M.State → Prop) → M.State → Prop
  | .pure a,   Q, s => Q a s
  | .throw e,  _, s => c.error e s
  | .call d k, Q, s => c.inv (M.perform d s).2 ∧ (k (M.perform d s).1).wp c Q (M.perform d s).2
  | .ask q k,  Q, s => ∀ r, c.allow q r → (k r).wp c Q s

-- What an outcome owes under a specification.
def Spec.Meets (c : Spec M) (Q : α → M.State → Prop) (s : M.State) : Outcome S.Error α → Prop
  | .ok a    => Q a s
  | .error e => c.error e s
  | .crash   => True

section Soundness

variable {c : Spec M} {p : Prog S α} {Q : α → M.State → Prop} {s t : M.State}

theorem wp_sound {o : Outcome S.Error α} (e : Exec M c.allow p s t o) (hi : c.inv s)
    (h : p.wp c Q s) : c.inv t ∧ c.Meets Q t o := by
  induction e with
  | pure        => exact ⟨hi, h⟩
  | throw       => exact ⟨hi, h⟩
  | crash       => exact ⟨hi, trivial⟩
  | call _ ih   => exact ih h.left h.right
  | ask ha _ ih => exact ih hi <| h _ ha

-- A program meets a specification that each of its runs meets.
theorem wp_of_exec (h : ∀ t o, Exec M c.allow p s t o → c.inv t ∧ c.Meets Q t o) :
    p.wp c Q s := by
  induction p generalizing s with
  | pure a      => exact h s _ .pure |>.right
  | throw e     => exact h s _ .throw |>.right
  | call d k ih => exact ⟨h _ _ (.call .crash) |>.left, ih _ fun t o e => h t o e.call⟩
  | ask q k ih  => exact fun r hr => ih r fun t o e => h t o <| .ask hr e

theorem wp_mono {Q' : α → M.State → Prop} (hq : ∀ a t, Q a t → Q' a t) (h : p.wp c Q s) :
    p.wp c Q' s := by
  induction p generalizing s with
  | pure a      => exact hq _ _ h
  | throw e     => exact h
  | call d k ih => exact ⟨h.left, ih _ h.right⟩
  | ask q k ih  => exact fun r hr => ih _ <| h r hr

theorem wp_weaken {c' : Spec M} (ha : ∀ q r, c'.allow q r → c.allow q r)
    (hi : ∀ t, c.inv t → c'.inv t) (he : ∀ e t, c.error e t → c'.error e t) (h : p.wp c Q s) :
    p.wp c' Q s := by
  induction p generalizing s with
  | pure a      => exact h
  | throw e     => exact he _ _ h
  | call d k ih => exact ⟨hi _ h.left, ih _ h.right⟩
  | ask q k ih  => exact fun r hr => ih _ <| h r <| ha _ _ hr

end Soundness

section Rules

variable {c : Spec M} {s : M.State}

@[simp]
theorem wp_pure (a : α) (Q : α → M.State → Prop) :
    (Pure.pure a : Prog S α).wp c Q s ↔ Q a s :=
  Iff.rfl

@[simp]
theorem wp_throw (e : S.Error) (Q : α → M.State → Prop) :
    (MonadExcept.throw e : Prog S α).wp c Q s ↔ c.error e s :=
  Iff.rfl

@[simp]
theorem wp_ofExcept (x : Except S.Error α) (Q : α → M.State → Prop) :
    (ofExcept x).wp c Q s ↔
      match x with
      | .ok a    => Q a s
      | .error e => c.error e s := by
  cases x <;> rfl

@[simp]
theorem wp_query (q : S.Query) (Q : S.Answer q → M.State → Prop) :
    (query q).wp c Q s ↔ ∀ r, c.allow q r → Q r s :=
  Iff.rfl

-- A call is a step of the store, known through what it replies and the state it leaves.
theorem wp_perform (d : S.Call) (Q : S.Reply d → M.State → Prop) :
    (perform d).wp c Q s ↔
      c.inv (M.perform d s).2 ∧
      match (M.perform d s).1 with
      | .ok r    => Q r (M.perform d s).2
      | .error e => c.error e (M.perform d s).2 := by
  refine and_congr_right fun _ => ?_
  cases (M.perform d s).1 <;> rfl

@[simp]
theorem wp_bind (p : Prog S α) (g : α → Prog S β) (Q : β → M.State → Prop) :
    (p >>= g).wp c Q s ↔ p.wp c (fun a t => (g a).wp c Q t) s := by
  induction p generalizing s with
  | pure a      => rfl
  | throw e     => rfl
  | call d k ih => exact and_congr_right fun _ => ih _
  | ask q k ih  => exact forall₂_congr fun r _ => ih r

@[simp]
theorem wp_map (p : Prog S α) (g : α → β) (Q : β → M.State → Prop) :
    (g <$> p).wp c Q s ↔ p.wp c (fun a t => Q (g a) t) s :=
  wp_bind p (fun a => Pure.pure (g a)) Q

theorem wp_ite (b : Prop) [Decidable b] (p q : Prog S α) (Q : α → M.State → Prop) :
    (if b then p else q).wp c Q s ↔ (b → p.wp c Q s) ∧ (¬b → q.wp c Q s) := by
  split <;> simp_all

-- The protected program may raise where the handler meets the specification.
@[simp]
theorem wp_tryCatch (p : Prog S α) (h : S.Error → Prog S α) (Q : α → M.State → Prop) :
    (tryCatch p h).wp c Q s ↔ p.wp { c with error := fun e t => (h e).wp c Q t } Q s := by
  change (p.handle h).wp c Q s ↔ _
  induction p generalizing s with
  | pure a      => rfl
  | throw e     => rfl
  | call d k ih => exact and_congr_right fun _ => ih _
  | ask q k ih  => exact forall₂_congr fun r _ => ih r

end Rules

end Prog

namespace Prog

variable {S : Sig} {M : Store S} {α β : Type} {allow : ∀ q : S.Query, S.Answer q → Prop}

-- A program as one serial transaction: what it wrote is kept where it returns, and taken back where
-- it raises or stops half way.
inductive Transaction (M : Store S) (allow : ∀ q : S.Query, S.Answer q → Prop) (p : Prog S α) :
    M.State → M.State → Outcome S.Error α → Prop
  | commit : Exec M allow p s t (.ok a) → Transaction M allow p s t (.ok a)
  | raised : Exec M allow p s t (.error e) → Transaction M allow p s s (.error e)
  | crash  : Transaction M allow p s s .crash

-- The transaction under fixed answers, cut after `n` calls.
def transact (M : Store S) (env : ∀ q, S.Answer q) (n : Nat) (p : Prog S α) (s : M.State) :
    M.State × Outcome S.Error α :=
  match p.run M env n s with
  | (t, .ok a)    => (t, .ok a)
  | (_, .error e) => (s, .error e)
  | (_, .crash)   => (s, .crash)

-- All that is asked of a program is where it ends when it returns.
def Spec.returns (M : Store S) (allow : ∀ q : S.Query, S.Answer q → Prop) : Spec M where
  allow := allow
  inv   := fun _ => True
  error := fun _ _ => True

namespace Transaction

variable {p : Prog S α} {s t : M.State} {o : Outcome S.Error α} {a : α}
variable {Q : α → M.State → Prop}

theorem unchanged (x : Transaction M allow p s t o) (ho : o.ok? = none) : t = s := by
  cases x with
  | commit _         => cases ho
  | raised _ | crash => rfl

theorem ensures (x : Transaction M allow p s t (.ok a)) (h : p.wp (.returns M allow) Q s) :
    Q a t := by
  cases x with
  | commit e => exact wp_sound (c := .returns M allow) e trivial h |>.right

theorem of_transact {env : ∀ q, S.Answer q} (ha : ∀ q, allow q (env q)) (p : Prog S α) (n : Nat)
    (s : M.State) :
    Transaction M allow p s (p.transact M env n s).1 (p.transact M env n s).2 := by
  have e := run_exec ha p n s
  unfold transact
  split
  case h_1 t a h   => exact .commit (by simpa [h] using e)
  case h_2 t err h => exact .raised (t := t) (by simpa [h] using e)
  case h_3         => exact .crash

end Transaction

section Rules

variable {s : M.State}

theorem wp_returns_perform {c : S.Call} {Q : S.Reply c → M.State → Prop}
    (h : ∀ r t, M.perform c s = (.ok r, t) → Q r t) :
    (perform c).wp (.returns M allow) Q s := by
  rw [wp_perform]
  refine ⟨trivial, ?_⟩
  cases hp : (M.perform c s).1 with
  | error e => trivial
  | ok r    => exact h r _ <| Prod.ext hp rfl

-- A loop over a list, with what holds after the first elements of it.
theorem wp_forM {c : Spec M} {I : List β → M.State → Prop} {f : β → Prog S PUnit} (l : List β)
    (hf : ∀ past b s, I past s → (f b).wp c (fun _ => I (past ++ [b])) s) (h : I [] s) :
    (l.forM f).wp c (fun _ => I l) s := by
  suffices ∀ past, I past s → (l.forM f).wp c (fun _ => I (past ++ l)) s from this [] h
  clear h
  induction l generalizing s with
  | nil         => exact fun past h => by simpa using h
  | cons b l ih =>
    intro past h
    change (f b >>= fun _ => l.forM f).wp c _ s
    rw [wp_bind]
    refine wp_mono (fun _ t ht => ?_) <| hf past b s h
    simpa using ih (past ++ [b]) ht

end Rules

end Prog

namespace Prog

variable {S : Sig} {M : Store S} {env : ∀ q, S.Answer q} {α β : Type} {s : M.State}

-- How a program ends under fixed answers, which it does unless its process dies.
def eval (M : Store S) (env : ∀ q, S.Answer q) :
    Prog S α → M.State → Except S.Error α × M.State
  | .pure a,   s => (.ok a, s)
  | .throw e,  s => (.error e, s)
  | .call c k, s => (k (M.perform c s).1).eval M env (M.perform c s).2
  | .ask q k,  s => (k (env q)).eval M env s

@[simp]
theorem eval_pure (a : α) : (Pure.pure a : Prog S α).eval M env s = (.ok a, s) :=
  rfl

@[simp]
theorem eval_throw (e : S.Error) : (MonadExcept.throw e : Prog S α).eval M env s = (.error e, s) :=
  rfl

@[simp]
theorem eval_ofExcept (x : Except S.Error α) : (ofExcept x).eval M env s = (x, s) := by
  cases x <;> rfl

theorem eval_ofExcept_eq {x y : Except S.Error α} (h : x = y) :
    (ofExcept x).eval M env s = (y, s) := by
  rw [eval_ofExcept, h]

@[simp]
theorem eval_query (q : S.Query) : (query q).eval M env s = (.ok (env q), s) :=
  rfl

@[simp]
theorem eval_perform (c : S.Call) : (perform c).eval M env s = M.perform c s :=
  eval_ofExcept _

theorem eval_bind (p : Prog S α) (g : α → Prog S β) :
    (p >>= g).eval M env s =
      match p.eval M env s with
      | (.ok a, t)    => (g a).eval M env t
      | (.error e, t) => (.error e, t) := by
  induction p generalizing s with
  | pure a      => rfl
  | throw e     => rfl
  | call c k ih => exact ih _
  | ask q k ih  => exact ih _

theorem eval_bind_ok {p : Prog S α} {g : α → Prog S β} {a : α} {t : M.State}
    (h : p.eval M env s = (.ok a, t)) : (p >>= g).eval M env s = (g a).eval M env t := by
  rw [eval_bind, h]

theorem eval_bind_error {p : Prog S α} {g : α → Prog S β} {e : S.Error} {t : M.State}
    (h : p.eval M env s = (.error e, t)) : (p >>= g).eval M env s = (.error e, t) := by
  rw [eval_bind, h]

theorem eval_tryCatch_ok {p : Prog S α} {g : S.Error → Prog S α} {a : α} {t : M.State}
    (h : p.eval M env s = (.ok a, t)) : (tryCatch p g).eval M env s = (.ok a, t) := by
  change (p.handle g).eval M env s = _
  induction p generalizing s with
  | pure b      => exact h
  | throw e     => cases (Prod.mk.inj h).left
  | call c k ih => exact ih _ h
  | ask q k ih  => exact ih _ h

theorem eval_ok_of_wp {c : Spec M} {p : Prog S α} {a : α} {t : M.State} {Q : α → M.State → Prop}
    (henv : ∀ q, c.allow q (env q)) (h : p.wp c Q s) (heval : p.eval M env s = (.ok a, t)) : Q a t := by
  induction p generalizing s with
  | pure b      =>
    cases heval
    exact h
  | throw e     => cases heval
  | call d k ih => exact ih _ h.right heval
  | ask q k ih  => exact ih _ (h _ <| henv q) heval

-- What every call keeps is kept however a program ends.
theorem eval_preserves {p : Prog S α} {I : M.State → Prop}
    (hI : ∀ c s, I s → I (M.perform c s).2) (hs : I s) : I (p.eval M env s).2 := by
  induction p generalizing s with
  | pure | throw => exact hs
  | call d k ih  => exact ih _ <| hI d s hs
  | ask q k ih   => exact ih _ hs

end Prog
