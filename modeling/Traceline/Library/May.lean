import Traceline.Library.Wp

namespace Prog

variable {S T : Sig} {M : Store S} {α β : Type}
variable {allow : ∀ q : S.Query, S.Answer q → Prop} {s t : M.State} {p : Prog S α}
variable {Q Q' : α → M.State → Prop}

-- The program returns under some of the answers its environment may give, and no process dies.
def may (M : Store S) (allow : ∀ q : S.Query, S.Answer q → Prop) :
    Prog S α → (α → M.State → Prop) → M.State → Prop
  | .pure a,   Q, s => Q a s
  | .throw _,  _, _ => False
  | .call d k, Q, s => (k (M.perform d s).1).may M allow Q (M.perform d s).2
  | .ask q k,  Q, s => ∃ r, allow q r ∧ (k r).may M allow Q s

theorem may_sound (h : p.may M allow Q s) : ∃ a t, Exec M allow p s t (.ok a) ∧ Q a t := by
  induction p generalizing s with
  | pure a      => exact ⟨a, s, .pure, h⟩
  | throw e     => exact h.elim
  | call d k ih =>
    obtain ⟨a, t, e, hq⟩ := ih _ h
    exact ⟨a, t, e.call, hq⟩
  | ask q k ih  =>
    obtain ⟨r, hr, h⟩ := h
    obtain ⟨a, t, e, hq⟩ := ih r h
    exact ⟨a, t, .ask hr e, hq⟩

theorem may_mono (hq : ∀ a t, Q a t → Q' a t) (h : p.may M allow Q s) : p.may M allow Q' s := by
  induction p generalizing s with
  | pure a      => exact hq _ _ h
  | throw e     => exact h
  | call d k ih => exact ih _ h
  | ask q k ih  => exact h.imp fun r hr => ⟨hr.left, ih r hr.right⟩

theorem may_weaken {allow' : ∀ q : S.Query, S.Answer q → Prop}
    (ha : ∀ q r, allow q r → allow' q r) (h : p.may M allow Q s) : p.may M allow' Q s := by
  induction p generalizing s with
  | pure a      => exact h
  | throw e     => exact h
  | call d k ih => exact ih _ h
  | ask q k ih  => exact h.imp fun r hr => ⟨ha q r hr.left, ih r hr.right⟩

@[simp]
theorem may_pure (a : α) : (Pure.pure a : Prog S α).may M allow Q s ↔ Q a s :=
  Iff.rfl

@[simp]
theorem may_bind (p : Prog S α) (g : α → Prog S β) (Q : β → M.State → Prop) :
    (p >>= g).may M allow Q s ↔ p.may M allow (fun a t => (g a).may M allow Q t) s := by
  induction p generalizing s with
  | pure a      => rfl
  | throw e     => rfl
  | call d k ih => exact ih _
  | ask q k ih  => exact exists_congr fun r => and_congr_right fun _ => ih r

@[simp]
theorem may_map (p : Prog S α) (g : α → β) (Q : β → M.State → Prop) :
    (g <$> p).may M allow Q s ↔ p.may M allow (fun a t => Q (g a) t) s :=
  may_bind p (fun a => Pure.pure (g a)) Q

@[simp]
theorem may_query (q : S.Query) (Q : S.Answer q → M.State → Prop) :
    (query q).may M allow Q s ↔ ∃ r, allow q r ∧ Q r s :=
  Iff.rfl

theorem may_perform {d : S.Call} {r : S.Reply d} {Q : S.Reply d → M.State → Prop}
    (h : M.perform d s = (.ok r, t)) : (perform d).may M allow Q s ↔ Q r t := by
  have hk : (perform d).may M allow Q s ↔
      (ofExcept (M.perform d s).1).may M allow Q (M.perform d s).2 := Iff.rfl
  rw [hk, h]
  rfl

-- A handler is not needed where the protected program returns.
theorem may_tryCatch {h : S.Error → Prog S α} (hp : p.may M allow Q s) :
    (tryCatch p h).may M allow Q s := by
  change (p.handle h).may M allow Q s
  induction p generalizing s with
  | pure a      => exact hp
  | throw e     => exact hp.elim
  | call d k ih => exact ih _ hp
  | ask q k ih  => exact hp.imp fun r hr => ⟨hr.left, ih r hr.right⟩

-- What every run returns with, this one returns with.
theorem may_and {c : Spec M} (hc : ∀ q r, allow q r → c.allow q r) (h : p.may M allow Q s)
    (hw : p.wp c Q' s) : p.may M allow (fun a t => Q a t ∧ Q' a t) s := by
  induction p generalizing s with
  | pure a      => exact ⟨h, hw⟩
  | throw e     => exact h
  | call d k ih => exact ih _ h hw.right
  | ask q k ih  => exact h.imp fun r hr => ⟨hr.left, ih r hr.right <| hw r <| hc q r hr.left⟩

-- A program that never raises returns, if each of its questions may be answered.
theorem may_of_wp {c : Spec M} (ha : ∀ q, ∃ r, c.allow q r) (he : ∀ e t, ¬c.error e t)
    (hw : p.wp c Q s) : p.may M c.allow Q s := by
  induction p generalizing s with
  | pure a      => exact hw
  | throw e     => exact he _ _ hw
  | call d k ih => exact ih _ hw.right
  | ask q k ih  => exact (ha q).imp fun r hr => ⟨hr, ih r <| hw r hr⟩

end Prog

-- How one signature is part of another.
structure Sig.Embedding (S T : Sig) where
  call   : S.Call → T.Call
  reply  : ∀ c, Except T.Error (T.Reply (call c)) → Except S.Error (S.Reply c)
  query  : S.Query → T.Query
  answer : ∀ q, T.Answer (query q) → S.Answer q
  error  : S.Error → T.Error

namespace Prog

variable {S T : Sig} {M : Store S} {N : Store T} {α : Type}

-- A program within a larger one.
def embed (f : S.Embedding T) : Prog S α → Prog T α
  | .pure a   => .pure a
  | .throw e  => .throw (f.error e)
  | .call c k => .call (f.call c) fun r => (k (f.reply c r)).embed f
  | .ask q k  => .ask (f.query q) fun r => (k (f.answer q r)).embed f

def Outcome.map_error {ε δ : Type} (g : ε → δ) : Outcome ε α → Outcome δ α
  | .ok a    => .ok a
  | .error e => .error (g e)
  | .crash   => .crash

-- The store of the larger program serves the smaller one as its own does.
def Serves (f : S.Embedding T) (M : Store S) (N : Store T) (g : M.State → N.State) : Prop :=
  ∀ c s, f.reply c (N.perform (f.call c) (g s)).1 = (M.perform c s).1 ∧
    (N.perform (f.call c) (g s)).2 = g (M.perform c s).2

variable {f : S.Embedding T} {g : M.State → N.State} {p : Prog S α} {s t : M.State}
variable {allow : ∀ q : T.Query, T.Answer q → Prop}

-- The answers that the smaller program sees.
def Seen (f : S.Embedding T) (allow : ∀ q : T.Query, T.Answer q → Prop) (q : S.Query)
    (r : S.Answer q) : Prop :=
  ∃ r', allow (f.query q) r' ∧ f.answer q r' = r

theorem Exec.embed_inv (hg : Serves f M N g) {t' : N.State} {o' : Outcome T.Error α}
    (e : Exec N allow (p.embed f) (g s) t' o') :
    ∃ t o, t' = g t ∧ o' = o.map_error f.error ∧ Exec M (Seen f allow) p s t o := by
  induction p generalizing s with
  | pure a  =>
    cases e with
    | pure  => exact ⟨s, .ok a, rfl, rfl, .pure⟩
    | crash => exact ⟨s, .crash, rfl, rfl, .crash⟩
  | throw err =>
    cases e with
    | throw => exact ⟨s, .error err, rfl, rfl, .throw⟩
    | crash => exact ⟨s, .crash, rfl, rfl, .crash⟩
  | call c k ih =>
    cases e with
    | crash  => exact ⟨s, .crash, rfl, rfl, .crash⟩
    | call e =>
      obtain ⟨hr, hs⟩ := hg c s
      dsimp only at e
      rw [hr, hs] at e
      obtain ⟨t, o, ht, ho, e⟩ := ih _ e
      exact ⟨t, o, ht, ho, .call e⟩
  | ask q k ih =>
    cases e with
    | crash    => exact ⟨s, .crash, rfl, rfl, .crash⟩
    | @ask _ r' _ _ _ _ ha e =>
      obtain ⟨t, o, ht, ho, e⟩ := ih _ e
      exact ⟨t, o, ht, ho, .ask ⟨r', ha, rfl⟩ e⟩

-- What the smaller program may return with, it may return with where it is embedded.
theorem may_embed (hg : Serves f M N g) {Q : α → M.State → Prop}
    (h : p.may M (Seen f allow) Q s) :
    (p.embed f).may N allow (fun a t' => ∃ t, t' = g t ∧ Q a t) (g s) := by
  induction p generalizing s with
  | pure a      => exact ⟨s, rfl, h⟩
  | throw e     => exact h
  | call c k ih =>
    obtain ⟨hr, hs⟩ := hg c s
    have hk := ih _ h
    rw [← hr, ← hs] at hk
    exact hk
  | ask q k ih  =>
    obtain ⟨_, ⟨r', hr', rfl⟩, hk⟩ := h
    exact ⟨r', hr', ih _ hk⟩

end Prog
