import Traceline.Library.Wp
import Traceline.Library.Pool

namespace Prog

variable {S : Sig} {M : Store S} {ι α β : Type}

-- What a thread lives by while others share the store: the answers it gets, when a call of its own
-- is served, what every state satisfies, what the others may do between its calls and what it may
-- do itself.
structure Contract (M : Store S) where
  allow      : ∀ q : S.Query, S.Answer q → Prop
  ready      : S.Call → M.State → Prop
  inv        : M.State → Prop
  rely       : M.State → M.State → Prop
  guarantee  : M.State → M.State → Prop
  refl       : ∀ s, rely s s
  trans      : ∀ s t u, rely s t → rely t u → rely s u

-- The program keeps its contract from `s` on and ends where `Q` or `E` holds, whatever the others
-- do meanwhile.
def Abides (c : Contract M) (E : S.Error → M.State → Prop) :
    Prog S α → (α → M.State → Prop) → M.State → Prop
  | .pure a,   Q, s => ∀ t, c.rely s t → c.inv t → Q a t
  | .throw e,  _, s => ∀ t, c.rely s t → c.inv t → E e t
  | .call d k, Q, s => ∀ t, c.rely s t → c.inv t → c.ready d t →
    (c.inv (M.perform d t).2 ∧ c.guarantee t (M.perform d t).2) ∧
      (k (M.perform d t).1).Abides c E Q (M.perform d t).2
  | .ask q k,  Q, s => ∀ r, c.allow q r → (k r).Abides c E Q s

-- What a reply satisfies.
def Replied {ε : Type} (Q : α → Prop) (E : ε → Prop) : Except ε α → Prop
  | .ok a    => Q a
  | .error e => E e

namespace Abides

variable {c : Contract M} {E E' : S.Error → M.State → Prop} {p : Prog S α} {s t : M.State}
variable {Q Q' : α → M.State → Prop}

-- Others may come first.
theorem rely (h : p.Abides c E Q s) (hr : c.rely s t) : p.Abides c E Q t := by
  induction p with
  | pure a      => exact fun u hu => h u <| c.trans _ _ _ hr hu
  | throw e     => exact fun u hu => h u <| c.trans _ _ _ hr hu
  | call d k _  => exact fun u hu => h u <| c.trans _ _ _ hr hu
  | ask q k ih  => exact fun r ha => ih r <| h r ha

theorem mono (h : p.Abides c E Q s) (hq : ∀ a t, c.inv t → Q a t → Q' a t)
    (he : ∀ e t, c.inv t → E e t → E' e t) : p.Abides c E' Q' s := by
  induction p generalizing s with
  | pure a      => exact fun t ht hi => hq a t hi <| h t ht hi
  | throw e     => exact fun t ht hi => he e t hi <| h t ht hi
  | call d k ih => exact fun t ht hi hd => (h t ht hi hd).imp_right <| ih _
  | ask q k ih  => exact fun r ha => ih r <| h r ha

theorem pure {a : α} (h : ∀ t, c.rely s t → c.inv t → Q a t) :
    (Pure.pure a : Prog S α).Abides c E Q s :=
  h

theorem throw {e : S.Error} (h : ∀ t, c.rely s t → c.inv t → E e t) :
    (MonadExcept.throw e : Prog S α).Abides c E Q s :=
  h

theorem bind {g : α → Prog S β} {Q : β → M.State → Prop}
    (h : p.Abides c E (fun a t => (g a).Abides c E Q t) s) (hs : c.inv s) :
    (p >>= g).Abides c E Q s := by
  induction p generalizing s with
  | pure a      => exact h s (c.refl s) hs
  | throw e     => exact h
  | call d k ih =>
    intro t ht hi hd
    have hk := h t ht hi hd
    exact ⟨hk.left, ih _ hk.right hk.left.left⟩
  | ask q k ih  => exact fun r ha => ih r (h r ha) hs

-- One program after another, with what holds between them.
theorem seq {g : α → Prog S β} {Q : β → M.State → Prop} {P : α → M.State → Prop} (hs : c.inv s)
    (h : p.Abides c E P s) (hg : ∀ a t, c.inv t → P a t → (g a).Abides c E Q t) :
    (p >>= g).Abides c E Q s :=
  bind (h.mono hg fun _ _ _ => id) hs

-- A handler runs where the program before it raised.
theorem attempt {F : S.Error → M.State → Prop} {g : S.Error → Prog S α} (hs : c.inv s) (h : p.Abides c F Q s)
    (hg : ∀ e t, c.inv t → F e t → (g e).Abides c E Q t) :
    (MonadExcept.tryCatch p g).Abides c E Q s := by
  have hh : p.Abides c (fun e t => (g e).Abides c E Q t) Q s := h.mono (fun _ _ _ => id) hg
  clear h
  change (p.handle g).Abides c E Q s
  induction p generalizing s with
  | pure a      => exact hh
  | throw e     => exact hh s (c.refl s) hs
  | call d k ih =>
    intro t ht hi hd
    have hk := hh t ht hi hd
    exact ⟨hk.left, ih _ hk.left.left hk.right⟩
  | ask q k ih  => exact fun r ha => ih r hs (hh r ha)

theorem query {q : S.Query} {Q : S.Answer q → M.State → Prop}
    (h : ∀ r, c.allow q r → ∀ t, c.rely s t → c.inv t → Q r t) : (query q).Abides c E Q s :=
  h

theorem perform {d : S.Call} {Q : S.Reply d → M.State → Prop}
    (h : ∀ t, c.rely s t → c.inv t → c.ready d t →
      (c.inv (M.perform d t).2 ∧ c.guarantee t (M.perform d t).2) ∧
        (ofExcept (M.perform d t).1).Abides c E Q (M.perform d t).2) :
    (perform d).Abides c E Q s :=
  h

theorem ofExcept {x : Except S.Error α} (hok : ∀ a, x = .ok a → ∀ t, c.rely s t → c.inv t → Q a t)
    (herr : ∀ e, x = .error e → ∀ t, c.rely s t → c.inv t → E e t) :
    (ofExcept x).Abides c E Q s := by
  cases x with
  | ok a    => exact hok a rfl
  | error e => exact herr e rfl

-- What holds once a call was served is to hold whatever the others do next.
theorem perform_of_stable {d : S.Call} {Q : S.Reply d → M.State → Prop}
    (hq : ∀ a s t, c.rely s t → Q a s → Q a t) (he : ∀ e s t, c.rely s t → E e s → E e t)
    (h : ∀ t, c.rely s t → c.inv t → c.ready d t →
      (c.inv (M.perform d t).2 ∧ c.guarantee t (M.perform d t).2) ∧
        Replied (Q · (M.perform d t).2) (E · (M.perform d t).2) (M.perform d t).1) :
    (Prog.perform d).Abides c E Q s := by
  refine .perform fun t ht hi hd => ?_
  obtain ⟨hm, hr⟩ := h t ht hi hd
  refine ⟨hm, .ofExcept (fun a ha u hu _ => ?_) fun e ha u hu _ => ?_⟩
  · rw [ha] at hr
    exact hq a _ u hu hr
  · rw [ha] at hr
    exact he e _ u hu hr

theorem ite {b : Prop} [Decidable b] {q : Prog S α} (hp : b → p.Abides c E Q s)
    (hq : ¬b → q.Abides c E Q s) : (if b then p else q).Abides c E Q s := by
  split
  case isTrue h  => exact hp h
  case isFalse h => exact hq h

end Abides

-- Threads that start programs of their own, step in turn and may die.
structure Crew (ι : Type) (M : Store S) (α : Type) where
  allow    : ∀ q : S.Query, S.Answer q → Prop
  ready    : S.Call → M.State → Prop
  programs : ι → Prog S α → Prop
  init     : M.State → Prop
  -- What is left of the store when a thread dies.
  abandon  : ι → M.State → M.State
  -- What happens to the store on its own.
  drift    : M.State → M.State → Prop
  idle     : Prog S α

def Ended : Prog S α → Prop
  | .pure _ | .throw _  => True
  | .call .. | .ask ..  => False

namespace Crew

variable [DecidableEq ι]

inductive Label (ι : Type) (S : Sig)
  | run (i : ι) (e : Option (Event S))
  | start (i : ι)
  | die (i : ι)
  | drift

inductive Step (w : Crew ι M α) : Pool ι M α → Label ι S → Pool ι M α → Prop
  | run (i : ι) (e : Option (Event S)) (p : Prog S α) (t : M.State) :
    Prog.Step M w.allow (x.threads i) x.store e p t → (∀ d ∈ e, w.ready d.call x.store) →
    Step w x (.run i e) ⟨Function.update x.threads i p, t⟩
  | start (i : ι) (p : Prog S α) :
    Ended (x.threads i) → w.programs i p →
    Step w x (.start i) ⟨Function.update x.threads i p, x.store⟩
  | die (i : ι) :
    Step w x (.die i) ⟨Function.update x.threads i w.idle, w.abandon i x.store⟩
  | drift (t : M.State) : w.drift x.store t → Step w x .drift ⟨x.threads, t⟩

def machine (w : Crew ι M α) : Machine (Pool ι M α) (Label ι S) where
  init x := (∀ i, x.threads i = w.idle) ∧ w.init x.store
  step   := w.Step

-- Every call of the program is served in the state that the ones before it leave.
def Alone (w : Crew ι M α) (env : ∀ q, S.Answer q) : Prog S α → M.State → Prop
  | .call d k, s => w.ready d s ∧ w.Alone env (k (M.perform d s).1) (M.perform d s).2
  | .ask q k,  s => w.allow q (env q) ∧ w.Alone env (k (env q)) s
  | _,         _ => True

-- A thread that has the store to itself gets to the end of its program.
theorem reachable_of_alone {w : Crew ι M α} {env : ∀ q, S.Answer q} {i : ι} (p : Prog S α)
    {x : Pool ι M α} (r : w.machine.Reachable x) (hp : x.threads i = p)
    (h : w.Alone env p x.store) :
    ∃ y, w.machine.Reachable y ∧ Ended (y.threads i) ∧ y.store = (p.eval M env x.store).2 := by
  induction p generalizing x with
  | pure a      => exact ⟨x, r, hp ▸ trivial, rfl⟩
  | throw e     => exact ⟨x, r, hp ▸ trivial, rfl⟩
  | call d k ih =>
    have st : Prog.Step M w.allow (x.threads i) x.store (some ⟨d, (M.perform d x.store).1⟩)
        (k (M.perform d x.store).1) (M.perform d x.store).2 := by
      rw [hp]
      exact .call
    refine ih _ (r.step <| .run _ _ _ _ st fun e he => ?_) (by simp) h.right
    obtain rfl := Option.some.inj he
    exact h.left
  | ask q k ih  =>
    have st : Prog.Step M w.allow (x.threads i) x.store none (k (env q)) x.store := by
      rw [hp]
      exact .ask h.left
    let y : Pool ι M α := ⟨Function.update x.threads i (k (env q)), x.store⟩
    have hr : w.machine.Reachable y := r.step <| .run _ _ _ _ st nofun
    exact ih (env q) (x := y) hr (by simp [y]) h.right

-- Each thread has a contract that the others leave it, and that holds of all it may start.
structure Sound (w : Crew ι M α) (inv : M.State → Prop) (rely : ι → M.State → M.State → Prop)
    (free : ι → M.State → Prop) where
  refl    : ∀ i s, rely i s s
  trans   : ∀ i s t u, rely i s t → rely i t u → rely i s u
  init    : ∀ s, w.init s → inv s ∧ ∀ i, free i s
  stable  : ∀ i s t, rely i s t → free i s → free i t
  die     : ∀ i s, inv s → inv (w.abandon i s) ∧ free i (w.abandon i s) ∧
    ∀ j, j ≠ i → rely j s (w.abandon i s)
  drift   : ∀ s t, inv s → w.drift s t → inv t ∧ ∀ i, rely i s t
  idle    : Ended w.idle

def contract (w : Crew ι M α) {inv : M.State → Prop} {rely : ι → M.State → M.State → Prop}
    {free : ι → M.State → Prop} (h : Sound w inv rely free) (i : ι) : Contract M where
  allow         := w.allow
  ready         := w.ready
  inv
  rely          := rely i
  guarantee s t := ∀ j, j ≠ i → rely j s t
  refl          := h.refl i
  trans         := h.trans i

section

variable {w : Crew ι M α} {inv : M.State → Prop} {rely : ι → M.State → M.State → Prop}
variable {free : ι → M.State → Prop} (h : Sound w inv rely free)

def Kept (i : ι) (p : Prog S α) (s : M.State) : Prop :=
  p.Abides (w.contract h i) (fun _ => free i) (fun _ => free i) s

-- What every state of a crew satisfies.
structure Invariant (x : Pool ι M α) : Prop where
  store   : inv x.store
  threads : ∀ i, Kept h i (x.threads i) x.store

variable {h}

omit [DecidableEq ι] in
theorem Kept.after {i : ι} {p : Prog S α} {s t : M.State} (hk : Kept h i p s) (hr : rely i s t) :
    Kept h i p t :=
  Abides.rely hk hr

omit [DecidableEq ι] in
theorem Kept.of_ended {i : ι} {p : Prog S α} {s : M.State} (hp : Ended p) (hf : free i s) :
    Kept h i p s := by
  cases p with
  | pure _ | throw _ => exact fun t ht _ => h.stable i s t ht hf
  | call _ _ | ask _ _ => exact hp.elim

omit [DecidableEq ι] in
theorem Kept.free_of_ended {i : ι} {p : Prog S α} {s : M.State} (hk : Kept h i p s) (hp : Ended p)
    (hs : inv s) : free i s := by
  cases p with
  | pure _ | throw _   => exact hk s (h.refl i s) hs
  | call _ _ | ask _ _ => exact hp.elim

-- One step of a thread that keeps its contract.
omit [DecidableEq ι] in
theorem Kept.step {i : ι} {p p' : Prog S α} {s s' : M.State} {e : Option (Event S)}
    (hk : Kept h i p s) (hs : inv s) (st : Prog.Step M w.allow p s e p' s')
    (hr : ∀ d ∈ e, w.ready d.call s) :
    inv s' ∧ Kept h i p' s' ∧ ∀ j, j ≠ i → rely j s s' := by
  cases st with
  | call   =>
    have ⟨⟨hi, hg⟩, hk⟩ := hk s (h.refl i s) hs (hr _ rfl)
    exact ⟨hi, hk, hg⟩
  | ask ha => exact ⟨hs, hk _ ha, fun j _ => h.refl j s⟩

theorem Invariant.init {x : Pool ι M α} (hx : w.machine.init x) : Invariant h x where
  store     := (h.init _ hx.right).left
  threads i := .of_ended (hx.left i ▸ h.idle) <| (h.init _ hx.right).right i

theorem Invariant.step (hp : ∀ i p, w.programs i p → ∀ s, inv s → free i s → Kept h i p s)
    {x y : Pool ι M α} {l : Label ι S} (hx : Invariant h x) (st : w.Step x l y) :
    Invariant h y := by
  cases st with
  | run i e p t st hr  =>
    have ⟨hi, hk, hg⟩ := (hx.threads i).step hx.store st hr
    refine ⟨hi, fun j => ?_⟩
    by_cases hj : j = i
    · subst hj
      simpa using hk
    · simpa [hj] using (hx.threads j).after <| hg j hj
  | start i p he hw    =>
    refine ⟨hx.store, fun j => ?_⟩
    by_cases hj : j = i
    · subst hj
      simpa using hp j p hw _ hx.store <| (hx.threads j).free_of_ended he hx.store
    · simpa [hj] using hx.threads j
  | die i              =>
    have ⟨hi, hf, hg⟩ := h.die i _ hx.store
    refine ⟨hi, fun j => ?_⟩
    by_cases hj : j = i
    · subst hj
      simpa using Kept.of_ended h.idle hf
    · simpa [hj] using (hx.threads j).after <| hg j hj
  | drift t hd         =>
    have ⟨hi, hg⟩ := h.drift _ _ hx.store hd
    exact ⟨hi, fun i => (hx.threads i).rely <| hg i⟩

theorem Invariant.reachable
    (hp : ∀ i p, w.programs i p → ∀ s, inv s → free i s → Kept h i p s) {x : Pool ι M α}
    (r : w.machine.Reachable x) : Invariant h x :=
  r.preserves (fun _ => .init) fun _ _ _ hx st => hx.step hp st

end

end Crew

end Prog
