import Traceline.Library.Pool

namespace Prog

variable {S : Sig} {M : Store S} {ι α β : Type}

-- What a program does next to others: a call the store answers, or a question.
inductive Move (S : Sig)
  | call (e : Event S)
  | ask (q : S.Query)

def Move.event? : Move S → Option (Event S)
  | .call e => some e
  | .ask _  => none

-- The moves of a program under fixed answers. The others may leave the store in any state before
-- each of its calls.
inductive Trace (M : Store S) (env : ∀ q, S.Answer q) :
    Prog S α → List (Move S) → Prog S α → Prop
  | refl : Trace M env p [] p
  | call (s : M.State) {k : Except S.Error (S.Reply c) → Prog S α} :
    Trace M env (k (M.perform c s).1) ms p →
    Trace M env (.call c k) (.call ⟨c, (M.perform c s).1⟩ :: ms) p
  | ask {k : S.Answer q → Prog S α} :
    Trace M env (k (env q)) ms p → Trace M env (.ask q k) (.ask q :: ms) p

-- What a program does if no other touches the store.
def alone (M : Store S) (env : ∀ q, S.Answer q) :
    Prog S α → M.State → List (Move S) × Except S.Error α
  | .pure a,   _ => ([], .ok a)
  | .throw e,  _ => ([], .error e)
  | .call c k, s =>
    let (ms, o) := (k (M.perform c s).1).alone M env (M.perform c s).2
    (.call ⟨c, (M.perform c s).1⟩ :: ms, o)
  | .ask q k,  s =>
    let (ms, o) := (k (env q)).alone M env s
    (.ask q :: ms, o)

namespace Trace

variable {env : ∀ q, S.Answer q} {p p' q : Prog S α} {ms ms' : List (Move S)}

theorem trans (t : Trace M env p ms p') (t' : Trace M env p' ms' q) :
    Trace M env p (ms ++ ms') q := by
  induction t with
  | refl        => exact t'
  | call s _ ih => exact .call s <| ih t'
  | ask _ ih    => exact .ask <| ih t'

theorem of_alone (p : Prog S α) (s : M.State) :
    Trace M env p (p.alone M env s).1 (ofExcept (p.alone M env s).2) := by
  induction p generalizing s with
  | pure a      => exact .refl
  | throw e     => exact .refl
  | call c k ih => exact .call s <| ih _ _
  | ask q k ih  => exact .ask <| ih _ s

theorem pure_inv {a : α} {o : Except S.Error α} (t : Trace M env (Pure.pure a) ms (ofExcept o)) :
    ms = [] ∧ o = .ok a := by
  generalize hp : (Pure.pure a : Prog S α) = p at t
  generalize hq : ofExcept o = q at t
  cases t with
  | refl     => cases o <;> cases hp <;> cases hq; exact ⟨rfl, rfl⟩
  | call s t => cases hp
  | ask t    => cases hp

theorem throw_inv {e : S.Error} {o : Except S.Error α}
    (t : Trace M env (MonadExcept.throw e) ms (ofExcept o)) : ms = [] ∧ o = .error e := by
  generalize hp : (MonadExcept.throw e : Prog S α) = p at t
  generalize hq : ofExcept o = q at t
  cases t with
  | refl     => cases o <;> cases hp <;> cases hq; exact ⟨rfl, rfl⟩
  | call s t => cases hp
  | ask t    => cases hp

theorem ofExcept_inv {x o : Except S.Error α} (t : Trace M env (ofExcept x) ms (ofExcept o)) :
    ms = [] ∧ o = x := by
  cases x with
  | ok a    => exact pure_inv t
  | error e => exact throw_inv t

theorem call_inv {c : S.Call} {k : Except S.Error (S.Reply c) → Prog S α} {o : Except S.Error α}
    (t : Trace M env (.call c k) ms (ofExcept o)) :
    ∃ s ms', ms = .call ⟨c, (M.perform c s).1⟩ :: ms' ∧
      Trace M env (k (M.perform c s).1) ms' (ofExcept o) := by
  generalize hq : ofExcept o = q at t
  cases t with
  | refl     => cases o <;> cases hq
  | call s t => exact ⟨s, _, rfl, hq ▸ t⟩

theorem ask_inv {q : S.Query} {k : S.Answer q → Prog S α} {o : Except S.Error α}
    (t : Trace M env (.ask q k) ms (ofExcept o)) :
    ∃ ms', ms = .ask q :: ms' ∧ Trace M env (k (env q)) ms' (ofExcept o) := by
  generalize hq : ofExcept o = p at t
  cases t with
  | refl  => cases o <;> cases hq
  | ask t => exact ⟨_, rfl, hq ▸ t⟩

-- A sequence that ends made the moves of its first part, and those of the second if it got there.
theorem bind_inv {p : Prog S α} {g : α → Prog S β} {o : Except S.Error β}
    (t : Trace M env (p >>= g) ms (ofExcept o)) :
    (∃ e, o = .error e ∧ Trace M env p ms (ofExcept (.error e))) ∨
    ∃ a ms₁ ms₂, ms = ms₁ ++ ms₂ ∧ Trace M env p ms₁ (ofExcept (.ok a)) ∧
      Trace M env (g a) ms₂ (ofExcept o) := by
  induction p generalizing ms with
  | pure a  => exact .inr ⟨a, [], ms, rfl, .refl, t⟩
  | throw e =>
    obtain ⟨rfl, rfl⟩ := throw_inv t
    exact .inl ⟨e, rfl, .refl⟩
  | call c k ih =>
    obtain ⟨s, ms', rfl, t'⟩ := call_inv (k := fun r => (k r).bind g) t
    obtain ⟨e, ho, t₁⟩ | ⟨a, ms₁, ms₂, rfl, t₁, t₂⟩ := ih _ t'
    · exact .inl ⟨e, ho, .call s t₁⟩
    · exact .inr ⟨a, _, ms₂, rfl, .call s t₁, t₂⟩
  | ask q k ih =>
    obtain ⟨ms', rfl, t'⟩ := ask_inv (k := fun r => (k r).bind g) t
    obtain ⟨e, ho, t₁⟩ | ⟨a, ms₁, ms₂, rfl, t₁, t₂⟩ := ih _ t'
    · exact .inl ⟨e, ho, .ask t₁⟩
    · exact .inr ⟨a, _, ms₂, rfl, .ask t₁, t₂⟩

-- One call first, which the store answers or refuses.
theorem perform_bind_inv {c : S.Call} {g : S.Reply c → Prog S α} {o : Except S.Error α}
    (t : Trace M env (perform c >>= g) ms (ofExcept o)) :
    ∃ s, (∃ e, (M.perform c s).1 = .error e ∧ ms = [.call ⟨c, .error e⟩] ∧ o = .error e) ∨
      ∃ r ms', (M.perform c s).1 = .ok r ∧ ms = .call ⟨c, .ok r⟩ :: ms' ∧
        Trace M env (g r) ms' (ofExcept o) := by
  obtain ⟨s, ms', rfl, t'⟩ := call_inv (k := fun r => (ofExcept r).bind g) t
  refine ⟨s, ?_⟩
  generalize (M.perform c s).1 = x at t' ⊢
  cases x with
  | ok r    => exact .inr ⟨r, ms', rfl, rfl, t'⟩
  | error e =>
    obtain ⟨rfl, rfl⟩ := throw_inv t'
    exact .inl ⟨e, rfl, rfl, rfl⟩

theorem query_bind_inv {q : S.Query} {g : S.Answer q → Prog S α} {o : Except S.Error α}
    (t : Trace M env (query q >>= g) ms (ofExcept o)) :
    ∃ ms', ms = .ask q :: ms' ∧ Trace M env (g (env q)) ms' (ofExcept o) :=
  ask_inv (k := fun r => (Prog.pure r).bind g) t

end Trace

-- A program whose questions have been answered.
def given (env : ∀ q, S.Answer q) : Prog S α → Prog S α
  | .pure a   => .pure a
  | .throw e  => .throw e
  | .call c k => .call c fun r => (k r).given env
  | .ask q k  => (k (env q)).given env

-- A step of a program that has its answers is a call, after the questions that lead to it.
theorem Step.given_inv {allow : ∀ q : S.Query, S.Answer q → Prop} {env : ∀ q, S.Answer q}
    {p p' : Prog S α} {s s' : M.State} {e : Option (Event S)}
    (st : Step M allow (p.given env) s e p' s') :
    ∃ ms q, p' = q.given env ∧ Trace M env p ms q ∧ ms.filterMap Move.event? = e.toList := by
  induction p with
  | pure a  => cases st
  | throw a => cases st
  | call c k ih =>
    cases st with
    | call => exact ⟨_, _, rfl, .call s .refl, rfl⟩
  | ask q k ih =>
    obtain ⟨ms, p', hp, t, he⟩ := ih _ st
    exact ⟨_, p', hp, .ask t, he⟩

namespace Pool

variable [DecidableEq ι] {allow : ∀ q : S.Query, S.Answer q → Prop} {init : Pool ι M α → Prop}
variable {x y : Pool ι M α} {h : List (ι × Option (Event S))}

-- The calls of one thread.
def own (i : ι) (h : List (ι × Option (Event S))) : List (Event S) :=
  h.filterMap fun l => if l.1 = i then l.2 else none

@[simp]
theorem own_snoc (i : ι) (h : List (ι × Option (Event S))) (l : ι × Option (Event S)) :
    own i (h ++ [l]) = own i h ++ if l.1 = i then l.2.toList else [] := by
  by_cases hl : l.1 = i <;> cases he : l.2 <;> simp [own, hl, he]

-- What a thread has done in a run are the moves of its program.
theorem run_trace {p : ι → Prog S α} {env : ι → ∀ q, S.Answer q}
    (hx : ∀ i, x.threads i = (p i).given (env i)) (r : (machine allow init).Run x h y) (i : ι) :
    ∃ ms q, y.threads i = q.given (env i) ∧ Trace M (env i) (p i) ms q ∧
      ms.filterMap Move.event? = own i h := by
  induction r with
  | refl => exact ⟨[], p i, hx i, .refl, rfl⟩
  | step _ st ih =>
    obtain ⟨j, e, p', s', st⟩ := st
    obtain ⟨ms, q, hq, t, hms⟩ := ih
    by_cases hj : j = i
    · subst hj
      rw [hq] at st
      obtain ⟨ms', q', hq', t', hms'⟩ := st.given_inv
      refine ⟨ms ++ ms', q', ?_, t.trans t', ?_⟩
      · simp [hq']
      · simp [hms, hms']
    · refine ⟨ms, q, ?_, t, ?_⟩
      · simp [Function.update_of_ne (Ne.symm hj), hq]
      · simp [hms, hj]

-- What a thread has done so far begins what its program does to its end.
theorem run_own {p : ι → Prog S α} {env : ι → ∀ q, S.Answer q}
    (hx : ∀ i, x.threads i = (p i).given (env i)) (r : (machine allow init).Run x h y) (i : ι) :
    ∃ ms o, Trace M (env i) (p i) ms (ofExcept o) ∧ own i h <+: ms.filterMap Move.event? := by
  obtain ⟨ms, q, -, t, hms⟩ := run_trace hx r i
  refine ⟨_, _, t.trans <| .of_alone q y.store, ?_⟩
  rw [List.filterMap_append, hms]
  exact List.prefix_append _ _

end Pool

end Prog
