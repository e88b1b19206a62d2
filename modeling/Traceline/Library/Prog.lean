import Traceline.Library.Store

-- A program is a tree of calls and questions.
inductive Prog (S : Sig) (α : Type)
  | pure  (a : α)
  | throw (e : S.Error)
  | call  (c : S.Call) (k : Except S.Error (S.Reply c) → Prog S α)
  | ask   (q : S.Query) (k : S.Answer q → Prog S α)

namespace Prog

variable {S : Sig} {α β γ : Type}

def bind : Prog S α → (α → Prog S β) → Prog S β
  | .pure a,   g => g a
  | .throw e,  _ => .throw e
  | .call c k, g => .call c (fun r => (k r).bind g)
  | .ask q k,  g => .ask q (fun r => (k r).bind g)

def handle : Prog S α → (S.Error → Prog S α) → Prog S α
  | .pure a,   _ => .pure a
  | .throw e,  h => h e
  | .call c k, h => .call c (fun r => (k r).handle h)
  | .ask q k,  h => .ask q (fun r => (k r).handle h)

instance : Monad (Prog S) where
  pure := .pure
  bind := bind

instance : MonadExceptOf S.Error (Prog S) where
  throw    := .throw
  tryCatch := handle

def ofExcept : Except S.Error α → Prog S α
  | .ok a    => .pure a
  | .error e => .throw e

def perform (c : S.Call) : Prog S (S.Reply c) :=
  .call c ofExcept

def query (q : S.Query) : Prog S (S.Answer q) :=
  .ask q .pure

-- How a run of a program ends: it returns, it raises, or the process dies between calls.
inductive Outcome (ε α : Type)
  | ok (a : α)
  | error (e : ε)
  | crash
  deriving DecidableEq, Repr

def Outcome.ok? {ε α : Type} : Outcome ε α → Option α
  | .ok a    => some a
  | .error _ => none
  | .crash   => none

theorem Outcome.ok?_eq_some_iff {ε α : Type} {o : Outcome ε α} {a : α} :
    o.ok? = some a ↔ o = .ok a := by
  cases o <;> simp [ok?]

-- Runs of a program that has the store to itself. `allow` holds of the answers its environment
-- may give.
inductive Exec (M : Store S) (allow : ∀ q : S.Query, S.Answer q → Prop) :
    Prog S α → M.State → M.State → Outcome S.Error α → Prop
  | pure  : Exec M allow (.pure a) s s (.ok a)
  | throw : Exec M allow (.throw e) s s (.error e)
  | crash : Exec M allow p s s .crash
  | call {k : Except S.Error (S.Reply c) → Prog S α} :
    Exec M allow (k (M.perform c s).1) (M.perform c s).2 t o → Exec M allow (.call c k) s t o
  | ask {k : S.Answer q → Prog S α} :
    allow q r → Exec M allow (k r) s t o → Exec M allow (.ask q k) s t o

-- How far a run of a sequence got.
theorem Exec.bind_inv {M : Store S} {allow : ∀ q : S.Query, S.Answer q → Prop} {p : Prog S α}
    {g : α → Prog S β} {s t : M.State} {o : Outcome S.Error β} (e : Exec M allow (p >>= g) s t o) :
    (o = .crash ∧ Exec M allow p s t .crash) ∨
    (∃ err, o = .error err ∧ Exec M allow p s t (.error err)) ∨
    ∃ a u, Exec M allow p s u (.ok a) ∧ Exec M allow (g a) u t o := by
  induction p generalizing s with
  | pure a      => exact .inr <| .inr ⟨a, s, .pure, e⟩
  | throw err   =>
    cases e with
    | throw => exact .inr <| .inl ⟨err, rfl, .throw⟩
    | crash => exact .inl ⟨rfl, .crash⟩
  | call c k ih =>
    cases e with
    | crash  => exact .inl ⟨rfl, .crash⟩
    | call e =>
      rcases ih _ e with ⟨ho, e⟩ | ⟨err, ho, e⟩ | ⟨a, u, e, e'⟩
      · exact .inl ⟨ho, e.call⟩
      · exact .inr <| .inl ⟨err, ho, e.call⟩
      · exact .inr <| .inr ⟨a, u, e.call, e'⟩
  | ask q k ih  =>
    cases e with
    | crash    => exact .inl ⟨rfl, .crash⟩
    | ask ha e =>
      rcases ih _ e with ⟨ho, e⟩ | ⟨err, ho, e⟩ | ⟨a, u, e, e'⟩
      · exact .inl ⟨ho, .ask ha e⟩
      · exact .inr <| .inl ⟨err, ho, .ask ha e⟩
      · exact .inr <| .inr ⟨a, u, .ask ha e, e'⟩

-- The run of a program under fixed answers, cut after `n` calls.
def run (M : Store S) (env : ∀ q, S.Answer q) :
    Nat → Prog S α → M.State → M.State × Outcome S.Error α
  | _,     .pure a,   s => (s, .ok a)
  | _,     .throw e,  s => (s, .error e)
  | 0,     .call _ _, s => (s, .crash)
  | n + 1, .call c k, s => (k (M.perform c s).1).run M env n (M.perform c s).2
  | n,     .ask q k,  s => (k (env q)).run M env n s

theorem run_exec {M : Store S} {allow : ∀ q : S.Query, S.Answer q → Prop}
    {env : ∀ q, S.Answer q} (ha : ∀ q, allow q (env q)) (p : Prog S α) (n : Nat) (s : M.State) :
    Exec M allow p s (p.run M env n s).1 (p.run M env n s).2 := by
  induction p generalizing n s with
  | pure a      => simpa [run] using .pure
  | throw e     => simpa [run] using .throw
  | ask q k ih  => simpa [run] using .ask (ha q) (ih _ n s)
  | call c k ih =>
    cases n with
    | zero   => simpa [run] using .crash
    | succ n => simpa [run] using .call (ih _ n _)

-- The run of a program under answers that may change from question to question, cut after `n`
-- calls.
def play (M : Store S) (env : Nat → ∀ q, S.Answer q) :
    (n asked : Nat) → Prog S α → M.State → M.State × Outcome S.Error α
  | _,     _,     .pure a,   s => (s, .ok a)
  | _,     _,     .throw e,  s => (s, .error e)
  | 0,     _,     .call _ _, s => (s, .crash)
  | n + 1, asked, .call c k, s => (k (M.perform c s).1).play M env n asked (M.perform c s).2
  | n,     asked, .ask q k,  s => (k (env asked q)).play M env n (asked + 1) s

theorem play_exec {M : Store S} {allow : ∀ q : S.Query, S.Answer q → Prop}
    {env : Nat → ∀ q, S.Answer q} (ha : ∀ i q, allow q (env i q)) (p : Prog S α) (n asked : Nat)
    (s : M.State) :
    Exec M allow p s (p.play M env n asked s).1 (p.play M env n asked s).2 := by
  induction p generalizing n asked s with
  | pure a      => simpa [play] using .pure
  | throw e     => simpa [play] using .throw
  | ask q k ih  => simpa [play] using .ask (ha asked q) (ih _ n (asked + 1) s)
  | call c k ih =>
    cases n with
    | zero   => simpa [play] using .crash
    | succ n => simpa [play] using .call (ih _ n asked _)

-- Two continuations that are related wherever the program returns are related after it.
theorem play_bind_rel {M : Store S} {env : Nat → ∀ q, S.Answer q} {p : Prog S α} {f g : α → Prog S β}
    {R : M.State × Outcome S.Error β → M.State × Outcome S.Error β → Prop} {n asked : Nat} {s : M.State}
    (hr : ∀ x, R x x)
    (h : ∀ a t n asked, Exec M (fun _ _ => True) p s t (.ok a) →
      R ((f a).play M env n asked t) ((g a).play M env n asked t)) :
    R ((p >>= f).play M env n asked s) ((p >>= g).play M env n asked s) := by
  induction p generalizing n asked s with
  | pure a      => exact h a s n asked .pure
  | throw e     => exact hr _
  | ask q k ih  =>
    exact ih (env asked q) fun a t n asked e => h a t n asked <| .ask trivial e
  | call c k ih =>
    cases n with
    | zero   => exact hr _
    | succ n => exact ih _ fun a t n asked e => h a t n asked e.call

end Prog
