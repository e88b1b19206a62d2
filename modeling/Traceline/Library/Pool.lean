import Traceline.Library.Machine
import Traceline.Library.Prog

namespace Prog

variable {S : Sig} {M : Store S} {allow : ∀ q : S.Query, S.Answer q → Prop} {ι α β : Type}

-- One step of a program that shares the store with others.
inductive Step (M : Store S) (allow : ∀ q : S.Query, S.Answer q → Prop) :
    Prog S α → M.State → Option (Event S) → Prog S α → M.State → Prop
  | call {k : Except S.Error (S.Reply c) → Prog S α} :
    Step M allow (.call c k) s (some ⟨c, (M.perform c s).1⟩) (k (M.perform c s).1)
      (M.perform c s).2
  | ask {k : S.Answer q → Prog S α} :
    allow q r → Step M allow (.ask q k) s none (k r) s

-- Every call the program may still make satisfies `P`, whatever the store replied to the ones
-- before it.
def Calls (M : Store S) (allow : ∀ q : S.Query, S.Answer q → Prop) (P : S.Call → Prop) :
    Prog S α → Prop
  | .pure _   => True
  | .throw _  => True
  | .call c k => P c ∧ ∀ s, (k (M.perform c s).1).Calls M allow P
  | .ask q k  => ∀ r, allow q r → (k r).Calls M allow P

namespace Calls

variable {P : S.Call → Prop} {p : Prog S α}

@[simp]
theorem of_pure (a : α) : (Pure.pure a : Prog S α).Calls M allow P :=
  trivial

@[simp]
theorem of_throw (e : S.Error) : (MonadExcept.throw e : Prog S α).Calls M allow P :=
  trivial

@[simp]
theorem of_query (q : S.Query) : (query q).Calls M allow P :=
  fun _ _ => trivial

theorem of_ofExcept : (x : Except S.Error α) → (ofExcept x).Calls M allow P
  | .ok _ | .error _ => trivial

@[simp]
theorem of_perform {c : S.Call} : (perform c).Calls M allow P ↔ P c :=
  and_iff_left fun _ => of_ofExcept _

theorem bind {g : α → Prog S β} (h : p.Calls M allow P) (hg : ∀ a, (g a).Calls M allow P) :
    (p >>= g).Calls M allow P := by
  induction p with
  | pure a      => exact hg a
  | throw e     => trivial
  | call c k ih => exact ⟨h.left, fun s => ih _ <| h.right s⟩
  | ask q k ih  => exact fun r hr => ih r <| h r hr

-- What follows a call need only be considered for the replies the store gives to it.
theorem perform_bind {c : S.Call} {g : S.Reply c → Prog S β} (h : P c)
    (hg : ∀ s r, (M.perform c s).1 = .ok r → (g r).Calls M allow P) :
    (perform c >>= g).Calls M allow P := by
  refine ⟨h, fun s => ?_⟩
  match hr : (M.perform c s).1 with
  | .ok r    => exact hg s r hr
  | .error e => trivial

theorem tryCatch {g : S.Error → Prog S α} (h : p.Calls M allow P)
    (hg : ∀ e, (g e).Calls M allow P) : (tryCatch p g).Calls M allow P := by
  change (p.handle g).Calls M allow P
  induction p with
  | pure a      => trivial
  | throw e     => exact hg e
  | call c k ih => exact ⟨h.left, fun s => ih _ <| h.right s⟩
  | ask q k ih  => exact fun r hr => ih r <| h r hr

-- What every call of a program preserves holds wherever it gets.
theorem exec {I : M.State → Prop} {s t : M.State} {o : Outcome S.Error α}
    (hstep : ∀ c s, P c → I s → I (M.perform c s).2) (e : Exec M allow p s t o)
    (h : p.Calls M allow P) (hs : I s) : I t := by
  induction e with
  | pure | throw | crash => exact hs
  | call _ ih            => exact ih (h.right _) <| hstep _ _ h.left hs
  | ask ha _ ih          => exact ih (h _ ha) hs

end Calls

namespace Step

variable {P : S.Call → Prop} {p p' : Prog S α} {s s' : M.State} {e : Option (Event S)}

theorem calls (h : p.Calls M allow P) (st : Step M allow p s e p' s') : p'.Calls M allow P := by
  cases st with
  | call   => exact h.right _
  | ask hr => exact h _ hr

-- A step is an answer, or one call the store serves.
theorem serves (st : Step M allow p s e p' s') :
    match e with
    | some c => M.perform c.call s = (c.reply, s')
    | none   => s' = s := by
  cases st <;> rfl

theorem event (h : p.Calls M allow P) (st : Step M allow p s e p' s') : ∀ c ∈ e, P c.call := by
  cases st with
  | call  => simpa using h.left
  | ask _ => simp

end Step

-- Threads, each in the middle of its program, over one store.
structure Pool (ι : Type) (M : Store S) (α : Type) where
  threads : ι → Prog S α
  store   : M.State

namespace Pool

inductive Step [DecidableEq ι] (allow : ∀ q : S.Query, S.Answer q → Prop) :
    Pool ι M α → ι × Option (Event S) → Pool ι M α → Prop
  | intro (i : ι) (e : Option (Event S)) (p : Prog S α) (t : M.State) :
    Prog.Step M allow (x.threads i) x.store e p t →
    Step allow x (i, e) ⟨Function.update x.threads i p, t⟩

def machine [DecidableEq ι] (allow : ∀ q : S.Query, S.Answer q → Prop) (init : Pool ι M α → Prop) :
    Machine (Pool ι M α) (ι × Option (Event S)) where
  init := init
  step := Step allow

-- The run of a pool under a schedule and fixed answers.
def exec [DecidableEq ι] (env : ι → ∀ q, S.Answer q) :
    List ι → Pool ι M α → List (ι × Option (Event S)) × Pool ι M α
  | [],      x => ([], x)
  | i :: is, x =>
    match x.threads i with
    | .pure _ | .throw _ => exec env is x
    | .call c k =>
      let r := (M.perform c x.store).1
      let (h, y) := exec env is ⟨Function.update x.threads i (k r), (M.perform c x.store).2⟩
      ((i, some ⟨c, r⟩) :: h, y)
    | .ask q k =>
      let (h, y) := exec env is ⟨Function.update x.threads i (k (env i q)), x.store⟩
      ((i, none) :: h, y)

-- The calls of a history, in the order the store served them.
def events (h : List (ι × Option (Event S))) : List (Event S) :=
  h.filterMap Prod.snd

@[simp]
theorem events_snoc (h : List (ι × Option (Event S))) (i : ι) (e : Option (Event S)) :
    events (h ++ [(i, e)]) = events h ++ e.toList := by
  cases e <;> simp [events]

variable [DecidableEq ι] {x y : Pool ι M α} {init : Pool ι M α → Prop}
variable {h : List (ι × Option (Event S))}

theorem Step.of_call {i : ι} {k : Except S.Error (S.Reply c) → Prog S α}
    (hx : x.threads i = .call c k) :
    Step allow x (i, some ⟨c, (M.perform c x.store).1⟩)
      ⟨Function.update x.threads i (k (M.perform c x.store).1), (M.perform c x.store).2⟩ :=
  .intro _ _ _ _ <| by rw [hx]; exact .call

theorem Step.of_ask {i : ι} {k : S.Answer q → Prog S α} (hx : x.threads i = .ask q k)
    (hr : allow q r) :
    Step allow x (i, none) ⟨Function.update x.threads i (k r), x.store⟩ :=
  .intro _ _ _ _ <| by rw [hx]; exact .ask hr

theorem exec_run {env : ι → ∀ q, S.Answer q} (ha : ∀ i q, allow q (env i q)) (is : List ι)
    (x : Pool ι M α) : (machine allow init).Run x (exec env is x).1 (exec env is x).2 := by
  induction is generalizing x with
  | nil => exact .refl
  | cons i is ih =>
    simp only [exec]
    split
    case h_1 | h_2 => exact ih x
    case h_3 hx => exact Machine.Run.single (Step.of_call hx) |>.trans <| ih _
    case h_4 hx => exact Machine.Run.single (Step.of_ask hx <| ha _ _) |>.trans <| ih _

-- The store at the end of a run is what its calls made of it, and it answered each of them.
theorem run_served (r : (machine allow init).Run x h y) :
    M.Served x.store (events h) y.store := by
  induction r with
  | refl => exact .nil
  | step _ st ih =>
    obtain ⟨i, e, p, t, st⟩ := st
    cases e with
    | none   => simpa [st.serves] using ih
    | some e =>
      have hs := st.serves
      simpa using ih.snoc hs

theorem run_calls {P : S.Call → Prop} (hx : ∀ i, (x.threads i).Calls M allow P)
    (r : (machine allow init).Run x h y) :
    (∀ i, (y.threads i).Calls M allow P) ∧ ∀ e ∈ events h, P e.call := by
  induction r with
  | refl => exact ⟨hx, by simp [events]⟩
  | step _ st ih =>
    obtain ⟨i, e, p, t, st⟩ := st
    have ⟨ht, he⟩ := ih
    refine ⟨fun j => ?_, ?_⟩
    · by_cases hj : j = i
      · subst hj
        simpa using st.calls (ht j)
      · simpa [hj] using ht j
    · intro c hc
      rw [events_snoc, List.mem_append] at hc
      exact hc.elim (he c) (st.event (ht i) c <| by simpa using ·)

end Pool

end Prog
