import Mathlib.Data.List.Induction

-- The interface of a program: the calls it makes on a store, the questions it puts to the code
-- around it, and the exceptions it raises.
structure Sig where
  Call   : Type
  Reply  : Call → Type
  Query  : Type
  Answer : Query → Type
  Error  : Type

-- What others can see of a call: which one it was and how the store answered.
structure Event (S : Sig) where
  call  : S.Call
  reply : Except S.Error (S.Reply call)

-- An implementation of the calls. A call is atomic: it takes the store to a new state and either
-- replies or raises.
structure Store (S : Sig) where
  State   : Type
  perform : (c : S.Call) → State → Except S.Error (S.Reply c) × State

namespace Store

-- Calls the store served one after the other, each with the reply it gave.
inductive Served {S : Sig} (M : Store S) : M.State → List (Event S) → M.State → Prop
  | nil : Served M s [] s
  | snoc {e : Event S} : Served M s es t → M.perform e.call t = (e.reply, u) →
    Served M s (es ++ [e]) u

-- The history of a list of calls.
def serve {S : Sig} (M : Store S) : List S.Call → M.State → List (Event S) × M.State
  | [],      s => ([], s)
  | c :: cs, s =>
    let (es, t) := M.serve cs (M.perform c s).2
    (⟨c, (M.perform c s).1⟩ :: es, t)

namespace Served

variable {S : Sig} {M : Store S} {s t u : M.State} {es es' : List (Event S)} {e : Event S}

theorem single (h : M.perform e.call s = (e.reply, t)) : Served M s [e] t := by
  simpa using Served.nil.snoc h

theorem trans (h : Served M s es t) (h' : Served M t es' u) : Served M s (es ++ es') u := by
  induction h' with
  | nil          => simpa using h
  | snoc _ he ih => simpa using ih.snoc he

theorem of_serve (cs : List S.Call) (s : M.State) : Served M s (M.serve cs s).1 (M.serve cs s).2 := by
  induction cs generalizing s with
  | nil          => exact .nil
  | cons c cs ih => exact single rfl |>.trans <| ih _

theorem snoc_inv (h : Served M s (es ++ [e]) u) :
    ∃ t, Served M s es t ∧ M.perform e.call t = (e.reply, u) := by
  generalize heq : es ++ [e] = es₁ at h
  cases h with
  | nil => simp at heq
  | snoc h he =>
    obtain ⟨rfl, rfl⟩ := List.append_inj' heq rfl |>.imp_right List.singleton_inj.mp
    exact ⟨_, h, he⟩

theorem append_inv (h : Served M s (es ++ es') u) : ∃ t, Served M s es t ∧ Served M t es' u := by
  induction es' using List.reverseRecOn generalizing u with
  | nil => exact ⟨u, by simpa using h, .nil⟩
  | append_singleton es' e ih =>
    have ⟨v, h', he⟩ := snoc_inv (List.append_assoc .. ▸ h)
    have ⟨t, h₁, h₂⟩ := ih h'
    exact ⟨t, h₁, h₂.snoc he⟩

theorem nil_inv (h : Served M s [] t) : t = s := by
  generalize hnil : ([] : List (Event S)) = l at h
  cases h with
  | nil      => rfl
  | snoc _ _ => simp at hnil

theorem cons_inv (h : Served M s (e :: es) u) :
    ∃ t, M.perform e.call s = (e.reply, t) ∧ Served M t es u := by
  have ⟨t, h₁, h₂⟩ := append_inv (show Served M s ([e] ++ es) u from h)
  have ⟨v, h₀, he⟩ := snoc_inv (show Served M s ([] ++ [e]) t from h₁)
  exact ⟨t, nil_inv h₀ ▸ he, h₂⟩

theorem deterministic {t' : M.State} (h : Served M s es t) (h' : Served M s es t') : t = t' := by
  induction es using List.reverseRecOn generalizing t t' with
  | nil => exact h.nil_inv.trans h'.nil_inv.symm
  | append_singleton es e ih =>
    have ⟨u, h, he⟩ := snoc_inv h
    have ⟨u', h', he'⟩ := snoc_inv h'
    obtain rfl := ih h h'
    exact Prod.mk.inj (he.symm.trans he') |>.right

end Served

end Store
