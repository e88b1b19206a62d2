import Mathlib.Data.List.Induction

-- A transition system: where it may start and what a labelled step can do.
structure Machine (σ α : Type*) where
  init : σ → Prop
  step : σ → α → σ → Prop

namespace Machine

variable {σ α τ : Type*} {m : Machine σ α}

inductive Run (m : Machine σ α) : σ → List α → σ → Prop
  | refl : Run m s [] s
  | step : Run m s h t → m.step t a u → Run m s (h ++ [a]) u

inductive Reachable (m : Machine σ α) : σ → Prop
  | init : m.init s → Reachable m s
  | step : Reachable m s → m.step s a t → Reachable m t

namespace Run

variable {s t u : σ} {a : α} {h h' : List α}

theorem single (e : m.step s a t) : m.Run s [a] t :=
  .step (h := []) .refl e

theorem trans (r : m.Run s h t) (r' : m.Run t h' u) : m.Run s (h ++ h') u := by
  induction r' with
  | refl        => simpa using r
  | step _ e ih => simpa using ih.step e

-- What every step preserves holds at the end of a run.
theorem preserves {P : σ → Prop} (hstep : ∀ s a t, P s → m.step s a t → P t) (r : m.Run s h t)
    (hs : P s) : P t := by
  induction r with
  | refl        => exact hs
  | step _ e ih => exact hstep _ _ _ ih e

-- The run of a step function.
theorem of_foldlM {f : σ → α → Option σ} (h : l.foldlM f s = some t)
    (hf : ∀ a ∈ l, ∀ s t, f s a = some t → m.step s a t) : m.Run s l t := by
  induction l generalizing s with
  | nil         =>
    obtain rfl := Option.some_inj.mp h
    exact .refl
  | cons a l ih =>
    rw [List.foldlM_cons, Option.bind_eq_bind, Option.bind_eq_some_iff] at h
    obtain ⟨u, hu, h⟩ := h
    have r := ih h fun b hb => hf b <| .tail _ hb
    exact (single <| hf a (.head _) s u hu).trans r

-- The last step of a run whose history ends in `a`.
theorem snoc_inv (r : m.Run s (h ++ [a]) u) : ∃ t, m.Run s h t ∧ m.step t a u := by
  generalize heq : h ++ [a] = h₁ at r
  cases r with
  | refl => simp at heq
  | step r e =>
    obtain ⟨rfl, rfl⟩ := List.append_inj' heq rfl |>.imp_right List.singleton_inj.mp
    exact ⟨_, r, e⟩

end Run

namespace Reachable

theorem preserves {P : σ → Prop} (hinit : ∀ s, m.init s → P s)
    (hstep : ∀ s a t, P s → m.step s a t → P t) {s : σ} (r : m.Reachable s) : P s := by
  induction r with
  | init hi     => exact hinit _ hi
  | step _ e ih => exact hstep _ _ _ ih e

theorem run {s : σ} (r : m.Reachable s) : ∃ s₀ h, m.init s₀ ∧ m.Run s₀ h s := by
  induction r with
  | init hi => exact ⟨_, _, hi, .refl⟩
  | step _ e ih =>
    have ⟨s₀, h, hi, r⟩ := ih
    exact ⟨s₀, _, hi, r.step e⟩

end Reachable

end Machine

namespace List

variable {α β : Type*} {P Q : List α → α → Prop} {l past : List α} {a : α}

-- Every entry of a history, judged with the entries before it.
def AtEach (P : List α → α → Prop) (l : List α) : Prop :=
  ∀ past a future, l = past ++ a :: future → P past a

namespace AtEach

@[simp]
theorem nil : AtEach P [] := by
  simp [AtEach]

@[simp]
theorem snoc_iff : AtEach P (l ++ [a]) ↔ AtEach P l ∧ P l a where
  mp h := ⟨fun past b future hl => h past b (future ++ [a]) (by simp [hl]), h l a [] rfl⟩
  mpr := by
    intro ⟨h, ha⟩ past b future hl
    cases future using List.reverseRecOn with
    | nil =>
      obtain ⟨rfl, hb⟩ := List.append_inj' hl rfl
      exact List.singleton_inj.mp hb ▸ ha
    | append_singleton future c =>
      rw [← List.cons_append, ← List.append_assoc] at hl
      exact h past b future <| List.append_inj' hl rfl |>.left

@[simp]
theorem cons_iff : AtEach P (a :: l) ↔ P [] a ∧ AtEach (fun past => P (a :: past)) l where
  mp h := ⟨h [] a l rfl, fun past b future hl => h (a :: past) b future (by simp [hl])⟩
  mpr := by
    intro ⟨ha, h⟩ past b future hl
    cases past with
    | nil =>
      obtain ⟨rfl, -⟩ := List.cons.inj hl
      exact ha
    | cons c past =>
      obtain ⟨rfl, hl'⟩ := List.cons.inj hl
      exact h past b future hl'

theorem of_initial {l' : List α} (h : AtEach P l) (hl : l' <+: l) : AtEach P l' := by
  obtain ⟨rest, rfl⟩ := hl
  intro past a future hl
  exact h past a (future ++ rest) <| by simp [hl]

end AtEach

end List
