import Mathlib.Logic.Relation
import Traceline.TraceRules.Evaluate

namespace TraceRules

open Events

-- A node that is evaluated, with its anchor and with what is left of the depth.
structure Visit where
  left   : ℕ
  anchor : Option TraceEvent
  node   : Json

namespace Context

variable (x : Context)

def eval (v : Visit) : Except Error Evaluators.RuleResult :=
  x.eval_node v.left v.anchor v.node

-- The nodes whose evaluation one evaluation needs. A node under `for_all` is needed once for each
-- event that is matched.
inductive Calls : Visit → Visit → Prop
  | child {left anchor node op rules rule} :
    op? node = some op → op = .and ∨ op = .or → children? node = some rules → rule ∈ rules →
    Calls ⟨left + 1, anchor, .obj node⟩ ⟨left, anchor, rule⟩
  | negated {left anchor node rule} :
    op? node = some .not → object? node "rule" = some rule →
    Calls ⟨left + 1, anchor, .obj node⟩ ⟨left, anchor, .obj rule⟩
  | antecedent {left anchor node rule consequent} :
    op? node = some .implies → object? node "rule" = some rule →
    get node "rules" = .arr [consequent] →
    Calls ⟨left + 1, anchor, .obj node⟩ ⟨left, anchor, .obj rule⟩
  | consequent {left anchor node rule consequent} :
    op? node = some .implies → object? node "rule" = some rule →
    get node "rules" = .arr [consequent] →
    Calls ⟨left + 1, anchor, .obj node⟩ ⟨left, anchor, consequent⟩
  | asserted {left anchor node pattern rule window candidates event} :
    op? node = some .for_all → object? node "match" = some pattern →
    object? node "assert" = some rule → window? (get node "within_ms") = some window →
    x.matching pattern anchor window = .ok candidates → event ∈ candidates →
    Calls ⟨left + 1, anchor, .obj node⟩ ⟨left, some event, .obj rule⟩

def Visits : Visit → Visit → Prop :=
  Relation.ReflTransGen x.Calls

variable {x : Context} {v v' : Visit} {r : Evaluators.RuleResult}

theorem Calls.eval_ok (h : x.Calls v v') (hr : x.eval v = .ok r) : ∃ r', x.eval v' = .ok r' := by
  cases h with
  | child hop hc hrs hm              =>
    rw [eval, eval_node, hop] at hr
    rcases hc with rfl | rfl <;>
    · dsimp only at hr
      rw [eval_and_or, hrs] at hr
      obtain ⟨rs, hrs, -⟩ := Except.bind_eq_ok_iff.mp hr
      have ⟨r', _, hr'⟩ := (Except.mapM_eq_ok_iff.mp hrs).exists_of_mem_left hm
      exact ⟨r', hr'⟩
  | negated hop ho                   =>
    rw [eval, eval_node, hop] at hr
    dsimp only at hr
    rw [eval_not, ho] at hr
    obtain ⟨r', hr', -⟩ := Except.bind_eq_ok_iff.mp hr
    exact ⟨r', hr'⟩
  | antecedent hop ho hc             =>
    rw [eval, eval_node, hop] at hr
    dsimp only at hr
    rw [eval_implies, ho, hc] at hr
    obtain ⟨r', hr', -⟩ := Except.bind_eq_ok_iff.mp hr
    exact ⟨r', hr'⟩
  | consequent hop ho hc             =>
    rw [eval, eval_node, hop] at hr
    dsimp only at hr
    rw [eval_implies, ho, hc] at hr
    obtain ⟨_, -, hr⟩ := Except.bind_eq_ok_iff.mp hr
    obtain ⟨r', hr', -⟩ := Except.bind_eq_ok_iff.mp hr
    exact ⟨r', hr'⟩
  | asserted hop hp ha hw hm hevent =>
    rw [eval, eval_node, hop] at hr
    dsimp only at hr
    rw [eval_for_all, hp, ha] at hr
    dsimp only at hr
    rw [hw] at hr
    obtain ⟨candidates, hc, hr⟩ := Except.bind_eq_ok_iff.mp hr
    obtain rfl := Except.ok.inj (hc.symm.trans hm)
    obtain ⟨rs, hrs, -⟩ := Except.bind_eq_ok_iff.mp hr
    have ⟨r', _, hr'⟩ := (Except.mapM_eq_ok_iff.mp hrs).exists_of_mem_left hevent
    exact ⟨r', hr'⟩

-- A rule has a verdict only where every node that is visited has one.
theorem Visits.eval_ok (h : x.Visits v v') (hr : x.eval v = .ok r) :
    ∃ r', x.eval v' = .ok r' := by
  induction h with
  | refl          => exact ⟨r, hr⟩
  | tail _ hc ih =>
    have ⟨r', hr'⟩ := ih
    exact hc.eval_ok hr'

end Context

end TraceRules
