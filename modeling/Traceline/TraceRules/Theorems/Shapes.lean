import Traceline.TraceRules.Theorems.Visits

-- What the evaluation of a rule relies on that the check of its shape has established.
namespace TraceRules

open Events Except

def Malformed (e : Error) : Prop :=
  ∃ message, e = .malformed message

-- The shape of a node that matches events.
structure Bearing (py : Python) (left : ℕ) (op : Op) (node : Node) : Prop where
  pattern  : ∃ pattern, object? node "match" = some pattern ∧
    (get pattern "source" = .null ∨ get pattern "source" ∈ sources)
  window   : ∃ window, window? (get node "within_ms") = some window
  ms       : op = .within_ms → ∃ ms, int? (get node "ms") = some ms
  asserted : op = .for_all → ∃ rule, object? node "assert" = some rule ∧
    validate_trace_rule_body py left false (.obj rule) = .ok ()

section Validator

variable {py : Python} {left : ℕ} {root : Bool} {op : Op} {node pattern : Node}

theorem require_eq_ok {holds : Bool} {message : String} (h : require holds message = .ok ()) :
    holds = true := by
  by_contra hn
  rw [require, if_neg hn] at h
  cases h

theorem source_of_validate_match (h : validate_match py pattern = .ok ()) :
    get pattern "source" = .null ∨ get pattern "source" ∈ sources := by
  obtain ⟨_, -, h⟩ := bind_eq_ok_iff.mp h
  obtain ⟨_, -, h⟩ := bind_eq_ok_iff.mp h
  obtain ⟨_, -, h⟩ := bind_eq_ok_iff.mp h
  simpa using require_eq_ok h

theorem children_of_validate (hop : op? node = some op) (hc : op = .and ∨ op = .or)
    (h : validate_trace_rule_body py (left + 1) root (.obj node) = .ok ()) :
    ∃ rules, children? node = some rules ∧
      ∀ rule ∈ rules, validate_trace_rule_body py left false rule = .ok () := by
  rw [validate_trace_rule_body, hop] at h
  rcases hc with rfl | rfl <;>
  · dsimp only at h
    split at h
    case h_1     => cases h
    case h_2 _ hr => exact ⟨_, hr, forM_eq_ok_iff.mp h⟩

theorem rule_of_validate (hop : op? node = some op) (hc : op = .not ∨ op = .implies)
    (h : validate_trace_rule_body py (left + 1) root (.obj node) = .ok ()) :
    ∃ rule, object? node "rule" = some rule ∧
      validate_trace_rule_body py left false (.obj rule) = .ok () := by
  rw [validate_trace_rule_body, hop] at h
  rcases hc with rfl | rfl <;>
  · dsimp only at h
    split at h
    case h_1     => cases h
    case h_2 _ hr => exact ⟨_, hr, h⟩

theorem bearing_of_validate (hop : op? node = some op)
    (hb : op ∉ [Op.and, .or, .not, .implies])
    (h : validate_trace_rule_body py (left + 1) root (.obj node) = .ok ()) :
    Bearing py left op node := by
  simp only [List.mem_cons, List.not_mem_nil, or_false, not_or] at hb
  have ⟨hand, hor, hnot, himplies⟩ := hb
  rw [validate_trace_rule_body, hop] at h
  split at h
  case h_1 he             => cases he
  case h_2 he             => exact absurd (Option.some.inj he) hand
  case h_3 he             => exact absurd (Option.some.inj he) hor
  case h_4 he             => exact absurd (Option.some.inj he) hnot
  case h_5 he             => exact absurd (Option.some.inj he) himplies
  case h_6 op' _ _ _ _ he =>
    obtain rfl := Option.some.inj he
    obtain ⟨_, -, h⟩ := bind_eq_ok_iff.mp h
    obtain ⟨_, hms, h⟩ := bind_eq_ok_iff.mp h
    have hms := require_eq_ok hms
    split at h
    case h_1              => cases h
    case h_2 pattern hpat =>
      obtain ⟨_, hmatch, h⟩ := bind_eq_ok_iff.mp h
      obtain ⟨_, hwindow, h⟩ := bind_eq_ok_iff.mp h
      refine ⟨⟨pattern, hpat, source_of_validate_match hmatch⟩,
        Option.isSome_iff_exists.mp <| require_eq_ok hwindow, fun hop => ?_, fun hop => ?_⟩
      · subst hop
        exact Option.isSome_iff_exists.mp <| by simpa using hms
      · rw [if_neg (not_not.mpr hop)] at h
        split at h
        case h_1        => cases h
        case h_2 _ hrule => exact ⟨_, hrule, h⟩

end Validator

namespace Context

variable {x : Context} {left : ℕ} {root : Bool} {op : Op} {node pattern : Node}
variable {anchor : Option TraceEvent} {window : Option Int} {rule : Json}

theorem other_not_malformed (message : String) : ¬ Malformed (.other message) :=
  fun ⟨_, h⟩ => by cases h

theorem anchorless_not_malformed (message : String) : ¬ Malformed (.anchorless message) :=
  fun ⟨_, h⟩ => by cases h

theorem where_clause_not_malformed (message : String) : ¬ Malformed (.where_clause message) :=
  fun ⟨_, h⟩ => by cases h

theorem key_lt_avoids {a b : TraceEvent} : Avoids Malformed (key_lt a b) := by
  unfold key_lt
  split
  · exact .ok
  · exact .error (other_not_malformed _)

theorem within_window_avoids {a b : Timestamp} {ms : Int} :
    Avoids Malformed (within_window a b ms) := by
  unfold within_window
  dsimp only
  split
  · exact .ok
  · exact .ok
  · exact .error (other_not_malformed _)

theorem attempt_start_avoids {events : List TraceEvent} :
    Avoids Malformed (attempt_start events) := by
  cases events with
  | nil               => exact .ok
  | cons event events =>
    exact .bind (.foldlM (fun _ _ _ => .bind (.mapError other_not_malformed) fun _ _ => .ok) _)
      fun _ _ => .ok

theorem selects_avoids {event : TraceEvent} : Avoids Malformed (x.selects pattern event) := by
  unfold selects
  dsimp only
  repeat' split
  all_goals try exact .ok
  refine .bind ?_ fun _ _ => .mapError other_not_malformed
  unfold compile_where
  repeat' split
  all_goals first
    | exact .ok
    | exact .error (other_not_malformed _)
    | exact .error (where_clause_not_malformed _)

theorem in_window_avoids {events : List TraceEvent} :
    Avoids Malformed (x.in_window anchor window events) := by
  cases window with
  | none   => exact .ok
  | some _ =>
    refine .bind ?_ fun start _ => .filter fun event _ => ?_
    · cases anchor with
      | none   => exact attempt_start_avoids
      | some _ => exact .ok
    · cases start with
      | none   => exact .ok
      | some _ => exact within_window_avoids

theorem precedes_avoids {a b : TraceEvent} : Avoids Malformed (x.precedes a b) := by
  unfold precedes
  repeat' split
  · exact .ok
  · exact .ok
  · exact key_lt_avoids

theorem follows_avoids {a b : TraceEvent} : Avoids Malformed (x.follows a b) := by
  unfold follows
  repeat' split
  · exact .ok
  · exact .ok
  · exact key_lt_avoids

theorem keep_later_avoids {anchor event : TraceEvent} {best : Option TraceEvent} :
    Avoids Malformed (keep_later anchor best event) := by
  refine .bind key_lt_avoids fun earlier _ => ?_
  split
  · exact .ok
  · exact .ok
  · exact .bind key_lt_avoids fun _ _ => .ok

theorem later_avoids {anchor event : TraceEvent} {best : Option TraceEvent} :
    Avoids Malformed (x.later anchor best event) := by
  unfold later
  repeat' split
  · exact .ok
  · exact .ok
  · exact keep_later_avoids

theorem immediate_predecessors_avoids {candidates : List TraceEvent} {anchor : TraceEvent} :
    Avoids Malformed (x.immediate_predecessors candidates anchor) := by
  unfold immediate_predecessors
  split
  · exact .ok
  · refine .bind (.foldlM (fun _ _ _ => later_avoids) _) fun best _ => ?_
    cases best <;> exact .ok

theorem matching_avoids (h : get pattern "source" = .null ∨ get pattern "source" ∈ sources) :
    Avoids Malformed (x.matching pattern anchor window) := by
  have hs : ¬ (get pattern "source" ≠ .null ∧ get pattern "source" ∉ sources) :=
    fun ⟨hn, hs⟩ => h.elim hn hs
  unfold matching
  dsimp only
  rw [if_neg hs]
  exact .bind (.filter fun _ _ => selects_avoids) fun _ _ => .bind in_window_avoids fun _ _ =>
    .mapError fun _ => other_not_malformed _

theorem satisfying_avoids {candidates : List TraceEvent} {event : TraceEvent} :
    Avoids Malformed (x.satisfying op candidates event) := by
  unfold satisfying
  split
  · exact .filter fun _ _ => precedes_avoids
  · exact .filter fun _ _ => follows_avoids
  · exact immediate_predecessors_avoids

theorem candidates_avoids {py : Python} (h : Bearing py left op node) :
    Avoids Malformed (x.candidates anchor node) := by
  have ⟨pattern, hp, hs⟩ := h.pattern
  have ⟨window, hw⟩ := h.window
  unfold candidates
  rw [hp]
  dsimp only
  rw [hw]
  exact matching_avoids hs

-- The places of a rule that the check of its shape leaves open: how many consequents an implication
-- has, and whether the one it should have is a rule.
def Completed (x : Context) (v : Visit) : Prop :=
  ∀ left anchor node, x.Visits v ⟨left + 1, anchor, .obj node⟩ → op? node = some .implies →
    ∃ consequent, get node "rules" = .arr [consequent] ∧
      validate_trace_rule_body x.lang.py left false consequent = .ok ()

theorem Completed.of_calls {v v' : Visit} (h : x.Completed v) (hc : x.Calls v v') :
    x.Completed v' :=
  fun left anchor node hv => h left anchor node (.head hc hv)

-- An implication with a verdict has one consequent, which has a verdict too.
theorem consequent_of_eval {r : Evaluators.RuleResult} (hop : op? node = some .implies)
    (hr : x.eval ⟨left + 1, anchor, .obj node⟩ = .ok r) :
    ∃ consequent r', get node "rules" = .arr [consequent] ∧
      x.eval_node left anchor consequent = .ok r' := by
  rw [eval, eval_node, hop] at hr
  dsimp only at hr
  unfold eval_implies at hr
  split at hr
  case h_1 => cases hr
  case h_2 =>
    split at hr
    case h_1 consequent hrs =>
      obtain ⟨_, -, hr⟩ := bind_eq_ok_iff.mp hr
      obtain ⟨r', hr', -⟩ := bind_eq_ok_iff.mp hr
      exact ⟨consequent, r', hrs, hr'⟩
    case h_2                => cases hr

theorem eval_avoids (hv : validate_trace_rule_body x.lang.py left root rule = .ok ())
    (hc : x.Completed ⟨left, anchor, rule⟩) :
    Avoids Malformed (x.eval_node left anchor rule) := by
  induction left generalizing root anchor rule with
  | zero         =>
    rw [validate_trace_rule_body] at hv
    cases hv
  | succ left ih =>
    cases rule with
    | null | bool _ | int _ | float _ | str _ | arr _ => cases hv
    | obj node                                        =>
      cases hop : op? node with
      | none    =>
        rw [validate_trace_rule_body, hop] at hv
        cases hv
      | some op =>
        rw [eval_node, hop]
        cases op with
        | and | or =>
          obtain ⟨rules, hr, hall⟩ := children_of_validate hop (by simp) hv
          dsimp only
          rw [eval_and_or, hr]
          exact .bind (.mapM fun rule hm => ih (hall rule hm) <| hc.of_calls <|
            .child hop (by simp) hr hm) fun _ _ => .ok
        | not =>
          obtain ⟨rule, hr, hrule⟩ := rule_of_validate hop (by simp) hv
          dsimp only
          rw [eval_not, hr]
          exact .bind (ih hrule <| hc.of_calls <| .negated hop hr) fun _ _ => .ok
        | implies =>
          obtain ⟨rule, hr, hrule⟩ := rule_of_validate hop (by simp) hv
          obtain ⟨consequent, hrs, hconsequent⟩ := hc left anchor node .refl hop
          dsimp only
          rw [eval_implies, hr, hrs]
          exact .bind (ih hrule <| hc.of_calls <| .antecedent hop hr hrs) fun _ _ =>
            .bind (ih hconsequent <| hc.of_calls <| .consequent hop hr hrs) fun _ _ => .ok
        | for_all =>
          have hb := bearing_of_validate hop (by simp) hv
          obtain ⟨pattern, hp, hs⟩ := hb.pattern
          obtain ⟨window, hw⟩ := hb.window
          obtain ⟨rule, hr, hrule⟩ := hb.asserted rfl
          dsimp only
          rw [eval_for_all, hp, hr]
          dsimp only
          rw [hw]
          exact .bind (matching_avoids hs) fun candidates hm => .bind
            (.mapM fun event he => ih hrule <| hc.of_calls <| .asserted hop hp hr hw hm he)
            fun _ _ => .ok
        | within_ms =>
          have hb := bearing_of_validate hop (by simp) hv
          obtain ⟨pattern, hp, hs⟩ := hb.pattern
          obtain ⟨ms, hms⟩ := hb.ms rfl
          dsimp only
          rw [eval_within_ms, hms, hp]
          exact .bind (matching_avoids hs) fun _ _ => .ok
        | exists_before | exists_after | immediately_precedes =>
          have hb := bearing_of_validate hop (by simp) hv
          dsimp only
          cases anchor with
          | none   => exact .error (anchorless_not_malformed _)
          | some _ =>
            exact .bind (candidates_avoids hb) fun _ _ => .bind satisfying_avoids fun _ _ => .ok
        | «exists» | never | count =>
          have hb := bearing_of_validate hop (by simp) hv
          exact .bind (candidates_avoids hb) fun _ _ => .ok

end Context

namespace Given

def lang : Predicates.Language where
  py              := .ascii
  fromisoformat _ := none
  cel _           := .error (.semantic "no CEL")

-- A call of a model implies its answer, with the given consequents.
def answered (consequents : List (String × Json)) : Node :=
  [("op", .str "implies"),
    ("rule", .obj [("op", .str "exists"), ("match", .obj [("event", .str "llm_call")])])] ++
  consequents

def answer : Json :=
  .obj [("op", .str "exists"), ("match", .obj [("event", .str "llm_response")])]

theorem answered_accepted (consequents : List (String × Json)) :
    validate_trace_rule_body .ascii MAX_DEPTH true (.obj (answered consequents)) = .ok () := by
  rfl

end Given

end TraceRules
